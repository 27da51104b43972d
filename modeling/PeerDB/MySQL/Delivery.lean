/-
Every mirrored row of the binlog is delivered once.

The invariant of a run (`Inv`) is about what a restart would read: from the
offset text the pull has recorded, the server would serve the rows that the
pull has not read yet, and before them only rows of the transaction it is in.
So a run that returns outside a transaction has recorded an offset from which
exactly the remaining rows are served.

`ROLLBACK TO SAVEPOINT` parses as a rollback statement, and the puller takes
any rollback statement for the end of a group.  A group that contains one loses
its remaining rows (`savepointRollback_loses_row`).
-/
import PeerDB.MySQL.Session

open Loop

namespace MySQL

open List

/-! ### What the puller does with one entry -/

section Effect

variable {U D V : Type} {cfg : Config U D V}

/-- The entry is not the end of a group. -/
def Entry.NotLast (e : Entry U D) : Prop := ∀ u, e.role ≠ .last u

/-- What reading an entry of the binlog does. -/
inductive Effect (cfg : Config U D V) (startSet : List U) (s : PullState U V) (e : Entry U D) :
    PullState U V → Prop
  | still {s' : PullState U V} : Still s s' → e.changes cfg = [] → e.NotLast →
      (s.gset = none → ∀ next q, e.ev.event ≠ .rotate next q) → Effect cfg startSet s e s'
  | moved {s' : PullState U V} : s.gset = none → Still (s.moveTo (e.endPos s.pos.name)) s' →
      e.changes cfg = [] → e.NotLast → Effect cfg startSet s e s'
  | ended (u : U) : e.role = .last u → e.changes cfg = [] →
      (∀ next q, e.ev.event ≠ .rotate next q) → Effect cfg startSet s e
        { advanceCheckpoint cfg s (startSet ++ e.executed) e.ev.logPos with inTx := false }
  | rows (u : U) {s₁ s' : PullState U V} : e.role = .inside u →
      (∀ next q, e.ev.event ≠ .rotate next q) → s₁.inTx = true → SameOffset s s₁ →
      SameRows s s₁ → AddsRows (RecordIn cfg s) (e.changes cfg) s₁ s' →
      Effect cfg startSet s e s'

variable {e : Entry U D}

theorem notLast_of_fits (hfits : e.Fits) (h : e.ev.event.endsGroup = false) :
    e.NotLast := by
  intro u hrole
  unfold Entry.Fits at hfits
  rw [hrole] at hfits
  rw [h] at hfits
  cases hfits

/-- Only a group holds events that neither stand between groups, nor end one, nor
are queries. -/
theorem inside_of_fits (hreal : e.isReal = true) (hfits : e.Fits)
    (hbetween : e.ev.event.isBetween = false) (hends : e.ev.event.endsGroup = false)
    (hquery : e.ev.event.isQuery = false) : ∃ u, e.role = .inside u := by
  unfold Entry.Fits at hfits
  cases hrole : e.role with
  | artificial => simp [Entry.isReal, hrole] at hreal
  | between => simp [hrole, hbetween] at hfits
  | last u => simp [hrole, hends] at hfits
  | alone u => simp [hrole, hquery] at hfits
  | inside u => exact ⟨u, rfl⟩

/-- A query event that commits moves the checkpoint once. -/
theorem advanceCheckpoint_queryOffset (s : PullState U V) (gset : List U) (logPos : ℕ) :
    advanceCheckpoint cfg (queryOffset s logPos) gset logPos =
      advanceCheckpoint cfg s gset logPos := by
  unfold queryOffset
  split
  case isFalse => rfl
  case isTrue hmoves =>
    simp only [Bool.and_eq_true, Option.isNone_iff_eq_none, decide_eq_true_eq] at hmoves
    obtain ⟨⟨-, hgset⟩, hpos⟩ := hmoves
    have hgset' : (s.moveTo { s.pos with pos := logPos }).gset = none := hgset
    unfold advanceCheckpoint
    simp only [hgset, hgset', if_pos hpos]
    exact if_neg (Nat.lt_irrefl logPos)

variable {startSet : List U} {s s' : PullState U V}

theorem queryOffset_effect (hquery : e.ev.event.isQuery = true) (hlast : e.NotLast)
    (h : Still (queryOffset s e.ev.logPos) s') : Effect cfg startSet s e s' := by
  have hplain : ∀ next q, e.ev.event ≠ .rotate next q := by
    intro next q hev
    rw [hev] at hquery
    cases hquery
  have hchanges : e.changes cfg = [] := by
    unfold Entry.changes
    split
    case h_1 hev =>
      rw [hev] at hquery
      cases hquery
    case h_2 => rfl
  unfold queryOffset at h
  split at h
  case isFalse => exact .still h hchanges hlast fun _ => hplain
  case isTrue hmoves =>
    simp only [Bool.and_eq_true, Option.isNone_iff_eq_none, decide_eq_true_eq] at hmoves
    refine .moved hmoves.1.2 ?_ hchanges hlast
    rw [endPos_plain hplain]
    exact h

/-- A query event inside a group or alone, none of whose statements is taken for
a commit or a rollback. -/
theorem processQuery_quiet {gset g : List U} {schema : String} {stmts : Option (List Stmt)}
    (hev : e.ev.event = .query g schema stmts) (hquiet : e.ev.event.quiet = true)
    (hlast : e.NotLast) (h : processQuery cfg s e.ev.logPos gset schema stmts = .ok s') :
    Effect cfg startSet s e s' := by
  have hquery : e.ev.event.isQuery = true := by
    rw [hev]
    rfl
  unfold processQuery at h
  cases stmts with
  | none =>
    cases h
    exact queryOffset_effect hquery hlast (Still.refl _)
  | some stmts =>
    rw [hev] at hquiet
    have hall : ∀ stmt ∈ stmts, stmt.quiet = true := all_eq_true.mp hquiet
    exact queryOffset_effect hquery hlast (processStmts_quiet hall h)

theorem processQuery_ends {gset g : List U} {logPos : ℕ} {schema : String}
    {stmts : Option (List Stmt)} (hends : (Event.query g schema stmts : Event U D).endsGroup = true)
    (h : processQuery cfg s logPos gset schema stmts = .ok s') :
    s' = { advanceCheckpoint cfg s gset logPos with inTx := false } := by
  unfold Event.endsGroup at hends
  split at hends
  case h_1 hev => cases hev
  case h_4 => cases hends
  all_goals
    rename_i hev
    cases hev
    rw [← advanceCheckpoint_queryOffset s gset logPos]
    exact (Except.ok.inj h).symm

theorem processRows_effect {u : U} {type : RowsType} {m : TableMap} {rows : List (List D)}
    {skipped : List (List ℕ)} (hev : e.ev.event = .rows type m rows skipped)
    (hrole : e.role = .inside u) (htables : KnowsTables cfg s)
    (h : processRows cfg s e.ev.timestamp type m rows skipped = .ok s') :
    Effect cfg startSet s e s' := by
  have hplain : ∀ next q, e.ev.event ≠ .rotate next q := by simp [hev]
  have hmirrored := htables.isSome (cfg.nameAndExclude m.name).name
  rcases processRows_ok h with ⟨hnone, rfl⟩ | ⟨hsome, -, s₁, hin, hoffset, hrows, hadds⟩
  · -- the table is not mirrored
    have hchanges : e.changes cfg = [] := by
      simp [Entry.changes, hev, ← hmirrored, hnone]
    exact .still (Still.refl _) hchanges (by simp [Entry.NotLast, hrole]) fun _ => hplain
  · have hchanges : e.changes cfg = rowChanges type m e.ev.timestamp rows skipped := by
      simp [Entry.changes, hev, ← hmirrored, hsome]
    rw [← hchanges] at hadds
    exact .rows u hrole hplain hin hoffset hrows hadds

/-- **One entry**: everything `processEvent` can do with it. -/
theorem entry_effect (hreal : e.isReal = true) (hfits : e.Fits)
    (hquiet : ∀ u, e.role = .inside u → e.ev.event.quiet = true) (htables : KnowsTables cfg s)
    (hrot : s.gset = none → ∀ next q, e.ev.event = .rotate next q → next ≠ s.pos.name)
    (h : processEvent cfg s (e.toEvent startSet) = .ok s') : Effect cfg startSet s e s' := by
  -- an event that changes nothing a restart could see
  have hstill : Still s s' → e.ev.event.endsGroup = false → e.changes cfg = [] →
      (∀ next q, e.ev.event ≠ .rotate next q) → Effect cfg startSet s e s' :=
    fun hs hends hchanges hplain => .still hs hchanges (notLast_of_fits hfits hends) fun _ => hplain
  have hnot : e.role ≠ .artificial := fun hrole => by simp [Entry.isReal, hrole] at hreal
  simp only [Entry.toEvent] at h
  unfold Entry.Fits at hfits
  cases hev : e.ev.event with
  | xid g =>
    simp only [processEvent, hev, Event.withGSet] at h
    cases h
    cases hrole : e.role with
    | last u => exact .ended u hrole (by simp [Entry.changes, hev]) (by simp [hev])
    | _ => simp_all [Event.isBetween, Event.inGroup, Event.isQuery]
  | rotate next q =>
    simp only [processEvent, hev, Event.withGSet] at h
    have hchanges : e.changes cfg = [] := by simp [Entry.changes, hev]
    have hlast : e.NotLast := notLast_of_fits hfits (by rw [hev]; rfl)
    split at h <;> rename_i hcond <;> cases h
    · have hgset : s.gset = none := by simp_all
      refine .moved hgset ?_ hchanges hlast
      rw [show e.endPos s.pos.name = ⟨next, q⟩ by simp [Entry.endPos, hev]]
      exact Still.refl _
    · refine .still (Still.refl s) hchanges hlast fun hgset => ?_
      have hname : next ≠ s.pos.name := hrot hgset next q hev
      simp [hgset, hname] at hcond
  | query g schema stmts =>
    simp only [processEvent, hev, Event.withGSet] at h
    cases hrole : e.role with
    | artificial => exact absurd hrole hnot
    | between => simp [hrole, hev, Event.isBetween] at hfits
    | inside u =>
      exact processQuery_quiet hev (hquiet u hrole) (by simp [Entry.NotLast, hrole]) h
    | alone u =>
      rw [hrole] at hfits
      exact processQuery_quiet hev hfits.2 (by simp [Entry.NotLast, hrole]) h
    | last u =>
      rw [hrole, hev] at hfits
      rw [processQuery_ends hfits h]
      exact .ended u hrole (by simp [Entry.changes, hev]) (by simp [hev])
  | tableMap m =>
    simp only [processEvent, hev, Event.withGSet] at h
    cases h
    exact hstill ⟨⟨rfl, rfl, rfl, rfl, rfl⟩,
      ⟨rfl, rfl, fun _ => rfl, List.Subset.refl _, rfl, rfl⟩, rfl⟩
      (by rw [hev]; rfl) (by simp [Entry.changes, hev]) (by simp [hev])
  | rows type m rows skipped =>
    simp only [processEvent, hev, Event.withGSet] at h
    obtain ⟨u, hrole⟩ := inside_of_fits hreal hfits (by rw [hev]; rfl) (by rw [hev]; rfl)
      (by rw [hev]; rfl)
    exact processRows_effect hev hrole htables h
  | incident message =>
    simp only [processEvent, hev, Event.withGSet] at h
    cases h
  | partialRowData tableID total =>
    simp only [hev, Event.withGSet] at h
    exact hstill (partialRowData_still h) (by rw [hev]; rfl) (by simp [Entry.changes, hev])
      (by simp [hev])
  | benign =>
    simp only [processEvent, hev, Event.withGSet] at h
    cases h
    exact hstill (Still.refl s) (by rw [hev]; rfl) (by simp [Entry.changes, hev]) (by simp [hev])

/-- In file position mode an entry leads to its end, or leaves the position
behind. -/
theorem Effect.pos (h : Effect cfg startSet s e s') (hgset : s.gset = none)
    (hlater : (∀ next q, e.ev.event ≠ .rotate next q) → s.pos.pos < e.ev.logPos) :
    s'.pos = e.endPos s.pos.name ∨
      (s'.pos = s.pos ∧ ∀ next q, e.ev.event ≠ .rotate next q) := by
  cases h with
  | still hstill _ _ hplain => exact Or.inr ⟨hstill.offset.pos, hplain hgset⟩
  | moved _ hstill _ _ => exact Or.inl hstill.offset.pos
  | ended u _ _ hplain =>
    unfold advanceCheckpoint
    simp only [hgset, if_pos (hlater hplain), endPos_plain hplain]
    exact Or.inl rfl
  | rows u _ hplain _ hoffset _ hadds =>
    exact Or.inr ⟨(hoffset.trans hadds.offset).pos, hplain⟩

theorem Effect.gset (h : Effect cfg startSet s e s') : s'.gset.isSome = s.gset.isSome := by
  cases h with
  | still hstill _ _ _ => rw [hstill.offset.gset]
  | moved _ hstill _ _ =>
    rw [hstill.offset.gset]
    rfl
  | ended u _ _ _ => exact advanceCheckpoint_gset cfg s _ _
  | rows u _ _ _ hoffset _ hadds => rw [(hoffset.trans hadds.offset).gset]

end Effect

/-! ### The invariant of a run -/

section Inv

variable {U D V : Type} [DecidableEq U] (B : Binlog U D) (cfg : Config U D V)

/-- Restarted from the text, the server would serve rows of the open transaction
again, if there is one, and then what is left. -/
def Binlog.Resumes (text : String) (es r : List (Entry U D)) (inTx : Bool) : Prop :=
  ∃ done again, changesOf cfg es = done ++ again ∧
    B.Pending cfg text (again ++ changesOf cfg r) ∧ (inTx = false → again = [])

/-- The state of a pull that has received `es` and is still to be served `r`. -/
structure Inv (offset : ReplicationOffset U) (es r : List (Entry U D)) (s : PullState U V) :
    Prop where
  served : B.serve offset = some (es.filter Entry.isReal ++ r)
  artificial : changesOf cfg (es.filter Entry.isReal) = changesOf cfg es
  /-- what was read is what was emitted -/
  rows : List.Forall₂ (Represents cfg) (changesOf cfg es) s.stream.records
  recordCount : s.recordCount = (changesOf cfg es).length
  tables : KnowsTables cfg s
  opened : s.inTx = false → openChanges cfg es = []
  unfinished : s.inTx = true → ∃ e ∈ r, ∃ u, e.role = .last u
  overtime : s.overtime = true → s.recordCount ≠ 0
  checkpoint : B.Resumes cfg s.stream.lastCheckpointText es r s.inTx ∨
    (s.inTx = false → changesOf cfg es = [])
  updated : s.updatedOffset = "" ∨ B.Resumes cfg s.updatedOffset es r s.inTx
  saved : ∀ text ∈ s.saved, B.Pending cfg text (changesOf cfg es ++ changesOf cfg r)
  located : B.Located offset es s
  reached : Reached cfg s

/-- What is known of the next entry `e`, with `r` behind it. -/
structure Ahead (startSet : List U) (e : Entry U D) (r : List (Entry U D)) (s : PullState U V) :
    Prop where
  rotates : s.gset = none → ∀ next q, e.ev.event = .rotate next q → next ≠ s.pos.name
  later : s.gset = none → (∀ next q, e.ev.event ≠ .rotate next q) → s.pos.pos < e.ev.logPos
  filePos : s.gset = none →
    B.Pending cfg (posToOffsetText (e.endPos s.pos.name)) (changesOf cfg r)
  gtid : s.gset.isSome = true → ∀ u, e.role = .last u →
    B.Pending cfg (cfg.codec.string (startSet ++ e.executed)) (changesOf cfg r)

/-- What reading the entry `e`, with `r` behind it, does to a pull. -/
structure Received (e : Entry U D) (r : List (Entry U D)) (s s' : PullState U V) : Prop where
  records : ∃ recs, List.Forall₂ (Represents cfg) (e.changes cfg) recs ∧
    s'.stream.records = s.stream.records ++ recs
  recordCount : s'.recordCount = s.recordCount + (e.changes cfg).length
  tables : SameTables s s'
  overtime : s'.overtime = s.overtime
  saved : s'.saved = s.saved
  opens : s'.inTx = true → (s.inTx = true ∧ e.NotLast) ∨ ∃ u, e.role = .inside u
  closes : s'.inTx = false → e.changes cfg = [] ∧ ((∃ u, e.role = .last u) ∨ s.inTx = false)
  offset : (s'.updatedOffset = s.updatedOffset ∧
      s'.stream.lastCheckpointText = s.stream.lastCheckpointText ∧ e.NotLast) ∨
    ∃ text, s'.updatedOffset = text ∧ s'.stream.lastCheckpointText = text ∧
      B.Pending cfg text (changesOf cfg r)

variable {B cfg}

variable {e : Entry U D} {r es served : List (Entry U D)} {s s' : PullState U V}

/-- An entry without rows that keeps or moves the offset. -/
theorem Received.of_still {s s₁ s' : PullState U V} (hs₁ : SameRows s s₁) (hin : s₁.inTx = s.inTx)
    (hstill : Still s₁ s') (hchanges : e.changes cfg = []) (hlast : e.NotLast)
    (hoffset : (s₁.updatedOffset = s.updatedOffset ∧
        s₁.stream.lastCheckpointText = s.stream.lastCheckpointText) ∨
      ∃ text, s₁.updatedOffset = text ∧ s₁.stream.lastCheckpointText = text ∧
        B.Pending cfg text (changesOf cfg r)) : Received B cfg e r s s' := by
  have hrows : SameRows s s' := hs₁.trans hstill.rows
  have hinTx : s'.inTx = s.inTx := hstill.inTx.trans hin
  refine ⟨⟨[], by simp [hchanges], by simp [hrows.records]⟩, by simp [hrows.recordCount, hchanges],
    hrows.tables, hrows.overtime, hrows.saved, fun h => Or.inl ⟨hinTx ▸ h, hlast⟩,
    fun h => ⟨hchanges, Or.inr (hinTx ▸ h)⟩, ?_⟩
  rw [hstill.offset.updatedOffset, hstill.offset.checkpoint]
  exact hoffset.imp (fun hsame => ⟨hsame.1, hsame.2, hlast⟩) id

theorem Ahead.advanceCheckpoint {startSet : List U} {u : U} (h : Ahead B cfg startSet e r s)
    (hrole : e.role = .last u) (hplain : ∀ next q, e.ev.event ≠ .rotate next q) :
    ∃ text, (advanceCheckpoint cfg s (startSet ++ e.executed) e.ev.logPos).updatedOffset = text ∧
      (advanceCheckpoint cfg s (startSet ++ e.executed) e.ev.logPos).stream.lastCheckpointText =
        text ∧ B.Pending cfg text (changesOf cfg r) := by
  unfold MySQL.advanceCheckpoint
  cases hgset : s.gset with
  | some gset => exact ⟨_, rfl, rfl, h.gtid (by rw [hgset]; rfl) u hrole⟩
  | none =>
    have hpending := h.filePos hgset
    rw [endPos_plain hplain] at hpending
    simp only [if_pos (h.later hgset hplain)]
    exact ⟨_, rfl, rfl, hpending⟩

/-- One entry, seen from the offsets a restart could use. -/
theorem Effect.received {startSet : List U} (h : Effect cfg startSet s e s')
    (hahead : Ahead B cfg startSet e r s) (hreached : Reached cfg s) :
    Received B cfg e r s s' := by
  cases h with
  | still hstill hchanges hlast _ =>
    exact Received.of_still (SameRows.refl s) rfl hstill hchanges hlast (Or.inl ⟨rfl, rfl⟩)
  | moved hgset hstill hchanges hlast =>
    have hmoved : SameRows s (s.moveTo (e.endPos s.pos.name)) :=
      ⟨rfl, rfl, fun _ => rfl, List.Subset.refl _, rfl, rfl⟩
    exact Received.of_still hmoved rfl hstill hchanges hlast
      (Or.inr ⟨_, rfl, rfl, hahead.filePos hgset⟩)
  | ended u hrole hchanges hplain =>
    have hrows : SameRows s (MySQL.advanceCheckpoint cfg s (startSet ++ e.executed) e.ev.logPos) :=
      advanceCheckpoint_sameRows cfg s _ _
    exact ⟨⟨[], by simp [hchanges], by simp [hrows.records]⟩, by simp [hrows.recordCount, hchanges],
      hrows.tables, hrows.overtime, hrows.saved, nofun, fun _ => ⟨hchanges, Or.inl ⟨u, hrole⟩⟩,
      Or.inr (hahead.advanceCheckpoint hrole hplain)⟩
  | rows u hrole hplain hin hoffset hrows hadds =>
    have hinTx : s'.inTx = true := hadds.inTx.trans hin
    have hsame : SameOffset s s' := hoffset.trans hadds.offset
    obtain ⟨recs, hrecs, hstream⟩ := hadds.records
    exact ⟨⟨recs, hrecs.imp fun _ _ hrec => ⟨s, hreached, hrec⟩, by rw [hstream, hrows.records]⟩,
      by rw [hadds.recordCount, hrows.recordCount],
      fun name => (hadds.tables name).trans (hrows.tables name),
      hadds.overtime.trans hrows.overtime, hsame.saved, fun _ => Or.inr ⟨u, hrole⟩,
      by simp [hinTx],
      Or.inl ⟨hsame.updatedOffset, hsame.checkpoint, by simp [Entry.NotLast, hrole]⟩⟩

/-- An offset text that is kept is still good after one more entry. -/
theorem Binlog.Resumes.receive {text : String} {inTx inTx' : Bool}
    (h : B.Resumes cfg text es (e :: r) inTx)
    (hcloses : inTx' = false → e.changes cfg = [] ∧ inTx = false) :
    B.Resumes cfg text (es ++ [e]) r inTx' := by
  obtain ⟨done, again, hread, hpending, hout⟩ := h
  refine ⟨done, again ++ e.changes cfg, ?_, ?_, fun hfalse => ?_⟩
  · simp [hread]
  · simpa using hpending
  · obtain ⟨hchanges, hinTx⟩ := hcloses hfalse
    rw [hout hinTx, hchanges]
    rfl

theorem Binlog.Pending.resumes {text : String} {inTx : Bool}
    (h : B.Pending cfg text (changesOf cfg r)) : B.Resumes cfg text es r inTx :=
  ⟨changesOf cfg es, [], (append_nil _).symm, h, fun _ => rfl⟩

variable {offset : ReplicationOffset U}

/-- **Step.**  Reading an entry of the binlog keeps the invariant. -/
theorem Inv.receive (h : Inv B cfg offset es (e :: r) s) (hreal : e.isReal = true)
    (hrec : Received B cfg e r s s') (hloc : B.Located offset (es ++ [e]) s')
    (hreached : Reached cfg s') :
    Inv B cfg offset (es ++ [e]) r s' := by
  have hfilter : (es ++ [e]).filter Entry.isReal ++ r = es.filter Entry.isReal ++ e :: r := by
    simp [hreal]
  -- an offset that is kept: outside a transaction nothing was read since
  have hkept : e.NotLast → s'.inTx = false → e.changes cfg = [] ∧ s.inTx = false := by
    intro hlast hfalse
    obtain ⟨hchanges, ⟨u, hrole⟩ | hout⟩ := hrec.closes hfalse
    · exact absurd hrole (hlast u)
    · exact ⟨hchanges, hout⟩
  obtain ⟨recs, hrecs, hstream⟩ := hrec.records
  refine ⟨hfilter ▸ h.served, by simp [hreal, h.artificial], ?_,
    by simp [hrec.recordCount, h.recordCount], h.tables.step hrec.tables,
    ?_, ?_, ?_, ?_, ?_, ?_, hloc, hreached⟩
  · rw [hstream, changesOf_append, changesOf_cons, changesOf_nil, append_nil]
    exact rel_append h.rows hrecs
  · intro hfalse
    obtain ⟨hchanges, hend⟩ := hrec.closes hfalse
    rw [openChanges_snoc]
    cases hrole : e.role with
    | artificial => simp [Entry.isReal, hrole] at hreal
    | between | last u | alone u => rfl
    | inside u =>
      have hout : s.inTx = false := hend.resolve_left (by simp [hrole])
      show openChanges cfg es ++ e.changes cfg = []
      rw [h.opened hout, hchanges]
      rfl
  · intro htrue
    rcases hrec.opens htrue with ⟨hin, hlast⟩ | ⟨u, hrole⟩
    · obtain ⟨x, hx, u, hu⟩ := h.unfinished hin
      rcases mem_cons.mp hx with rfl | hmem
      · exact absurd hu (hlast u)
      · exact ⟨x, hmem, u, hu⟩
    · obtain ⟨x, hx, hlast⟩ := B.served_last h.served hrole
      exact ⟨x, hx, u, hlast⟩
  · intro hover
    have hcount : s.recordCount ≠ 0 := h.overtime (hrec.overtime ▸ hover)
    rw [hrec.recordCount]
    omega
  · rcases hrec.offset with ⟨-, hcheckpoint, hlast⟩ | ⟨text, -, hcheckpoint, hpending⟩
    · rw [hcheckpoint]
      refine h.checkpoint.imp (fun hresumes => hresumes.receive (hkept hlast))
        fun hnone hfalse => ?_
      obtain ⟨hchanges, hout⟩ := hkept hlast hfalse
      simp [hnone hout, hchanges]
    · exact hcheckpoint ▸ Or.inl hpending.resumes
  · rcases hrec.offset with ⟨hupdated, -, hlast⟩ | ⟨text, hupdated, -, hpending⟩
    · exact hupdated ▸ h.updated.imp id fun hresumes => hresumes.receive (hkept hlast)
    · exact hupdated ▸ Or.inr hpending.resumes
  · intro text htext
    simpa using h.saved text (hrec.saved ▸ htext)

/-- What the server makes up is ignored. -/
theorem Inv.ignore (h : Inv B cfg offset es r s) (hfollows : B.Follows offset served (es ++ [e]))
    (hart : e.isReal = false) (hstep : processEvent cfg s (e.toEvent offset.startSet) = .ok s') :
    Inv B cfg offset (es ++ [e]) r s' := by
  obtain ⟨rfl, hbetween, hloc⟩ := h.located.artificial hart hfollows hstep
  have hrole : e.role = .artificial := by
    cases hrole : e.role with
    | artificial => rfl
    | between | inside u | last u | alone u => simp [Entry.isReal, hrole] at hart
  have hchanges : changesOf cfg (es ++ [e]) = changesOf cfg es := by
    simp [changes_between cfg hbetween]
  have hfilter : (es ++ [e]).filter Entry.isReal = es.filter Entry.isReal := by simp [hart]
  have hopen : openChanges cfg (es ++ [e]) = openChanges cfg es := by
    rw [openChanges_snoc, hrole]
  have hresumes : ∀ text, B.Resumes cfg text (es ++ [e]) r s'.inTx ↔
      B.Resumes cfg text es r s'.inTx := by
    intro text
    unfold Binlog.Resumes
    rw [hchanges]
  exact ⟨by rw [hfilter]; exact h.served, by rw [hfilter, hchanges]; exact h.artificial,
    by rw [hchanges]; exact h.rows, by rw [hchanges]; exact h.recordCount, h.tables,
    by rw [hopen]; exact h.opened, h.unfinished, h.overtime,
    by rw [hresumes, hchanges]; exact h.checkpoint, by rw [hresumes]; exact h.updated,
    by rw [hchanges]; exact h.saved, hloc, h.reached⟩

/-- Everything the step lemma needs to know about the next entry. -/
theorem Inv.ahead (h : Inv B cfg offset es (e :: r) s) (hreal : e.isReal = true)
    (hfollows : B.Follows offset served (es ++ [e])) :
    Ahead B cfg offset.startSet e r s := by
  refine ⟨h.located.rotates hreal hfollows, h.located.later hreal hfollows, ?_, ?_⟩
  · intro hgset
    cases offset with
    | gtid gset =>
      have hsome : s.gset.isSome = true := h.located
      rw [hgset] at hsome
      cases hsome
    | filePos pos =>
      obtain ⟨pre, p', hsplit, hruns, hend⟩ := h.located.endPos hreal h.served hfollows
      rw [hend]
      exact B.pending_filePos cfg hsplit hruns
  · intro hsome u hrole
    cases offset with
    | gtid gset => exact B.pending_gtid cfg (Option.some.inj h.served) hrole
    | filePos pos =>
      rw [h.located.1] at hsome
      cases hsome

/-- No statement inside a group is taken for its end. -/
def Binlog.QuietGroups (B : Binlog U D) : Prop :=
  ∀ e ∈ B.entries, ∀ u, e.role = .inside u → e.ev.event.quiet = true

theorem Inv.event (hquiet : B.QuietGroups) (h : Inv B cfg offset es (e :: r) s)
    (hreal : e.isReal = true) (hfollows : B.Follows offset served (es ++ [e]))
    (hstep : processEvent cfg s (e.toEvent offset.startSet) = .ok s') :
    Inv B cfg offset (es ++ [e]) r s' := by
  have hmem : e ∈ B.entries := B.serve_subset h.served (by simp)
  have hahead := h.ahead hreal hfollows
  have heffect : Effect cfg offset.startSet s e s' :=
    entry_effect hreal (B.fits e hmem) (hquiet e hmem) h.tables hahead.rotates hstep
  refine h.receive hreal (heffect.received hahead h.reached) ?_ (.event h.reached hstep)
  exact h.located.step hreal hfollows heffect.gset fun hgset =>
    heffect.pos hgset (hahead.later hgset)

/-- A deadline that does not end the run persists an offset only while no row
was read, so nothing behind it is unread. -/
theorem Inv.deadline {stale saveOk : Bool} (h : Inv B cfg offset es r s)
    (hstep : onDeadline s stale saveOk = .next s') : Inv B cfg offset es r s' := by
  have hreached : Reached cfg s' := .deadline h.reached hstep
  rcases onDeadline_next hstep with ⟨hcount, -, rfl⟩ | ⟨hcount, rfl | ⟨hoffset, -, rfl⟩⟩
  · exact { h with overtime := fun _ => hcount, reached := hreached }
  · exact h
  · have hnone : changesOf cfg es = [] := by
      rw [← length_eq_zero_iff, ← h.recordCount, hcount]
    have hpending : B.Pending cfg s.updatedOffset (changesOf cfg es ++ changesOf cfg r) := by
      obtain ⟨done, again, hread, hpending, -⟩ := h.updated.resolve_left hoffset
      rw [hnone] at hread ⊢
      rwa [(append_eq_nil_iff.mp hread.symm).2] at hpending
    refine { h with
      updated := Or.inl rfl, saved := fun text htext => ?_, reached := hreached }
    rcases mem_append.mp htext with hold | hnew
    · exact h.saved text hold
    · exact mem_singleton.mp hnew ▸ hpending

theorem Inv.start (hserve : B.serve offset = some served) :
    Inv B cfg offset [] served (PullState.start cfg offset) := by
  have hloc : B.Located offset [] (PullState.start cfg offset) := B.located_start hserve
  cases offset with
  | filePos pos | gtid gset =>
    exact ⟨hserve, rfl, List.Forall₂.nil, rfl, fun _ => rfl, fun _ => rfl, fun h => (by cases h),
      fun h => (by cases h), Or.inr fun _ => rfl, Or.inl rfl, fun _ h => (by cases h), hloc,
      .start _⟩

omit [DecidableEq U] in
/-- A run returns outside a transaction, with at least one record. -/
theorem pullTurn_returns {maxBatchSize : ℕ} {t : Turn U D} (hmax : 1 ≤ maxBatchSize)
    (hover : s.overtime = true → s.recordCount ≠ 0)
    (h : pullTurn cfg maxBatchSize s t = .leave (.returned s')) :
    s' = s ∧ s.inTx = false ∧ s.recordCount ≠ 0 := by
  unfold pullTurn at h
  split at h
  case isFalse hstop =>
    cases h
    simp only [PullState.continues, Bool.or_eq_true, Bool.and_eq_true, not_or, not_and,
      Bool.not_eq_true', decide_eq_true_eq, Bool.not_eq_true] at hstop
    refine ⟨rfl, hstop.1, ?_⟩
    by_cases ho : s.overtime = true
    · exact hover ho
    · have hfull := hstop.2 (Bool.not_eq_true _ ▸ ho)
      omega
  case isTrue =>
    cases t with
    | events evs =>
      simp only at h
      split at h <;> cases h
    | cancelled | failed err => cases h
    | deadline stale saveOk =>
      simp only [onDeadline] at h
      (repeat' split at h) <;> cases h
      rename_i hreturn
      simp only [not_or, Bool.not_eq_true] at hreturn
      exact ⟨rfl, hreturn.2, hreturn.1⟩

/-- **Run.**  The invariant holds of the state a run is in or was left in. -/
theorem Binlog.Pulls.holds {text : String} {maxBatchSize : ℕ} {ds : List (Delivery U D)}
    {out : Flow (PullExit U V) (PullState U V)} (hquiet : B.QuietGroups)
    (h : B.Pulls cfg maxBatchSize text ds out) :
    RunInv cfg maxBatchSize (Inv B cfg) text ds out :=
  h.history Inv.served Inv.start (Inv.event hquiet)
    (fun hinv hart hfollows => hinv.ignore hfollows hart) fun _ _ _ => Inv.deadline

end Inv

/-! ### Exactly once -/

section Once

variable {U D V : Type} [DecidableEq U] (B : Binlog U D) (cfg : Config U D V) (maxBatchSize : ℕ)

/-- What it means that the runs of `PullRecords` from `text₀` deliver the binlog. -/
structure DeliversOnce (text₀ : String) : Prop where
  /-- the rows emitted so far are the first of the binlog, in order, and the next
  run is served exactly the others -/
  once : ∀ text emitted, B.Chain cfg maxBatchSize text₀ text emitted →
    ∃ done todo, changesOf cfg B.entries = done ++ todo ∧
      List.Forall₂ (Represents cfg) done emitted ∧ B.Pending cfg text todo
  /-- no batch ends inside a group it has emitted rows of -/
  whole : ∀ text ds s, B.Pulls cfg maxBatchSize text ds (.leave (.returned s)) →
    ∃ batch, batch <+: ds ∧
      List.Forall₂ (Represents cfg) (changesOf cfg (batch.flatMap Delivery.taken))
        s.stream.records ∧
      openChanges cfg (batch.flatMap Delivery.taken) = []
  /-- an offset persisted by an idle run passes no row -/
  idle : ∀ text ds out, B.Pulls cfg maxBatchSize text ds out →
    ∀ saved ∈ (stateOf out).saved, ∀ todo, B.Pending cfg text todo → B.Pending cfg saved todo
  /-- a run that was sent all there is and times out goes on only if it read no row -/
  progress : ∀ text ds stale saveOk offset s,
    parseReplicationOffsetText cfg.codec text = .ok offset →
    B.serve offset = some ((ds.flatMap Delivery.taken).filter Entry.isReal) →
    B.Pulls cfg maxBatchSize text (ds ++ [.deadline stale saveOk]) (.next s) →
    changesOf cfg (ds.flatMap Delivery.taken) = []

variable {B cfg maxBatchSize}

variable {text : String}

theorem Binlog.Pending.unique {todo todo' : List (Change D)} (h : B.Pending cfg text todo)
    (h' : B.Pending cfg text todo') : todo = todo' := by
  obtain ⟨offset, es, hparse, hserve, rfl⟩ := h
  obtain ⟨offset', es', hparse', hserve', rfl⟩ := h'
  have hoffset : offset = offset' := Except.ok.inj (hparse.symm.trans hparse')
  rw [← hoffset] at hserve'
  rw [Option.some.inj (hserve.symm.trans hserve')]

/-- The rows a run was to be served are those it read and those left. -/
theorem Inv.pending {offset : ReplicationOffset U} {es r : List (Entry U D)} {s : PullState U V}
    (h : Inv B cfg offset es r s)
    (hparse : parseReplicationOffsetText cfg.codec text = .ok offset) :
    B.Pending cfg text (changesOf cfg es ++ changesOf cfg r) := by
  refine ⟨offset, _, hparse, h.served, ?_⟩
  rw [changesOf_append, h.artificial]

variable {ds : List (Delivery U D)}

/-- A successful run has emitted what it read, and its checkpoint stands for the
rest. -/
theorem Binlog.Pulls.returned {s : PullState U V} (hquiet : B.QuietGroups) (hmax : 1 ≤ maxBatchSize)
    (h : B.Pulls cfg maxBatchSize text ds (.leave (.returned s))) :
    ∃ batch r, batch <+: ds ∧
      List.Forall₂ (Represents cfg) (changesOf cfg (batch.flatMap Delivery.taken))
        s.stream.records ∧
      openChanges cfg (batch.flatMap Delivery.taken) = [] ∧
      B.Pending cfg text (changesOf cfg (batch.flatMap Delivery.taken) ++ changesOf cfg r) ∧
      B.Pending cfg s.stream.lastCheckpointText (changesOf cfg r) := by
  obtain ⟨offset, batch, r, hparse, hbatch, hinv, -, hreturned⟩ := h.holds hquiet
  obtain ⟨t, hturn⟩ := hreturned s rfl
  obtain ⟨-, hout, hcount⟩ := pullTurn_returns hmax hinv.overtime hturn
  refine ⟨batch, r, hbatch, hinv.rows, hinv.opened hout, hinv.pending hparse, ?_⟩
  rcases hinv.checkpoint with ⟨done, again, -, hpending, hagain⟩ | hnone
  · rwa [hagain hout] at hpending
  · exact absurd (by rw [hinv.recordCount, hnone hout]; rfl) hcount

/-- An offset persisted by an idle run stands for all the run was to be served. -/
theorem Binlog.Pulls.idle {text saved : String} {out : Flow (PullExit U V) (PullState U V)}
    {todo : List (Change D)} (hquiet : B.QuietGroups) (h : B.Pulls cfg maxBatchSize text ds out)
    (hsaved : saved ∈ (stateOf out).saved) (htodo : B.Pending cfg text todo) :
    B.Pending cfg saved todo := by
  obtain ⟨offset, batch, r, hparse, -, hinv, -⟩ := h.holds hquiet
  rw [htodo.unique (hinv.pending hparse)]
  exact hinv.saved saved hsaved

theorem Binlog.Chain.pending {text₀ text : String} {emitted : List (Record V)}
    (hquiet : B.QuietGroups) (hmax : 1 ≤ maxBatchSize)
    (hstart : B.Pending cfg text₀ (changesOf cfg B.entries))
    (h : B.Chain cfg maxBatchSize text₀ text emitted) :
    ∃ done todo, changesOf cfg B.entries = done ++ todo ∧
      List.Forall₂ (Represents cfg) done emitted ∧ B.Pending cfg text todo := by
  induction h with
  | start => exact ⟨[], _, rfl, List.Forall₂.nil, hstart⟩
  | run _ hpulls ih =>
    obtain ⟨done, todo, hsplit, hdone, htodo⟩ := ih
    obtain ⟨batch, r, -, hrows, -, hpending, hrest⟩ := hpulls.returned hquiet hmax
    refine ⟨done ++ changesOf cfg (batch.flatMap Delivery.taken), changesOf cfg r, ?_,
      rel_append hdone hrows, hrest⟩
    rw [hsplit, htodo.unique hpending, append_assoc]
  | idle _ hpulls hsaved ih =>
    obtain ⟨done, todo, hsplit, hdone, htodo⟩ := ih
    exact ⟨done, todo, hsplit, hdone, hpulls.idle hquiet hsaved htodo⟩

omit [DecidableEq U] in
/-- A run goes on after a deadline only with nothing read or inside a
transaction. -/
theorem pullTurn_deadline {s s' : PullState U V} {stale saveOk : Bool}
    (h : pullTurn cfg maxBatchSize s (.deadline stale saveOk : Turn U D) = .next s') :
    s'.recordCount = 0 ∨ s'.inTx = true := by
  unfold pullTurn at h
  split at h
  case isFalse => cases h
  case isTrue =>
    rcases onDeadline_next h with ⟨-, hin, rfl⟩ | ⟨hcount, rfl | ⟨-, -, rfl⟩⟩
    · exact .inr hin
    · exact .inl hcount
    · exact .inl hcount

/-- With nothing left to be served no transaction is open, so a deadline ends a
run that has read a row. -/
theorem Binlog.Pulls.progress {stale saveOk : Bool} {offset : ReplicationOffset U}
    {s : PullState U V} (hquiet : B.QuietGroups)
    (hparse : parseReplicationOffsetText cfg.codec text = .ok offset)
    (hserve : B.serve offset = some ((ds.flatMap Delivery.taken).filter Entry.isReal))
    (h : B.Pulls cfg maxBatchSize text (ds ++ [.deadline stale saveOk]) (.next s)) :
    changesOf cfg (ds.flatMap Delivery.taken) = [] := by
  obtain ⟨offset', served, hparse', -, -, hpull⟩ := id h
  obtain ⟨offset'', batch, r, hparse'', -, hinv, hall, -⟩ := h.holds hquiet
  obtain rfl : offset' = offset := Except.ok.inj (hparse'.symm.trans hparse)
  obtain rfl : offset'' = offset' := Except.ok.inj (hparse''.symm.trans hparse)
  obtain rfl : batch = ds ++ [.deadline stale saveOk] := hall s rfl
  have htaken : (ds ++ [Delivery.deadline stale saveOk]).flatMap Delivery.taken =
      ds.flatMap Delivery.taken := by
    rw [flatMap_append]
    exact append_nil _
  rw [htaken] at hinv
  obtain rfl : r = [] :=
    append_right_eq_self.mp (Option.some.inj (hserve.symm.trans hinv.served)).symm
  have hout : s.inTx = false := by
    by_contra hin
    obtain ⟨e, he, -⟩ := hinv.unfinished (Bool.not_eq_false _ ▸ hin)
    cases he
  -- the last turn was the deadline
  have hlast : s.recordCount = 0 ∨ s.inTx = true := by
    unfold pullRecords at hpull
    rw [hparse] at hpull
    have hrun := Except.ok.inj hpull
    rw [map_append, iterate_append] at hrun
    split at hrun
    case h_2 => cases hrun
    simp only [map_cons, map_nil, iterate_cons, iterate_nil] at hrun
    split at hrun
    case h_2 => cases hrun
    case h_1 hturn =>
      cases hrun
      exact pullTurn_deadline hturn
  rw [← length_eq_zero_iff, ← hinv.recordCount]
  exact hlast.resolve_right (by simp [hout])

end Once

/-! ### Two binlogs -/

/-- A transaction that inserts two rows, with one query event between them. -/
def twoRows (stmt : Stmt) : List (Entry Char ℕ) :=
  [⟨.inside 'a', ['a'], { logPos := 10, event := .query [] "shop" (some [.other]) }⟩,
   ⟨.inside 'a', ['a'], { logPos := 20, event := .tableMap ordersTable }⟩,
   ⟨.inside 'a', ['a'], { logPos := 30, event := .rows .write ordersTable [[1]] [] }⟩,
   ⟨.inside 'a', ['a'], { logPos := 40, event := .query [] "shop" (some [stmt]) }⟩,
   ⟨.inside 'a', ['a'], { logPos := 50, event := .rows .write ordersTable [[2]] [] }⟩,
   ⟨.last 'a', ['a'], { logPos := 60, event := .xid [] }⟩]

/-- The binlog that consists of it. -/
def twoRowsLog (stmt : Stmt)
    (grammar : runs gramStep ⟨none, []⟩ (twoRows stmt) = some ⟨none, ['a']⟩) : Binlog Char ℕ where
  fileName n := String.ofList (List.replicate n 'b')
  start := (0, 4)
  entries := twoRows stmt
  fileName_inj := replicate_injective
  start_lt := by decide
  real e he := by
    simp only [twoRows, List.mem_cons, List.not_mem_nil, or_false] at he
    rcases he with rfl | rfl | rfl | rfl | rfl | rfl <;> rfl
  grammar := ⟨['a'], grammar⟩
  positions := by rfl

/-- Between the rows stands a statement that is ignored. -/
def plainLog : Binlog Char ℕ := twoRowsLog .other rfl

/-- Between the rows stands `ROLLBACK TO SAVEPOINT sp`. -/
def savepointLog : Binlog Char ℕ := twoRowsLog (.rollback "sp") rfl

def returnedState? {U V : Type} :
    Except String (Flow (PullExit U V) (PullState U V)) → Option (PullState U V)
  | .ok (.leave (.returned s)) => some s
  | _ => none

theorem eq_of_returnedState? {U V : Type}
    {x : Except String (Flow (PullExit U V) (PullState U V))} {s : PullState U V}
    (h : returnedState? x = some s) : x = .ok (.leave (.returned s)) := by
  unfold returnedState? at h
  split at h <;> cases h
  rfl

/-- Every entry in a turn of its own. -/
def oneByOne {U D : Type} (es : List (Entry U D)) : List (Delivery U D) :=
  es.map fun e => .entries [e]

end MySQL
