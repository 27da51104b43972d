/-
A schema change is read again until it has been handed over.

An ALTER TABLE on a mirrored table adds a delta to the record stream, which the
sync activity replays after `PullRecords` has returned.  Until then the delta is
only in memory, so the ALTER has to be served again from whatever offset the run
persists while it is idle.

It is not: a delta does not count as a record, and the ALTER (in file position
mode) or the next commit (in GTID mode) moves the offset that the idle timer
saves (`idleSave_loses_alter`).  If at every idle save no entry from an ALTER on
has moved the offset, every ALTER that was read is on the stream and would be
read again (`alter_read_again`).
-/
import PeerDB.MySQL.Session

open Loop

namespace MySQL

open List

/-! ### The deltas of an entry -/

section Deltas

variable {U D V : Type} (cfg : Config U D V)

/-- The delta an ALTER TABLE statement adds to the stream: its table is mirrored,
and it adds columns. -/
def alterDeltas (schema table : String) (specs : List AlterSpec) (stmtSchema : String) :
    List TableSchemaDelta :=
  let source := alterSource schema table stmtSchema
  let destination := (cfg.nameAndExclude source).name
  match specs.foldlM (alterSpec cfg) ([], false), cfg.tableNameSchemaMapping destination with
  | .ok (added, _), some current =>
    if destination = "" ∨ added = [] then []
    else [⟨source, destination, added, .q, current.nullableEnabled⟩]
  | _, _ => []

def stmtDeltas (stmtSchema : String) : Stmt → List TableSchemaDelta
  | .alterTable schema table specs => alterDeltas cfg schema table specs stmtSchema
  | _ => []

def Entry.deltas (e : Entry U D) : List TableSchemaDelta :=
  match e.ev.event with
  | .query _ schema (some stmts) => stmts.flatMap (stmtDeltas cfg schema)
  | _ => []

/-- The event may move the offset: in GTID mode only the end of a group. -/
def Event.moves (gtidMode : Bool) : Event U D → Bool
  | .xid _ => true
  | .rotate _ _ => !gtidMode
  | .query gset schema stmts => !gtidMode || !((Event.query gset schema stmts : Event U D).quiet)
  | _ => false

def ReplicationOffset.isGtid : ReplicationOffset U → Bool
  | .filePos _ => false
  | .gtid _ => true

variable {cfg}

theorem processAlterTableQuery_deltas {s s' : PullState U V} {schema table stmtSchema : String}
    {specs : List AlterSpec} (htables : KnowsTables cfg s)
    (h : processAlterTableQuery cfg s schema table specs stmtSchema = .ok s') :
    alterDeltas cfg schema table specs stmtSchema ⊆ s'.stream.schemaDeltas := by
  unfold alterDeltas
  simp only
  rcases processAlterTableQuery_cases h with
    ⟨-, hunmapped | ⟨shifting, hspecs, -⟩⟩ | ⟨added, shifting, current, hspecs, -, hcurrent, rfl⟩
  · split
    · rw [if_pos (Or.inl hunmapped)]
      exact nil_subset _
    · exact nil_subset _
  · rw [hspecs]
    split
    · rename_i hok _
      cases hok
      rw [if_pos (Or.inr rfl)]
      exact nil_subset _
    · exact nil_subset _
  · rw [hspecs]
    have hknown := htables (cfg.nameAndExclude (alterSource schema table stmtSchema)).name
    rw [hcurrent] at hknown
    (repeat' split) <;> try exact nil_subset _
    rename_i known hok hmapping _
    cases hok
    rw [hmapping] at hknown
    have hnullable : current.nullableEnabled = known.nullableEnabled := Option.some.inj hknown
    intro delta hdelta
    rw [mem_singleton.mp hdelta, ← hnullable]
    exact mem_append_right _ (mem_singleton_self _)

theorem processStmt_deltas {gset : List U} {logPos : ℕ} {stmtSchema : String}
    {s s' : PullState U V} {stmt : Stmt} (htables : KnowsTables cfg s)
    (h : processStmt cfg gset logPos stmtSchema s stmt = .ok s') :
    stmtDeltas cfg stmtSchema stmt ⊆ s'.stream.schemaDeltas := by
  cases stmt with
  | alterTable schema table specs =>
    exact processAlterTableQuery_deltas htables (mapError_eq_ok h)
  | renameTable | commit | rollback savepointName | other => exact nil_subset _

/-! ### What one entry does to the offset -/

/-- The entry kept the offset or moved it to its own end, and lost no delta. -/
structure Moves (cfg : Config U D V) (startSet : List U) (e : Entry U D) (s s' : PullState U V) :
    Prop where
  gset : s'.gset.isSome = s.gset.isSome
  pos : s.gset = none → s'.pos = e.endPos s.pos.name ∨
    (s'.pos = s.pos ∧ ∀ next q, e.ev.event ≠ .rotate next q)
  offset : s'.updatedOffset = s.updatedOffset ∨
    (e.ev.event.moves s.gset.isSome = true ∧
      ((s.gset = none ∧ s'.updatedOffset = posToOffsetText (e.endPos s.pos.name)) ∨
        (s.gset.isSome = true ∧ s'.updatedOffset = cfg.codec.string (startSet ++ e.executed))))
  saved : s'.saved = s.saved
  tables : SameTables s s'
  deltas : s.stream.schemaDeltas ⊆ s'.stream.schemaDeltas

variable {startSet : List U} {e : Entry U D} {s s₁ s' : PullState U V}

theorem Moves.of_same (hoffset : SameOffset s s') (htables : SameTables s s')
    (hdeltas : s.stream.schemaDeltas ⊆ s'.stream.schemaDeltas)
    (hplain : s.gset = none → ∀ next q, e.ev.event ≠ .rotate next q) :
    Moves cfg startSet e s s' :=
  ⟨by rw [hoffset.gset], fun hgset => Or.inr ⟨hoffset.pos, hplain hgset⟩,
    Or.inl hoffset.updatedOffset, hoffset.saved, htables, hdeltas⟩

theorem Moves.still (h : Moves cfg startSet e s s₁) (hstill : Still s₁ s') :
    Moves cfg startSet e s s' := by
  refine ⟨?_, ?_, ?_, ?_, ?_, ?_⟩
  · rw [hstill.offset.gset, h.gset]
  · rw [hstill.offset.pos]
    exact h.pos
  · rw [hstill.offset.updatedOffset]
    exact h.offset
  · rw [hstill.offset.saved, h.saved]
  · exact fun name => (hstill.rows.tables name).trans (h.tables name)
  · exact List.Subset.trans h.deltas hstill.rows.deltas

/-- The end of a group, possibly after other statements of the same event. -/
theorem Moves.advance (h : Moves cfg startSet e s s₁)
    (hplain : ∀ next q, e.ev.event ≠ .rotate next q)
    (hmoves : e.ev.event.moves s.gset.isSome = true) :
    Moves cfg startSet e s
      { advanceCheckpoint cfg s₁ (startSet ++ e.executed) e.ev.logPos with inTx := false } := by
  have hrows : SameRows s₁ (advanceCheckpoint cfg s₁ (startSet ++ e.executed) e.ev.logPos) :=
    advanceCheckpoint_sameRows cfg s₁ _ _
  have hgset := h.gset
  -- in a file of the same name, the end of the entry is its own offset
  have hend : s.gset = none → { s₁.pos with pos := e.ev.logPos } = e.endPos s.pos.name := by
    intro hgset
    rw [endPos_plain hplain]
    rcases h.pos hgset with hmoved | ⟨hsame, -⟩
    · rw [hmoved, endPos_plain hplain]
    · rw [hsame]
  refine ⟨(advanceCheckpoint_gset cfg s₁ _ _).trans hgset, fun hnone => ?_, ?_,
    hrows.saved.trans h.saved, fun name => (hrows.tables name).trans (h.tables name),
    List.Subset.trans h.deltas hrows.deltas⟩
  · rcases advanceCheckpoint_cases cfg s₁ (startSet ++ e.executed) e.ev.logPos with
      ⟨hsome, -⟩ | ⟨-, -, heq⟩ | ⟨-, -, heq⟩
    · simp [hgset, hnone] at hsome
    · exact heq ▸ Or.inl (hend hnone)
    · rw [heq]
      exact h.pos hnone
  · rcases advanceCheckpoint_cases cfg s₁ (startSet ++ e.executed) e.ev.logPos with
      ⟨hsome, heq⟩ | ⟨hnone, -, heq⟩ | ⟨-, -, heq⟩
    · exact heq ▸ Or.inr ⟨hmoves, Or.inr ⟨hgset ▸ hsome, rfl⟩⟩
    · have hs : s.gset = none := by simpa [hnone] using hgset.symm
      rw [heq]
      exact Or.inr ⟨hmoves, Or.inl ⟨hs, by rw [← hend hs]; rfl⟩⟩
    · rw [heq]
      exact h.offset

/-- Outside a transaction a query event moves the file position first. -/
theorem moves_queryOffset (hquery : e.ev.event.isQuery = true) :
    Moves cfg startSet e s (queryOffset s e.ev.logPos) := by
  have hplain : ∀ next q, e.ev.event ≠ .rotate next q := by
    intro next q hev
    rw [hev] at hquery
    cases hquery
  unfold queryOffset
  split
  case isFalse =>
    exact Moves.of_same (SameOffset.refl s) (fun _ => rfl) (List.Subset.refl _) fun _ => hplain
  case isTrue hmoves =>
    simp only [Bool.and_eq_true, Option.isNone_iff_eq_none, decide_eq_true_eq] at hmoves
    have hgset : s.gset = none := hmoves.1.2
    refine ⟨rfl, fun _ => Or.inl (endPos_plain hplain).symm, Or.inr ⟨?_, Or.inl ⟨hgset, ?_⟩⟩, rfl,
      fun _ => rfl, List.Subset.refl _⟩
    · rw [hgset]
      cases hev : e.ev.event with
      | query g schema stmts => rfl
      | xid _ | rotate _ _ | tableMap _ | rows _ _ _ _ | incident _ | partialRowData _ _
      | benign =>
        rw [hev] at hquery
        cases hquery
    · rw [endPos_plain hplain]
      rfl

/-- The statements of a query event, one after the other. -/
theorem processStmts_moves {g : List U} {schema : String} {stmts : List Stmt}
    (hev : e.ev.event = .query g schema (some stmts)) (htables : KnowsTables cfg s)
    (h : stmts.foldlM (processStmt cfg (startSet ++ e.executed) e.ev.logPos schema)
      (queryOffset s e.ev.logPos) = .ok s') :
    Moves cfg startSet e s s' ∧ e.deltas cfg ⊆ s'.stream.schemaDeltas := by
  have hplain : ∀ next q, e.ev.event ≠ .rotate next q := by simp [hev]
  have hrun := foldlM_history (fun pre s₁ => pre ⊆ stmts → Moves cfg startSet e s s₁ ∧
      pre.flatMap (stmtDeltas cfg schema) ⊆ s₁.stream.schemaDeltas)
    (fun _ => ⟨moves_queryOffset (by rw [hev]; rfl), nil_subset _⟩) ?_ h (List.Subset.refl _)
  · refine ⟨hrun.1, ?_⟩
    unfold Entry.deltas
    rw [hev]
    exact hrun.2
  · intro pre stmt s₁ s₂ ih hstep hsub
    obtain ⟨hmoves, hdeltas⟩ := ih fun x hx => hsub (mem_append_left _ hx)
    have hmem : stmt ∈ stmts := hsub (by simp)
    have hnew : stmtDeltas cfg schema stmt ⊆ s₂.stream.schemaDeltas :=
      processStmt_deltas (htables.step hmoves.tables) hstep
    have hnext : Moves cfg startSet e s s₂ ∧
        s₁.stream.schemaDeltas ⊆ s₂.stream.schemaDeltas := by
      cases hquiet : stmt.quiet with
      | true =>
        have hstill : Still s₁ s₂ := processStmt_quiet hquiet hstep
        exact ⟨hmoves.still hstill, hstill.rows.deltas⟩
      | false =>
        -- a commit or a rollback
        have hends : e.ev.event.moves s.gset.isSome = true := by
          simp only [hev, Event.moves, Event.quiet, Bool.or_eq_true, Bool.not_eq_true',
            all_eq_false]
          exact Or.inr ⟨stmt, hmem, by simp [hquiet]⟩
        have hadvance : s₂ = { advanceCheckpoint cfg s₁ (startSet ++ e.executed) e.ev.logPos with
            inTx := false } := by
          cases stmt with
          | commit | rollback savepointName => exact (Except.ok.inj hstep).symm
          | alterTable _ _ _ | renameTable | other => cases hquiet
        exact hadvance ▸
          ⟨hmoves.advance hplain hends, (advanceCheckpoint_sameRows cfg s₁ _ _).deltas⟩
    refine ⟨hnext.1, ?_⟩
    rw [flatMap_append, flatMap_cons, flatMap_nil, append_nil]
    exact append_subset.mpr ⟨List.Subset.trans hdeltas hnext.2, hnew⟩

/-- **One entry**: what it does to the offset and to the stream. -/
theorem entry_moves (htables : KnowsTables cfg s)
    (hrot : s.gset = none → ∀ next q, e.ev.event = .rotate next q → next ≠ s.pos.name)
    (h : processEvent cfg s (e.toEvent startSet) = .ok s') :
    Moves cfg startSet e s s' ∧ e.deltas cfg ⊆ s'.stream.schemaDeltas := by
  -- an event that keeps the offset
  have hsame : SameOffset s s' → SameTables s s' →
      s.stream.schemaDeltas ⊆ s'.stream.schemaDeltas → (∀ next q, e.ev.event ≠ .rotate next q) →
      Moves cfg startSet e s s' := fun ho ht hd hplain => Moves.of_same ho ht hd fun _ => hplain
  simp only [Entry.toEvent] at h
  cases hev : e.ev.event with
  | query g schema stmts =>
    simp only [processEvent, hev, Event.withGSet] at h
    cases stmts with
    | some stmts => exact processStmts_moves hev htables h
    | none =>
      cases h
      exact ⟨moves_queryOffset (by rw [hev]; rfl), by simp [Entry.deltas, hev]⟩
  | xid g =>
    simp only [processEvent, hev, Event.withGSet] at h
    cases h
    have hplain : ∀ next q, e.ev.event ≠ .rotate next q := by simp [hev]
    have hstart : Moves cfg startSet e s s :=
      Moves.of_same (SameOffset.refl s) (fun _ => rfl) (List.Subset.refl _) fun _ => hplain
    exact ⟨hstart.advance hplain (by rw [hev]; rfl), by simp [Entry.deltas, hev]⟩
  | rotate next q =>
    simp only [processEvent, hev, Event.withGSet] at h
    refine ⟨?_, by simp [Entry.deltas, hev]⟩
    have hend : e.endPos s.pos.name = ⟨next, q⟩ := by simp [Entry.endPos, hev]
    split at h <;> rename_i hcond <;> cases h
    · have hgset : s.gset = none := by simp_all
      exact ⟨rfl, fun _ => Or.inl hend.symm,
        Or.inr ⟨by rw [hev, hgset]; rfl, Or.inl ⟨hgset, by rw [hend]; rfl⟩⟩, rfl,
        fun _ => rfl, List.Subset.refl _⟩
    · refine Moves.of_same (SameOffset.refl s) (fun _ => rfl) (List.Subset.refl _) fun hgset => ?_
      have hname : next ≠ s.pos.name := hrot hgset next q hev
      simp [hgset, hname] at hcond
  | rows type m rows skipped =>
    simp only [processEvent, hev, Event.withGSet] at h
    refine ⟨?_, by simp [Entry.deltas, hev]⟩
    rcases processRows_ok h with ⟨-, rfl⟩ | ⟨-, -, s₁, -, hoffset, hrows, hadds⟩
    · exact hsame (SameOffset.refl _) (fun _ => rfl) (List.Subset.refl _) (by simp [hev])
    · exact hsame (hoffset.trans hadds.offset)
        (fun name => (hadds.tables name).trans (hrows.tables name))
        (List.Subset.trans hrows.deltas hadds.deltas) (by simp [hev])
  | tableMap m =>
    simp only [processEvent, hev, Event.withGSet] at h
    cases h
    exact ⟨hsame ⟨rfl, rfl, rfl, rfl, rfl⟩ (fun _ => rfl) (List.Subset.refl _) (by simp [hev]),
      by simp [Entry.deltas, hev]⟩
  | incident message =>
    simp only [processEvent, hev, Event.withGSet] at h
    cases h
  | partialRowData tableID total =>
    simp only [hev, Event.withGSet] at h
    have hstill : Still s s' := partialRowData_still h
    exact ⟨hsame hstill.offset hstill.rows.tables hstill.rows.deltas (by simp [hev]),
      by simp [Entry.deltas, hev]⟩
  | benign =>
    simp only [processEvent, hev, Event.withGSet] at h
    cases h
    exact ⟨hsame (SameOffset.refl s) (fun _ => rfl) (List.Subset.refl _) (by simp [hev]),
      by simp [Entry.deltas, hev]⟩

end Deltas

/-! ### Reading an ALTER again -/

section Again

variable {U D V : Type} [DecidableEq U] (B : Binlog U D) (cfg : Config U D V)

/-- A restart from the offset text would be served the entry. -/
def Binlog.ReadsAgain (text : String) (e : Entry U D) : Prop :=
  ∃ offset es, parseReplicationOffsetText cfg.codec text = .ok offset ∧
    B.serve offset = some es ∧ e ∈ es

variable {B cfg}

variable {r es served : List (Entry U D)} {e : Entry U D}

/-- From the executed set of an earlier transaction the server serves a transaction
that consists of one query. -/
theorem Binlog.readsAgain_gtid {gset : List U} {c r : List (Entry U D)} {m e : Entry U D} {u v : U}
    (hserved : B.entries.filter (unseen gset) = c ++ m :: r) (hm : m.role.gtid? = some v)
    (he : e ∈ r) (hrole : e.role = .alone u) :
    B.ReadsAgain cfg (cfg.codec.string (gset ++ m.executed)) e := by
  obtain ⟨pre, post, hsplit, -, hpost⟩ := filter_cut hserved
  obtain ⟨hmem, hunseen⟩ := mem_filter.mp (hpost ▸ he)
  obtain ⟨g, g', closed, -, -, hmove, hrest⟩ := B.cut hsplit
  have hexecuted : m.executed = g.closed ++ [v] := by
    cases hmove with
    | artificial h | between h _ _ => simp [h, Role.gtid?] at hm
    | inside w h henters _ | last w h henters _ | alone w h _ henters _ _ =>
      rw [h] at hm
      cases hm
      exact (enters_iff.mp henters).2
  -- at the later transaction, all earlier ones have ended
  have hnew : u ∉ m.executed := by
    obtain ⟨mid, rest, rfl⟩ := append_of_mem hmem
    rw [runs_append] at hrest
    obtain ⟨g₂, hmid, hrest⟩ := Option.bind_eq_some_iff.mp hrest
    obtain ⟨g₃, he₃, -⟩ := Option.bind_eq_some_iff.mp hrest
    cases gramStep_some he₃ with
    | artificial h | between h _ _ | inside w h _ _ | last w h _ _ => cases hrole.symm.trans h
    | alone w h hnone henters _ _ =>
      cases hrole.symm.trans h
      have hfresh : u ∉ g₂.closed := by
        have hcur := (enters_iff.mp henters).1
        simp_all
      have hended : ∀ w, g'.Seen w → w ∈ g₂.closed := by
        intro w hw
        have hseen := runs_gramStep_seen hmid (Or.inl hw)
        simpa [Gram.Seen, hnone] using hseen
      intro hu
      apply hfresh
      rw [hexecuted] at hu
      rcases mem_append.mp hu with hclosed | hv
      · exact hended u (Or.inr (hmove.closed_subset hclosed))
      · exact mem_singleton.mp hv ▸ hended v (hmove.seen (Or.inr hm))
  obtain ⟨gset', hparse, hiff⟩ := parse_gtidString cfg.codec (gset ++ m.executed)
  have hout : u ∉ gset := by simpa [unseen, hrole, Role.gtid?] using hunseen
  refine ⟨.gtid gset', B.entries.filter (unseen gset'), hparse, rfl, mem_filter.mpr ⟨?_, ?_⟩⟩
  · rw [hsplit]
    exact mem_append_right pre (mem_cons_of_mem m hmem)
  · simp [unseen, hrole, Role.gtid?, hiff, hout, hnew]

variable (B cfg)

/-- The state of a pull that has received `es` and is still to be served `r`. -/
structure AlterInv (offset : ReplicationOffset U) (es r : List (Entry U D))
    (s : PullState U V) : Prop where
  served : B.serve offset = some (es.filter Entry.isReal ++ r)
  located : B.Located offset es s
  tables : KnowsTables cfg s
  deltas : ∀ e ∈ es, e.deltas cfg ⊆ s.stream.schemaDeltas
  /-- the offset was recorded at some entry, and what came later is behind it -/
  updated : s.updatedOffset = "" ∨ ∃ before m after,
    es.filter Entry.isReal = before ++ m :: after ∧ m.ev.event.moves offset.isGtid = true ∧
      ∀ x ∈ after ++ r, ∀ u, x.role = .alone u → B.ReadsAgain cfg s.updatedOffset x
  saved : ∀ text ∈ s.saved, ∀ x ∈ es.filter Entry.isReal ++ r, ∀ u, x.role = .alone u →
    x.deltas cfg ≠ [] → B.ReadsAgain cfg text x

/-- No entry from an ALTER on has moved the offset. -/
def Unmoved (offset : ReplicationOffset U) (es : List (Entry U D)) : Prop :=
  ∀ before e after, es.filter Entry.isReal = before ++ e :: after → e.deltas cfg ≠ [] →
    ∀ x ∈ e :: after, x.ev.event.moves offset.isGtid = false

variable {B cfg}

variable {offset : ReplicationOffset U} {s s' : PullState U V}

theorem Binlog.Located.isGtid (h : B.Located offset es s) : s.gset.isSome = offset.isGtid := by
  cases offset with
  | filePos pos =>
    rw [h.1]
    rfl
  | gtid gset => exact h

omit [DecidableEq U] in
/-- The end of a group is an entry of a transaction. -/
theorem gtid_of_moves (hreal : e.isReal = true) (hfits : e.Fits)
    (hmoves : e.ev.event.moves true = true) : ∃ v, e.role.gtid? = some v := by
  cases hrole : e.role with
  | artificial => simp [Entry.isReal, hrole] at hreal
  | inside v | last v | alone v => exact ⟨v, rfl⟩
  | between =>
    unfold Entry.Fits at hfits
    rw [hrole] at hfits
    cases hev : e.ev.event with
    | rotate next q | benign => simp [hev, Event.moves] at hmoves
    | xid _ | query _ _ _ | tableMap _ | rows _ _ _ _ | incident _ | partialRowData _ _ =>
      simp [hev, Event.isBetween] at hfits

/-- An offset that an entry records leaves what comes later to be read. -/
theorem AlterInv.behind (h : AlterInv B cfg offset es (e :: r) s) (hreal : e.isReal = true)
    (hfollows : B.Follows offset served (es ++ [e]))
    (hmoves : e.ev.event.moves s.gset.isSome = true)
    (htext : (s.gset = none ∧ s'.updatedOffset = posToOffsetText (e.endPos s.pos.name)) ∨
      (s.gset.isSome = true ∧
        s'.updatedOffset = cfg.codec.string (offset.startSet ++ e.executed))) :
    ∀ x ∈ r, ∀ u, x.role = .alone u → B.ReadsAgain cfg s'.updatedOffset x := by
  intro x hx u hrole
  have hmode := h.located.isGtid
  cases offset with
  | filePos pos =>
    rcases htext with ⟨-, htext⟩ | ⟨hsome, -⟩
    · obtain ⟨pre, p', hsplit, hruns, hend⟩ := h.located.endPos hreal h.served hfollows
      obtain ⟨hparse, hserve⟩ := B.serve_filePos cfg hsplit hruns
      rw [htext, hend]
      exact ⟨_, r, hparse, hserve, hx⟩
    · cases hmode.symm.trans hsome
  | gtid gset =>
    rcases htext with ⟨hnone, -⟩ | ⟨-, htext⟩
    · rw [hnone] at hmode
      cases hmode
    · have hmem : e ∈ B.entries := B.serve_subset h.served (by simp)
      rw [hmode] at hmoves
      obtain ⟨v, hv⟩ := gtid_of_moves hreal (B.fits e hmem) hmoves
      exact htext ▸ B.readsAgain_gtid (Option.some.inj h.served) hv hx hrole

/-- **Step.**  An entry that is read puts its deltas on the stream, and the offset
stays in front of what is still to come. -/
theorem AlterInv.receive (h : AlterInv B cfg offset es (e :: r) s) (hreal : e.isReal = true)
    (hfollows : B.Follows offset served (es ++ [e]))
    (hstep : processEvent cfg s (e.toEvent offset.startSet) = .ok s') :
    AlterInv B cfg offset (es ++ [e]) r s' := by
  obtain ⟨hmoves, hdeltas⟩ :=
    entry_moves h.tables (h.located.rotates hreal hfollows) hstep
  have hfilter : (es ++ [e]).filter Entry.isReal = es.filter Entry.isReal ++ [e] := by
    simp [hreal]
  have hall : (es ++ [e]).filter Entry.isReal ++ r = es.filter Entry.isReal ++ e :: r := by
    simp [hfilter]
  refine ⟨hall ▸ h.served, h.located.step hreal hfollows hmoves.gset hmoves.pos,
    h.tables.step hmoves.tables, fun x hx => ?_, ?_, fun text htext => ?_⟩
  · rcases mem_append.mp hx with hold | hnew
    · exact List.Subset.trans (h.deltas x hold) hmoves.deltas
    · exact mem_singleton.mp hnew ▸ hdeltas
  · rcases hmoves.offset with hsame | ⟨hmoved, htext⟩
    · rw [hsame]
      refine h.updated.imp id ?_
      rintro ⟨before, m, after, hsplit, hm, hbehind⟩
      exact ⟨before, m, after ++ [e], by simp [hfilter, hsplit], hm,
        fun x hx => hbehind x (by simpa using hx)⟩
    · exact Or.inr ⟨es.filter Entry.isReal, e, [], hfilter, h.located.isGtid ▸ hmoved,
        h.behind hreal hfollows hmoved htext⟩
  · rw [hall]
    exact h.saved text (hmoves.saved ▸ htext)

theorem AlterInv.ignore (h : AlterInv B cfg offset es r s) (hart : e.isReal = false)
    (hfollows : B.Follows offset served (es ++ [e]))
    (hstep : processEvent cfg s (e.toEvent offset.startSet) = .ok s') :
    AlterInv B cfg offset (es ++ [e]) r s' := by
  obtain ⟨rfl, hbetween, hloc⟩ := h.located.artificial hart hfollows hstep
  have hfilter : (es ++ [e]).filter Entry.isReal = es.filter Entry.isReal := by simp [hart]
  have hnone : e.deltas cfg = [] := by
    unfold Entry.deltas
    split
    case h_1 hev =>
      rw [hev] at hbetween
      cases hbetween
    case h_2 => rfl
  refine ⟨by rw [hfilter]; exact h.served, hloc, h.tables, ?_, by rw [hfilter]; exact h.updated,
    by rw [hfilter]; exact h.saved⟩
  intro x hx
  rcases mem_append.mp hx with hold | hnew
  · exact h.deltas x hold
  · rw [mem_singleton.mp hnew, hnone]
    exact nil_subset _

theorem AlterInv.deadline {stale saveOk : Bool} (h : AlterInv B cfg offset es r s)
    (hclear : saveOk = true → s.recordCount = 0 → s.updatedOffset ≠ "" → Unmoved cfg offset es)
    (hstep : onDeadline s stale saveOk = .next s') : AlterInv B cfg offset es r s' := by
  rcases onDeadline_next hstep with ⟨-, -, rfl⟩ | ⟨hcount, rfl | ⟨hoffset, hsave, rfl⟩⟩
  · exact ⟨h.served, h.located, h.tables, h.deltas, h.updated, h.saved⟩
  · exact h
  · refine ⟨h.served, h.located, h.tables, h.deltas, Or.inl rfl, ?_⟩
    intro text htext x hx u hrole hdeltas
    rcases mem_append.mp htext with hold | hnew
    · exact h.saved text hold x hx u hrole hdeltas
    · rw [mem_singleton.mp hnew]
      obtain ⟨before, m, after, hsplit, hm, hbehind⟩ := h.updated.resolve_left hoffset
      have hunmoved := hclear hsave hcount hoffset
      -- an ALTER up to `m` would have `m` behind it
      have hfront : ∀ c c', es.filter Entry.isReal = c ++ x :: c' → m ∉ x :: c' := by
        intro c c' hes hmem
        cases hm.symm.trans (hunmoved c x c' hes hdeltas m hmem)
      rw [hsplit, append_assoc, cons_append] at hx
      rcases mem_append.mp hx with hbefore | hrest
      · obtain ⟨c, c', rfl⟩ := append_of_mem hbefore
        exact absurd (by simp) (hfront c (c' ++ m :: after) (by simp [hsplit]))
      · rcases mem_cons.mp hrest with rfl | hafter
        · exact absurd mem_cons_self (hfront before after hsplit)
        · exact hbehind x hafter u hrole

theorem Binlog.alterInv_start (hserve : B.serve offset = some served) :
    AlterInv B cfg offset [] served (PullState.start cfg offset) := by
  have hloc : B.Located offset [] (PullState.start cfg offset) := B.located_start hserve
  cases offset with
  | filePos pos | gtid gset =>
    exact ⟨hserve, hloc, fun _ => rfl, fun _ he => (by cases he), Or.inl rfl,
      fun _ htext => (by cases htext)⟩

/-- Whenever an idle run of `PullRecords` may persist its offset, no entry from an
ALTER on has moved it. -/
def Binlog.SavesUnmoved (B : Binlog U D) (cfg : Config U D V) (maxBatchSize : ℕ) (text : String)
    (ds : List (Delivery U D)) : Prop :=
  ∀ offset pre stale s, parseReplicationOffsetText cfg.codec text = .ok offset →
    pre ++ [.deadline stale true] <+: ds → B.Pulls cfg maxBatchSize text pre (.next s) →
    s.recordCount = 0 → s.updatedOffset ≠ "" → Unmoved cfg offset (pre.flatMap Delivery.taken)

/-- **Run.**  The invariant holds of the state a run is in or was left in. -/
theorem Binlog.Pulls.alterInv {maxBatchSize : ℕ} {text : String} {ds : List (Delivery U D)}
    {out : Flow (PullExit U V) (PullState U V)} (h : B.Pulls cfg maxBatchSize text ds out)
    (hsaves : B.SavesUnmoved cfg maxBatchSize text ds) :
    RunInv cfg maxBatchSize (AlterInv B cfg) text ds out := by
  refine h.history AlterInv.served B.alterInv_start AlterInv.receive AlterInv.ignore ?_
  intro offset pre stale saveOk r s s' hparse hpre hreached hinv hstep
  refine hinv.deadline (fun hsave hcount hoffset => ?_) hstep
  subst hsave
  exact hsaves offset pre stale s hparse hpre hreached hcount hoffset

/-- **A schema change is not lost.**  At every point of a run whose idle saves meet
the condition, the deltas of every ALTER that was read are on the stream, which the
sync activity replays once the run has returned; and from the offset the run started
from, as from every offset it has persisted, the ALTER would be read again. -/
theorem alter_read_again {maxBatchSize : ℕ} {text : String} {ds : List (Delivery U D)}
    {out : Flow (PullExit U V) (PullState U V)} (h : B.Pulls cfg maxBatchSize text ds out)
    (hsaves : B.SavesUnmoved cfg maxBatchSize text ds) :
    ∃ batch, batch <+: ds ∧ (∀ s, out = .next s → batch = ds) ∧
      ∀ e ∈ batch.flatMap Delivery.taken, ∀ u, e.role = .alone u → e.deltas cfg ≠ [] →
        e.deltas cfg ⊆ (stateOf out).stream.schemaDeltas ∧
        ∀ persisted ∈ text :: (stateOf out).saved, B.ReadsAgain cfg persisted e := by
  obtain ⟨offset, batch, r, hparse, hbatch, hinv, hall, -⟩ := h.alterInv hsaves
  refine ⟨batch, hbatch, hall, fun e he u hrole hdeltas => ⟨hinv.deltas e he, ?_⟩⟩
  have hserved : e ∈ (batch.flatMap Delivery.taken).filter Entry.isReal ++ r := by
    refine mem_append_left r (mem_filter.mpr ⟨he, ?_⟩)
    simp [Entry.isReal, hrole]
  intro persisted hpersisted
  rcases mem_cons.mp hpersisted with rfl | hsaved
  · exact ⟨offset, _, hparse, hinv.served, hserved⟩
  · exact hinv.saved persisted hsaved e hserved u hrole hdeltas

end Again

/-! ### Two runs over an ALTER -/

/-- `ALTER TABLE shop.orders ADD COLUMN note text`. -/
def alterEntry (executed : List Char) (logPos : ℕ) : Entry Char ℕ :=
  ⟨.alone 'a', executed,
    { logPos := logPos
      event := .query [] "shop"
        (some [.alterTable "" "orders" [.newColumns [⟨"note", some "text"⟩] false]]) }⟩

/-- A transaction on other tables. -/
def otherTxn (executed : List Char) (logPos : ℕ) : List (Entry Char ℕ) :=
  [⟨.inside 'o', executed, { logPos := logPos, event := .query [] "shop" (some [.other]) }⟩,
   ⟨.last 'o', executed, { logPos := logPos + 10, event := .xid [] }⟩]

/-- The ALTER and then the transaction. -/
def alterFirstLog : Binlog Char ℕ where
  fileName n := String.ofList (List.replicate n 'b')
  start := (1, 4)
  entries := alterEntry ['a'] 40 :: otherTxn ['a', 'o'] 50
  fileName_inj := replicate_injective
  start_lt := by decide
  real e he := by
    simp only [otherTxn, List.mem_cons, List.not_mem_nil, or_false] at he
    rcases he with rfl | rfl | rfl <;> rfl
  grammar := ⟨['a', 'o'], by rfl⟩
  positions := by rfl

/-- The transaction and then the ALTER. -/
def alterLastLog : Binlog Char ℕ where
  fileName n := String.ofList (List.replicate n 'b')
  start := (1, 4)
  entries := otherTxn ['o'] 50 ++ [alterEntry ['o', 'a'] 70]
  fileName_inj := replicate_injective
  start_lt := by decide
  real e he := by
    simp only [otherTxn, List.cons_append, List.nil_append, List.mem_cons, List.not_mem_nil,
      or_false] at he
    rcases he with rfl | rfl | rfl <;> rfl
  grammar := ⟨['o', 'a'], by rfl⟩
  positions := by rfl

def pullingState? {U V : Type} :
    Except String (Flow (PullExit U V) (PullState U V)) → Option (PullState U V)
  | .ok (.next s) => some s
  | _ => none

theorem eq_of_pullingState? {U V : Type}
    {x : Except String (Flow (PullExit U V) (PullState U V))} {s : PullState U V}
    (h : pullingState? x = some s) : x = .ok (.next s) := by
  unfold pullingState? at h
  split at h <;> cases h
  rfl

/-- The idle save in front of an ALTER is harmless. -/
def saveThenAlter : List (Delivery Char ℕ) :=
  [.entries (otherTxn ['o'] 50), .deadline false true, .entries [alterEntry ['o', 'a'] 70]]

theorem saveThenAlter_savesUnmoved (text : String) :
    alterLastLog.SavesUnmoved ordersCfg 1 text saveThenAlter := by
  rintro offset pre stale s - ⟨post, hpost⟩ - - -
  -- the deadline is the second turn
  have hpre : pre = [.entries (otherTxn ['o'] 50)] := by
    unfold saveThenAlter at hpost
    rcases pre with _ | ⟨a, _ | ⟨b, _ | ⟨c, pre⟩⟩⟩
    · cases hpost
    · cases hpost
      rfl
    · cases hpost
    · have hlength := congrArg List.length hpost
      simp at hlength
  subst hpre
  intro before e after hsplit hdeltas
  have hmem : e ∈ otherTxn ['o'] 50 := by
    have hin : e ∈ (([Delivery.entries (otherTxn ['o'] 50)] : List (Delivery Char ℕ)).flatMap
        Delivery.taken).filter Entry.isReal := by
      rw [hsplit]
      exact mem_append_right before mem_cons_self
    exact (mem_filter.mp hin).1
  have hnone : ∀ x ∈ otherTxn ['o'] 50, x.deltas ordersCfg = [] := by
    intro x hx
    simp only [otherTxn, mem_cons, not_mem_nil, or_false] at hx
    rcases hx with rfl | rfl <;> rfl
  exact absurd (hnone e hmem) hdeltas

/-- The theorem at a run that has persisted an offset and then read an ALTER. -/
theorem saveThenAlter_read_again :
    ∃ s, alterLastLog.Pulls ordersCfg 1 "g:" saveThenAlter (.next s) ∧ s.saved = ["g:o"] ∧
      ∃ batch, batch <+: saveThenAlter ∧
        (∀ s', Flow.next s = (.next s' : Flow (PullExit Char ℕ) (PullState Char ℕ)) →
          batch = saveThenAlter) ∧
        ∀ e ∈ batch.flatMap Delivery.taken, ∀ u, e.role = .alone u → e.deltas ordersCfg ≠ [] →
          e.deltas ordersCfg ⊆ (stateOf (.next s)).stream.schemaDeltas ∧
          ∀ persisted ∈ "g:" :: (stateOf (.next s)).saved,
            alterLastLog.ReadsAgain ordersCfg persisted e := by
  have hrun : ((pullingState? (pullRecords ordersCfg 1 "g:"
      (saveThenAlter.map (Delivery.toTurn [])))).map PullState.saved) = some ["g:o"] := by
    decide +kernel
  obtain ⟨s, hs, hsaved⟩ := Option.map_eq_some_iff.mp hrun
  have hpulls : alterLastLog.Pulls ordersCfg 1 "g:" saveThenAlter (.next s) := by
    refine ⟨.gtid [], alterLastLog.entries, by rfl, by rfl, ⟨?_, ?_⟩, eq_of_pullingState? hs⟩
    · exact prefix_rfl
    · intro e he hart
      have hmem : e ∈ alterLastLog.entries := he
      rw [alterLastLog.real e hmem] at hart
      cases hart
  exact ⟨s, hpulls, hsaved, alter_read_again hpulls (saveThenAlter_savesUnmoved "g:")⟩

/-- The idle save behind an ALTER. -/
def alterThenSave : List (Delivery Char ℕ) :=
  [.entries alterFirstLog.entries, .deadline false true]

/-- What `alterThenSave` leaves behind: the records, the deltas and the persisted
offsets. -/
def alterThenSaveResult (text : String) : Option (ℕ × List TableSchemaDelta × List String) :=
  (pullingState? (pullRecords ordersCfg 1 text (alterThenSave.map (Delivery.toTurn [])))).map
    fun s => (s.recordCount, s.stream.schemaDeltas, s.saved)

/-- The run persists an offset from which the ALTER is not served again. -/
def LosesAlter (text : String) : Prop :=
  ∃ s persisted, alterFirstLog.Pulls ordersCfg 1 text alterThenSave (.next s) ∧
    s.recordCount = 0 ∧ (alterEntry ['a'] 40).deltas ordersCfg ≠ [] ∧
    s.stream.schemaDeltas = (alterEntry ['a'] 40).deltas ordersCfg ∧ persisted ∈ s.saved ∧
    ¬ alterFirstLog.ReadsAgain ordersCfg persisted (alterEntry ['a'] 40)

theorem losesAlter_of_result (text persisted : String) (offset offset' : ReplicationOffset Char)
    (hparse : parseReplicationOffsetText listCodec text = .ok offset)
    (hset : offset.startSet = [])
    (hserve : alterFirstLog.serve offset = some alterFirstLog.entries)
    (hfollows : alterFirstLog.Follows offset alterFirstLog.entries alterFirstLog.entries)
    (hresult : alterThenSaveResult text =
      some (0, (alterEntry ['a'] 40).deltas ordersCfg, [persisted]))
    (hparse' : parseReplicationOffsetText listCodec persisted = .ok offset')
    (hserve' : alterFirstLog.serve offset' = some []) : LosesAlter text := by
  obtain ⟨s, hs, hfields⟩ := Option.map_eq_some_iff.mp hresult
  simp only [Prod.mk.injEq] at hfields
  obtain ⟨hcount, hdeltas, hsaved⟩ := hfields
  refine ⟨s, persisted, ⟨offset, _, hparse, hserve, hfollows, ?_⟩, hcount, by decide, hdeltas,
    by simp [hsaved], ?_⟩
  · exact hset ▸ eq_of_pullingState? hs
  · rintro ⟨offset₁, es, hparse₁, hserve₁, hmem⟩
    obtain rfl : offset' = offset₁ := Except.ok.inj (hparse'.symm.trans hparse₁)
    obtain rfl : [] = es := Option.some.inj (hserve'.symm.trans hserve₁)
    cases hmem

/-- In both modes the run is idle and the delta is only on its stream, but from the
offset it has persisted the ALTER is not served again. -/
theorem idleSave_loses_alter : LosesAlter (posToOffsetText ⟨"b", 4⟩) ∧ LosesAlter "g:" := by
  constructor
  · refine losesAlter_of_result _ (posToOffsetText ⟨"b", 60⟩) _ _
      (parse_posToOffsetText listCodec (by decide)) rfl (by rfl) ⟨prefix_rfl, ?_⟩
      (by decide +kernel) (parse_posToOffsetText listCodec (by decide)) (by rfl)
    exact ⟨(1, 4), rfl, by rfl⟩
  · refine losesAlter_of_result _ "g:ao" (.gtid []) (.gtid ['a', 'o']) (by rfl) rfl (by rfl)
      ⟨prefix_rfl, ?_⟩ (by decide +kernel) (by rfl) (by rfl)
    intro e he hart
    rw [alterFirstLog.real e he] at hart
    cases hart

end MySQL
