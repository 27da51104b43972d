/-
The binlog a MySQL server serves, and the runs of `PullRecords` against it.

A `Binlog` is a list of entries: transactions (groups) with rotate events in
between.  The server serves it from a file position (the entries after it) or
from a GTID set (the transactions that are not in it), mixed with heartbeats and
artificial rotate events.  Runs of `PullRecords` are chained: each starts from
the checkpoint text the last successful one recorded.

Two lemmas say what an offset text is worth: from the text of the position after
an entry the server serves the rows behind it (`pending_filePos`), and from the
executed set attached to the end of a transaction it serves the rows of the
later transactions among those being served (`pending_gtid`).
-/
import PeerDB.MySQL.Pull

open Loop

namespace MySQL

open List

/-! ### The binlog -/

/-- Where an entry stands: made up by the server, between transactions, inside a
transaction, at its end, or a transaction of its own. -/
inductive Role (U : Type) where
  | artificial
  | between
  | inside (gtid : U)
  | last (gtid : U)
  | alone (gtid : U)

def Role.gtid? {U : Type} : Role U → Option U
  | .artificial => none
  | .between => none
  | .inside u => some u
  | .last u => some u
  | .alone u => some u

/-- An entry of the binlog.  `executed` lists the transactions of the binlog up
to and including the entry's own. -/
structure Entry (U D : Type) where
  role : Role U
  executed : List U := []
  ev : BinlogEvent U D

def Entry.isReal {U D : Type} (e : Entry U D) : Bool :=
  match e.role with
  | .artificial => false
  | _ => true

/-- An XID event, or a query event that is a plain COMMIT or ROLLBACK. -/
def Event.endsGroup {U D : Type} : Event U D → Bool
  | .xid _ => true
  | .query _ _ (some [.commit]) => true
  | .query _ _ (some [.rollback savepointName]) => decide (savepointName = "")
  | _ => false

/-- What may stand inside a group: no end of a group, and no rotate event. -/
def Event.inGroup {U D : Type} : Event U D → Bool
  | .xid _ => false
  | .rotate _ _ => false
  | .query _ _ (some stmts) => !(stmts.contains .commit) && !(stmts.contains (.rollback ""))
  | _ => true

/-- No statement of the event is taken for a commit or a rollback. -/
def Event.quiet {U D : Type} : Event U D → Bool
  | .query _ _ (some stmts) => stmts.all Stmt.quiet
  | _ => true

def Event.isBetween {U D : Type} : Event U D → Bool
  | .rotate _ _ => true
  | .benign => true
  | _ => false

def Event.isQuery {U D : Type} : Event U D → Bool
  | .query _ _ _ => true
  | _ => false

/-- The transaction that is open, and those that ended. -/
structure Gram (U : Type) where
  current : Option U
  closed : List U

section Grammar

variable {U D : Type} [DecidableEq U]

/-- The entry belongs to `u`, which is the open transaction or a new one. -/
def Gram.enters (g : Gram U) (e : Entry U D) (u : U) : Bool :=
  (decide (g.current = some u) || (g.current.isNone && !(g.closed.contains u))) &&
    decide (e.executed = g.closed ++ [u])

/-- The group structure of the binlog. -/
def gramStep (g : Gram U) (e : Entry U D) : Option (Gram U) :=
  match e.role with
  | .artificial => some g
  | .between => if g.current.isNone && e.ev.event.isBetween then some g else none
  | .inside u =>
    if g.enters e u && e.ev.event.inGroup then some ⟨some u, g.closed⟩ else none
  | .last u =>
    if g.enters e u && e.ev.event.endsGroup then some ⟨none, g.closed ++ [u]⟩ else none
  | .alone u =>
    if g.current.isNone && g.enters e u && e.ev.event.isQuery && e.ev.event.quiet then
      some ⟨none, g.closed ++ [u]⟩
    else none

/-- The position after an entry, as file number and offset: offsets increase
within a file, and a rotate event leads to the next file.  An artificial rotate
event names the file being read. -/
def posStep (fileName : ℕ → String) (p : ℕ × ℕ) (e : Entry U D) : Option (ℕ × ℕ) :=
  match e.role, e.ev.event with
  | .artificial, .benign => some p
  | .artificial, .rotate name _ =>
    if e.ev.timestamp = 0 ∧ name = fileName p.1 then some p else none
  | .artificial, _ => none
  | _, .rotate next q => if next = fileName (p.1 + 1) ∧ q < 2 ^ 32 then some (p.1 + 1, q) else none
  | _, _ => if p.2 < e.ev.logPos ∧ e.ev.logPos < 2 ^ 32 then some (p.1, e.ev.logPos) else none

def posAt (fileName : ℕ → String) (p : ℕ × ℕ) : Position := ⟨fileName p.1, p.2⟩

/-- The entries after a position. -/
def suffixFrom (fileName : ℕ → String) (target : Position) :
    ℕ × ℕ → List (Entry U D) → Option (List (Entry U D))
  | p, [] => if posAt fileName p = target then some [] else none
  | p, e :: es =>
    if posAt fileName p = target then some (e :: es)
    else (posStep fileName p e).bind fun p' => suffixFrom fileName target p' es

/-- A binlog made of groups, with increasing positions. -/
structure Binlog (U D : Type) [DecidableEq U] where
  fileName : ℕ → String
  start : ℕ × ℕ
  entries : List (Entry U D)
  fileName_inj : Function.Injective fileName
  start_lt : start.2 < 2 ^ 32
  real : ∀ e ∈ entries, e.isReal = true
  grammar : ∃ closed, runs gramStep ⟨none, []⟩ entries = some ⟨none, closed⟩
  positions : (runs (posStep fileName) start entries).isSome = true

/-- The entry is not of a transaction in the set. -/
def unseen (gset : List U) (e : Entry U D) : Bool :=
  match e.role.gtid? with
  | none => true
  | some u => !(gset.contains u)

/-- What the server serves from an offset; `none` if it does not know the
position. -/
def Binlog.serve (B : Binlog U D) : ReplicationOffset U → Option (List (Entry U D))
  | .filePos pos => suffixFrom B.fileName pos B.start B.entries
  | .gtid gset => some (B.entries.filter (unseen gset))

end Grammar

/-- The client library attaches the executed set to transaction ends and
queries. -/
def Event.withGSet {U D : Type} (gset : List U) : Event U D → Event U D
  | .xid _ => .xid gset
  | .query _ schema stmts => .query gset schema stmts
  | ev => ev

def Entry.toEvent {U D : Type} (startSet : List U) (e : Entry U D) : BinlogEvent U D :=
  { e.ev with event := e.ev.event.withGSet (startSet ++ e.executed) }

/-- What one iteration of the puller gets from the server. -/
inductive Delivery (U D : Type) where
  | entries (es : List (Entry U D))
  | deadline (stale saveOk : Bool)
  | cancelled
  | failed (err : String)

def Delivery.taken {U D : Type} : Delivery U D → List (Entry U D)
  | .entries es => es
  | _ => []

def Delivery.toTurn {U D : Type} (startSet : List U) : Delivery U D → Turn U D
  | .entries es => .events (es.map (Entry.toEvent startSet))
  | .deadline stale saveOk => .deadline stale saveOk
  | .cancelled => .cancelled
  | .failed err => .failed err

def ReplicationOffset.startSet {U : Type} : ReplicationOffset U → List U
  | .filePos _ => []
  | .gtid gset => gset

/-! ### Rows -/

section Rows

variable {U D V : Type} (cfg : Config U D V)

/-- The rows of mirrored tables in an entry. -/
def Entry.changes (e : Entry U D) : List (Change D) :=
  match e.ev.event with
  | .rows type m rows skipped =>
    if (cfg.tableNameSchemaMapping (cfg.nameAndExclude m.name).name).isSome then
      rowChanges type m e.ev.timestamp rows skipped
    else []
  | _ => []

def changesOf (es : List (Entry U D)) : List (Change D) := es.flatMap (Entry.changes cfg)

/-- The rows read from the transaction that is open after `es`. -/
def openChanges (es : List (Entry U D)) : List (Change D) :=
  es.foldl (fun acc e =>
    match e.role with
    | .artificial => acc
    | .inside _ => acc ++ e.changes cfg
    | _ => []) []

@[simp] theorem changesOf_nil : changesOf cfg ([] : List (Entry U D)) = [] := rfl

@[simp] theorem changesOf_append (es es' : List (Entry U D)) :
    changesOf cfg (es ++ es') = changesOf cfg es ++ changesOf cfg es' :=
  flatMap_append

@[simp] theorem changesOf_cons (e : Entry U D) (es : List (Entry U D)) :
    changesOf cfg (e :: es) = e.changes cfg ++ changesOf cfg es := rfl

theorem openChanges_snoc (es : List (Entry U D)) (e : Entry U D) :
    openChanges cfg (es ++ [e]) =
      match e.role with
      | .artificial => openChanges cfg es
      | .inside _ => openChanges cfg es ++ e.changes cfg
      | _ => [] := by
  unfold openChanges
  rw [foldl_append]
  rfl

end Rows

section Delivery

variable {U D V : Type} [DecidableEq U] (B : Binlog U D) (cfg : Config U D V) (maxBatchSize : ℕ)

/-- From the offset text the server would serve these rows. -/
def Binlog.Pending (text : String) (changes : List (Change D)) : Prop :=
  ∃ offset es, parseReplicationOffsetText cfg.codec text = .ok offset ∧
    B.serve offset = some es ∧ changesOf cfg es = changes

/-- The entries `es` were received from the server, which serves `served`. -/
def Binlog.Follows (offset : ReplicationOffset U) (served es : List (Entry U D)) : Prop :=
  es.filter Entry.isReal <+: served ∧
    match offset with
    | .filePos pos => ∃ p, posAt B.fileName p = pos ∧ (runs (posStep B.fileName) p es).isSome = true
    | .gtid _ => ∀ e ∈ es, e.isReal = false → e.ev.event.isBetween = true

/-- A run of `PullRecords` from an offset text against the server. -/
def Binlog.Pulls (text : String) (ds : List (Delivery U D))
    (out : Flow (PullExit U V) (PullState U V)) : Prop :=
  ∃ offset served, parseReplicationOffsetText cfg.codec text = .ok offset ∧
    B.serve offset = some served ∧ B.Follows offset served (ds.flatMap Delivery.taken) ∧
    pullRecords cfg maxBatchSize text (ds.map (Delivery.toTurn offset.startSet)) = .ok out

/-- The state a run is in or was left in. -/
def stateOf : Flow (PullExit U V) (PullState U V) → PullState U V
  | .next s => s
  | .leave (.returned s) => s
  | .leave (.failed s _) => s

/-- Runs one after the other: the offset text the next one starts from, and all
records emitted by successful runs.  A run that is under way or has failed may
have persisted an offset while it was idle; the next run may start from it. -/
inductive Binlog.Chain (text₀ : String) : String → List (Record V) → Prop
  | start : Binlog.Chain text₀ text₀ []
  | run {text : String} {emitted : List (Record V)} {ds : List (Delivery U D)}
      {s : PullState U V} :
      Binlog.Chain text₀ text emitted → B.Pulls cfg maxBatchSize text ds (.leave (.returned s)) →
      Binlog.Chain text₀ s.stream.lastCheckpointText (emitted ++ s.stream.records)
  | idle {text saved : String} {emitted : List (Record V)} {ds : List (Delivery U D)}
      {out : Flow (PullExit U V) (PullState U V)} :
      Binlog.Chain text₀ text emitted → B.Pulls cfg maxBatchSize text ds out →
      saved ∈ (stateOf out).saved → Binlog.Chain text₀ saved emitted

end Delivery

/-! ### Serving from a file position -/

section FilePos

variable {U D : Type} [DecidableEq U] {fileName : ℕ → String}

/-- The order of positions. -/
def PosLt (p p' : ℕ × ℕ) : Prop := p.1 < p'.1 ∨ (p.1 = p'.1 ∧ p.2 < p'.2)

variable {p p' : ℕ × ℕ}

theorem PosLt.trans {p p' p'' : ℕ × ℕ} (h : PosLt p p') (h' : PosLt p' p'') : PosLt p p'' := by
  unfold PosLt at *
  omega

theorem posAt_ne (hinj : Function.Injective fileName) (h : PosLt p p') :
    posAt fileName p ≠ posAt fileName p' := by
  intro heq
  have hname : p.1 = p'.1 := hinj (congrArg Position.name heq)
  have hpos : p.2 = p'.2 := congrArg Position.pos heq
  unfold PosLt at h
  omega

omit [DecidableEq U] in
theorem posStep_plain {e : Entry U D} (hreal : e.isReal = true)
    (hrot : ∀ next q, e.ev.event ≠ .rotate next q) (h : posStep fileName p e = some p') :
    p' = (p.1, e.ev.logPos) ∧ p.2 < e.ev.logPos ∧ e.ev.logPos < 2 ^ 32 := by
  unfold posStep at h
  split at h
  case h_1 hrole _ => simp [Entry.isReal, hrole] at hreal
  case h_2 hrole _ => simp [Entry.isReal, hrole] at hreal
  case h_3 hrole _ _ => simp [Entry.isReal, hrole] at hreal
  case h_4 next q hev _ => exact absurd hev (hrot next q)
  case h_5 =>
    split at h
    case isTrue hlt =>
      cases h
      exact ⟨rfl, hlt⟩
    case isFalse => cases h

omit [DecidableEq U] in
theorem posStep_rotate {e : Entry U D} {next : String} {q : ℕ} (hreal : e.isReal = true)
    (hrot : e.ev.event = .rotate next q) (h : posStep fileName p e = some p') :
    p' = (p.1 + 1, q) ∧ next = fileName (p.1 + 1) ∧ q < 2 ^ 32 := by
  unfold posStep at h
  rw [hrot] at h
  cases hrole : e.role with
  | artificial => simp [Entry.isReal, hrole] at hreal
  | between | inside u | last u | alone u =>
    rw [hrole] at h
    simp only at h
    split at h
    case isTrue hq =>
      cases h
      exact ⟨rfl, hq⟩
    case isFalse => cases h

omit [DecidableEq U] in
theorem posStep_real {e : Entry U D} (hreal : e.isReal = true)
    (h : posStep fileName p e = some p') :
    PosLt p p' ∧ p'.2 < 2 ^ 32 := by
  by_cases hrot : ∃ next q, e.ev.event = .rotate next q
  · obtain ⟨next, q, hrot⟩ := hrot
    obtain ⟨rfl, -, hq⟩ := posStep_rotate hreal hrot h
    exact ⟨Or.inl (Nat.lt_succ_self p.1), hq⟩
  · have hplain : ∀ next q, e.ev.event ≠ .rotate next q := fun next q heq => hrot ⟨next, q, heq⟩
    obtain ⟨rfl, hlt, hbound⟩ := posStep_plain hreal hplain h
    exact ⟨Or.inr ⟨rfl, hlt⟩, hbound⟩

omit [DecidableEq U] in
theorem runs_posStep_lt : ∀ {es : List (Entry U D)} {p p' : ℕ × ℕ},
    (∀ e ∈ es, e.isReal = true) → runs (posStep fileName) p es = some p' →
    (es = [] ∧ p = p') ∨ PosLt p p' := by
  intro es
  induction es with
  | nil =>
    intro p p' _ h
    cases h
    exact Or.inl ⟨rfl, rfl⟩
  | cons e es ih =>
    intro p p' hreal h
    obtain ⟨p₁, hp₁, hrest⟩ := Option.bind_eq_some_iff.mp h
    have hfirst : PosLt p p₁ := (posStep_real (hreal e mem_cons_self) hp₁).1
    right
    rcases ih (fun x hx => hreal x (mem_cons_of_mem e hx)) hrest with ⟨-, rfl⟩ | hlt
    · exact hfirst
    · exact hfirst.trans hlt

omit [DecidableEq U] in
theorem runs_posStep_bound : ∀ {es : List (Entry U D)} {p p' : ℕ × ℕ},
    (∀ e ∈ es, e.isReal = true) → p.2 < 2 ^ 32 → runs (posStep fileName) p es = some p' →
    p'.2 < 2 ^ 32 := by
  intro es
  induction es with
  | nil =>
    intro p p' _ hp h
    cases h
    exact hp
  | cons e es ih =>
    intro p p' hreal hp h
    obtain ⟨p₁, hp₁, hrest⟩ := Option.bind_eq_some_iff.mp h
    exact ih (fun x hx => hreal x (mem_cons_of_mem e hx))
      (posStep_real (hreal e mem_cons_self) hp₁).2 hrest

omit [DecidableEq U] in
/-- The server finds the entries after the position it is given. -/
theorem suffixFrom_append (hinj : Function.Injective fileName) :
    ∀ {pre es : List (Entry U D)} {p p' : ℕ × ℕ}, (∀ e ∈ pre, e.isReal = true) →
      runs (posStep fileName) p pre = some p' →
      suffixFrom fileName (posAt fileName p') p (pre ++ es) = some es := by
  intro pre
  induction pre with
  | nil =>
    intro es p p' _ h
    cases h
    cases es with
    | nil | cons => exact if_pos rfl
  | cons e pre ih =>
    intro es p p' hreal h
    have hne : posAt fileName p ≠ posAt fileName p' := by
      rcases runs_posStep_lt hreal h with ⟨hnil, -⟩ | hlt
      · cases hnil
      · exact posAt_ne hinj hlt
    obtain ⟨p₁, hp₁, hrest⟩ := Option.bind_eq_some_iff.mp h
    rw [cons_append, suffixFrom, if_neg hne, hp₁]
    exact ih (fun x hx => hreal x (mem_cons_of_mem e hx)) hrest

omit [DecidableEq U] in
theorem suffixFrom_some {target : Position} : ∀ {es served : List (Entry U D)} {p : ℕ × ℕ},
    suffixFrom fileName target p es = some served →
    ∃ pre p', es = pre ++ served ∧ runs (posStep fileName) p pre = some p' ∧
      posAt fileName p' = target := by
  intro es
  induction es with
  | nil =>
    intro served p h
    unfold suffixFrom at h
    split at h
    case isTrue hp =>
      cases h
      exact ⟨[], p, rfl, rfl, hp⟩
    case isFalse => cases h
  | cons e es ih =>
    intro served p h
    unfold suffixFrom at h
    split at h
    case isTrue hp =>
      cases h
      exact ⟨[], p, rfl, rfl, hp⟩
    case isFalse =>
      obtain ⟨p₁, hp₁, hrest⟩ := Option.bind_eq_some_iff.mp h
      obtain ⟨pre, p', hsplit, hruns, htarget⟩ := ih hrest
      refine ⟨e :: pre, p', by rw [hsplit]; rfl, ?_, htarget⟩
      rw [runs_cons, hp₁]
      exact hruns

end FilePos

/-! ### Serving from a GTID set -/

section Gtid

variable {U D : Type} [DecidableEq U]

variable {g g' : Gram U} {e : Entry U D}

theorem enters_iff {u : U} :
    g.enters e u = true ↔
      (g.current = some u ∨ (g.current = none ∧ u ∉ g.closed)) ∧ e.executed = g.closed ++ [u] := by
  unfold Gram.enters
  simp only [Bool.and_eq_true, Bool.or_eq_true, decide_eq_true_eq, Option.isNone_iff_eq_none,
    Bool.not_eq_true', contains_eq_mem, decide_eq_false_iff_not]

/-- What one entry does to the group structure. -/
inductive GramMove (g : Gram U) (e : Entry U D) : Gram U → Prop
  | artificial : e.role = .artificial → GramMove g e g
  | between : e.role = .between → g.current = none → e.ev.event.isBetween = true → GramMove g e g
  | inside (u : U) : e.role = .inside u → g.enters e u = true → e.ev.event.inGroup = true →
      GramMove g e ⟨some u, g.closed⟩
  | last (u : U) : e.role = .last u → g.enters e u = true → e.ev.event.endsGroup = true →
      GramMove g e ⟨none, g.closed ++ [u]⟩
  | alone (u : U) : e.role = .alone u → g.current = none → g.enters e u = true →
      e.ev.event.isQuery = true → e.ev.event.quiet = true → GramMove g e ⟨none, g.closed ++ [u]⟩

theorem gramStep_some (h : gramStep g e = some g') :
    GramMove g e g' := by
  unfold gramStep at h
  cases hrole : e.role with
  | artificial =>
    rw [hrole] at h
    cases h
    exact .artificial hrole
  | between =>
    simp only [hrole, Option.ite_none_right_eq_some, Bool.and_eq_true,
      Option.isNone_iff_eq_none] at h
    obtain ⟨⟨hnone, hev⟩, hg⟩ := h
    cases hg
    exact .between hrole hnone hev
  | inside u =>
    simp only [hrole, Option.ite_none_right_eq_some, Bool.and_eq_true] at h
    obtain ⟨⟨henters, hev⟩, hg⟩ := h
    cases hg
    exact .inside u hrole henters hev
  | last u =>
    simp only [hrole, Option.ite_none_right_eq_some, Bool.and_eq_true] at h
    obtain ⟨⟨henters, hev⟩, hg⟩ := h
    cases hg
    exact .last u hrole henters hev
  | alone u =>
    simp only [hrole, Option.ite_none_right_eq_some, Bool.and_eq_true,
      Option.isNone_iff_eq_none] at h
    obtain ⟨⟨⟨⟨hnone, henters⟩, hquery⟩, hquiet⟩, hg⟩ := h
    cases hg
    exact .alone u hrole hnone henters hquery hquiet

/-- A transaction that is open has not ended. -/
def Gram.Fresh (g : Gram U) : Prop := ∀ u, g.current = some u → u ∉ g.closed

/-- The transaction is open or ended. -/
def Gram.Seen (g : Gram U) (u : U) : Prop := g.current = some u ∨ u ∈ g.closed

omit [DecidableEq U] in
theorem seen_closed_iff {closed : List U} {u v : U} :
    (⟨none, closed ++ [u]⟩ : Gram U).Seen v ↔ v ∈ closed ∨ v = u := by
  simp [Gram.Seen]

theorem seen_of_enters {u v : U} (h : g.enters e u = true) (hv : g.Seen v) :
    v ∈ g.closed ∨ v = u := by
  rcases hv with hcur | hclosed
  · rcases (enters_iff.mp h).1 with hu | ⟨hnone, -⟩
    · rw [hcur] at hu
      exact Or.inr (Option.some.inj hu)
    · rw [hcur] at hnone
      cases hnone
  · exact Or.inl hclosed

theorem fresh_of_enters {u : U} (h : g.enters e u = true) (hfresh : g.Fresh) : u ∉ g.closed := by
  rcases (enters_iff.mp h).1 with hcur | ⟨-, hnot⟩
  · exact hfresh u hcur
  · exact hnot

theorem GramMove.seen (h : GramMove g e g') {v : U} (hv : g.Seen v ∨ e.role.gtid? = some v) :
    g'.Seen v := by
  have hentered : ∀ u, e.role.gtid? = some u → g.enters e u = true → v ∈ g.closed ∨ v = u := by
    intro u hu henters
    rcases hv with hseen | hrole
    · exact seen_of_enters henters hseen
    · rw [hu] at hrole
      exact Or.inr (Option.some.inj hrole).symm
  cases h with
  | artificial hrole => exact hv.resolve_right (by simp [hrole, Role.gtid?])
  | between hrole _ _ => exact hv.resolve_right (by simp [hrole, Role.gtid?])
  | inside u hrole henters _ =>
    rcases hentered u (by rw [hrole]; rfl) henters with hclosed | rfl
    · exact Or.inr hclosed
    · exact Or.inl rfl
  | last u hrole henters _ => exact seen_closed_iff.mpr (hentered u (by rw [hrole]; rfl) henters)
  | alone u hrole _ henters _ _ =>
    exact seen_closed_iff.mpr (hentered u (by rw [hrole]; rfl) henters)

theorem GramMove.closed_subset (h : GramMove g e g') :
    g.closed ⊆ g'.closed := by
  cases h with
  | artificial _ | between _ _ _ | inside u _ _ _ => exact fun _ hv => hv
  | last u _ _ _ | alone u _ _ _ _ _ => exact subset_append_left g.closed [u]

theorem GramMove.fresh (h : GramMove g e g') (hfresh : g.Fresh) :
    g'.Fresh := by
  cases h with
  | artificial _ | between _ _ _ => exact hfresh
  | inside u _ henters _ =>
    intro v hv
    have huv : u = v := Option.some.inj hv
    show v ∉ g.closed
    rw [← huv]
    exact fresh_of_enters henters hfresh
  | last u _ _ _ | alone u _ _ _ _ _ => exact fun v hv => by cases hv

theorem GramMove.new (h : GramMove g e g') (hfresh : g.Fresh) {v : U} (hv : e.role.gtid? = some v) :
    v ∉ g.closed := by
  cases h with
  | artificial hrole | between hrole _ _ => simp [hrole, Role.gtid?] at hv
  | inside u hrole henters _ | last u hrole henters _ | alone u hrole _ henters _ _ =>
    rw [hrole] at hv
    cases hv
    exact fresh_of_enters henters hfresh

/-- Every transaction of a stretch of the binlog is seen after it. -/
theorem runs_gramStep_seen : ∀ {es : List (Entry U D)} {g g' : Gram U} {v : U},
    runs gramStep g es = some g' → (g.Seen v ∨ ∃ e ∈ es, e.role.gtid? = some v) → g'.Seen v := by
  intro es
  induction es with
  | nil =>
    rintro g g' v h (hseen | ⟨e, he, -⟩)
    · cases h
      exact hseen
    · cases he
  | cons e es ih =>
    intro g g' v h hv
    obtain ⟨g₁, hg₁, hrest⟩ := Option.bind_eq_some_iff.mp h
    have hmove : GramMove g e g₁ := gramStep_some hg₁
    apply ih hrest
    rcases hv with hseen | ⟨x, hx, hrole⟩
    · exact Or.inl (hmove.seen (Or.inl hseen))
    · rcases mem_cons.mp hx with rfl | hmem
      · exact Or.inl (hmove.seen (Or.inr hrole))
      · exact Or.inr ⟨x, hmem, hrole⟩

/-- A transaction that has ended does not occur again. -/
theorem runs_gramStep_new : ∀ {es : List (Entry U D)} {g g' : Gram U}, g.Fresh →
    runs gramStep g es = some g' → ∀ e ∈ es, ∀ v, e.role.gtid? = some v → v ∉ g.closed := by
  intro es
  induction es with
  | nil =>
    intro g g' _ _ e he
    cases he
  | cons e es ih =>
    intro g g' hfresh h x hx v hrole
    obtain ⟨g₁, hg₁, hrest⟩ := Option.bind_eq_some_iff.mp h
    have hmove : GramMove g e g₁ := gramStep_some hg₁
    rcases mem_cons.mp hx with rfl | hmem
    · exact hmove.new hfresh hrole
    · exact fun hclosed =>
        ih (hmove.fresh hfresh) hrest x hmem v hrole (hmove.closed_subset hclosed)

theorem runs_gramStep_fresh {es : List (Entry U D)} (hfresh : g.Fresh)
    (h : runs gramStep g es = some g') : g'.Fresh :=
  runs_keeps Gram.Fresh (fun _ _ _ hg hstep => (gramStep_some hstep).fresh hg) hfresh h

/-- An open transaction is ended by a later entry. -/
theorem runs_gramStep_last : ∀ {es : List (Entry U D)} {g g' : Gram U} {u : U},
    runs gramStep g es = some g' → g.current = some u → g'.current = none →
    ∃ e ∈ es, e.role = .last u := by
  intro es
  induction es with
  | nil =>
    intro g g' u h hcur hnone
    cases h
    rw [hcur] at hnone
    cases hnone
  | cons e es ih =>
    intro g g' u h hcur hnone
    obtain ⟨g₁, hg₁, hrest⟩ := Option.bind_eq_some_iff.mp h
    have hlater : g₁.current = some u → ∃ x ∈ e :: es, x.role = .last u := by
      intro hcur₁
      obtain ⟨x, hx, hrole⟩ := ih hrest hcur₁ hnone
      exact ⟨x, mem_cons_of_mem e hx, hrole⟩
    have hsame : ∀ v, g.enters e v = true → v = u := by
      intro v hv
      rcases (enters_iff.mp hv).1 with hv | ⟨hv, -⟩
      · rw [hcur] at hv
        exact (Option.some.inj hv).symm
      · rw [hcur] at hv
        cases hv
    cases gramStep_some hg₁ with
    | artificial _ | between _ _ _ => exact hlater hcur
    | inside v _ henters _ => exact hlater (by rw [hsame v henters])
    | last v hrole henters _ => exact ⟨e, mem_cons_self, by rw [hrole, hsame v henters]⟩
    | alone v _ hopen _ _ _ =>
      rw [hcur] at hopen
      cases hopen

/-- The event of an entry agrees with its role. -/
def Entry.Fits (e : Entry U D) : Prop :=
  match e.role with
  | .artificial => True
  | .between => e.ev.event.isBetween = true
  | .inside _ => e.ev.event.inGroup = true
  | .last _ => e.ev.event.endsGroup = true
  | .alone _ => e.ev.event.isQuery = true ∧ e.ev.event.quiet = true

theorem GramMove.fits (h : GramMove g e g') : e.Fits := by
  unfold Entry.Fits
  cases h with
  | artificial hrole => simp [hrole]
  | between hrole _ hev => simpa [hrole] using hev
  | inside u hrole _ hev => simpa [hrole] using hev
  | last u hrole _ hev => simpa [hrole] using hev
  | alone u hrole _ _ hquery hquiet => simpa [hrole] using ⟨hquery, hquiet⟩

theorem runs_gramStep_mem : ∀ {es : List (Entry U D)} {g g' : Gram U},
    runs gramStep g es = some g' → ∀ e ∈ es, e.Fits := by
  intro es
  induction es with
  | nil =>
    intro g g' _ e he
    cases he
  | cons e es ih =>
    intro g g' h x hx
    obtain ⟨g₁, hg₁, hrest⟩ := Option.bind_eq_some_iff.mp h
    rcases mem_cons.mp hx with rfl | hmem
    · exact (gramStep_some hg₁).fits
    · exact ih hrest x hmem

end Gtid

/-! ### What an offset text is worth -/

section Pending

variable {U D V : Type} [DecidableEq U] (B : Binlog U D) (cfg : Config U D V)

theorem Binlog.fits : ∀ e ∈ B.entries, e.Fits := by
  obtain ⟨closed, hgram⟩ := B.grammar
  exact runs_gramStep_mem hgram

variable {pre r es c : List (Entry U D)}

/-- From the text of the position after `pre` the server serves what follows. -/
theorem Binlog.serve_filePos {p : ℕ × ℕ} (hsplit : B.entries = pre ++ r)
    (hruns : runs (posStep B.fileName) B.start pre = some p) :
    parseReplicationOffsetText cfg.codec (posToOffsetText (posAt B.fileName p)) =
        .ok (.filePos (posAt B.fileName p)) ∧
      B.serve (.filePos (posAt B.fileName p)) = some r := by
  have hreal : ∀ e ∈ pre, e.isReal = true := fun e he =>
    B.real e (by rw [hsplit]; exact mem_append_left r he)
  constructor
  · exact parse_posToOffsetText cfg.codec (runs_posStep_bound hreal B.start_lt hruns)
  · show suffixFrom B.fileName (posAt B.fileName p) B.start B.entries = some r
    rw [hsplit]
    exact suffixFrom_append B.fileName_inj hreal hruns

theorem Binlog.pending_filePos {p : ℕ × ℕ} (hsplit : B.entries = pre ++ r)
    (hruns : runs (posStep B.fileName) B.start pre = some p) :
    B.Pending cfg (posToOffsetText (posAt B.fileName p)) (changesOf cfg r) := by
  obtain ⟨hparse, hserve⟩ := B.serve_filePos cfg hsplit hruns
  exact ⟨_, r, hparse, hserve, rfl⟩

variable {e : Entry U D}

omit [DecidableEq U] in
/-- Entries between transactions carry no rows. -/
theorem changes_between (h : e.ev.event.isBetween = true) :
    e.changes cfg = [] := by
  unfold Entry.changes
  split
  case h_1 hev =>
    rw [hev] at h
    cases h
  case h_2 => rfl

/-- If all transactions of `es` are in the set, no rows are served from it. -/
theorem changesOf_filter_seen {gset : List U} (hreal : ∀ e ∈ es, e.isReal = true)
    (hfits : ∀ e ∈ es, e.Fits) (hseen : ∀ e ∈ es, ∀ u, e.role.gtid? = some u → u ∈ gset) :
    changesOf cfg (es.filter (unseen gset)) = [] := by
  unfold changesOf
  rw [flatMap_eq_nil_iff]
  intro e he
  obtain ⟨hmem, hunseen⟩ := mem_filter.mp he
  cases hgtid : e.role.gtid? with
  | some u =>
    have hu : u ∈ gset := hseen e hmem u hgtid
    simp [unseen, hgtid, hu] at hunseen
  | none =>
    have hf := hfits e hmem
    have hr := hreal e hmem
    unfold Entry.Fits at hf
    cases hrole : e.role with
    | artificial => simp [Entry.isReal, hrole] at hr
    | between =>
      rw [hrole] at hf
      exact changes_between cfg hf
    | inside u | last u | alone u => simp [hrole, Role.gtid?] at hgtid

/-- The group structure around an entry. -/
theorem Binlog.cut {pre post : List (Entry U D)} (h : B.entries = pre ++ e :: post) :
    ∃ g g' closed, runs gramStep ⟨none, []⟩ pre = some g ∧ g.Fresh ∧ GramMove g e g' ∧
      runs gramStep g' post = some ⟨none, closed⟩ := by
  obtain ⟨closed, hgram⟩ := B.grammar
  rw [h, runs_append] at hgram
  obtain ⟨g, hpre, hrest⟩ := Option.bind_eq_some_iff.mp hgram
  obtain ⟨g', he, hpost⟩ := Option.bind_eq_some_iff.mp hrest
  have hfresh : g.Fresh := runs_gramStep_fresh (fun u hu => by cases hu) hpre
  exact ⟨g, g', closed, hpre, hfresh, gramStep_some he, hpost⟩

omit [DecidableEq U] in
/-- Cutting a filtered list cuts the list. -/
theorem filter_cut {p : Entry U D → Bool} (h : es.filter p = c ++ e :: r) :
    ∃ pre post, es = pre ++ e :: post ∧ p e = true ∧ post.filter p = r := by
  obtain ⟨pre, rest, hes, -, hrest⟩ := filter_eq_append_iff.mp h
  obtain ⟨pre', post, hrest', -, hp, hpost⟩ := filter_eq_cons_iff.mp hrest
  exact ⟨pre ++ pre', post, by rw [hes, hrest', append_assoc], hp, hpost⟩

/-- At the end of a transaction among those served from `gset`, the executed set
stands for the later ones. -/
theorem Binlog.pending_gtid {gset : List U} {u : U}
    (hserved : B.entries.filter (unseen gset) = c ++ e :: r) (hrole : e.role = .last u) :
    B.Pending cfg (cfg.codec.string (gset ++ e.executed)) (changesOf cfg r) := by
  -- cut the whole binlog at the same entry
  obtain ⟨pre, post, hsplit, -, hpost⟩ := filter_cut hserved
  obtain ⟨g, g', closed, hpre, hfresh, hmove, hrest⟩ := B.cut hsplit
  have hfresh' : g'.Fresh := hmove.fresh hfresh
  cases hmove with
  | artificial h | between h _ _ | inside v h _ _ | alone v h _ _ _ _ =>
    rw [hrole] at h
    cases h
  | last v h henters _ =>
    rw [hrole] at h
    cases h
    have hexecuted : e.executed = g.closed ++ [u] := (enters_iff.mp henters).2
    obtain ⟨gset', hparse, hmem⟩ := parse_gtidString cfg.codec (gset ++ e.executed)
    -- the transactions up to here are in the set
    have hbefore : changesOf cfg ((pre ++ [e]).filter (unseen gset')) = [] := by
      have hin : ∀ x ∈ pre ++ [e], x ∈ B.entries := by
        intro x hx
        rw [hsplit, append_cons]
        exact mem_append_left post hx
      refine changesOf_filter_seen cfg (fun x hx => B.real x (hin x hx))
        (fun x hx => B.fits x (hin x hx)) fun x hx v hv => ?_
      rw [hmem, hexecuted]
      apply mem_append_right
      rcases mem_append.mp hx with hx | hx
      · have hseen : v ∈ g.closed ∨ v = u :=
          seen_of_enters henters (runs_gramStep_seen hpre (Or.inr ⟨x, hx, hv⟩))
        rcases hseen with hclosed | rfl
        · exact mem_append_left _ hclosed
        · exact mem_append_right _ (mem_singleton_self v)
      · rw [mem_singleton.mp hx, hrole] at hv
        cases hv
        exact mem_append_right _ (mem_singleton_self u)
    -- the later ones are in it only if they were not served
    have hafter : post.filter (unseen gset') = r := by
      rw [← hpost]
      apply filter_congr
      intro x hx
      cases hgtid : x.role.gtid? with
      | none => simp [unseen, hgtid]
      | some v =>
        have hnew : v ∉ g.closed ++ [u] := runs_gramStep_new hfresh' hrest x hx v hgtid
        have hiff : v ∈ gset' ↔ v ∈ gset := by
          rw [hmem, hexecuted, mem_append]
          exact or_iff_left hnew
        simp [unseen, hgtid, hiff]
    refine ⟨.gtid gset', B.entries.filter (unseen gset'), hparse, rfl, ?_⟩
    rw [hsplit, append_cons, filter_append, changesOf_append, hbefore, hafter]
    rfl

/-- A transaction of which an inside entry is served is served to its end. -/
theorem Binlog.served_last {offset : ReplicationOffset U} {u : U}
    (hserved : B.serve offset = some (c ++ e :: r)) (hrole : e.role = .inside u) :
    ∃ x ∈ r, x.role = .last u := by
  -- in the whole binlog the group ends
  have hends : ∀ {pre post : List (Entry U D)}, B.entries = pre ++ e :: post →
      ∃ x ∈ post, x.role = .last u := by
    intro pre post hsplit
    obtain ⟨g, g', closed, -, -, hmove, hrest⟩ := B.cut hsplit
    cases hmove with
    | artificial h | between h _ _ | last v h _ _ | alone v h _ _ _ _ =>
      rw [hrole] at h
      cases h
    | inside v h _ _ =>
      rw [hrole] at h
      cases h
      exact runs_gramStep_last hrest rfl rfl
  cases offset with
  | filePos pos =>
    obtain ⟨pre, p, hsplit, -, -⟩ := suffixFrom_some hserved
    rw [← append_assoc] at hsplit
    exact hends hsplit
  | gtid gset =>
    obtain ⟨pre, post, hsplit, hunseen, hpost⟩ := filter_cut (Option.some.inj hserved)
    obtain ⟨x, hx, hlast⟩ := hends hsplit
    refine ⟨x, ?_, hlast⟩
    rw [← hpost]
    apply mem_filter.mpr ⟨hx, ?_⟩
    simpa [unseen, hlast, hrole, Role.gtid?] using hunseen

end Pending

/-! ### A mirror of one table -/

/-- GTIDs are characters, and a set prints as the list of its members. -/
def listCodec : GTIDCodec Char where
  string gset := String.ofList ('g' :: ':' :: gset)
  parse text :=
    match text.toList with
    | 'g' :: ':' :: gset => .ok gset
    | _ => .error "not a GTID set"
  parse_string gset := ⟨gset, by simp only [String.toList_ofList], fun _ => Iff.rfl⟩
  string_notFilePos gset rest := by
    rw [String.toList_ofList]
    intro h
    cases h

/-- One mirrored table with one column. -/
def ordersCfg : Config Char ℕ ℕ where
  codec := listCodec
  tableNameMapping name := if name = "shop.orders" then some { name := "orders" } else none
  tableNameSchemaMapping name :=
    if name = "orders" then some ⟨[{ name := "id", type := "int32" }], ["id"], false, .q, false⟩
    else none
  binlogRowMetadataSupported := false
  fieldDescription col := .ok { name := col.name, type := "int32" }
  value _ d := .ok (some d)
  ofString := String.length

def ordersTable : TableMap := { schema := "shop", table := "orders" }

/-- The files are called `b`, `bb`, `bbb`, ... -/
theorem replicate_injective : Function.Injective fun n => String.ofList (List.replicate n 'b') := by
  intro n m h
  have hlist := congrArg (fun text => text.toList.length) h
  simpa using hlist

end MySQL
