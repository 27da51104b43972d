/-
The Elasticsearch destination: `SyncRecords` (`connectors/elasticsearch`).

The record loop adds one bulk operation per record to the bulk indexer of its
destination table.  Each indexer has one worker, which answers the operations of its
table in order by calling `OnSuccess` or `OnFailure`; a third goroutine, the flush
loop, persists the largest position seen so far.  `step` interleaves them: an action
is one step of one goroutine, and `AtomicInt64Max` is the compare-and-swap loop it
is.

Two questions are asked of the reachable states.

* Is every record whose transaction a persisted position declares done indexed?  Not
  if one table is ahead of another (`otherTable_unindexed`); it is if whenever an
  offset is persisted no operation is missing in front of an indexed one
  (`persisted_indexed`).
* Is every record of a batch that was reported as done indexed?  Not if an operation
  failed with an error other than an illegal argument, or after the last record was
  added (`failedIndex_reported`); it is if every failure is an illegal argument and is
  reported before the last look at the fatal error (`finished_indexed`).
-/
import PeerDB.Lib.Loop
import PeerDB.Lib.Offset
import PeerDB.Model.Record

open Loop Offset

namespace Elasticsearch

open List

inductive BulkAction where
  | index | delete
  deriving DecidableEq, Repr

def BulkAction.text : BulkAction → String
  | .index => "index"
  | .delete => "delete"

/-- What has become of a bulk operation.  `missing` is a delete of a document that
was not there. -/
inductive Status where
  | pending | indexed | missing | failed
  deriving DecidableEq, Repr

structure Item (V : Type) where
  src : SourceRecord V
  action : BulkAction
  documentID : String
  status : Status := .pending

def Item.table {V : Type} (it : Item V) : String := it.src.record.getDestinationTableName

/-- The operation was applied, or there was nothing to apply it to. -/
def Item.applied {V : Type} (it : Item V) : Bool :=
  match it.status with
  | .indexed | .missing => true
  | _ => false

/-- What a worker is told about an operation. -/
inductive Answer where
  | success
  | failure (status : ℕ) (err : Option String) (type reason causeType causeReason : String)
  deriving DecidableEq, Repr

structure Config (V H : Type) where
  tableNameSchemaMapping : String → Option TableSchema
  codec : KeyCodec V H
  /-- `recordItemsProcessor` -/
  marshal : Items V → Except String String
  /-- `fmt.Sprint` of a value -/
  sprint : Option V → String
  /-- the unpadded URL encoding of a key -/
  encodeKey : H → String

/-- Where the record loop stands. -/
inductive Phase where
  /-- waiting for a record -/
  | ready
  /-- a record was added; the fatal error is looked at next -/
  | added
  /-- the channel is closed, the indexers are being closed -/
  | closing
  | closed
  /-- `FinishBatch` has stored the checkpoint -/
  | finished
  | failed (err : String)
  deriving DecidableEq, Repr

structure State (V : Type) where
  /-- the records not taken from the channel yet -/
  todo : List (SourceRecord V)
  items : List (Item V) := []
  phase : Phase := .ready
  /-- the value a worker is raising `lastSeenLSN` to, and the value it has loaded -/
  raising : String → Option (ℕ × ℕ) := fun _ => none
  lastSeenLSN : ℕ := 0
  consumedOffset : ℕ := 0
  /-- the value the flush loop is about to persist -/
  flushing : Option ℕ := none
  bulkIndexFatalError : Option String := none
  bulkIndexErrors : List String := []
  /-- the offsets the flush loop has persisted, oldest first -/
  persisted : List ℕ := []

section Sync

variable {V H : Type} (cfg : Config V H)

/-- The document of a record: its only key column, or a hash of the key columns. -/
def documentID (r : Record V) : Except String String :=
  match cfg.tableNameSchemaMapping r.getDestinationTableName with
  | none => .error "nil table schema"
  | some schema =>
    match schema.primaryKeyColumns with
    | [col] =>
      match r.getItems.colToVal col with
      | none => .error s!"column name {col} not found"
      | some v => .ok (cfg.sprint v)
    | cols => (recToTablePKey cfg.codec cols r).map fun key =>
        (key.map fun k => cfg.encodeKey k.2).getD ""

/-- The action of a record; the document of an insert or update is marshalled. -/
def bulkAction (r : Record V) : Except String BulkAction :=
  match r.kind with
  | .insert | .update => (cfg.marshal r.getItems).map fun _ => .index
  | .delete => .ok .delete
  | _ => .ok .index

/-- One bulk operation. -/
def prepare (x : SourceRecord V) (indexerOk : Bool) : Except String (Item V) := do
  let action ← (bulkAction cfg x.record).mapError
    fun e => s!"[elasticsearch] failed to json.Marshal record: {e}"
  if !indexerOk then .error "[elasticsearch] failed to initialize bulk indexer"
  let docId ← (documentID cfg x.record).mapError
    fun e => s!"[elasticsearch] failed to process record: {e}"
  return { src := x, action := action, documentID := docId }

/-- Is the operation the next one its worker answers? -/
def State.isNext (s : State V) (i : ℕ) (it : Item V) : Bool :=
  decide (it.status = .pending) && (s.raising it.table).isNone &&
    (s.items.take i).all fun other => decide (other.table = it.table → other.status ≠ .pending)

def State.setStatus (s : State V) (i : ℕ) (it : Item V) (st : Status) : State V :=
  { s with items := s.items.set i { it with status := st } }

/-- `OnFailure`, for a failure that counts. -/
def State.onFailure (s : State V) (it : Item V) (err : Option String)
    (type reason causeType causeReason : String) : State V :=
  match err with
  | some e => { s with bulkIndexErrors := s.bulkIndexErrors ++ [e] }
  | none =>
    let causeString :=
      if causeType ≠ "" ∨ causeReason ≠ "" then
        s!"(caused by type:{causeType} reason:{causeReason})"
      else ""
    let id := it.documentID
    let action := it.action.text
    let cbErr := s!"id:{id} action:{action} type:{type} reason:{reason} {causeString}"
    { s with
      bulkIndexErrors := s.bulkIndexErrors ++ [cbErr]
      bulkIndexFatalError :=
        if type = "illegal_argument_exception" then some cbErr else s.bulkIndexFatalError }

inductive Action where
  /-- take a record; creating its indexer or adding the operation may fail -/
  | next (indexerOk addOk : Bool)
  | check
  /-- a worker answers the operation with this index -/
  | answer (i : ℕ) (a : Answer)
  | compareAndSwap (table : String)
  | tick
  | persist (ok : Bool)
  | endOfRecords
  | close (ok : Bool)
  | finishBatch (ok : Bool)

/-- A callback. -/
def answer (s : State V) (i : ℕ) (a : Answer) : Option (State V) :=
  match s.items[i]? with
  | none => none
  | some it =>
    if s.isNext i it then
      match a with
      | .success =>
        some { s.setStatus i it .indexed with
          raising := fun t =>
            if t = it.table then some (it.src.lsn, s.lastSeenLSN) else s.raising t }
      | .failure status err type reason causeType causeReason =>
        -- attempt to delete a record that was not present
        if it.action = .delete ∧ status = 404 then some (s.setStatus i it .missing)
        else some ((s.setStatus i it .failed).onFailure it err type reason causeType causeReason)
    else none

def step (s : State V) : Action → Option (State V)
  | .next indexerOk addOk =>
    match s.phase, s.todo with
    | .ready, x :: todo =>
      if x.isMessage then some { s with todo := todo }
      else
        match prepare cfg x indexerOk with
        | .error e => some { s with phase := .failed e }
        | .ok it =>
          if addOk then some { s with todo := todo, items := s.items ++ [it], phase := .added }
          else some { s with
            phase := .failed "[elasticsearch] failed to add record to bulk indexer" }
    | _, _ => none
  | .check =>
    match s.phase with
    | .added =>
      match s.bulkIndexFatalError with
      | some e => some { s with
          phase := .failed s!"[elasticsearch] fatal error while indexing record: {e}" }
      | none => some { s with phase := .ready }
    | _ => none
  | .answer i a => answer s i a
  | .compareAndSwap table =>
    (s.raising table).map fun r =>
      let (cell, again) := casMax s.lastSeenLSN r.1 r.2
      { s with
        lastSeenLSN := cell
        raising := fun t => if t = table then again.map fun old => (r.1, old) else s.raising t }
  | .tick =>
    if s.flushing.isNone ∧ s.lastSeenLSN > s.consumedOffset then
      some { s with flushing := some s.lastSeenLSN }
    else some s
  | .persist ok =>
    s.flushing.map fun o =>
      if ok then { s with
        flushing := none
        consumedOffset := max s.consumedOffset o
        persisted := s.persisted ++ [o] }
      else { s with flushing := none }
  | .endOfRecords =>
    match s.phase, s.todo with
    | .ready, [] => some { s with phase := .closing }
    | _, _ => none
  | .close ok =>
    match s.phase with
    | .closing =>
      if ok then
        -- closing an indexer waits for the answers to its operations
        if s.items.all fun it => decide (it.status ≠ .pending) then some { s with phase := .closed }
        else none
      else some { s with phase := .failed "[elasticsearch] failed to close bulk indexer(s)" }
    | _ => none
  | .finishBatch ok =>
    match s.phase with
    | .closed =>
      some { s with phase := if ok then .finished else .failed "failed to finish batch" }
    | _ => none

/-- The records added so far and those to come. -/
def State.sources (s : State V) : List (SourceRecord V) := s.items.map Item.src ++ s.todo

/-- The record is indexed, or was a delete of a missing document. -/
structure State.Indexed (s : State V) (x : SourceRecord V) : Prop where
  taken : x ∉ s.todo
  added : ∃ it ∈ s.items, it.src = x
  applied : ∀ it ∈ s.items, it.src = x → it.applied = true

/-- A batch that is about to be synced. -/
def State.init (records : List (SourceRecord V)) (consumedOffset : ℕ) : State V :=
  { todo := records, consumedOffset := consumedOffset }

end Sync

/-! ### What one step does -/

section Spec

variable {V H : Type} {cfg : Config V H}

/-- The effect of a step, by cases. -/
inductive Move (s : State V) : Action → State V → Prop
  | skip {x : SourceRecord V} {todo : List (SourceRecord V)} (indexerOk addOk : Bool) :
      s.phase = .ready → s.todo = x :: todo → x.isMessage = true →
      Move s (.next indexerOk addOk) { s with todo := todo }
  | add {x : SourceRecord V} {todo : List (SourceRecord V)} {it : Item V} (indexerOk : Bool) :
      s.phase = .ready → s.todo = x :: todo → x.isMessage = false → it.src = x →
      it.status = .pending → Move s (.next indexerOk true)
        { s with todo := todo, items := s.items ++ [it], phase := .added }
  | fail (act : Action) (err : String) : Move s act { s with phase := .failed err }
  | pass : s.phase = .added → s.bulkIndexFatalError = none →
      Move s .check { s with phase := .ready }
  | success {i : ℕ} {it : Item V} : s.items[i]? = some it → s.isNext i it = true →
      Move s (.answer i .success) { s.setStatus i it .indexed with
        raising := fun t =>
          if t = it.table then some (it.src.lsn, s.lastSeenLSN) else s.raising t }
  | missing {i : ℕ} {it : Item V} (err : Option String)
      (type reason causeType causeReason : String) :
      s.items[i]? = some it → s.isNext i it = true → it.action = .delete →
      Move s (.answer i (.failure 404 err type reason causeType causeReason))
        (s.setStatus i it .missing)
  | failure {i status : ℕ} {it : Item V} (err : Option String)
      (type reason causeType causeReason : String) :
      s.items[i]? = some it → s.isNext i it = true → ¬ (it.action = .delete ∧ status = 404) →
      Move s (.answer i (.failure status err type reason causeType causeReason))
        ((s.setStatus i it .failed).onFailure it err type reason causeType causeReason)
  | raise {table : String} {v old : ℕ} : s.raising table = some (v, old) →
      Move s (.compareAndSwap table) { s with
        lastSeenLSN := (casMax s.lastSeenLSN v old).1
        raising := fun t => if t = table then (casMax s.lastSeenLSN v old).2.map fun o => (v, o)
                            else s.raising t }
  | idle : Move s .tick s
  | load : s.lastSeenLSN > s.consumedOffset →
      Move s .tick { s with flushing := some s.lastSeenLSN }
  | persist {o : ℕ} : s.flushing = some o → Move s (.persist true) { s with
      flushing := none
      consumedOffset := max s.consumedOffset o
      persisted := s.persisted ++ [o] }
  | unsaved : Move s (.persist false) { s with flushing := none }
  | endOfRecords : s.phase = .ready → s.todo = [] →
      Move s .endOfRecords { s with phase := .closing }
  | close : s.phase = .closing → (∀ it ∈ s.items, it.status ≠ .pending) →
      Move s (.close true) { s with phase := .closed }
  | finish : s.phase = .closed → Move s (.finishBatch true) { s with phase := .finished }

variable {it other : Item V}

theorem prepare_ok {x : SourceRecord V} {indexerOk : Bool} (h : prepare cfg x indexerOk = .ok it) :
    it.src = x ∧ it.status = .pending := by
  rw [prepare] at h
  obtain ⟨action, -, h⟩ := bind_eq_ok h
  cases indexerOk with
  | true =>
    obtain ⟨docId, -, h⟩ := bind_eq_ok h
    cases h
    exact ⟨rfl, rfl⟩
  | false =>
    obtain ⟨u, hu, -⟩ := bind_eq_ok h
    cases hu

variable {s s' : State V}

/-- Taking a record: a message is skipped, any other record is added or ends the batch. -/
theorem next_move {indexerOk addOk : Bool} (h : step cfg s (.next indexerOk addOk) = some s') :
    Move s (.next indexerOk addOk) s' := by
  simp only [step] at h
  split at h
  case h_1 x todo hphase htodo =>
    split_ifs at h with hmsg hok
    · cases h
      exact .skip indexerOk addOk hphase htodo hmsg
    · split at h <;> cases h
      · exact .fail _ _
      · obtain ⟨hsrc, hpending⟩ := prepare_ok ‹_›
        exact hok ▸ .add indexerOk hphase htodo (Bool.not_eq_true _ ▸ hmsg) hsrc hpending
    · split at h <;> cases h <;> exact .fail _ _
  case h_2 => cases h

/-- Answering an operation. -/
theorem answer_move {i : ℕ} {a : Answer} (h : answer s i a = some s') :
    Move s (.answer i a) s' := by
  unfold answer at h
  split at h
  case h_1 => cases h
  case h_2 it hit =>
    split_ifs at h with hnext
    cases a with
    | success =>
      cases h
      exact .success hit hnext
    | failure status err type reason causeType causeReason =>
      simp only at h
      split_ifs at h with hmissing <;> cases h
      · obtain ⟨hdelete, rfl⟩ := hmissing
        exact .missing err type reason causeType causeReason hit hnext hdelete
      · exact .failure err type reason causeType causeReason hit hnext hmissing

theorem step_move {act : Action} (h : step cfg s act = some s') :
    Move s act s' := by
  cases act with
  | next indexerOk addOk => exact next_move h
  | answer i a => exact answer_move h
  | check =>
    simp only [step] at h
    split at h
    · split at h <;> cases h
      · exact .fail _ _
      · exact .pass ‹_› ‹_›
    · cases h
  | compareAndSwap table =>
    obtain ⟨⟨v, old⟩, hraising, rfl⟩ := Option.map_eq_some_iff.mp h
    exact .raise hraising
  | tick =>
    simp only [step] at h
    split_ifs at h with hload <;> cases h
    · exact .load hload.2
    · exact .idle
  | persist ok =>
    obtain ⟨o, ho, rfl⟩ := Option.map_eq_some_iff.mp h
    cases ok with
    | true => exact .persist ho
    | false => exact .unsaved
  | endOfRecords =>
    simp only [step] at h
    split at h <;> cases h
    exact .endOfRecords ‹_› ‹_›
  | close ok =>
    simp only [step] at h
    split at h
    · split_ifs at h with hok hall <;> cases h
      · exact hok ▸ .close ‹_› (by simpa using hall)
      · exact .fail _ _
    · cases h
  | finishBatch ok =>
    simp only [step] at h
    split at h
    · split_ifs at h with hok <;> cases h
      · exact hok ▸ .finish ‹_›
      · exact .fail _ _
    · cases h

/-! ### Answering an operation -/

theorem State.isNext_pending {i : ℕ} (h : s.isNext i it = true) :
    it.status = .pending := by
  simp only [State.isNext, Bool.and_eq_true, decide_eq_true_eq] at h
  exact h.1.1

theorem setStatus_src {i : ℕ} (st : Status) (h : s.items[i]? = some it) :
    (s.setStatus i it st).items.map Item.src = s.items.map Item.src := by
  obtain ⟨hi, rfl⟩ := List.getElem?_eq_some_iff.mp h
  have hi' : i < (s.items.map Item.src).length := by simpa using hi
  have hself := List.set_getElem_self hi'
  rw [List.getElem_map] at hself
  show (s.items.set i _).map Item.src = _
  rw [List.map_set]
  exact hself

/-- An operation that was answered before is untouched. -/
theorem mem_setStatus_of_mem {i : ℕ} {st : Status} (h : s.items[i]? = some it)
    (hpending : it.status = .pending) (hother : other ∈ s.items)
    (hanswered : other.status ≠ .pending) : other ∈ (s.setStatus i it st).items := by
  obtain ⟨j, hj⟩ := mem_iff_getElem?.mp hother
  have hne : i ≠ j := by
    rintro rfl
    rw [h] at hj
    cases hj
    exact hanswered hpending
  apply mem_iff_getElem?.mpr
  refine ⟨j, ?_⟩
  show (s.items.set i _)[j]? = some other
  rw [getElem?_set_ne hne]
  exact hj

theorem mem_of_mem_setStatus {i : ℕ} {st : Status} (h : other ∈ (s.setStatus i it st).items) :
    other ∈ s.items ∨ other = { it with status := st } :=
  mem_or_eq_of_mem_set h

theorem onFailure_items (s : State V) (it : Item V) (err : Option String)
    (type reason causeType causeReason : String) :
    (s.onFailure it err type reason causeType causeReason).items = s.items ∧
    (s.onFailure it err type reason causeType causeReason).todo = s.todo ∧
    (s.onFailure it err type reason causeType causeReason).phase = s.phase ∧
    (s.onFailure it err type reason causeType causeReason).raising = s.raising ∧
    (s.onFailure it err type reason causeType causeReason).lastSeenLSN = s.lastSeenLSN ∧
    (s.onFailure it err type reason causeType causeReason).flushing = s.flushing ∧
    (s.onFailure it err type reason causeType causeReason).persisted = s.persisted := by
  cases err with
  | none | some => exact ⟨rfl, rfl, rfl, rfl, rfl, rfl, rfl⟩

end Spec

/-! ### Persisted offsets -/

section Persisted

variable {V H : Type} {cfg : Config V H}

/-- Operations are answered once and in the order of the records. -/
structure Keeps (s s' : State V) : Prop where
  answered : ∀ it ∈ s.items, it.status ≠ .pending → it ∈ s'.items
  items : ∀ it ∈ s'.items, it ∈ s.items ∨ (∃ old ∈ s.items, old.status = .pending ∧
    old.src = it.src) ∨ (it.src ∈ s.todo ∧ it.src.isMessage = false)
  todo : s'.todo ⊆ s.todo
  sources : s'.sources.Sublist s.sources
  covers : ∀ x ∈ s.sources, x.isMessage = false → x ∈ s'.sources

variable {s s' : State V}

/-- No record moves. -/
theorem Keeps.of_sources (hsources : s'.sources = s.sources) (htodo : s'.todo = s.todo)
    (hanswered : ∀ it ∈ s.items, it.status ≠ .pending → it ∈ s'.items)
    (hitems : ∀ it ∈ s'.items, it ∈ s.items ∨
      ∃ old ∈ s.items, old.status = .pending ∧ old.src = it.src) : Keeps s s' :=
  ⟨hanswered, fun it hit => (hitems it hit).imp id Or.inl, htodo ▸ List.Subset.refl _,
    hsources ▸ List.Sublist.refl _, fun _ hx _ => hsources ▸ hx⟩

theorem Keeps.of_eq (hitems : s'.items = s.items) (htodo : s'.todo = s.todo) :
    Keeps s s' :=
  .of_sources (by rw [State.sources, State.sources, hitems, htodo]) htodo
    (fun _ hit _ => hitems ▸ hit) fun _ hit => Or.inl (hitems ▸ hit)

theorem keeps_setStatus {i : ℕ} {it : Item V} {st : Status} (hit : s.items[i]? = some it)
    (hpending : it.status = .pending) (hitems : s'.items = (s.setStatus i it st).items)
    (htodo : s'.todo = s.todo) :
    Keeps s s' := by
  refine .of_sources ?_ htodo (fun other hother hanswered => ?_) fun other hother => ?_
  · rw [State.sources, State.sources, hitems, htodo, setStatus_src st hit]
  · rw [hitems]
    exact mem_setStatus_of_mem hit hpending hother hanswered
  · rw [hitems] at hother
    rcases mem_of_mem_setStatus hother with hold | rfl
    · exact Or.inl hold
    · exact Or.inr ⟨it, mem_of_getElem? hit, hpending, rfl⟩

theorem Move.keeps {act : Action} (h : Move s act s') : Keeps s s' := by
  cases h with
  | @skip x todo indexerOk addOk _ htodo hmsg =>
    have hsources : s.sources = s.items.map Item.src ++ x :: todo := by rw [State.sources, htodo]
    refine ⟨fun it hit _ => hit, fun it hit => Or.inl hit, ?_, ?_, fun y hy hrow => ?_⟩
    · rw [htodo]
      exact subset_cons_self _ _
    · rw [hsources]
      exact List.Sublist.append_left (sublist_cons_self _ _) _
    · rw [hsources] at hy
      rcases mem_append.mp hy with hitem | hrest
      · exact mem_append_left _ hitem
      · rcases mem_cons.mp hrest with rfl | htail
        · rw [hmsg] at hrow
          cases hrow
        · exact mem_append_right _ htail
  | @add x todo it indexerOk _ htodo hmsg hsrc _ =>
    have hsources : s.sources = (s.items ++ [it]).map Item.src ++ todo := by
      rw [State.sources, htodo, map_append, append_assoc]
      simp [hsrc]
    refine ⟨fun it hit _ => mem_append_left _ hit, fun other hother => ?_, ?_, ?_,
      fun y hy _ => ?_⟩
    · rcases mem_append.mp hother with hold | hnew
      · exact Or.inl hold
      · obtain rfl := mem_singleton.mp hnew
        refine Or.inr (Or.inr ⟨?_, by rw [hsrc]; exact hmsg⟩)
        rw [hsrc, htodo]
        exact mem_cons_self
    · rw [htodo]
      exact subset_cons_self _ _
    · rw [hsources]
      exact List.Sublist.refl _
    · rw [hsources] at hy
      exact hy
  | success hit hnext => exact keeps_setStatus hit (State.isNext_pending hnext) rfl rfl
  | missing err type reason causeType causeReason hit hnext _ =>
    exact keeps_setStatus hit (State.isNext_pending hnext) rfl rfl
  | @failure i status it err type reason causeType causeReason hit hnext _ =>
    obtain ⟨hitems, htodo, -⟩ :=
      onFailure_items (s.setStatus i it .failed) it err type reason causeType causeReason
    exact keeps_setStatus hit (State.isNext_pending hnext) hitems htodo
  | fail | pass | raise | idle | load | persist | unsaved | endOfRecords | close | finish =>
    exact Keeps.of_eq rfl rfl

/-- The position of an indexed record. -/
def State.Acked (s : State V) (lsn : ℕ) : Prop :=
  ∃ it ∈ s.items, it.status = .indexed ∧ it.src.lsn = lsn

/-- Every record of a transaction up to the offset is indexed, or was a delete of a
missing document. -/
structure State.Settled (s : State V) (o : ℕ) : Prop where
  added : ∀ it ∈ s.items, it.src.commitLSN ≤ o → it.applied = true
  todo : ∀ x ∈ s.todo, x.isMessage = false → o < x.commitLSN

/-- No operation is missing in front of an indexed one. -/
def State.Contiguous (s : State V) : Prop :=
  s.items.Pairwise fun it later => later.status = .indexed → it.applied = true

instance (s : State V) : Decidable s.Contiguous := inferInstanceAs (Decidable (List.Pairwise _ _))

/-- Records come in commit order, and the positions in flight are those of indexed
records. -/
structure Inv (s : State V) : Prop where
  ordered : CommitOrdered SourceRecord.lsn SourceRecord.commitLSN s.sources
  seen : s.lastSeenLSN = 0 ∨ s.Acked s.lastSeenLSN
  raising : ∀ t v old, s.raising t = some (v, old) → s.Acked v
  flushing : ∀ o, s.flushing = some o → s.Acked o
  persisted : ∀ o ∈ s.persisted, s.Settled o

/-- **Commit order at work**: a position of an indexed record settles everything in
front of it. -/
theorem Inv.settled (h : Inv s) (hcontiguous : s.Contiguous) {o : ℕ} (hacked : s.Acked o) :
    s.Settled o := by
  obtain ⟨y, hy, hindexed, rfl⟩ := hacked
  constructor
  · intro it hit hcommit
    obtain ⟨pre, post, hsplit⟩ := append_of_mem hy
    have hordered : CommitOrdered (fun i : Item V => i.src.lsn) (fun i => i.src.commitLSN)
        (pre ++ y :: post) := by
      rw [← hsplit]
      refine ⟨?_, fun a ha => h.ordered.left.below a.src (mem_map_of_mem ha)⟩
      have hsorted := h.ordered.left.sorted
      rwa [pairwise_map] at hsorted
    have hbefore : it ∈ pre := hordered.before (hsplit ▸ hit) hcommit
    have hpair := hcontiguous
    rw [State.Contiguous, hsplit, pairwise_append] at hpair
    exact hpair.2.2 it hbefore y mem_cons_self hindexed
  · intro x hx _
    exact h.ordered.after (mem_map_of_mem hy) hx

theorem Keeps.acked (h : Keeps s s') {lsn : ℕ} (hacked : s.Acked lsn) :
    s'.Acked lsn := by
  obtain ⟨it, hit, hindexed, hlsn⟩ := hacked
  exact ⟨it, h.answered it hit (by rw [hindexed]; decide), hindexed, hlsn⟩

theorem Keeps.settled (h : Keeps s s') {o : ℕ} (hsettled : s.Settled o) :
    s'.Settled o := by
  constructor
  · intro it hit hcommit
    rcases h.items it hit with hold | ⟨old, hold, hpending, hsrc⟩ | ⟨htodo, hmsg⟩
    · exact hsettled.added it hold hcommit
    · -- a pending operation was not settled
      have happlied := hsettled.added old hold (by rw [hsrc]; exact hcommit)
      rw [Item.applied, hpending] at happlied
      cases happlied
    · have hlt := hsettled.todo it.src htodo hmsg
      omega
  · intro x hx hmsg
    exact hsettled.todo x (h.todo hx) hmsg

def Action.persists : Action → Bool
  | .persist ok => ok
  | _ => false

/-- The condition on a step: an offset is persisted only while no operation is
missing in front of an indexed one. -/
def Clear (s : State V) (act : Action) : Prop := act.persists = true → s.Contiguous

instance (s : State V) (act : Action) : Decidable (Clear s act) :=
  inferInstanceAs (Decidable (_ → _))

/-- **Step.**  Every step that meets the condition keeps the invariant. -/
theorem step_inv {act : Action} (h : Inv s) (hclear : Clear s act)
    (hstep : step cfg s act = some s') : Inv s' := by
  have hmove : Move s act s' := step_move hstep
  have hkeeps : Keeps s s' := hmove.keeps
  have hordered := h.ordered.sublist hkeeps.sources
  have hseen : s'.lastSeenLSN = s.lastSeenLSN → s'.lastSeenLSN = 0 ∨ s'.Acked s'.lastSeenLSN := by
    intro heq
    rw [heq]
    exact h.seen.imp id hkeeps.acked
  have hraising : ∀ t v old, s.raising t = some (v, old) → s'.Acked v :=
    fun t v old ht => hkeeps.acked (h.raising t v old ht)
  have hflushing : ∀ o, s.flushing = some o → s'.Acked o :=
    fun o ho => hkeeps.acked (h.flushing o ho)
  have hpersisted : ∀ o ∈ s.persisted, s'.Settled o :=
    fun o ho => hkeeps.settled (h.persisted o ho)
  cases hmove with
  | skip | add | fail | pass | missing | idle | endOfRecords | close | finish =>
    exact ⟨hordered, hseen rfl, hraising, hflushing, hpersisted⟩
  | unsaved => exact ⟨hordered, hseen rfl, hraising, fun _ ho => (by cases ho), hpersisted⟩
  | @failure i status it err type reason causeType causeReason _ _ _ =>
    obtain ⟨-, -, -, hr, hl, hf, hp⟩ :=
      onFailure_items (s.setStatus i it .failed) it err type reason causeType causeReason
    exact ⟨hordered, hseen hl, hr ▸ hraising, hf ▸ hflushing, hp ▸ hpersisted⟩
  | @success i it hit hnext =>
    refine ⟨hordered, hseen rfl, ?_, hflushing, hpersisted⟩
    -- the worker starts to raise the position of the record it has indexed
    intro t v old ht
    by_cases htable : t = it.table
    · simp only [if_pos htable, Option.some.injEq, Prod.mk.injEq] at ht
      obtain ⟨rfl, -⟩ := ht
      obtain ⟨hi, -⟩ := List.getElem?_eq_some_iff.mp hit
      exact ⟨{ it with status := .indexed }, List.mem_set hi _, rfl, rfl⟩
    · simp only [if_neg htable] at ht
      exact hraising t v old ht
  | @raise table v old hr =>
    have hv := h.raising table v old hr
    refine ⟨hordered, ?_, ?_, hflushing, hpersisted⟩
    · rcases casMax_fst s.lastSeenLSN v old with heq | heq
      · exact hseen heq
      · right
        show State.Acked _ (casMax s.lastSeenLSN v old).1
        rw [heq]
        exact hkeeps.acked hv
    · intro t w old' ht
      by_cases htable : t = table
      · simp only [if_pos htable, Option.map_eq_some_iff, Prod.mk.injEq] at ht
        obtain ⟨o, -, rfl, -⟩ := ht
        exact hkeeps.acked hv
      · simp only [if_neg htable] at ht
        exact hraising t w old' ht
  | load hlt =>
    refine ⟨hordered, hseen rfl, hraising, ?_, hpersisted⟩
    intro o ho
    cases ho
    rcases h.seen with hzero | hacked
    · omega
    · exact hkeeps.acked hacked
  | @persist o ho =>
    refine ⟨hordered, hseen rfl, hraising, fun _ ho => (by cases ho), ?_⟩
    intro o' ho'
    rcases List.mem_append.mp ho' with hold | hnew
    · exact hpersisted o' hold
    · obtain rfl := List.mem_singleton.mp hnew
      exact hkeeps.settled (h.settled (hclear rfl) (h.flushing _ ho))

/-- No record of the batch gets lost on the way. -/
theorem run_sources {records : List (SourceRecord V)} {consumedOffset : ℕ} {acts : List Action}
    (hrun : runs (step cfg) (State.init records consumedOffset) acts = some s) :
    ∀ x ∈ records, x.isMessage = false → x ∈ s.sources := by
  intro x hx hrow
  exact runs_keeps (fun s => x ∈ s.sources)
    (fun _ _ _ hs hstep => (step_move hstep).keeps.covers x hs hrow) hx hrun

theorem State.Settled.indexed {o : ℕ} (h : s.Settled o) {x : SourceRecord V} (hx : x ∈ s.sources)
    (hrow : x.isMessage = false) (hcommit : x.commitLSN ≤ o) :
    s.Indexed x := by
  have htaken : x ∉ s.todo := by
    intro htodo
    have hlt := h.todo x htodo hrow
    omega
  refine ⟨htaken, ?_, fun it hit hsrc => h.added it hit (by rw [hsrc]; exact hcommit)⟩
  rcases mem_append.mp hx with hitem | htodo
  · exact mem_map.mp hitem
  · exact absurd htodo htaken

/-- **Persisted offsets pass no unindexed record.**  In every run in which offsets are
persisted only while no operation is missing in front of an indexed one, at every
point and for every offset persisted so far, every record of a transaction up to the
offset is indexed. -/
theorem persisted_indexed {records : List (SourceRecord V)} {consumedOffset : ℕ}
    {acts : List Action} {s : State V}
    (hordered : CommitOrdered SourceRecord.lsn SourceRecord.commitLSN records)
    (hclear : Along (step cfg) Clear (State.init records consumedOffset) acts)
    (hrun : runs (step cfg) (State.init records consumedOffset) acts = some s) :
    ∀ o ∈ s.persisted, ∀ x ∈ records, x.isMessage = false → x.commitLSN ≤ o → s.Indexed x := by
  have hinit : Inv (State.init records consumedOffset) :=
    ⟨hordered, Or.inl rfl, fun _ _ _ h => (by cases h), fun _ h => (by cases h),
      fun _ h => (by cases h)⟩
  have hinv : Inv s :=
    runs_invariant Inv (fun _ _ _ hs hc hstep => step_inv hs hc hstep) hinit hclear hrun
  intro o ho x hx hrow hcommit
  exact (hinv.persisted o ho).indexed (run_sources hrun x hx hrow) hrow hcommit

/-- Tables with one key column. -/
def shopCfg : Config ℕ (List UInt8) where
  tableNameSchemaMapping _ := some { columns := [], primaryKeyColumns := ["id"] }
  codec := ⟨fun _ => [], id⟩
  marshal _ := .ok ""
  sprint v := (v.map Nat.repr).getD "<nil>"
  encodeKey _ := ""

def shopInsert (table : String) (lsn commitLSN : ℕ) : SourceRecord ℕ :=
  ⟨.insert ⟨lsn, 0, 0⟩ (Items.empty.addColumn "id" (some 1)) table table, commitLSN⟩

/-- Two transactions, each with a row of a table of its own. -/
def twoTables : List (SourceRecord ℕ) :=
  [shopInsert "orders" 50 100, shopInsert "items" 150 200]

def addBoth : List Action := [.next true true, .check, .next true true, .check]

def answerBoth : List Action :=
  addBoth ++ [.answer 0 .success, .compareAndSwap "orders", .answer 1 .success,
    .compareAndSwap "items", .tick, .persist true]

theorem answerBoth_indexed :
    ∃ s, runs (step shopCfg) (State.init twoTables 0) answerBoth = some s ∧ s.persisted = [150] ∧
      s.Indexed (shopInsert "orders" 50 100) := by
  have hordered : CommitOrdered SourceRecord.lsn SourceRecord.commitLSN twoTables :=
    ⟨by decide, by decide⟩
  have hclear : Along (step shopCfg) Clear (State.init twoTables 0) answerBoth :=
    along_of_check (by decide +kernel)
  have heval : (runs (step shopCfg) (State.init twoTables 0) answerBoth).map State.persisted =
      some [150] := by decide +kernel
  obtain ⟨s, hrun, hpersisted⟩ := Option.map_eq_some_iff.mp heval
  refine ⟨s, hrun, hpersisted, ?_⟩
  exact persisted_indexed hordered hclear hrun 150 (by rw [hpersisted]; decide) _ mem_cons_self
    rfl (by decide)

/-- The worker of the second table answers first. -/
def answerSecond : List Action :=
  addBoth ++ [.answer 1 .success, .compareAndSwap "items", .tick, .persist true]

theorem otherTable_unindexed :
    CommitOrdered SourceRecord.lsn SourceRecord.commitLSN twoTables ∧
      ∃ s, runs (step shopCfg) (State.init twoTables 0) answerSecond = some s ∧
        ∃ o ∈ s.persisted, ∃ x ∈ twoTables, x.isMessage = false ∧ x.commitLSN ≤ o ∧
          ¬ s.Indexed x := by
  have heval : (runs (step shopCfg) (State.init twoTables 0) answerSecond).map
      (fun s => (s.persisted, s.items.map fun it => (it.src.commitLSN, it.applied))) =
      some ([150], [(100, false), (200, true)]) := by decide +kernel
  obtain ⟨s, hrun, hs⟩ := Option.map_eq_some_iff.mp heval
  obtain ⟨hpersisted, hitems⟩ := Prod.mk.inj hs
  refine ⟨⟨by decide, by decide⟩, s, hrun, 150, by rw [hpersisted]; decide,
    shopInsert "orders" 50 100, mem_cons_self, rfl, by decide, ?_⟩
  intro hindexed
  obtain ⟨it, hit, hsrc⟩ := hindexed.added
  have hmem := mem_map_of_mem (f := fun it => (it.src.commitLSN, it.applied)) hit
  rw [hitems, hsrc, hindexed.applied it hit hsrc] at hmem
  revert hmem
  decide

end Persisted

/-! ### Reported batches -/

section Reported

variable {V H : Type} {cfg : Config V H}

/-- The record loop will look at the fatal error again, or has failed already. -/
def State.looks (s : State V) : Bool :=
  match s.phase with
  | .ready => s.todo.any fun x => !x.isMessage
  | .added | .failed _ => true
  | .closing | .closed | .finished => false

/-- The condition on a step: a failure that counts is an illegal argument, and the
record loop will look at the fatal error again. -/
def Reports (s : State V) : Action → Prop
  | .answer i (.failure status err type _ _ _) =>
    ∀ it ∈ s.items[i]?, (it.action = .delete ∧ status = 404) ∨
      (err = none ∧ type = "illegal_argument_exception" ∧ s.looks = true)
  | _ => True

instance (s : State V) (act : Action) : Decidable (Reports s act) := by
  unfold Reports
  split <;> infer_instance

/-- A failed operation is known to the record loop before it ends. -/
structure Reported (s : State V) : Prop where
  fatal : ∀ it ∈ s.items, it.status = .failed → s.bulkIndexFatalError ≠ none ∧ s.looks = true
  todo : s.phase = .closing ∨ s.phase = .closed ∨ s.phase = .finished → s.todo = []
  answered : s.phase = .closed ∨ s.phase = .finished → ∀ it ∈ s.items, it.status ≠ .pending

/-- Once the channel is closed nothing has failed. -/
theorem Reported.not_failed {s : State V} (h : Reported s)
    (hphase : s.phase = .ready ∧ s.todo = [] ∨ s.phase = .closing ∨ s.phase = .closed ∨
      s.phase = .finished) : ∀ it ∈ s.items, it.status ≠ .failed := by
  intro it hit hfailed
  have hlooks := (h.fatal it hit hfailed).2
  rw [State.looks] at hlooks
  rcases hphase with ⟨hphase, htodo⟩ | hphase | hphase | hphase <;> simp_all

/-- The answer to an operation that did not fail. -/
theorem Reported.setStatus {s : State V} (h : Reported s) {i : ℕ} {it : Item V} {st : Status}
    (hst : st = .indexed ∨ st = .missing) : Reported (s.setStatus i it st) := by
  refine ⟨fun other hother hfailed => ?_, h.todo, fun hphase other hother => ?_⟩
  · rcases mem_of_mem_setStatus hother with hold | rfl
    · exact h.fatal other hold hfailed
    · rcases hst with rfl | rfl <;> cases hfailed
  · rcases mem_of_mem_setStatus hother with hold | rfl
    · exact h.answered hphase other hold
    · rcases hst with rfl | rfl <;> simp

/-- **Step.**  Every step that meets the condition keeps failures known. -/
theorem step_reported {s s' : State V} {act : Action} (h : Reported s) (hreports : Reports s act)
    (hstep : step cfg s act = some s') : Reported s' := by
  cases step_move hstep with
  | @skip x todo indexerOk addOk hphase htodo hmsg =>
    refine ⟨fun it hit hfailed => ⟨(h.fatal it hit hfailed).1, ?_⟩, ?_, h.answered⟩
    · -- a skipped message is not the record that brings the next look
      have hlooks := (h.fatal it hit hfailed).2
      rw [State.looks, hphase, htodo] at hlooks
      rw [State.looks]
      simpa [hphase, hmsg] using hlooks
    · simp [hphase]
  | @add x todo it indexerOk _ _ _ _ hpending =>
    refine ⟨fun other hother hfailed => ⟨?_, rfl⟩, by simp, by simp⟩
    rcases mem_append.mp hother with hold | hnew
    · exact (h.fatal other hold hfailed).1
    · obtain rfl := mem_singleton.mp hnew
      rw [hpending] at hfailed
      cases hfailed
  | fail act err =>
    exact ⟨fun it hit hfailed => ⟨(h.fatal it hit hfailed).1, rfl⟩,
      by simp, by simp⟩
  | pass hphase hnone =>
    exact ⟨fun it hit hfailed => absurd hnone (h.fatal it hit hfailed).1, by simp, by simp⟩
  | success hit hnext =>
    obtain ⟨hfatal, htodo, hanswered⟩ := h.setStatus (Or.inl rfl)
    exact ⟨hfatal, htodo, hanswered⟩
  | missing => exact h.setStatus (Or.inr rfl)
  | @failure i status it err type reason causeType causeReason hit hnext hcounts =>
    obtain ⟨rfl, rfl, hlooks⟩ := (hreports it hit).resolve_left hcounts
    obtain ⟨hitems, htodo, hphase, -⟩ := onFailure_items (s.setStatus i it .failed) it none
      "illegal_argument_exception" reason causeType causeReason
    refine ⟨fun _ _ _ => ⟨?_, ?_⟩, ?_, fun hclosed other hother => ?_⟩
    · simp [State.onFailure]
    · exact hlooks
    · exact h.todo
    · rw [hitems] at hother
      rcases mem_of_mem_setStatus hother with hold | rfl
      · exact h.answered hclosed other hold
      · simp
  | raise | idle | load | persist | unsaved => exact ⟨h.fatal, h.todo, h.answered⟩
  | endOfRecords hphase htodo =>
    have hnot := h.not_failed (Or.inl ⟨hphase, htodo⟩)
    exact ⟨fun it hit hfailed => absurd hfailed (hnot it hit), fun _ => htodo, by simp⟩
  | close hphase hanswered =>
    have hnot := h.not_failed (Or.inr (Or.inl hphase))
    exact ⟨fun it hit hfailed => absurd hfailed (hnot it hit), fun _ => h.todo (Or.inl hphase),
      fun _ => hanswered⟩
  | finish hphase =>
    have hnot := h.not_failed (Or.inr (Or.inr (Or.inl hphase)))
    exact ⟨fun it hit hfailed => absurd hfailed (hnot it hit),
      fun _ => h.todo (Or.inr (Or.inl hphase)), fun _ => h.answered (Or.inl hphase)⟩

/-- **A batch reported as done is indexed.**  In every run in which each failure that
counts is an illegal argument and comes before the record loop's last look at the
fatal error, a batch whose checkpoint was stored is indexed. -/
theorem finished_indexed {records : List (SourceRecord V)} {consumedOffset : ℕ}
    {acts : List Action} {s : State V}
    (hreports : Along (step cfg) Reports (State.init records consumedOffset) acts)
    (hrun : runs (step cfg) (State.init records consumedOffset) acts = some s)
    (hfinished : s.phase = .finished) :
    ∀ x ∈ records, x.isMessage = false → s.Indexed x := by
  have hinit : Reported (State.init records consumedOffset) :=
    ⟨fun _ h => (by cases h), by simp [State.init], by simp [State.init]⟩
  have hinv : Reported s :=
    runs_invariant Reported (fun _ _ _ hs hc hstep => step_reported hs hc hstep) hinit hreports
      hrun
  have htodo : s.todo = [] := hinv.todo (Or.inr (Or.inr hfinished))
  have happlied : ∀ it ∈ s.items, it.applied = true := by
    intro it hit
    have hpending := hinv.answered (Or.inr hfinished) it hit
    have hfailed := hinv.not_failed (Or.inr (Or.inr (Or.inr hfinished))) it hit
    rw [Item.applied]
    cases hst : it.status with
    | pending => exact absurd hst hpending
    | failed => exact absurd hst hfailed
    | indexed => rfl
    | missing => rfl
  intro x hx hrow
  refine ⟨by rw [htodo]; exact not_mem_nil, ?_, fun it hit _ => happlied it hit⟩
  rcases mem_append.mp (run_sources hrun x hx hrow) with hitem | hin
  · exact mem_map.mp hitem
  · rw [htodo] at hin
    cases hin

/-- A delete of a row that is not there, and an insert. -/
def deleteThenInsert : List (SourceRecord ℕ) :=
  [⟨.delete ⟨50, 0, 0⟩ (Items.empty.addColumn "id" (some 1)) [] "orders" "orders", 100⟩,
    shopInsert "orders" 150 200]

def answerAndFinish : List Action :=
  addBoth ++ [.endOfRecords, .answer 0 (.failure 404 none "" "" "" ""), .answer 1 .success,
    .close true, .finishBatch true]

theorem answerAndFinish_indexed :
    ∃ s, runs (step shopCfg) (State.init deleteThenInsert 0) answerAndFinish = some s ∧
      s.phase = .finished ∧ s.Indexed (shopInsert "orders" 150 200) := by
  have heval : (runs (step shopCfg) (State.init deleteThenInsert 0) answerAndFinish).map
      State.phase = some .finished := by decide +kernel
  obtain ⟨s, hrun, hfinished⟩ := Option.map_eq_some_iff.mp heval
  have hreports : Along (step shopCfg) Reports (State.init deleteThenInsert 0) answerAndFinish :=
    along_of_check (by decide +kernel)
  refine ⟨s, hrun, hfinished, ?_⟩
  exact finished_indexed hreports hrun hfinished _ (mem_cons_of_mem _ mem_cons_self) rfl

/-- A mapping error. -/
def failAndFinish : List Action :=
  [.next true true, .check, .endOfRecords,
    .answer 0 (.failure 400 none "mapper_parsing_exception" "" "" ""), .close true,
    .finishBatch true]

theorem failedIndex_reported :
    ∃ s, runs (step shopCfg) (State.init [shopInsert "orders" 50 100] 0) failAndFinish = some s ∧
      s.phase = .finished ∧ ∃ x ∈ [shopInsert "orders" 50 100], x.isMessage = false ∧
        ¬ s.Indexed x := by
  have heval : (runs (step shopCfg) (State.init [shopInsert "orders" 50 100] 0) failAndFinish).map
      (fun s => (s.phase, s.items.map Item.applied)) = some (.finished, [false]) := by
    decide +kernel
  obtain ⟨s, hrun, hs⟩ := Option.map_eq_some_iff.mp heval
  obtain ⟨hfinished, hitems⟩ := Prod.mk.inj hs
  refine ⟨s, hrun, hfinished, _, mem_cons_self, rfl, ?_⟩
  intro hindexed
  obtain ⟨it, hit, hsrc⟩ := hindexed.added
  have hmem := mem_map_of_mem (f := Item.applied) hit
  rw [hitems, hindexed.applied it hit hsrc] at hmem
  revert hmem
  decide

end Reported

end Elasticsearch
