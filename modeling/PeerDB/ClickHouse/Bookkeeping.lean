/-
The bookkeeping of `NormalizeRecords` (ClickHouse).

Three markers in the catalog say how far a mirror is: the last batch copied into the raw
table, the last batch inserted into each destination table, and the last batch normalized.
A run copies the stages of a group of batches, lists the tables that occur in them, hands
one query per table to its workers, and moves the third marker when all of them are done.
Any step may fail, with or without its effect: an `INSERT SELECT`, of a stage or of a query,
is assumed to insert all of its rows or none.  A run that fails while it still hands out
queries returns without waiting for its workers, which go on beside the next run.

The steps of the run and of the workers are the actions of `step`.  `Inv` says what the
markers promise whatever fails, `Exact` that without failures every row is copied and
inserted once.  `endBatchID` is an `int64`: with a group size near its end the sum wraps
around, and the last marker moves backwards.
-/
import Mathlib.Algebra.Group.Int.Defs
import Mathlib.Algebra.Group.Nat.Defs
import PeerDB.ClickHouse.Normalize
import PeerDB.Lib.Loop
import Mathlib.Data.List.Perm.Subperm

open Loop

namespace ClickHouse

open List

namespace Bookkeeping

/-- The value of an `int64` computation. -/
def int64 (x : ℤ) : ℤ := x.bmod (2 ^ 64)

/-- What the runs of a mirror share: the avro stages, and the tables that have a schema. -/
structure Mirror (V : Type) where
  stage : ℕ → List (RawRow V)
  tableNameSchemaMapping : String → Bool
  batchID_stage : ∀ b, ∀ r ∈ stage b, r.batchID = b

/-- A query a worker has taken from the channel.  The worker is late when its run has
returned. -/
structure Work where
  table : String
  lastNormBatchID : ℤ
  endBatchID : ℤ
  executed : Bool := false
  late : Bool := false
  deriving DecidableEq, Repr

/-- Where a run is: in the loop over the stages, with the stage of `batchID` copied or not,
or handing out queries, with `lastNormBatchIDForTable` once it is known for the first of the
tables. -/
inductive Phase where
  | copying (batchID : ℤ) (copied : Bool)
  | sending (tables : List String) (workers : ℕ) (lastNormBatchIDForTable : Option ℤ)
  deriving DecidableEq, Repr

/-- A run of `NormalizeRecords`; it is broken once a worker has returned an error. -/
structure Run where
  lastNormBatchID : ℤ
  endBatchID : ℤ
  phase : Phase
  broken : Bool := false
  deriving DecidableEq, Repr

/-- The raw table, the raw rows that were inserted into their tables, and the markers. -/
structure State (V : Type) where
  raw : List (RawRow V) := []
  inserted : List (RawRow V) := []
  lastBatchIDInRawTable : ℤ := 0
  tableBatchID : String → ℤ := fun _ => 0
  normalizeBatchID : ℤ := 0
  run : Option Run := none
  works : List Work := []
  /-- whether a run has returned an error -/
  failed : Bool := false

/-- The steps of the runs and of their workers. -/
inductive Action where
  | start (syncBatchID : ℤ) (groupNormalize : Option ℤ)
  | copyStage
  | setLastBatchIDInRawTable
  | listTables (names : List String) (parallelNormalize : ℤ)
  | getLastNormalizedBatchIDForTable
  | sendQuery
  | execQuery (i : ℕ)
  | setLastNormalizedBatchIDForTable (i : ℕ)
  | workerFails (i : ℕ)
  | connectFails
  | updateNormalizeBatchID (ok : Bool)
  | fail
  deriving DecidableEq, Repr

section Steps

variable {V : Type} (m : Mirror V)

/-- `groupBatches`, if it can be looked up and is positive. -/
def groupBatches : Option ℤ → ℤ
  | some g => if g ≤ 0 then 4 else g
  | none => 4

def selected (raw : List (RawRow V)) (table : String) (lastNormBatchID endBatchID : ℤ) :
    List (RawRow V) :=
  raw.filter fun r => decide (lastNormBatchID < r.batchID) && decide ((r.batchID : ℤ) ≤ endBatchID)
    && decide (r.destinationTableName = table)

/-- `getDistinctTableNamesInBatch`, in some order. -/
def getDistinctTableNamesInBatch (raw : List (RawRow V)) (lastNormBatchID endBatchID : ℤ) :
    List String :=
  ((raw.filter fun r => decide (lastNormBatchID < r.batchID) &&
    decide ((r.batchID : ℤ) ≤ endBatchID)).map RawRow.destinationTableName).dedup.filter
      m.tableNameSchemaMapping

namespace State

variable (s : State V)

/-- The first part of `NormalizeRecords`, up to the stages. -/
def start (syncBatchID : ℤ) (groupNormalize : Option ℤ) : State V :=
  if syncBatchID ≤ s.normalizeBatchID then s
  else { s with run := some {
    lastNormBatchID := s.normalizeBatchID
    endBatchID := min syncBatchID (int64 (s.normalizeBatchID + groupBatches groupNormalize))
    phase := .copying (max s.lastBatchIDInRawTable s.normalizeBatchID + 1) false } }

/-- The queries the workers of the run itself are busy with. -/
def busy : List Work := s.works.filter fun w => !w.late

/-- The loop over the tables reads the marker of the next one, and skips it if it is done. -/
def getLastNormalizedBatchIDForTable (run : Run) (table : String) (tables : List String)
    (workers : ℕ) : State V :=
  let lastNormBatchIDForTable := max run.lastNormBatchID (s.tableBatchID table)
  let phase : Phase :=
    if run.endBatchID ≤ lastNormBatchIDForTable then .sending tables workers none
    else .sending (table :: tables) workers (some lastNormBatchIDForTable)
  { s with run := some { run with phase := phase } }

/-- A query is handed over as soon as a worker is free. -/
def sendQuery (run : Run) (table : String) (tables : List String) (workers : ℕ)
    (lastNormBatchIDForTable : ℤ) : Option (State V) :=
  let query : Work :=
    { table := table, lastNormBatchID := lastNormBatchIDForTable, endBatchID := run.endBatchID }
  if s.busy.length < workers then
    some { s with
      run := some { run with phase := .sending tables workers none }
      works := s.works ++ [query] }
  else none

/-- The `INSERT SELECT` of a query, which is assumed to be all or nothing. -/
def execQuery (i : ℕ) (w : Work) : State V :=
  { s with
    inserted := s.inserted ++ selected s.raw w.table w.lastNormBatchID w.endBatchID
    works := s.works.set i { w with executed := true } }

def setLastNormalizedBatchIDForTable (i : ℕ) (w : Work) : State V :=
  { s with
    tableBatchID := fun t => if t = w.table then w.endBatchID else s.tableBatchID t
    works := s.works.eraseIdx i }

/-- A worker returns an error; that cancels the group of its run. -/
def workerFails (i : ℕ) (w : Work) : State V :=
  { s with
    works := s.works.eraseIdx i
    run := if w.late then s.run else s.run.map fun run => { run with broken := true } }

/-- The run returns an error, and leaves its workers alone. -/
def fail : State V :=
  { s with run := none, works := s.works.map fun w => { w with late := true }, failed := true }

end State

/-- The main goroutine of a run. -/
def runStep (s : State V) (run : Run) : Action → Option (State V)
  | .copyStage =>
    match run.phase with
    | .copying batchID false =>
      if batchID ≤ run.endBatchID then
        some { s with raw := s.raw ++ m.stage batchID.toNat,
                      run := some { run with phase := .copying batchID true } }
      else none
    | _ => none
  | .setLastBatchIDInRawTable =>
    match run.phase with
    | .copying batchID true =>
      some { s with lastBatchIDInRawTable := batchID,
                    run := some { run with phase := .copying (batchID + 1) false } }
    | _ => none
  | .listTables names parallelNormalize =>
    match run.phase with
    | .copying batchID false =>
      if run.endBatchID < batchID ∧
          names.Perm (getDistinctTableNamesInBatch m s.raw run.lastNormBatchID run.endBatchID) then
        some { s with run := some { run with
          phase := .sending names (min (max parallelNormalize 1).toNat names.length) none } }
      else none
    | _ => none
  | .getLastNormalizedBatchIDForTable =>
    match run.phase with
    | .sending (table :: tables) workers none =>
      some (s.getLastNormalizedBatchIDForTable run table tables workers)
    | _ => none
  | .sendQuery =>
    match run.phase with
    | .sending (table :: tables) workers (some last) => s.sendQuery run table tables workers last
    | _ => none
  | .connectFails =>
    match run.phase with
    | .sending _ _ _ => some { s with run := some { run with broken := true } }
    | _ => none
  | .updateNormalizeBatchID ok =>
    match run.phase with
    | .sending [] _ _ =>
      -- `group.Wait` has returned without an error
      if s.busy = [] ∧ run.broken = false then
        some { s with normalizeBatchID := run.endBatchID, run := none, failed := s.failed || !ok }
      else none
    | _ => none
  | .fail =>
    match run.phase with
    -- an error of a worker is returned by `group.Wait`
    | .sending [] _ _ => if s.busy = [] then some s.fail else none
    | _ => some s.fail
  | _ => none

def step (s : State V) (a : Action) : Option (State V) :=
  match a with
  | .start syncBatchID groupNormalize =>
    if s.run.isNone then some (s.start syncBatchID groupNormalize) else none
  | .execQuery i =>
    (s.works[i]?).bind fun w => if w.executed then none else some (s.execQuery i w)
  | .setLastNormalizedBatchIDForTable i =>
    (s.works[i]?).bind fun w =>
      if w.executed then some (s.setLastNormalizedBatchIDForTable i w) else none
  | .workerFails i => (s.works[i]?).map fun w => s.workerFails i w
  | a => s.run.bind fun run => runStep m s run a

/-! ### What one step can do -/

/-- The sum that `endBatchID` is bounded by does not wrap around. -/
def InRange (s : State V) : Action → Prop
  | .start _ groupNormalize => s.normalizeBatchID + groupBatches groupNormalize < 2 ^ 63
  | _ => True

instance (s : State V) (a : Action) : Decidable (InRange s a) := by
  unfold InRange
  split <;> infer_instance

theorem groupBatches_pos (groupNormalize : Option ℤ) : 0 < groupBatches groupNormalize := by
  cases groupNormalize with
  | none => decide
  | some g =>
    rw [groupBatches]
    split <;> omega

theorem int64_eq {x : ℤ} (hlow : 0 ≤ x) (hhigh : x < 2 ^ 63) : int64 x = x := by
  rw [int64, Int.bmod_def]
  omega

/-- One step, by its effect. -/
inductive Move (s : State V) : Action → State V → Prop where
  | caughtUp (sync : ℤ) (group : Option ℤ) : Move s (.start sync group) s
  | start {sync : ℤ} {group : Option ℤ} {run : Run} (idle : s.run = none)
      (lastNorm : run.lastNormBatchID = s.normalizeBatchID)
      (lt : InRange s (.start sync group) → 0 ≤ s.normalizeBatchID →
        s.normalizeBatchID < run.endBatchID)
      (phase : run.phase = .copying (max s.lastBatchIDInRawTable s.normalizeBatchID + 1) false)
      (sound : run.broken = false) :
      Move s (.start sync group) { s with run := some run }
  | copyStage {run : Run} {batchID : ℤ} (hrun : s.run = some run)
      (phase : run.phase = .copying batchID false) (le : batchID ≤ run.endBatchID) :
      Move s .copyStage { s with
        raw := s.raw ++ m.stage batchID.toNat
        run := some { run with phase := .copying batchID true } }
  | setRaw {run : Run} {batchID : ℤ} (hrun : s.run = some run)
      (phase : run.phase = .copying batchID true) :
      Move s .setLastBatchIDInRawTable { s with
        lastBatchIDInRawTable := batchID
        run := some { run with phase := .copying (batchID + 1) false } }
  | listTables {run : Run} {batchID : ℤ} {names : List String} {parallel : ℤ} {workers : ℕ}
      (hrun : s.run = some run) (phase : run.phase = .copying batchID false)
      (lt : run.endBatchID < batchID)
      (perm : names.Perm
        (getDistinctTableNamesInBatch m s.raw run.lastNormBatchID run.endBatchID)) :
      Move s (.listTables names parallel)
        { s with run := some { run with phase := .sending names workers none } }
  | skip {run : Run} {table : String} {tables : List String} {workers : ℕ}
      (hrun : s.run = some run) (phase : run.phase = .sending (table :: tables) workers none)
      (done : run.endBatchID ≤ max run.lastNormBatchID (s.tableBatchID table)) :
      Move s .getLastNormalizedBatchIDForTable
        { s with run := some { run with phase := .sending tables workers none } }
  | read {run : Run} {table : String} {tables : List String} {workers : ℕ}
      (hrun : s.run = some run) (phase : run.phase = .sending (table :: tables) workers none)
      (due : max run.lastNormBatchID (s.tableBatchID table) < run.endBatchID) :
      Move s .getLastNormalizedBatchIDForTable { s with run := some { run with
        phase := .sending (table :: tables) workers
          (some (max run.lastNormBatchID (s.tableBatchID table))) } }
  | send {run : Run} {table : String} {tables : List String} {workers : ℕ} {last : ℤ}
      (hrun : s.run = some run)
      (phase : run.phase = .sending (table :: tables) workers (some last)) :
      Move s .sendQuery { s with
        run := some { run with phase := .sending tables workers none }
        works := s.works ++ [⟨table, last, run.endBatchID, false, false⟩] }
  | execQuery {i : ℕ} {w : Work} (work : s.works[i]? = some w) (fresh : w.executed = false) :
      Move s (.execQuery i) (s.execQuery i w)
  | setTable {i : ℕ} {w : Work} (work : s.works[i]? = some w) (executed : w.executed = true) :
      Move s (.setLastNormalizedBatchIDForTable i) (s.setLastNormalizedBatchIDForTable i w)
  | workerFails {i : ℕ} {w : Work} (work : s.works[i]? = some w) :
      Move s (.workerFails i) (s.workerFails i w)
  | connectFails {run : Run} (hrun : s.run = some run) :
      Move s .connectFails { s with run := some { run with broken := true } }
  | finish {run : Run} {workers : ℕ} {last : Option ℤ} {ok : Bool} (hrun : s.run = some run)
      (phase : run.phase = .sending [] workers last) (idle : s.busy = [])
      (sound : run.broken = false) :
      Move s (.updateNormalizeBatchID ok) { s with
        normalizeBatchID := run.endBatchID, run := none, failed := s.failed || !ok }
  | fail {run : Run} (hrun : s.run = some run) : Move s .fail s.fail

variable {m} {s s' : State V}

theorem start_move {sync : ℤ} {group : Option ℤ} (idle : s.run = none) :
    Move m s (.start sync group) (s.start sync group) := by
  rw [State.start]
  split_ifs
  · exact .caughtUp sync group
  · refine .start idle rfl (fun hrange hnonneg => ?_) rfl rfl
    have hpos := groupBatches_pos group
    have hsum : s.normalizeBatchID + groupBatches group < 2 ^ 63 := hrange
    have hval : int64 (s.normalizeBatchID + groupBatches group) = _ := int64_eq (by omega) hsum
    show s.normalizeBatchID < min sync (int64 (s.normalizeBatchID + groupBatches group))
    rw [hval]
    omega

variable {run : Run} {a : Action}

theorem runStep_move (hrun : s.run = some run) (h : runStep m s run a = some s') :
    Move m s a s' := by
  cases a <;> simp only [runStep, State.sendQuery, State.getLastNormalizedBatchIDForTable] at h
  all_goals (repeat' split at h) <;> cases h
  · exact .copyStage hrun ‹_› ‹_›
  · exact .setRaw hrun ‹_›
  · rename_i hguard
    exact .listTables hrun ‹_› hguard.1 hguard.2
  · exact .skip hrun ‹_› ‹_›
  · exact .read hrun ‹_› (not_le.mp ‹_›)
  · exact .send hrun ‹_›
  · exact .connectFails hrun
  · rename_i hguard
    exact .finish hrun ‹_› hguard.1 hguard.2
  · exact .fail hrun
  · exact .fail hrun

theorem step_move (h : step m s a = some s') : Move m s a s' := by
  cases a with
  | start sync group =>
    simp only [step, Option.isNone_iff_eq_none] at h
    split_ifs at h with hidle
    cases h
    exact start_move hidle
  | execQuery i =>
    obtain ⟨w, hw, h⟩ := Option.bind_eq_some_iff.mp h
    split_ifs at h with hfresh
    cases h
    exact .execQuery hw (Bool.eq_false_iff.mpr hfresh)
  | setLastNormalizedBatchIDForTable i =>
    obtain ⟨w, hw, h⟩ := Option.bind_eq_some_iff.mp h
    split_ifs at h with hexecuted
    cases h
    exact .setTable hw hexecuted
  | workerFails i =>
    obtain ⟨w, hw, rfl⟩ := Option.map_eq_some_iff.mp h
    exact .workerFails hw
  | _ =>
    obtain ⟨run, hrun, h⟩ := Option.bind_eq_some_iff.mp h
    exact runStep_move hrun h

/-! ### What the markers promise -/

/-- All raw rows of a table up to a batch have been inserted. -/
def UpTo (raw inserted : List (RawRow V)) (table : String) (batchID : ℤ) : Prop :=
  ∀ r ∈ raw, r.destinationTableName = table → (r.batchID : ℤ) ≤ batchID → r ∈ inserted

section UpTo

variable {raw inserted : List (RawRow V)} {table : String} {b c : ℤ}

theorem UpTo.mono (h : UpTo raw inserted table b) (hle : c ≤ b) : UpTo raw inserted table c :=
  fun r hr htable hbatch => h r hr htable (hbatch.trans hle)

theorem UpTo.insert (h : UpTo raw inserted table b) (more : List (RawRow V)) :
    UpTo raw (inserted ++ more) table b :=
  fun r hr htable hbatch => mem_append_left more (h r hr htable hbatch)

/-- A query inserts all rows up to its last batch if the others are there. -/
theorem UpTo.select (h : UpTo raw inserted table b) :
    UpTo raw (inserted ++ selected raw table b c) table c := by
  intro r hr htable hbatch
  by_cases hlow : (r.batchID : ℤ) ≤ b
  · exact mem_append_left _ (h r hr htable hlow)
  · refine mem_append_right _ (mem_filter.mpr ⟨hr, ?_⟩)
    simp [not_le.mp hlow, hbatch, htable]

theorem mem_selected {r : RawRow V} (h : r ∈ selected raw table b c) :
    r ∈ raw ∧ b < r.batchID ∧ (r.batchID : ℤ) ≤ c ∧ r.destinationTableName = table := by
  simpa [selected, and_assoc] using h

end UpTo

/-- The tables and the first two markers. -/
structure Data (m : Mirror V) (raw inserted : List (RawRow V)) (lastBatchIDInRawTable : ℤ)
    (tableBatchID : String → ℤ) : Prop where
  -- a stage may have been copied before its marker was set
  bounded : ∀ r ∈ raw, (r.batchID : ℤ) ≤ lastBatchIDInRawTable + 1
  copied : ∀ b : ℕ, 1 ≤ b → (b : ℤ) ≤ lastBatchIDInRawTable → ∀ r ∈ m.stage b, r ∈ raw
  below : ∀ r ∈ inserted, (r.batchID : ℤ) ≤ lastBatchIDInRawTable
  closed : ∀ r ∈ raw, r ∈ inserted → UpTo raw inserted r.destinationTableName r.batchID
  table : ∀ t, tableBatchID t ≤ lastBatchIDInRawTable ∧ UpTo raw inserted t (tableBatchID t)

/-- A query starts where its table is, whenever it is executed. -/
structure Work.WF (raw inserted : List (RawRow V)) (lastBatchIDInRawTable : ℤ) (w : Work) :
    Prop where
  lt : w.lastNormBatchID < w.endBatchID
  le : w.endBatchID ≤ lastBatchIDInRawTable
  low : UpTo raw inserted w.table w.lastNormBatchID
  high : w.executed = true → UpTo raw inserted w.table w.endBatchID

/-- A worker of the run itself is busy with a table. -/
def Busy (works : List Work) (table : String) : Prop :=
  ∃ w ∈ works, w.late = false ∧ w.table = table

/-- Where a run is.  A table that is neither to be handed out nor with a worker is done, and
one whose marker was read has been inserted up to there. -/
def PhaseInv (m : Mirror V) (s : State V) (endBatchID : ℤ) (broken : Bool) : Phase → Prop
  | .copying batchID copied =>
    batchID = s.lastBatchIDInRawTable + 1 ∧
      (copied = true → ∀ r ∈ m.stage batchID.toNat, r ∈ s.raw) ∧ ∀ w ∈ s.works, w.late = true
  | .sending tables _ last =>
    endBatchID ≤ s.lastBatchIDInRawTable ∧
      (∀ t ∈ tables, m.tableNameSchemaMapping t = true) ∧
      (∀ b ∈ last, b < endBatchID ∧ ∀ t ∈ tables.head?, UpTo s.raw s.inserted t b) ∧
      (∀ w ∈ s.works, w.late = false → w.endBatchID = endBatchID) ∧
      (broken = false → ∀ t, m.tableNameSchemaMapping t = true → t ∉ tables → ¬ Busy s.works t →
        UpTo s.raw s.inserted t endBatchID)

structure Inv (m : Mirror V) (s : State V) : Prop where
  data : Data m s.raw s.inserted s.lastBatchIDInRawTable s.tableBatchID
  nonneg : 0 ≤ s.normalizeBatchID
  le : s.normalizeBatchID ≤ s.lastBatchIDInRawTable
  norm : ∀ t, m.tableNameSchemaMapping t = true → UpTo s.raw s.inserted t s.normalizeBatchID
  works : ∀ w ∈ s.works, w.WF s.raw s.inserted s.lastBatchIDInRawTable
  idle : s.run = none → ∀ w ∈ s.works, w.late = true
  lastNorm : ∀ run, s.run = some run → run.lastNormBatchID = s.normalizeBatchID
  lt : ∀ run, s.run = some run → s.normalizeBatchID < run.endBatchID
  phase : ∀ run, s.run = some run → PhaseInv m s run.endBatchID run.broken run.phase

theorem inv_init : Inv m ({} : State V) where
  data := by
    refine ⟨nofun, fun b hb hle => ?_, nofun, nofun, fun t => ⟨le_rfl, nofun⟩⟩
    have hzero : (b : ℤ) ≤ 0 := hle
    omega
  nonneg := le_rfl
  le := le_rfl
  norm _ _ := nofun
  works := nofun
  idle _ := nofun
  lastNorm := nofun
  lt := nofun
  phase := nofun

namespace Busy

variable {works : List Work} {t : String} {i : ℕ} {w : Work}

theorem set (h : Busy works t) (hw : works[i]? = some w) {w' : Work} (hlate : w'.late = w.late)
    (htable : w'.table = w.table) : Busy (works.set i w') t := by
  obtain ⟨v, hv, hvlate, hvtable⟩ := h
  obtain ⟨j, hj⟩ := List.getElem?_of_mem hv
  by_cases hij : i = j
  · have hlen : i < works.length := (List.getElem?_eq_some_iff.mp hw).1
    exact ⟨w', mem_set hlen w', by grind, by grind⟩
  · exact ⟨v, mem_of_getElem? ((getElem?_set_ne hij).trans hj), hvlate, hvtable⟩

/-- What is left when one worker is gone. -/
theorem eraseIdx (h : Busy works t) (hw : works[i]? = some w) :
    Busy (works.eraseIdx i) t ∨ (w.late = false ∧ w.table = t) := by
  obtain ⟨v, hv, hvlate, hvtable⟩ := h
  obtain ⟨j, hj⟩ := List.getElem?_of_mem hv
  by_cases hij : j = i
  · grind
  · exact .inl ⟨v, (mem_eraseIdx_iff_getElem?).mpr ⟨j, hij, hj⟩, hvlate, hvtable⟩

end Busy

/-! ### One step keeps them -/

variable {b endBatchID : ℤ}

theorem Inv.copying (h : Inv m s) {copied : Bool} (hrun : s.run = some run)
    (hphase : run.phase = .copying b copied) :
    PhaseInv m s run.endBatchID run.broken (.copying b copied) :=
  hphase ▸ h.phase run hrun

theorem Inv.sending (h : Inv m s) {tables : List String} {workers : ℕ} {last : Option ℤ}
    (hrun : s.run = some run) (hphase : run.phase = .sending tables workers last) :
    PhaseInv m s run.endBatchID run.broken (.sending tables workers last) :=
  hphase ▸ h.phase run hrun

theorem Inv.copyStage (h : Inv m s) (hrun : s.run = some run)
    (hphase : run.phase = .copying b false) :
    Inv m { s with raw := s.raw ++ m.stage b.toNat,
                   run := some { run with phase := .copying b true } } := by
  obtain ⟨hb, -, hlate⟩ := h.copying hrun hphase
  obtain ⟨hdata, hnonneg, hle, hnorm, hworks, -, hlast, hlt, -⟩ := h
  -- the new rows are of the batch after the marker
  have hnew : ∀ r ∈ m.stage b.toNat, (r.batchID : ℤ) = s.lastBatchIDInRawTable + 1 := by
    intro r hr
    rw [m.batchID_stage _ r hr, Int.toNat_of_nonneg (by omega), hb]
  constructor
  case data => constructor <;> grind [UpTo, Data]
  all_goals grind [UpTo, PhaseInv, Work.WF]

theorem Inv.setRaw (h : Inv m s) (hrun : s.run = some run) (hphase : run.phase = .copying b true) :
    Inv m { s with lastBatchIDInRawTable := b,
                   run := some { run with phase := .copying (b + 1) false } } := by
  obtain ⟨rfl, hstage, hlate⟩ := h.copying hrun hphase
  obtain ⟨hdata, hnonneg, hle, hnorm, hworks, -, hlast, hlt, -⟩ := h
  constructor
  case data => constructor <;> grind [Data]
  all_goals grind [PhaseInv, Work.WF]

variable {t : String}

theorem mem_getDistinctTableNamesInBatch {raw : List (RawRow V)} {low high : ℤ} :
    t ∈ getDistinctTableNamesInBatch m raw low high ↔
      m.tableNameSchemaMapping t = true ∧ ∃ r ∈ raw, r.destinationTableName = t ∧
        low < r.batchID ∧ (r.batchID : ℤ) ≤ high := by
  simp only [getDistinctTableNamesInBatch, mem_filter, mem_dedup, mem_map,
    Bool.and_eq_true, decide_eq_true_eq]
  constructor
  · rintro ⟨⟨r, ⟨hr, hlow, hhigh⟩, rfl⟩, hmapped⟩
    exact ⟨hmapped, r, hr, rfl, hlow, hhigh⟩
  · rintro ⟨hmapped, r, hr, rfl, hlow, hhigh⟩
    exact ⟨⟨r, ⟨hr, hlow, hhigh⟩, rfl⟩, hmapped⟩

/-- A step of the run that only moves it on. -/
theorem Inv.setRun (h : Inv m s) {run run' : Run} (hrun : s.run = some run)
    (hlast : run'.lastNormBatchID = run.lastNormBatchID) (hend : run'.endBatchID = run.endBatchID)
    (hphase : PhaseInv m s run'.endBatchID run'.broken run'.phase) :
    Inv m { s with run := some run' } where
  data := h.data
  nonneg := h.nonneg
  le := h.le
  norm := h.norm
  works := h.works
  idle := nofun
  lastNorm := by
    rintro _ ⟨⟩
    exact hlast.trans (h.lastNorm run hrun)
  lt := by
    rintro _ ⟨⟩
    show s.normalizeBatchID < run'.endBatchID
    rw [hend]
    exact h.lt run hrun
  phase := by
    rintro _ ⟨⟩
    exact hphase

variable {names tables : List String} {workers i : ℕ}

theorem Inv.listTables (h : Inv m s) (hrun : s.run = some run)
    (hphase : run.phase = .copying b false) (hlt : run.endBatchID < b)
    (hperm : names.Perm (getDistinctTableNamesInBatch m s.raw run.lastNormBatchID run.endBatchID)) :
    Inv m { s with run := some { run with phase := .sending names workers none } } := by
  obtain ⟨rfl, -, hlate⟩ := h.copying hrun hphase
  have hlast := h.lastNorm run hrun
  have hnorm := h.norm
  have hmem : ∀ t, t ∈ names ↔ _ := fun t => hperm.mem_iff.trans mem_getDistinctTableNamesInBatch
  refine h.setRun hrun rfl rfl
    ⟨Int.lt_add_one_iff.mp hlt, fun t ht => ((hmem t).mp ht).1, nofun, ?_, ?_⟩
  · grind
  · grind [UpTo]

theorem Inv.upTo_max (h : Inv m s) (hrun : s.run = some run)
    (ht : m.tableNameSchemaMapping t = true) :
    UpTo s.raw s.inserted t (max run.lastNormBatchID (s.tableBatchID t)) := by
  rcases le_total run.lastNormBatchID (s.tableBatchID t) with hle | hle
  · rw [max_eq_right hle]
    exact (h.data.table t).2
  · rw [max_eq_left hle, h.lastNorm run hrun]
    exact h.norm t ht

theorem Inv.skip (h : Inv m s) (hrun : s.run = some run)
    (hphase : run.phase = .sending (t :: tables) workers none)
    (hdone : run.endBatchID ≤ max run.lastNormBatchID (s.tableBatchID t)) :
    Inv m { s with run := some { run with phase := .sending tables workers none } } := by
  obtain ⟨hle, hmapped, -, hends, hcover⟩ := h.sending hrun hphase
  have hup := (h.upTo_max hrun (hmapped t mem_cons_self)).mono hdone
  refine h.setRun hrun rfl rfl
    ⟨hle, fun u hu => hmapped u (mem_cons_of_mem t hu), nofun, hends, ?_⟩
  grind

theorem Inv.read (h : Inv m s) (hrun : s.run = some run)
    (hphase : run.phase = .sending (t :: tables) workers none)
    (hdue : max run.lastNormBatchID (s.tableBatchID t) < run.endBatchID) :
    Inv m { s with run := some { run with
      phase := .sending (t :: tables) workers
        (some (max run.lastNormBatchID (s.tableBatchID t))) } } := by
  obtain ⟨hle, hmapped, -, hends, hcover⟩ := h.sending hrun hphase
  refine h.setRun hrun rfl rfl ⟨hle, hmapped, ?_, hends, hcover⟩
  rintro _ ⟨⟩
  refine ⟨hdue, ?_⟩
  rintro _ ⟨⟩
  exact h.upTo_max hrun (hmapped t mem_cons_self)

theorem Inv.send (h : Inv m s) {last : ℤ} (hrun : s.run = some run)
    (hphase : run.phase = .sending (t :: tables) workers (some last)) :
    Inv m { s with
      run := some { run with phase := .sending tables workers none }
      works := s.works ++ [⟨t, last, run.endBatchID, false, false⟩] } := by
  obtain ⟨hle, hmapped, hread, hends, hcover⟩ := h.sending hrun hphase
  obtain ⟨hdue, hup⟩ := hread last rfl
  have hup := hup t rfl
  obtain ⟨hdata, hnonneg, hmarker, hnorm, hworks, -, hlast, hlt, -⟩ := h
  refine ⟨hdata, hnonneg, hmarker, hnorm, by grind [Work.WF], nofun, by grind, by grind, ?_⟩
  rintro _ ⟨⟩
  refine ⟨hle, fun u hu => hmapped u (mem_cons_of_mem t hu), nofun, by grind, ?_⟩
  intro hsound u humapped hnot hbusy
  refine hcover hsound u humapped (fun hmem => ?_) fun ⟨w, hw, hrest⟩ =>
    hbusy ⟨w, mem_append_left _ hw, hrest⟩
  rcases mem_cons.mp hmem with rfl | hmem
  · exact hbusy ⟨_, mem_append_right _ (mem_singleton.mpr rfl), rfl, rfl⟩
  · exact hnot hmem

variable {w : Work}

/-- Workers that only go on, or are gone with their work done, leave a run where it is. -/
theorem PhaseInv.work {broken broken' : Bool} {phase : Phase}
    (h : PhaseInv m s endBatchID broken phase) (hraw : s'.raw = s.raw)
    (hmarker : s'.lastBatchIDInRawTable = s.lastBatchIDInRawTable)
    (hinserted : s.inserted ⊆ s'.inserted)
    (hworks : ∀ v ∈ s'.works, ∃ w ∈ s.works, w.late = v.late ∧ w.endBatchID = v.endBatchID)
    (hdone : (∀ w ∈ s.works, w.late = false → w.endBatchID = endBatchID) → broken' = false →
      broken = false ∧ ∀ t, Busy s.works t → ¬ Busy s'.works t →
        UpTo s.raw s.inserted t endBatchID) :
    PhaseInv m s' endBatchID broken' phase := by
  cases phase with
  | copying b copied => grind [PhaseInv]
  | sending tables workers last =>
    obtain ⟨hle, hmapped, hread, hends, hcover⟩ := h
    refine ⟨hmarker ▸ hle, hmapped, by grind [UpTo], by grind, fun hsound t ht hnot hbusy => ?_⟩
    obtain ⟨hbefore, hgone⟩ := hdone hends hsound
    by_cases hb : Busy s.works t
    · grind [UpTo]
    · grind [UpTo]

theorem Inv.execQuery (h : Inv m s) (hw : s.works[i]? = some w) :
    Inv m (s.execQuery i w) := by
  have hmem := mem_of_getElem? hw
  obtain ⟨hfrom, hto, hlow, -⟩ := h.works w hmem
  have hset : ∀ v ∈ s.works.set i { w with executed := true },
      v ∈ s.works ∨ v = { w with executed := true } := fun v hv => mem_or_eq_of_mem_set hv
  refine ⟨⟨h.data.bounded, h.data.copied, ?_, ?_, ?_⟩, h.nonneg, h.le,
    fun t ht => (h.norm t ht).insert _, ?_, ?_, h.lastNorm, h.lt,
    fun run hrun => (h.phase run hrun).work rfl rfl (subset_append_left _ _) ?_ ?_⟩
  · intro r hr
    rcases mem_append.mp hr with hr | hr
    · exact h.data.below r hr
    · exact (mem_selected hr).2.2.1.trans hto
  · intro r hr hins
    rcases mem_append.mp hins with hins | hins
    · exact (h.data.closed r hr hins).insert _
    · obtain ⟨-, -, hbatch, htable⟩ := mem_selected hins
      rw [htable]
      exact hlow.select.mono hbatch
  · exact fun t => ⟨(h.data.table t).1, (h.data.table t).2.insert _⟩
  · intro v hv
    rcases hset v hv with hv | rfl
    · have hvwf := h.works v hv
      exact ⟨hvwf.lt, hvwf.le, hvwf.low.insert _, fun he => (hvwf.high he).insert _⟩
    · exact ⟨hfrom, hto, hlow.insert _, fun _ => hlow.select⟩
  · intro hidle v hv
    rcases hset v hv with hv | rfl
    · exact h.idle hidle v hv
    · exact h.idle hidle w hmem
  · intro v hv
    rcases hset v hv with hv | rfl
    · exact ⟨v, hv, rfl, rfl⟩
    · exact ⟨w, hmem, rfl, rfl⟩
  · exact fun _ hsound => ⟨hsound, fun t hb hnot =>
      absurd (hb.set hw (show Work.late { w with executed := true } = w.late from rfl) rfl) hnot⟩

theorem Inv.setTable (h : Inv m s) (hw : s.works[i]? = some w) (hexecuted : w.executed = true) :
    Inv m (s.setLastNormalizedBatchIDForTable i w) := by
  have hmem := mem_of_getElem? hw
  have hwf := h.works w hmem
  have herase : ∀ v ∈ s.works.eraseIdx i, v ∈ s.works := fun v hv => mem_of_mem_eraseIdx hv
  refine { h with
    data := { h.data with table := fun t => ?_ }
    works := fun v hv => h.works v (herase v hv)
    idle := fun hidle v hv => h.idle hidle v (herase v hv)
    phase := fun run hrun => (h.phase run hrun).work rfl rfl (List.Subset.refl _)
      (fun v hv => ⟨v, herase v hv, rfl, rfl⟩) fun hends hsound => ⟨hsound, ?_⟩ }
  · have htable := h.data.table t
    grind [State.setLastNormalizedBatchIDForTable, Work.WF]
  · -- the table of the worker that is done
    intro t hb hbusy
    obtain ⟨hlate, rfl⟩ := (hb.eraseIdx hw).resolve_left hbusy
    rw [← hends w hmem hlate]
    exact hwf.high hexecuted

/-- A worker of the run breaks it, a late one does not. -/
theorem workerFails_run (h : (s.workerFails i w).run = some run) :
    (w.late = true ∧ s.run = some run) ∨
      ∃ old, s.run = some old ∧ run = { old with broken := true } := by
  rw [State.workerFails] at h
  split_ifs at h with hlate
  · exact .inl ⟨hlate, h⟩
  · obtain ⟨old, hold, rfl⟩ := Option.map_eq_some_iff.mp h
    exact .inr ⟨old, hold, rfl⟩

theorem workerFails_idle (h : (s.workerFails i w).run = none) : s.run = none := by
  rw [State.workerFails] at h
  split_ifs at h
  · exact h
  · exact Option.map_eq_none_iff.mp h

theorem Inv.workerFails (h : Inv m s) (hw : s.works[i]? = some w) :
    Inv m (s.workerFails i w) := by
  have herase : ∀ v ∈ s.works.eraseIdx i, v ∈ s.works := fun v hv => mem_of_mem_eraseIdx hv
  have hphase : ∀ old, s.run = some old → ∀ broken, (broken = false → w.late = true ∧
      old.broken = false) → PhaseInv m (s.workerFails i w) old.endBatchID broken old.phase := by
    intro old hold broken hbroken
    refine (h.phase old hold).work rfl rfl (List.Subset.refl _)
      (fun v hv => ⟨v, herase v hv, rfl, rfl⟩) fun _ hsound => ?_
    obtain ⟨hlate, hbefore⟩ := hbroken hsound
    refine ⟨hbefore, fun t hb hbusy => ?_⟩
    rw [((hb.eraseIdx hw).resolve_left hbusy).1] at hlate
    cases hlate
  refine ⟨h.data, h.nonneg, h.le, h.norm, fun v hv => h.works v (herase v hv),
    fun hidle v hv => h.idle (workerFails_idle hidle) v (herase v hv), ?_, ?_, ?_⟩ <;>
    intro run hrun <;> rcases workerFails_run hrun with ⟨hlate, hold⟩ | ⟨old, hold, rfl⟩
  · exact h.lastNorm run hold
  · exact h.lastNorm old hold
  · exact h.lt run hold
  · exact h.lt old hold
  · exact hphase run hold _ fun hsound => ⟨hlate, hsound⟩
  · exact hphase old hold true nofun

theorem Inv.finish (h : Inv m s) {ok : Bool} {last : Option ℤ} (hrun : s.run = some run)
    (hphase : run.phase = .sending [] workers last) (hidle : s.busy = [])
    (hsound : run.broken = false) :
    Inv m { s with
      normalizeBatchID := run.endBatchID, run := none, failed := s.failed || !ok } := by
  obtain ⟨hle, -, -, -, hcover⟩ := h.sending hrun hphase
  have hlate : ∀ w ∈ s.works, w.late = true := by
    intro w hw
    rw [State.busy, filter_eq_nil_iff] at hidle
    simpa using hidle w hw
  have hnot : ∀ t, ¬ Busy s.works t := by
    grind [Busy]
  have hlt := h.lt run hrun
  exact { h with
    nonneg := h.nonneg.trans hlt.le
    le := hle
    norm := fun t ht => hcover hsound t ht not_mem_nil (hnot t)
    idle := fun _ => hlate
    lastNorm := nofun
    lt := nofun
    phase := nofun }

theorem Inv.fail (h : Inv m s) : Inv m s.fail := by
  have hworks := h.works
  refine { h with works := ?_, idle := ?_, lastNorm := nofun, lt := nofun, phase := nofun }
  · grind [Work.WF, State.fail]
  · grind [State.fail]

theorem step_inv (h : Inv m s) (hrange : InRange s a) (hstep : step m s a = some s') :
    Inv m s' := by
  cases step_move hstep with
  | caughtUp sync group => exact h
  | @start sync group run idle lastNorm lt phase sound =>
    refine ⟨h.data, h.nonneg, h.le, h.norm, h.works, nofun, ?_, ?_, ?_⟩
    · rintro _ ⟨⟩
      exact lastNorm
    · rintro _ ⟨⟩
      exact lt hrange h.nonneg
    · rintro _ ⟨⟩
      rw [phase, max_eq_left h.le]
      exact ⟨rfl, nofun, h.idle idle⟩
  | copyStage hrun phase le => exact h.copyStage hrun phase
  | setRaw hrun phase => exact h.setRaw hrun phase
  | listTables hrun phase lt perm => exact h.listTables hrun phase lt perm
  | skip hrun phase done => exact h.skip hrun phase done
  | read hrun phase due => exact h.read hrun phase due
  | send hrun phase => exact h.send hrun phase
  | execQuery work fresh => exact h.execQuery work
  | setTable work executed => exact h.setTable work executed
  | workerFails work => exact h.workerFails work
  | @connectFails run hrun =>
    refine h.setRun hrun rfl rfl ?_
    have hold := h.phase run hrun
    cases hphase : run.phase with
    | copying b copied =>
      rw [hphase] at hold
      exact hold
    | sending tables workers last =>
      rw [hphase] at hold
      exact ⟨hold.1, hold.2.1, hold.2.2.1, hold.2.2.2.1, nofun⟩
  | finish hrun phase idle sound => exact h.finish hrun phase idle sound
  | fail hrun => exact h.fail

/-- The last marker only moves forwards. -/
theorem step_forward (h : Inv m s) (hstep : step m s a = some s') :
    s.normalizeBatchID ≤ s'.normalizeBatchID := by
  cases step_move hstep with
  | @finish run workers last ok hrun phase idle sound => exact le_of_lt (h.lt run hrun)
  | _ => exact le_rfl

/-! ### Without failures -/

/-- The rows of the first batches, one stage after the other. -/
def stagesUpTo (m : Mirror V) (b : ℤ) : List (RawRow V) :=
  (List.range b.toNat).flatMap fun i => m.stage (i + 1)

theorem stagesUpTo_succ (hb : 0 ≤ b) :
    stagesUpTo m (b + 1) = stagesUpTo m b ++ m.stage (b + 1).toNat := by
  have hsucc : (b + 1).toNat = b.toNat + 1 := by omega
  rw [stagesUpTo, stagesUpTo, hsucc, range_succ, flatMap_append, flatMap_singleton]

theorem mem_stagesUpTo {r : RawRow V} (h : r ∈ stagesUpTo m b) : (r.batchID : ℤ) ≤ b := by
  obtain ⟨i, hi, hr⟩ := mem_flatMap.mp h
  have hlt := mem_range.mp hi
  rw [m.batchID_stage _ r hr]
  omega

def normalized (m : Mirror V) (normalizeBatchID : ℤ) (r : RawRow V) : Bool :=
  m.tableNameSchemaMapping r.destinationTableName && decide ((r.batchID : ℤ) ≤ normalizeBatchID)

/-- The tables whose query has not been executed yet. -/
def pending (tables : List String) (works : List Work) (t : String) : Bool :=
  decide (t ∈ tables) || works.any fun w => !w.executed && decide (w.table = t)

/-- The rows that have been inserted while queries are handed out. -/
def due (m : Mirror V) (normalizeBatchID endBatchID : ℤ) (waits : String → Bool) (r : RawRow V) :
    Bool :=
  m.tableNameSchemaMapping r.destinationTableName &&
    (decide ((r.batchID : ℤ) ≤ normalizeBatchID) ||
      (decide ((r.batchID : ℤ) ≤ endBatchID) && !waits r.destinationTableName))

theorem pending_eq_true {works : List Work} :
    pending tables works t = true ↔
      t ∈ tables ∨ ∃ w ∈ works, w.executed = false ∧ w.table = t := by
  simp [pending]

/-- A table that is handed out still waits. -/
theorem pending_send (t : String) (tables : List String) (works : List Work) (htable : w.table = t)
    (hfresh : w.executed = false) :
    pending tables (works ++ [w]) = pending (t :: tables) works := by
  funext u
  rw [Bool.eq_iff_iff, pending_eq_true, pending_eq_true]
  grind

/-- Executing the query of one table leaves the others as they are. -/
theorem pending_executed_ne (tables : List String) {works : List Work} (hw : works[i]? = some w)
    (ht : t ≠ w.table) :
    pending tables (works.set i { w with executed := true }) t = pending tables works t := by
  rw [Bool.eq_iff_iff, pending_eq_true, pending_eq_true]
  refine or_congr_right ⟨?_, ?_⟩
  · grind
  · rintro ⟨v, hv, hrest⟩
    obtain ⟨j, hj⟩ := List.getElem?_of_mem hv
    have hij : i ≠ j := by grind
    exact ⟨v, mem_of_getElem? ((getElem?_set_ne hij).trans hj), hrest⟩

/-- A query that was executed can be forgotten. -/
theorem pending_eraseIdx (tables : List String) {works : List Work} (hw : works[i]? = some w)
    (hexecuted : w.executed = true) :
    pending tables (works.eraseIdx i) = pending tables works := by
  funext t
  rw [Bool.eq_iff_iff, pending_eq_true, pending_eq_true]
  refine or_congr_right ⟨fun ⟨v, hv, hrest⟩ => ⟨v, mem_of_mem_eraseIdx hv, hrest⟩, ?_⟩
  rintro ⟨v, hv, hrest⟩
  obtain ⟨j, hj⟩ := List.getElem?_of_mem hv
  have hij : j ≠ i := by grind
  exact ⟨v, mem_eraseIdx_iff_getElem?.mpr ⟨j, hij, hj⟩, hrest⟩

/-- Between two runs. -/
structure ExactIdle (m : Mirror V) (s : State V) : Prop where
  works : s.works = []
  marker : s.lastBatchIDInRawTable = s.normalizeBatchID
  raw : s.raw = stagesUpTo m s.normalizeBatchID
  table : ∀ t, s.tableBatchID t ≤ s.normalizeBatchID
  once : s.inserted.Perm (s.raw.filter (normalized m s.normalizeBatchID))

/-- In the loop over the stages. -/
structure ExactCopying (m : Mirror V) (s : State V) (endBatchID batchID : ℤ) (copied : Bool) :
    Prop where
  works : s.works = []
  marker : s.lastBatchIDInRawTable ≤ endBatchID
  bound : copied = true → batchID ≤ endBatchID
  raw : s.raw = stagesUpTo m s.lastBatchIDInRawTable ++
    if copied then m.stage batchID.toNat else []
  table : ∀ t, s.tableBatchID t ≤ s.normalizeBatchID
  once : s.inserted.Perm (s.raw.filter (normalized m s.normalizeBatchID))

/-- While queries are handed out. -/
structure ExactSending (m : Mirror V) (s : State V) (endBatchID : ℤ) (tables : List String)
    (last : Option ℤ) : Prop where
  marker : s.lastBatchIDInRawTable = endBatchID
  raw : s.raw = stagesUpTo m endBatchID
  table : ∀ t, s.tableBatchID t ≤ endBatchID
  todo : ∀ t ∈ tables, s.tableBatchID t ≤ s.normalizeBatchID
  read : ∀ b ∈ last, b = s.normalizeBatchID
  works : ∀ w ∈ s.works, w.late = false ∧ w.lastNormBatchID = s.normalizeBatchID ∧
    w.endBatchID = endBatchID ∧ m.tableNameSchemaMapping w.table = true
  nodup : (s.works.map Work.table ++ tables).Nodup
  once : s.inserted.Perm
    (s.raw.filter (due m s.normalizeBatchID endBatchID (pending tables s.works)))

def ExactPhase (m : Mirror V) (s : State V) (endBatchID : ℤ) : Phase → Prop
  | .copying batchID copied => ExactCopying m s endBatchID batchID copied
  | .sending tables _ last => ExactSending m s endBatchID tables last

/-- Every row is copied once, and inserted once. -/
structure Exact (m : Mirror V) (s : State V) : Prop where
  idle : s.run = none → ExactIdle m s
  phase : ∀ run, s.run = some run → run.broken = false → ExactPhase m s run.endBatchID run.phase

theorem Exact.copying (h : Exact m s) {copied : Bool} (hrun : s.run = some run)
    (hsound : run.broken = false) (hphase : run.phase = .copying b copied) :
    ExactCopying m s run.endBatchID b copied :=
  (congrArg (ExactPhase m s run.endBatchID) hphase).mp (h.phase run hrun hsound)

theorem Exact.sending (h : Exact m s) {last : Option ℤ} (hrun : s.run = some run)
    (hsound : run.broken = false) (hphase : run.phase = .sending tables workers last) :
    ExactSending m s run.endBatchID tables last :=
  (congrArg (ExactPhase m s run.endBatchID) hphase).mp (h.phase run hrun hsound)

/-- A run that goes on. -/
theorem Exact.of_phase (hrun : s.run = some run)
    (h : run.broken = false → ExactPhase m s run.endBatchID run.phase) : Exact m s := by
  refine ⟨fun hnone => ?_, fun run' hrun' => ?_⟩
  · cases hrun.symm.trans hnone
  · cases hrun.symm.trans hrun'
    exact h

/-- Queries are under way only while they are handed out. -/
theorem Exact.of_work (h : Exact m s) (hw : s.works[i]? = some w) :
    s.run ≠ none ∧ ∀ run, s.run = some run → run.broken = false →
      ∃ tables workers last, run.phase = .sending tables workers last ∧
        ExactSending m s run.endBatchID tables last := by
  have hne : s.works ≠ [] := ne_nil_of_mem (mem_of_getElem? hw)
  refine ⟨fun hnone => hne (h.idle hnone).works, fun run hrun hsound => ?_⟩
  cases hphase : run.phase with
  | copying b copied => exact absurd (h.copying hrun hsound hphase).works hne
  | sending tables workers last =>
    exact ⟨tables, workers, last, rfl, h.sending hrun hsound hphase⟩

theorem exact_init : Exact m ({} : State V) :=
  ⟨fun _ => ⟨rfl, rfl, rfl, fun _ => le_rfl, List.Perm.refl _⟩, nofun⟩

/-- Two selections that do not overlap are the selection by either. -/
theorem filter_append_perm_or {α : Type} {p q : α → Bool} {l : List α}
    (h : ∀ a ∈ l, p a = true → q a = false) :
    (l.filter p ++ l.filter q).Perm (l.filter fun a => p a || q a) := by
  have hp : (l.filter fun a => p a || q a).filter p = l.filter p := by
    rw [filter_filter]
    exact filter_congr fun a _ => by cases p a <;> rfl
  have hq : (l.filter fun a => p a || q a).filter (fun a => !p a) = l.filter q := by
    rw [filter_filter]
    refine filter_congr fun a ha => ?_
    cases hpa : p a <;> simp [h a ha, hpa]
  have hsplit := filter_append_perm p (l.filter fun a => p a || q a)
  rwa [hp, hq] at hsplit

theorem ExactCopying.copyStage (hinv : Inv m s) (hb : b = s.lastBatchIDInRawTable + 1)
    (hle : b ≤ endBatchID) (h : ExactCopying m s endBatchID b false) {run : Option Run} :
    ExactCopying m { s with raw := s.raw ++ m.stage b.toNat, run := run } endBatchID b true := by
  have hnone : (m.stage b.toNat).filter (normalized m s.normalizeBatchID) = [] := by
    rw [filter_eq_nil_iff]
    intro r hr hnorm
    rw [normalized, Bool.and_eq_true, decide_eq_true_eq, m.batchID_stage _ r hr] at hnorm
    have hmarker := hinv.le
    have hnonneg := hinv.nonneg
    omega
  refine ⟨h.works, h.marker, fun _ => hle, ?_, h.table, ?_⟩
  · show s.raw ++ m.stage b.toNat = stagesUpTo m s.lastBatchIDInRawTable ++ m.stage b.toNat
    rw [h.raw, if_neg Bool.false_ne_true, append_nil]
  · show s.inserted.Perm ((s.raw ++ m.stage b.toNat).filter _)
    rw [filter_append, hnone, append_nil]
    exact h.once

theorem ExactCopying.setRaw (hinv : Inv m s) (hb : b = s.lastBatchIDInRawTable + 1)
    (h : ExactCopying m s endBatchID b true) {run : Option Run} :
    ExactCopying m { s with lastBatchIDInRawTable := b, run := run } endBatchID (b + 1) false := by
  have hnonneg := hinv.nonneg
  have hmarker := hinv.le
  refine ⟨h.works, h.bound rfl, nofun, ?_, h.table, h.once⟩
  show s.raw = stagesUpTo m b ++ []
  rw [h.raw, if_pos rfl, append_nil, hb, stagesUpTo_succ (by omega)]

theorem ExactCopying.listTables (hinv : Inv m s) (hrun : s.run = some run)
    (hb : b = s.lastBatchIDInRawTable + 1) (hlt : run.endBatchID < b)
    (h : ExactCopying m s run.endBatchID b false)
    (hperm : names.Perm (getDistinctTableNamesInBatch m s.raw run.lastNormBatchID run.endBatchID))
    {run' : Option Run} : ExactSending m { s with run := run' } run.endBatchID names none := by
  have hle := h.marker
  have hnorm := hinv.lt run hrun
  have hmarker : s.lastBatchIDInRawTable = run.endBatchID := by omega
  have hraw : s.raw = stagesUpTo m run.endBatchID := by
    rw [h.raw, if_neg Bool.false_ne_true, append_nil, hmarker]
  refine ⟨hmarker, hraw, fun t => ?_, fun t _ => h.table t, nofun, ?_, ?_, ?_⟩
  · have htable := h.table t
    show s.tableBatchID t ≤ run.endBatchID
    omega
  · intro w hw
    have hmem : w ∈ s.works := hw
    rw [h.works] at hmem
    cases hmem
  · show (s.works.map Work.table ++ names).Nodup
    rw [h.works, map_nil, nil_append, hperm.nodup_iff]
    exact (nodup_dedup _).filter _
  · -- no table of the new batches has been inserted
    have hsame : ∀ r ∈ s.raw, due m s.normalizeBatchID run.endBatchID (pending names s.works) r =
        normalized m s.normalizeBatchID r := by
      intro r hr
      rw [due, normalized]
      cases hmapped : m.tableNameSchemaMapping r.destinationTableName with
      | false => rfl
      | true =>
        by_cases hold : (r.batchID : ℤ) ≤ s.normalizeBatchID
        · simp [hold]
        · by_cases hnew : (r.batchID : ℤ) ≤ run.endBatchID
          · have hname : r.destinationTableName ∈ names := by
              rw [hperm.mem_iff, mem_getDistinctTableNamesInBatch, hinv.lastNorm run hrun]
              exact ⟨hmapped, r, hr, rfl, not_le.mp hold, hnew⟩
            simp [hold, pending, hname]
          · simp [hold, hnew]
    show s.inserted.Perm (s.raw.filter _)
    rw [filter_congr hsame]
    exact h.once

namespace ExactSending

variable {endBatchID : ℤ} {tables : List String} {t : String} {last : Option ℤ}

theorem max_eq (h : ExactSending m s endBatchID (t :: tables) last) :
    max s.normalizeBatchID (s.tableBatchID t) = s.normalizeBatchID :=
  max_eq_left (h.todo t mem_cons_self)

theorem send {b : ℤ} (h : ExactSending m s endBatchID (t :: tables) (some b))
    (hmapped : m.tableNameSchemaMapping t = true) {run : Option Run} :
    ExactSending m { s with
      run := run
      works := s.works ++ [⟨t, b, endBatchID, false, false⟩] }
      endBatchID tables none := by
  refine ⟨h.marker, h.raw, h.table, fun u hu => h.todo u (mem_cons_of_mem t hu), nofun, ?_, ?_, ?_⟩
  · have hworks := h.works
    have hread := h.read b rfl
    grind
  · simpa using h.nodup
  · show s.inserted.Perm (s.raw.filter (due m _ _ (pending tables (s.works ++ [_]))))
    rw [pending_send t tables s.works rfl rfl]
    exact h.once

theorem unique (h : ExactSending m s endBatchID tables last) {i : ℕ} {w : Work}
    (hw : s.works[i]? = some w) :
    w.table ∉ tables ∧ ∀ j v, s.works[j]? = some v → v.table = w.table → j = i := by
  have hnodup := nodup_append.mp h.nodup
  constructor
  · intro hmem
    exact hnodup.2.2 _ (mem_map_of_mem (mem_of_getElem? hw)) _ hmem rfl
  · intro j v hv htable
    have hat (k : ℕ) (u : Work) (hu : s.works[k]? = some u) :
        (s.works.map Work.table)[k]? = some u.table := by rw [getElem?_map, hu]; rfl
    have hj := htable ▸ hat j v hv
    exact (getElem?_inj (List.getElem?_eq_some_iff.mp hj).1 hnodup.1).mp
      (hj.trans (hat i w hw).symm)

/-- The table of a query that is executed no longer waits. -/
theorem pending_executed (h : ExactSending m s endBatchID tables last) {i : ℕ} {w : Work}
    (hw : s.works[i]? = some w) :
    pending tables (s.works.set i { w with executed := true }) w.table = false := by
  obtain ⟨hnot, hunique⟩ := h.unique hw
  have hlen : i < s.works.length := (List.getElem?_eq_some_iff.mp hw).1
  rw [Bool.eq_false_iff, ne_eq, pending_eq_true]
  rintro (hmem | ⟨v, hv, hvfresh, hvtable⟩)
  · exact hnot hmem
  · obtain ⟨j, hj⟩ := List.getElem?_of_mem hv
    grind

theorem execQuery (hinv : Inv m s) (h : ExactSending m s endBatchID tables last) {i : ℕ} {w : Work}
    (hw : s.works[i]? = some w) (hfresh : w.executed = false) :
    ExactSending m (s.execQuery i w) endBatchID tables last := by
  obtain ⟨-, hlow, hhigh, hmapped⟩ := h.works w (mem_of_getElem? hw)
  set after := s.works.set i { w with executed := true }
  have htables : after.map Work.table = s.works.map Work.table := by
    obtain ⟨hi, rfl⟩ := List.getElem?_eq_some_iff.mp hw
    have hi' : i < (s.works.map Work.table).length := by rwa [length_map]
    have hget := set_getElem_self hi'
    rw [getElem_map] at hget
    rw [map_set]
    exact hget
  -- the table of the query no longer waits, the others do as before
  have hself : pending tables s.works w.table = true :=
    pending_eq_true.mpr (Or.inr ⟨w, mem_of_getElem? hw, hfresh, rfl⟩)
  have hdone : pending tables after w.table = false := h.pending_executed hw
  refine ⟨h.marker, h.raw, h.table, h.todo, h.read, ?_, ?_, ?_⟩
  · intro v hv
    rcases mem_or_eq_of_mem_set hv with hv | rfl
    · exact h.works v hv
    · exact h.works w (mem_of_getElem? hw)
  · show (after.map Work.table ++ tables).Nodup
    rw [htables]
    exact h.nodup
  · show (s.inserted ++ selected s.raw w.table w.lastNormBatchID w.endBatchID).Perm
      (s.raw.filter (due m s.normalizeBatchID endBatchID (pending tables after)))
    rw [hlow, hhigh, selected]
    refine (h.once.append_right _).trans ((filter_append_perm_or fun r _ hr => ?_).trans ?_)
    · -- a row of the table has been inserted only if it was normalized before
      by_cases ht : r.destinationTableName = w.table
      · rw [due, ht, hself] at hr
        simp only [Bool.not_true, Bool.and_false, Bool.or_false, Bool.and_eq_true,
          decide_eq_true_eq] at hr
        simp [hr.2]
      · simp [ht]
    · refine List.Perm.of_eq (filter_congr fun r _ => ?_)
      by_cases ht : r.destinationTableName = w.table
      · have hlt : s.normalizeBatchID < endBatchID := hlow ▸ hhigh ▸ (hinv.works w
          (mem_of_getElem? hw)).lt
        rw [due, due, ht, hself, hdone, hmapped]
        by_cases hold : (r.batchID : ℤ) ≤ s.normalizeBatchID
        · simp [hold]
        · simp [hold, not_le.mp hold]
      · rw [due, due, pending_executed_ne tables hw ht]
        simp [ht]

theorem setTable (h : ExactSending m s endBatchID tables last) {i : ℕ} {w : Work}
    (hw : s.works[i]? = some w) (hexecuted : w.executed = true) :
    ExactSending m (s.setLastNormalizedBatchIDForTable i w) endBatchID tables last := by
  obtain ⟨-, -, hhigh, -⟩ := h.works w (mem_of_getElem? hw)
  obtain ⟨hnot, -⟩ := h.unique hw
  have htable := h.table
  have htodo := h.todo
  refine ⟨h.marker, h.raw, ?_, ?_, h.read, fun v hv => h.works v (mem_of_mem_eraseIdx hv), ?_, ?_⟩
  · grind [State.setLastNormalizedBatchIDForTable]
  · grind [State.setLastNormalizedBatchIDForTable]
  · exact h.nodup.sublist (((eraseIdx_sublist s.works i).map Work.table).append_right tables)
  · show s.inserted.Perm (s.raw.filter (due m _ _ (pending tables (s.works.eraseIdx i))))
    rw [pending_eraseIdx tables hw hexecuted]
    exact h.once

theorem finish (h : ExactSending m s endBatchID [] last) (hidle : s.busy = [])
    (hlt : s.normalizeBatchID < endBatchID) {failed : Bool} :
    ExactIdle m { s with normalizeBatchID := endBatchID, run := none, failed := failed } := by
  have hworks : s.works = [] := by
    rw [State.busy, filter_eq_nil_iff] at hidle
    refine eq_nil_iff_forall_not_mem.mpr fun w hw => hidle w hw ?_
    rw [(h.works w hw).1]
    rfl
  refine ⟨hworks, h.marker, h.raw, h.table, h.once.trans (List.Perm.of_eq ?_)⟩
  refine filter_congr fun r _ => ?_
  rw [due, normalized, hworks]
  by_cases hnew : (r.batchID : ℤ) ≤ endBatchID
  · simp [hnew, pending]
  · have hold : ¬ (r.batchID : ℤ) ≤ s.normalizeBatchID := by omega
    simp [hnew, hold]

end ExactSending

theorem step_exact (hinv : Inv m s) (hrange : InRange s a) (h : s.failed = false → Exact m s)
    (hstep : step m s a = some s') :
    s'.failed = false → Exact m s' := by
  cases step_move hstep with
  | caughtUp sync group => exact h
  | @start sync group run idle lastNorm lt phase sound =>
    intro hok
    have hexact := (h hok).idle idle
    refine .of_phase rfl fun _ => ?_
    rw [phase]
    refine ⟨hexact.works, ?_, nofun, ?_, hexact.table, hexact.once⟩
    · show s.lastBatchIDInRawTable ≤ run.endBatchID
      rw [hexact.marker]
      exact le_of_lt (lt hrange hinv.nonneg)
    · show s.raw = stagesUpTo m s.lastBatchIDInRawTable ++ []
      rw [hexact.marker, append_nil]
      exact hexact.raw
  | @copyStage run b hrun phase le =>
    refine fun hok => .of_phase rfl fun hsound => ?_
    exact ((h hok).copying hrun hsound phase).copyStage hinv (hinv.copying hrun phase).1 le
  | @setRaw run b hrun phase =>
    refine fun hok => .of_phase rfl fun hsound => ?_
    exact ((h hok).copying hrun hsound phase).setRaw hinv (hinv.copying hrun phase).1
  | @listTables run b names parallel workers hrun phase lt perm =>
    refine fun hok => .of_phase rfl fun hsound => ?_
    exact ((h hok).copying hrun hsound phase).listTables hinv hrun
      (hinv.copying hrun phase).1 lt perm
  | @skip run t tables workers hrun phase done =>
    refine fun hok => .of_phase rfl fun hsound => ?_
    have hexact := (h hok).sending hrun hsound phase
    have hlt := hinv.lt run hrun
    rw [hinv.lastNorm run hrun, hexact.max_eq] at done
    omega
  | @read run t tables workers hrun phase due =>
    refine fun hok => .of_phase rfl fun hsound => ?_
    have hexact := (h hok).sending hrun hsound phase
    refine { hexact with read := ?_ }
    rintro _ ⟨⟩
    rw [hinv.lastNorm run hrun, hexact.max_eq]
  | @send run t tables workers last hrun phase =>
    refine fun hok => .of_phase rfl fun hsound => ?_
    exact ((h hok).sending hrun hsound phase).send
      ((hinv.sending hrun phase).2.1 t mem_cons_self)
  | @execQuery i w work fresh =>
    intro hok
    obtain ⟨hbusy, hsending⟩ := (h hok).of_work work
    refine ⟨fun hnone => absurd hnone hbusy, fun run hrun hsound => ?_⟩
    obtain ⟨tables, workers, last, hphase, hexact⟩ := hsending run hrun hsound
    rw [hphase]
    exact hexact.execQuery hinv work fresh
  | @setTable i w work executed =>
    intro hok
    obtain ⟨hbusy, hsending⟩ := (h hok).of_work work
    refine ⟨fun hnone => absurd hnone hbusy, fun run hrun hsound => ?_⟩
    obtain ⟨tables, workers, last, hphase, hexact⟩ := hsending run hrun hsound
    rw [hphase]
    exact hexact.setTable work executed
  | @workerFails i w work =>
    intro hok
    obtain ⟨hbusy, hsending⟩ := (h hok).of_work work
    refine ⟨fun hnone => absurd (workerFails_idle hnone) hbusy, fun run hrun hsound => ?_⟩
    rcases workerFails_run hrun with ⟨hlate, hold⟩ | ⟨old, -, rfl⟩
    · -- no run has left a worker behind
      obtain ⟨tables, workers, last, -, hexact⟩ := hsending run hold hsound
      rw [(hexact.works w (mem_of_getElem? work)).1] at hlate
      cases hlate
    · cases hsound
  | connectFails hrun => exact fun _ => .of_phase rfl nofun
  | @finish run workers last ok hrun phase idle sound =>
    intro hok
    have hok' : (s.failed || !ok) = false := hok
    rw [Bool.or_eq_false_iff] at hok'
    exact ⟨fun _ => ((h hok'.1).sending hrun sound phase).finish idle (hinv.lt run hrun), nofun⟩
  | fail hrun =>
    intro hok
    cases hok

/-! ### Whole histories -/

theorem runs_inv {as : List Action} {s s' : State V} (h : Inv m s)
    (hexact : s.failed = false → Exact m s) (hrange : Along (step m) InRange s as)
    (hrun : runs (step m) s as = some s') :
    Inv m s' ∧ (s'.failed = false → Exact m s') ∧ s.normalizeBatchID ≤ s'.normalizeBatchID := by
  have hall := runs_invariant (P := InRange)
    (fun t => Inv m t ∧ (t.failed = false → Exact m t) ∧ s.normalizeBatchID ≤ t.normalizeBatchID)
    (fun t a t' ⟨hinv, hex, hle⟩ hr hs =>
      ⟨step_inv hinv hr hs, step_exact hinv hr hex hs, hle.trans (step_forward hinv hs)⟩)
    ⟨h, hexact, le_rfl⟩ hrange hrun
  exact hall

/-- **The markers survive failures.**  In every history of runs whose group sizes do not
wrap around: what is normalized has been copied and inserted, every table has been inserted
up to some batch without gaps, the normalized batch never moves backwards, and if no run
has failed every row was copied and inserted exactly once. -/
theorem markers_survive_failures (m : Mirror V) {as : List Action} {s : State V}
    (hrun : runs (step m) {} as = some s) (hrange : Along (step m) InRange {} as) :
    (∀ b : ℕ, 1 ≤ b → (b : ℤ) ≤ s.normalizeBatchID → ∀ r ∈ m.stage b, r ∈ s.raw) ∧
    (∀ r ∈ s.raw, m.tableNameSchemaMapping r.destinationTableName = true →
      (r.batchID : ℤ) ≤ s.normalizeBatchID → r ∈ s.inserted) ∧
    (∀ r ∈ s.raw, r ∈ s.inserted → ∀ r' ∈ s.raw,
      r'.destinationTableName = r.destinationTableName → r'.batchID ≤ r.batchID →
        r' ∈ s.inserted) ∧
    (∀ pre post s₁, as = pre ++ post → runs (step m) {} pre = some s₁ →
      s₁.normalizeBatchID ≤ s.normalizeBatchID) ∧
    (s.failed = false → s.run = none →
      s.raw = stagesUpTo m s.normalizeBatchID ∧
      s.inserted.Perm
        (s.raw.filter fun r => m.tableNameSchemaMapping r.destinationTableName)) := by
  obtain ⟨hinv, hexact, -⟩ := runs_inv inv_init (fun _ => exact_init) hrange hrun
  refine ⟨fun b hpos hb => hinv.data.copied b hpos (hb.trans hinv.le), ?_, ?_, ?_, ?_⟩
  · intro r hr hmapped hbatch
    exact hinv.norm _ hmapped r hr rfl hbatch
  · intro r hr hins r' hr' htable hbatch
    exact hinv.data.closed r hr hins r' hr' htable (Int.ofNat_le.mpr hbatch)
  · rintro pre post s₁ rfl hpre
    obtain ⟨hbefore, hafter⟩ := along_append hrange hpre
    rw [runs_append, hpre] at hrun
    obtain ⟨hinv₁, hexact₁, -⟩ := runs_inv inv_init (fun _ => exact_init) hbefore hpre
    exact (runs_inv hinv₁ hexact₁ hafter hrun).2.2
  · intro hok hidle
    have hdone := (hexact hok).idle hidle
    refine ⟨hdone.raw, hdone.once.trans (List.Perm.of_eq (filter_congr fun r hr => ?_))⟩
    rw [hdone.raw] at hr
    rw [normalized, decide_eq_true (mem_stagesUpTo hr), Bool.and_true]

end Steps

/-! ### A late worker, and a large group -/

/-- Two rows in every batch, one for each of two tables. -/
def twoTables : Mirror ℕ where
  stage b := ["items", "orders"].map fun table =>
    { timestamp := b, destinationTableName := table, data := .empty, recordType := 0,
      matchData := none, batchID := b, unchangedToastColumns := "" }
  tableNameSchemaMapping := fun table => table = "items" || table = "orders"
  batchID_stage b r hr := by
    obtain ⟨table, -, rfl⟩ := mem_map.mp hr
    rfl

/-- The first run fails when it hands out the second query; its worker inserts two batches
while the second run, with a smaller group, inserts one.  The worker sets the marker of its
table between the look at it and the query for it. -/
def lateWorker : List Action :=
  [.start 2 (some 2), .copyStage, .setLastBatchIDInRawTable, .copyStage, .setLastBatchIDInRawTable,
   .listTables ["items", "orders"] 2, .getLastNormalizedBatchIDForTable, .sendQuery, .fail,
   .start 2 (some 1), .listTables ["orders", "items"] 1, .getLastNormalizedBatchIDForTable,
   .sendQuery, .execQuery 1, .execQuery 0, .setLastNormalizedBatchIDForTable 1,
   .getLastNormalizedBatchIDForTable, .setLastNormalizedBatchIDForTable 0, .sendQuery,
   .execQuery 0, .setLastNormalizedBatchIDForTable 0, .updateNormalizeBatchID true]

theorem lateWorker_survived : ∃ s, runs (step twoTables) {} lateWorker = some s ∧
    s.normalizeBatchID = 1 ∧ s.failed = true ∧
    ∀ r ∈ s.raw, twoTables.tableNameSchemaMapping r.destinationTableName = true →
      (r.batchID : ℤ) ≤ 1 → r ∈ s.inserted := by
  have hrun : ((runs (step twoTables) {} lateWorker).map fun s => (s.normalizeBatchID, s.failed)) =
      some (1, true) := by decide +kernel
  obtain ⟨s, hs, hfields⟩ := Option.map_eq_some_iff.mp hrun
  obtain ⟨hnorm, hfailed⟩ := Prod.mk.inj hfields
  have hmarkers := markers_survive_failures twoTables hs (along_of_check (by decide +kernel))
  refine ⟨s, hs, hnorm, hfailed, fun r hr hmapped hbatch => ?_⟩
  exact hmarkers.2.1 r hr hmapped (hnorm ▸ hbatch)

/-- One batch, normalized in one run. -/
def largestGroup : List Action :=
  [.start 1 (some (2 ^ 63 - 1)), .copyStage, .setLastBatchIDInRawTable,
   .listTables ["items", "orders"] 1, .getLastNormalizedBatchIDForTable, .sendQuery,
   .execQuery 0, .setLastNormalizedBatchIDForTable 0, .getLastNormalizedBatchIDForTable,
   .sendQuery, .execQuery 0, .setLastNormalizedBatchIDForTable 0, .updateNormalizeBatchID true]

/-- With the largest group size the second run ends before it starts, and takes the mirror
back to a negative batch. -/
theorem largestGroup_moves_backwards :
    ∃ pre post s₁ s, runs (step twoTables) {} pre = some s₁ ∧
      runs (step twoTables) {} (pre ++ post) = some s ∧ s.failed = false ∧
      s₁.normalizeBatchID = 1 ∧ s.normalizeBatchID = -2 ^ 63 := by
  have hpre : ((runs (step twoTables) {} largestGroup).map fun s => s.normalizeBatchID) =
      some 1 := by decide +kernel
  have hrun : ((runs (step twoTables) {} (largestGroup ++
      [.start 2 (some (2 ^ 63 - 1)), .listTables [] 1, .updateNormalizeBatchID true])).map
        fun s => (s.normalizeBatchID, s.failed)) = some (-2 ^ 63, false) := by decide +kernel
  obtain ⟨s₁, hs₁, hnorm₁⟩ := Option.map_eq_some_iff.mp hpre
  obtain ⟨s, hs, hfields⟩ := Option.map_eq_some_iff.mp hrun
  obtain ⟨hnorm, hfailed⟩ := Prod.mk.inj hfields
  exact ⟨_, _, s₁, s, hs₁, hs, hfailed, hnorm₁, hnorm⟩

end Bookkeeping

end ClickHouse
