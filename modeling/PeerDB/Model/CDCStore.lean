/-
The spill-to-disk store of the puller (`connectors/utils/cdc_store.go`).

A key lives in memory once it was written there; a new key goes to disk while the
thresholds are exceeded.  A key may be on disk and later be written to memory, and then
the copy on disk is stale.  `view_set` says that a reader does not see any of this: the
store is the map `Store`, whatever the thresholds answer.
-/
import PeerDB.Model.Record

/-- `CDCStore`.  The encoding of records on disk is taken to be lossless; an unopened
database holds nothing. -/
structure CDCStore (V H : Type) where
  inMemoryRecords : String × H → Option (Record V)
  pebbleDB : String × H → Option (Record V)

namespace CDCStore

variable {V H : Type}

/-- `NewCDCStore`. -/
def new : CDCStore V H := ⟨fun _ => none, fun _ => none⟩

def get (c : CDCStore V H) (key : TableWithPkey H) : Option (Record V) :=
  key.bind fun k => (c.inMemoryRecords k).or (c.pebbleDB k)

variable [DecidableEq H]

/-- `Set`, with the answer of `diskSpillThresholdsExceeded`. -/
def set (c : CDCStore V H) (diskSpillThresholdsExceeded : Bool) (key : TableWithPkey H)
    (rec : Record V) : CDCStore V H :=
  match key with
  | none => c
  | some k =>
    if k.1 = "" then c
    else if (c.inMemoryRecords k).isSome || !diskSpillThresholdsExceeded then
      { c with inMemoryRecords := fun k' => if k' = k then some rec else c.inMemoryRecords k' }
    else { c with pebbleDB := fun k' => if k' = k then some rec else c.pebbleDB k' }

omit [DecidableEq H] in
/-- The store as a reader sees it. -/
def view (c : CDCStore V H) : Store V H := fun k => (c.inMemoryRecords k).or (c.pebbleDB k)

omit [DecidableEq H] in
theorem get_eq (c : CDCStore V H) (key : TableWithPkey H) : c.get key = c.view.get key := rfl

theorem view_set (c : CDCStore V H) (exceeded : Bool) (key : TableWithPkey H) (rec : Record V) :
    (c.set exceeded key rec).view = c.view.set key rec := by
  cases key with
  | none => rfl
  | some k =>
    by_cases hname : k.1 = ""
    · simp only [set, Store.set, if_pos hname]
    · simp only [set, Store.set, if_neg hname]
      by_cases hmem : (c.inMemoryRecords k).isSome || !exceeded
      · rw [if_pos hmem]
        funext k'
        by_cases hk : k' = k <;> simp [view, hk]
      · -- a key that goes to disk is not in memory
        rw [if_neg hmem]
        rw [Bool.or_eq_true, not_or] at hmem
        have hnone := Option.not_isSome_iff_eq_none.mp hmem.1
        funext k'
        by_cases hk : k' = k
        · simp [view, hk, hnone]
        · simp [view, hk]

end CDCStore
