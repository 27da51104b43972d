/-
Rows of the raw tables (`_PEERDB_RAW_…`) and the text of column sets.

A destination that normalizes first appends every record of a batch to a raw table.
The set of unchanged TOAST columns is stored as text: the sorted names with commas
between them (`KeysToString`), which is split again when statements are generated.
-/
import PeerDB.Model.Record
import Mathlib.Data.List.Dedup
import Mathlib.Data.List.Sort

/-- A row of a raw table. -/
structure RawRow (V : Type) where
  timestamp : ℤ
  destinationTableName : String
  data : Items V
  recordType : ℕ
  /-- `none` is the empty text -/
  matchData : Option (Items V)
  batchID : ℕ
  unchangedToastColumns : String

def Record.rawType {V : Type} : Record V → ℕ
  | .update .. => 1
  | .delete .. => 2
  | _ => 0

theorem Record.rawType_eq_two {V : Type} {rec : Record V} :
    rec.rawType = 2 ↔ rec.kind = .delete := by
  cases rec <;> simp [rawType, kind]

/-- `strings.Join(names, ",")`. -/
def joinComma (names : List String) : String :=
  String.ofList ([','].intercalate (names.map String.toList))

/-- `strings.Split(text, ",")`. -/
def splitComma (text : String) : List String := (text.toList.splitOn ',').map String.ofList

def keysToString (keys : List String) : String :=
  joinComma (keys.dedup.insertionSort fun a b => a ≤ b)

def arrayMinus (first second : List String) : List String :=
  first.filter fun a => decide (a ∉ second)

theorem splitComma_joinComma {names : List String} (hne : names ≠ [])
    (h : ∀ name ∈ names, ',' ∉ name.toList) : splitComma (joinComma names) = names := by
  have hcomma : ∀ l ∈ names.map String.toList, ',' ∉ l := by
    intro l hl
    obtain ⟨name, hname, rfl⟩ := List.mem_map.mp hl
    exact h name hname
  have hne' : names.map String.toList ≠ [] := fun hnil => hne (List.map_eq_nil_iff.mp hnil)
  rw [splitComma, joinComma, String.toList_ofList, List.splitOn_intercalate ',' hcomma hne',
    List.map_map]
  have hid : (String.ofList ∘ String.toList) = id := funext fun _ => String.ofList_toList
  rw [hid, List.map_id]

/-- The names in the text of a set of comma-free names; the text of the empty set
stands for one empty name. -/
theorem mem_split_keysToString {keys : List String} (h : ∀ key ∈ keys, ',' ∉ key.toList)
    {c : String} (hc : c ≠ "") : c ∈ splitComma (keysToString keys) ↔ c ∈ keys := by
  have hmem : ∀ name, name ∈ keys.dedup.insertionSort (fun a b => a ≤ b) ↔ name ∈ keys := by
    intro name
    rw [List.mem_insertionSort, List.mem_dedup]
  by_cases hnil : keys = []
  · subst hnil
    have hempty : splitComma (keysToString []) = [""] := by decide
    rw [hempty, List.mem_singleton]
    exact ⟨fun he => absurd he hc, fun he => by cases he⟩
  · obtain ⟨key, hkey⟩ := List.exists_mem_of_ne_nil keys hnil
    have hne : keys.dedup.insertionSort (fun a b => a ≤ b) ≠ [] :=
      List.ne_nil_of_mem ((hmem key).mpr hkey)
    rw [keysToString, splitComma_joinComma hne fun name hname => h name ((hmem name).mp hname)]
    exact hmem c
