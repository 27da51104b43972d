/-
The CDC store as it spills to disk (`connectors/utils/cdc_store.go`).

`CDCStore` takes the disk to be a map of records and the threshold check to be an answer
from outside.  Here both are as in the code: records go to Pebble as gob bytes under the
gob bytes of their key, the database is opened by the first record that spills, and the
check compares the number of keys in memory and the size of the heap with the thresholds.

* `set_refines`, `get_refines` — one `Set` and one `Get` are those of `CDCStore`;
* `run_refines` — and so is every sequence of calls;
* `run_get_lastSet` — hence the store is a map, wherever a record is kept.
-/
import PeerDB.Model.CDCStore
import Mathlib.Data.List.AList
import Mathlib.Data.List.Induction

/-- The gob encoding of keys and records and their `%v` texts in error messages. -/
structure Gob (V H : Type) where
  encodeKey : String × H → Except String (List UInt8)
  encodeRec : Record V → Except String (List UInt8)
  decodeRec : List UInt8 → Except String (Record V)
  sprintKey : String × H → String
  sprintRec : Record V → String

namespace Gob

variable {V H : Type}

/-- Every key can be encoded, and different keys have different encodings. -/
structure KeepsKeys (g : Gob V H) : Prop where
  total : ∀ key, ∃ bytes, g.encodeKey key = .ok bytes
  inj : ∀ {k l bytes}, g.encodeKey k = .ok bytes → g.encodeKey l = .ok bytes → k = l

/-- The record is read back as it was written. -/
def Keeps (g : Gob V H) (rec : Record V) : Prop :=
  ∃ bytes, g.encodeRec rec = .ok bytes ∧ g.decodeRec bytes = .ok rec

end Gob

def encVal {α : Type} (sprint : α → String) (encode : α → Except String (List UInt8)) (val : α) :
    Except String (List UInt8) :=
  (encode val).mapError fun err => "unable to encode value " ++ sprint val ++ ": " ++ err

/-- What a call of the store finds outside: the bytes of heap objects, and whether Pebble
fails to open, to write or to read. -/
structure SpillEnv where
  heapObjects : UInt64 := 0
  openErr : Option String := none
  setErr : Option String := none
  getErr : Option String := none

/-- Pebble does not fail. -/
def SpillEnv.Works (env : SpillEnv) : Prop :=
  env.openErr = none ∧ env.setErr = none ∧ env.getErr = none

/-- `CDCStore` of the source.  `pebbleDB` is `none` until the database is opened. -/
structure SpillStore (V H : Type) where
  inMemoryRecords : AList fun _ : String × H => Record V
  pebbleDB : Option (List UInt8 → Option (List UInt8))
  thresholdReason : String
  memThresholdBytes : UInt64
  numRecordsSwitchThreshold : Int64
  numRecords : Int32

namespace SpillStore

variable {V H : Type}

/-- `NewCDCStore`, with the two settings and the memory of the worker. -/
def new (numRecordsSwitchThreshold memPercent : Int64) (maxMemBytes : UInt64) :
    SpillStore V H where
  inMemoryRecords := ∅
  pebbleDB := none
  thresholdReason := ""
  memThresholdBytes :=
    if 0 < memPercent ∧ 0 < maxMemBytes then maxMemBytes * memPercent.toUInt64 / 100 else 0
  numRecordsSwitchThreshold := numRecordsSwitchThreshold
  numRecords := 0

/-- `initPebbleDB`: the open database. -/
def initPebbleDB (c : SpillStore V H) (env : SpillEnv) :
    Except String (List UInt8 → Option (List UInt8)) :=
  match c.pebbleDB with
  | some db => .ok db
  | none =>
    match env.openErr with
    | some err => .error ("failed to initialize Pebble database: " ++ err)
    | none => .ok fun _ => none

/-- `diskSpillThresholdsExceeded`: the reason if they are. -/
def diskSpillThresholdsExceeded (c : SpillStore V H) (env : SpillEnv) : Option String :=
  if 0 ≤ c.numRecordsSwitchThreshold ∧
      c.numRecordsSwitchThreshold.toInt ≤ c.inMemoryRecords.keys.length then
    some ("more than " ++ toString c.numRecordsSwitchThreshold ++
      " primary keys read, spilling to disk")
  else if 0 < c.memThresholdBytes ∧ c.memThresholdBytes ≤ env.heapObjects then
    some ("memalloc greater than " ++ toString c.memThresholdBytes ++
      " bytes, spilling to disk")
  else none

/-- The write to Pebble in `Set`. -/
def writeDisk (g : Gob V H) (env : SpillEnv) (db : List UInt8 → Option (List UInt8))
    (key : String × H) (rec : Record V) : Except String (List UInt8 → Option (List UInt8)) := do
  let encodedKey ← encVal g.sprintKey g.encodeKey key
  let encodedRec ← encVal g.sprintRec g.encodeRec rec
  match env.setErr with
  | some err => .error ("unable to store value in Pebble: " ++ err)
  | none => .ok (Function.update db encodedKey (some encodedRec))

def get [DecidableEq H] (g : Gob V H) (env : SpillEnv) (c : SpillStore V H) (key : String × H) :
    Except String (Option (Record V)) :=
  match c.inMemoryRecords.lookup key with
  | some rec => .ok (some rec)
  | none =>
    match c.pebbleDB with
    | none => .ok none
    | some db => do
      let encodedKey ← encVal g.sprintKey g.encodeKey key
      match env.getErr with
      | some err =>
        .error ("error while retrieving value with key " ++ g.sprintKey key ++ ": " ++ err)
      | none =>
        match db encodedKey with
        | none => .ok none
        | some encodedRec =>
          match g.decodeRec encodedRec with
          | .error err => .error ("failed to decode record: " ++ err)
          | .ok rec => .ok (some rec)

variable [DecidableEq H] (g : Gob V H)

/-- `Set`: the store after the call, and the error if there is one.  `numRecords` counts
the calls without an error. -/
def set (env : SpillEnv) (c : SpillStore V H) (key : String × H) (rec : Record V) :
    SpillStore V H × Option String :=
  if key.1 = "" then ({ c with numRecords := c.numRecords + 1 }, none)
  else
    let inMemory : SpillStore V H :=
      { c with
        inMemoryRecords := c.inMemoryRecords.insert key rec
        numRecords := c.numRecords + 1 }
    if (c.inMemoryRecords.lookup key).isSome then (inMemory, none)
    else
      match c.diskSpillThresholdsExceeded env with
      | none => (inMemory, none)
      | some reason =>
        let c := { c with thresholdReason := reason }
        match c.initPebbleDB env with
        | .error err => (c, some err)
        | .ok db =>
          let c := { c with pebbleDB := some db }
          match writeDisk g env db key rec with
          | .error err => (c, some err)
          | .ok db' => ({ c with pebbleDB := some db', numRecords := c.numRecords + 1 }, none)

/-! ### One call refines `CDCStore` -/

/-- The store `c` holds in memory what `a` holds there, and on disk the bytes of what `a`
holds there. -/
structure Refines (c : SpillStore V H) (a : CDCStore V H) : Prop where
  memory : ∀ key, c.inMemoryRecords.lookup key = a.inMemoryRecords key
  closed : c.pebbleDB = none → ∀ key, a.pebbleDB key = none
  disk : ∀ db, c.pebbleDB = some db → ∀ key bytes, g.encodeKey key = .ok bytes →
    Option.Rel (fun stored rec => g.decodeRec stored = .ok rec) (db bytes) (a.pebbleDB key)

theorem new_refines (threshold memPercent : Int64) (maxMemBytes : UInt64) :
    Refines g (new threshold memPercent maxMemBytes) CDCStore.new where
  memory key := AList.lookup_empty key
  closed _ _ := rfl
  disk := nofun

variable {g} {c : SpillStore V H} {a : CDCStore V H}

theorem Refines.congr {c' : SpillStore V H} (h : Refines g c a)
    (hmem : c'.inMemoryRecords = c.inMemoryRecords) (hdisk : c'.pebbleDB = c.pebbleDB) :
    Refines g c' a where
  memory := by rw [hmem]; exact h.memory
  closed := by rw [hdisk]; exact h.closed
  disk := by rw [hdisk]; exact h.disk

/-- An opened database that holds nothing is as one that is not open. -/
theorem initPebbleDB_refines {env : SpillEnv} {db : List UInt8 → Option (List UInt8)}
    (h : Refines g c a) (hopen : c.initPebbleDB env = .ok db) :
    Refines g { c with pebbleDB := some db } a where
  memory := h.memory
  closed hc := nomatch hc
  disk db' hdb' key bytes hkey := by
    cases hdb'
    rw [initPebbleDB] at hopen
    cases hp : c.pebbleDB with
    | some db₀ =>
      rw [hp] at hopen
      cases hopen
      exact h.disk db hp key bytes hkey
    | none =>
      rw [hp] at hopen
      cases he : env.openErr with
      | some err =>
        rw [he] at hopen
        cases hopen
      | none =>
        rw [he] at hopen
        cases hopen
        rw [h.closed hp key]
        exact .none

omit [DecidableEq H] in
theorem initPebbleDB_works {env : SpillEnv} (henv : env.Works) (c : SpillStore V H) :
    ∃ db, c.initPebbleDB env = .ok db := by
  rw [initPebbleDB]
  cases c.pebbleDB with
  | some db => exact ⟨db, rfl⟩
  | none =>
    rw [henv.1]
    exact ⟨_, rfl⟩

/-- A write to the open database adds the record under its key, and under no other. -/
theorem writeDisk_refines (hg : g.KeepsKeys) {env : SpillEnv} (henv : env.Works)
    {db : List UInt8 → Option (List UInt8)} (h : Refines g c a) (hdb : c.pebbleDB = some db)
    (key : String × H) {rec : Record V} (hrec : g.Keeps rec) :
    ∃ db', writeDisk g env db key rec = .ok db' ∧
      Refines g { c with pebbleDB := some db', numRecords := c.numRecords + 1 }
        { a with pebbleDB := fun k => if k = key then some rec else a.pebbleDB k } := by
  obtain ⟨kbytes, hkey⟩ := hg.total key
  obtain ⟨rbytes, henc, hdec⟩ := hrec
  refine ⟨Function.update db kbytes (some rbytes), ?_, h.memory, nofun, ?_⟩
  · simp only [writeDisk, encVal, hkey, henc, henv.2.1]
    rfl
  · intro db' hdb' k bytes hk
    cases hdb'
    by_cases hkk : k = key
    · subst hkk
      have hbytes : bytes = kbytes := Except.ok.inj (hk.symm.trans hkey)
      dsimp only
      rw [if_pos rfl, hbytes, Function.update_self]
      exact .some hdec
    · -- another key has other bytes
      have hbytes : bytes ≠ kbytes := by
        intro heq
        subst heq
        exact hkk (hg.inj hk hkey)
      dsimp only
      rw [if_neg hkk, Function.update_of_ne hbytes]
      exact h.disk db hdb k bytes hk

theorem insert_refines (h : Refines g c a) (key : String × H) (rec : Record V) :
    Refines g
      { c with
        inMemoryRecords := c.inMemoryRecords.insert key rec
        numRecords := c.numRecords + 1 }
      { a with inMemoryRecords := fun k => if k = key then some rec else a.inMemoryRecords k }
    where
  memory k := by
    dsimp only
    by_cases hk : k = key
    · subst hk
      rw [if_pos rfl, AList.lookup_insert]
    · rw [if_neg hk, AList.lookup_insert_ne hk]
      exact h.memory k
  closed := h.closed
  disk := h.disk

/-- `Set` returns no error and is `CDCStore.set` with the answer of the threshold check. -/
theorem set_refines (hg : g.KeepsKeys) {env : SpillEnv} (henv : env.Works) (h : Refines g c a)
    (key : String × H) {rec : Record V} (hrec : g.Keeps rec) :
    ∃ c', set g env c key rec = (c', none) ∧
      Refines g c' (a.set (c.diskSpillThresholdsExceeded env).isSome (some key) rec) := by
  by_cases hname : key.1 = ""
  · rw [set, if_pos hname, CDCStore.set, if_pos hname]
    exact ⟨_, rfl, h.congr rfl rfl⟩
  rw [set, if_neg hname, CDCStore.set, if_neg hname, ← h.memory key]
  cases hmem : (c.inMemoryRecords.lookup key).isSome with
  | true => exact ⟨_, rfl, insert_refines h key rec⟩
  | false =>
    cases hspill : c.diskSpillThresholdsExceeded env with
    | none => exact ⟨_, rfl, insert_refines h key rec⟩
    | some reason =>
      -- the record goes to disk, after the database is opened
      have h₁ : Refines g { c with thresholdReason := reason } a := h.congr rfl rfl
      obtain ⟨db, hopen⟩ := initPebbleDB_works henv { c with thresholdReason := reason }
      obtain ⟨db', hwrite, href⟩ :=
        writeDisk_refines hg henv (initPebbleDB_refines h₁ hopen) rfl key hrec
      refine ⟨_, ?_, href⟩
      simp only [hopen, hwrite, Bool.false_eq_true, if_false]

theorem get_refines (hg : g.KeepsKeys) {env : SpillEnv} (henv : env.Works) (h : Refines g c a)
    (key : String × H) : get g env c key = .ok (a.get (some key)) := by
  show _ = Except.ok ((a.inMemoryRecords key).or (a.pebbleDB key))
  rw [get, h.memory key]
  cases a.inMemoryRecords key with
  | some rec => rfl
  | none =>
    cases hdb : c.pebbleDB with
    | none =>
      rw [h.closed hdb key]
      rfl
    | some db =>
      obtain ⟨bytes, hkey⟩ := hg.total key
      have hrel := h.disk db hdb key bytes hkey
      simp only [encVal, hkey, henv.2.2]
      show (match db bytes with | none => _ | some _ => _) = _
      generalize db bytes = stored at hrel
      generalize a.pebbleDB key = held at hrel
      cases hrel with
      | none => rfl
      | some hdec =>
        simp only [hdec]
        rfl

/-! ### Sequences of calls -/

/-- A call of the store. -/
inductive Call (V H : Type) where
  | set (env : SpillEnv) (key : String × H) (rec : Record V)
  | get (env : SpillEnv) (key : String × H)

/-- Pebble works during the call, and a record to be stored survives its encoding. -/
def Call.Fine (g : Gob V H) : Call V H → Prop
  | .set env _ rec => env.Works ∧ g.Keeps rec
  | .get env _ => env.Works

variable (g) in
/-- The store after a call; `Get` leaves it as it is. -/
def step (c : SpillStore V H) : Call V H → SpillStore V H
  | .set env key rec => (set g env c key rec).1
  | .get _ _ => c

variable (g) in
def run (c : SpillStore V H) (calls : List (Call V H)) : SpillStore V H := calls.foldl (step g) c

/-- The record of the most recent `Set` of a key. -/
def lastSet (key : String × H) (calls : List (Call V H)) : Option (Record V) :=
  calls.reverse.findSome? fun
    | .set _ k rec => if k = key then some rec else none
    | .get _ _ => none

theorem lastSet_eq_none {key : String × H} {calls : List (Call V H)} :
    lastSet key calls = none ↔ ∀ env rec, Call.set env key rec ∉ calls := by
  rw [lastSet, List.findSome?_eq_none_iff]
  constructor
  · intro h env rec hmem
    have hnone : (if key = key then some rec else none) = none :=
      h _ (List.mem_reverse.mpr hmem)
    rw [if_pos rfl] at hnone
    cases hnone
  · intro h call hmem
    cases call with
    | get env k => rfl
    | set env k rec =>
      refine if_neg fun hk => ?_
      subst hk
      exact h env rec (List.mem_reverse.mp hmem)

/-- Every run refines some `CDCStore`, whose map has the last records written. -/
theorem run_refines (hg : g.KeepsKeys) (threshold memPercent : Int64) (maxMemBytes : UInt64)
    (calls : List (Call V H)) (hcalls : ∀ call ∈ calls, call.Fine g) :
    ∃ a : CDCStore V H, Refines g (run g (new threshold memPercent maxMemBytes) calls) a ∧
      ∀ key, key.1 ≠ "" → a.get (some key) = lastSet key calls := by
  induction calls using List.reverseRecOn with
  | nil => exact ⟨_, new_refines g threshold memPercent maxMemBytes, fun _ _ => rfl⟩
  | append_singleton calls call ih =>
    obtain ⟨a, href, hget⟩ := ih fun x hx => hcalls x (List.mem_append_left _ hx)
    have hcall := hcalls call (List.mem_append_right _ (List.mem_singleton_self call))
    have hlast : ∀ key, lastSet key (calls ++ [call]) =
        ((match call with
          | .set _ k rec => if k = key then some rec else none
          | .get _ _ => none).or (lastSet key calls)) := by
      intro key
      rw [lastSet, List.reverse_append, List.reverse_singleton, List.singleton_append,
        List.findSome?_cons]
      cases call with
      | get env k => rfl
      | set env k rec =>
        by_cases hk : k = key
        · simp only [if_pos hk]
          rfl
        · simp only [if_neg hk]
          rfl
    rw [run, List.foldl_concat, ← run]
    cases call with
    | get env k => exact ⟨a, href, fun key hkey => by rw [hlast]; exact hget key hkey⟩
    | set env k rec =>
      obtain ⟨c', hset, href'⟩ := set_refines hg hcall.1 href k hcall.2
      refine ⟨_, by rw [step, hset]; exact href', fun key hkey => ?_⟩
      rw [hlast, CDCStore.get_eq, CDCStore.view_set]
      dsimp only
      by_cases hk : k = key
      · rw [if_pos hk, hk]
        exact Store.get_set_self _ hkey rec
      · rw [if_neg hk, Store.get_set_ne _ (fun h => hk (Option.some.inj h)) rec]
        exact hget key hkey

/-- **The store is a map across spilling**: after every sequence of calls, with any
thresholds and any sizes of the heap at the calls, `Get` of a key with a table name returns
the record of the most recent `Set` of that key, and nothing exactly if there was none.
No `Set` fails, and a `Set` without a table name changes the answer to no `Get`. -/
theorem run_get_lastSet (hg : g.KeepsKeys) (threshold memPercent : Int64) (maxMemBytes : UInt64)
    (calls : List (Call V H)) (hcalls : ∀ call ∈ calls, call.Fine g) {env : SpillEnv}
    (henv : env.Works) :
    let c := run g (new threshold memPercent maxMemBytes) calls
    (∀ key, key.1 ≠ "" → get g env c key = .ok (lastSet key calls) ∧
      (get g env c key = .ok none ↔ ∀ env' rec, Call.set env' key rec ∉ calls)) ∧
    (∀ key rec, g.Keeps rec → (set g env c key rec).2 = none) ∧
    ∀ env' h rec key, get g env (set g env' c ("", h) rec).1 key = get g env c key := by
  intro c
  obtain ⟨a, href, hlast⟩ := run_refines hg threshold memPercent maxMemBytes calls hcalls
  have hget : ∀ key, key.1 ≠ "" → get g env c key = .ok (lastSet key calls) := by
    intro key hkey
    rw [get_refines hg henv href key, hlast key hkey]
  refine ⟨fun key hkey => ⟨hget key hkey, ?_⟩, fun key rec hrec => ?_, fun _ _ _ _ => rfl⟩
  · rw [hget key hkey, Except.ok.injEq]
    exact lastSet_eq_none
  · obtain ⟨c', hset, -⟩ := set_refines hg henv href key hrec
    rw [hset]

/-- Deletes without values, encoded by their checkpoint; a table has one row. -/
def deleteGob : Gob Unit Unit where
  encodeKey key := .ok key.1.toByteArray.data.toList
  encodeRec rec := .ok (List.replicate rec.getCheckpointID 0)
  decodeRec bytes := .ok (.delete ⟨bytes.length, 0, 0⟩ Items.empty [] "src" "dst")
  sprintKey key := key.1
  sprintRec _ := "delete"

theorem deleteGob_keepsKeys : deleteGob.KeepsKeys where
  total key := ⟨_, rfl⟩
  inj {k l bytes} hk hl := by
    have hdata := Array.toList_inj.mp (Except.ok.inj (hk.trans hl.symm))
    exact Prod.ext (String.toByteArray_inj.mp (ByteArray.ext hdata)) rfl

def deleteAt (checkpointID : ℕ) : Record Unit :=
  .delete ⟨checkpointID, 0, 0⟩ Items.empty [] "src" "dst"

/-- A row is written to disk, and again, to memory, when the heap is small: the copy on disk
is stale and the one in memory is found. -/
theorem run_get_lastSet_shrunkHeap :
    get deleteGob {} (run deleteGob (new (-1) 100 100)
      [.set { heapObjects := 200 } ("dst", ()) (deleteAt 1),
        .set { heapObjects := 50 } ("dst", ()) (deleteAt 2)]) ("dst", ()) =
      .ok (some (deleteAt 2)) := by
  refine (run_get_lastSet deleteGob_keepsKeys (-1) 100 100 _ ?_ ⟨rfl, rfl, rfl⟩).1 ("dst", ())
    (by decide) |>.1
  intro call hcall
  have hworks : ∀ heap : UInt64, SpillEnv.Works { heapObjects := heap } :=
    fun _ => ⟨rfl, rfl, rfl⟩
  have hkeeps : ∀ n, deleteGob.Keeps (deleteAt n) := by
    intro n
    refine ⟨_, rfl, ?_⟩
    simp [deleteGob, deleteAt, Record.getCheckpointID, Record.base]
  rw [List.mem_cons, List.mem_singleton] at hcall
  rcases hcall with rfl | rfl
  · exact ⟨hworks 200, hkeeps 1⟩
  · exact ⟨hworks 50, hkeeps 2⟩

end SpillStore
