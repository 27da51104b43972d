/-
Unchanged TOAST columns over the row changes of a batch.

A table whose replica identity is not FULL is followed from its rows to the records of the
stream: the source applies a change to the table and sends a message for it, the loop
decodes the message, fills what the message leaves out from the store, and puts the record
on the stream (`Batch`).  The store spills to disk as it likes.

A relation message may come in between and change the columns of the table.  The records in
the store keep the columns they were decoded with.

`Books` says what the store holds in terms of the records put on the stream, and that the
last record of a row that is there is not a delete; `Filled` says for histories that keep
the keys what the last record of a row carries.
-/
import PeerDB.Model.CDCStore
import PeerDB.Postgres.Merge
import PeerDB.Postgres.Tuple

open Loop KeyedLog

/-! ### The source -/

/-- A change of one row. -/
inductive SourceChange (V : Type) where
  | insert (row : Row V)
  | update (old new : Row V) (toasted : String → Bool)
  | delete (row : Row V)

namespace SourceChange

variable {V : Type}

/-- The row a record of the change is about. -/
def row : SourceChange V → Row V
  | .insert row => row
  | .update _ new _ => new
  | .delete row => row

def isDelete : SourceChange V → Bool
  | .delete _ => true
  | _ => false

end SourceChange

namespace SourceTable

variable {D V : Type} [DecidableEq V] (tbl : SourceTable)

/-- The primary key, which is the replica identity. -/
def key (row : Row V) : List (Option V) := tbl.identity.map row

/-- What a change does to the table. -/
inductive Applies (t : Table V) : SourceChange V → Table V → Prop where
  | insert {row : Row V} (free : t (tbl.key row) = none) :
      Applies t (.insert row) (t.set (tbl.key row) (some row))
  | update {old new : Row V} {toasted : String → Bool} (there : t (tbl.key old) = some old)
      (free : tbl.key new = tbl.key old ∨ t (tbl.key new) = none) :
      Applies t (.update old new toasted)
        ((t.set (tbl.key old) none).set (tbl.key new) (some new))
  | delete {row : Row V} (there : t (tbl.key row) = some row) :
      Applies t (.delete row) (t.set (tbl.key row) none)

/-- The old tuple of an update: the key if it changed, nothing otherwise. -/
def oldTuple (old new : Row V) : OldTuple := if tbl.key old = tbl.key new then .absent else .key

/-- The message of a change. -/
inductive Sends (proc : ReplProcessor D V) (relID : ℕ) : SourceChange V → RowChange D → Prop where
  | insert {row : Row V} {tuple : TupleData D}
      (written : tbl.Writes proc (fun _ => false) row tuple) :
      Sends proc relID (.insert row) (.insert relID tuple)
  | update {old new : Row V} {toasted : String → Bool} {oldTuple : Option (TupleData D)}
      {newTuple : TupleData D}
      (written : tbl.WritesUpdate proc (tbl.oldTuple old new) toasted old new oldTuple newTuple) :
      Sends proc relID (.update old new toasted) (.update relID oldTuple newTuple)
  | delete {row keyRow : Row V} {tuple : TupleData D}
      (key : tbl.oldRow .key row = some keyRow)
      (written : tbl.Writes proc (fun _ => false) keyRow tuple) :
      Sends proc relID (.delete row) (.delete relID tuple)

/-- Columns may have been added, the others and the key are still there. -/
def Grows (tbl' : SourceTable) : Prop :=
  tbl'.identity = tbl.identity ∧ ∀ c ∈ tbl.names, c ∈ tbl'.names

end SourceTable

section Batch

variable {D V H : Type} [DecidableEq V] [DecidableEq H]

/-! ### The batch -/

/-- The state of the loop, reading from a store that spills. -/
def PullState.reading (s : PullState V H) (d : CDCStore V H) : PullState V H :=
  { s with store := some d.view }

/-- A row message is received: the loop puts `rec` on the stream and stores it under `key`,
in memory or on disk. -/
structure Pulls (cfg : CDCConfig D V H) (s : PullState V H) (d : CDCStore V H) (msg : RowChange D)
    (key : TableWithPkey H) (rec : Record V) (s' : PullState V H) (d' : CDCStore V H) : Prop where
  received : ∃ (t : Turn D) (lsn : LSN), t.recv = .xLogData lsn (.row msg) ∧
    receive cfg (s.reading d) t = .next s' ∧
    s' = ((s.reading d).advance lsn).addRecordWithKey key rec
  stored : ∃ exceeded, d' = d.set exceeded key rec

/-- A table that is mirrored by its primary key. -/
structure Watched (cfg : CDCConfig D V H) (tbl : SourceTable) (tableName dst : String)
    (schema : TableSchema) : Prop where
  name : (cfg.nameAndExclude tableName).name = dst
  named : dst ≠ ""
  mapped : cfg.tableNameSchemaMapping dst = some schema
  keyed : schema.isReplicaIdentityFull = false
  identity : schema.primaryKeyColumns = tbl.identity
  columns : ∀ c ∈ tbl.identity, c ∈ tbl.names
  unreserved : ∀ c ∈ tbl.identity, ¬ cfg.Reserved c

/-- The row changes of a batch so far: the changes of the table, each with the record put on
the stream for it, the columns of the table, its rows, and the state of the loop.  Changes of
other tables may come in between, and messages without a record.  After such a message the
table is announced with its columns or, if it was a relation message, with others; `alters`
says with which. -/
inductive Batch (cfg : CDCConfig D V H) (relID : ℕ) (tableName dst : String)
    (allowed : SourceChange V → Prop) (alters : SourceTable → SourceTable → Prop)
    (tbl₀ : SourceTable) (before : Table V) (s₀ : PullState V H) :
    List (SourceChange V × Record V) → SourceTable → Table V → PullState V H → CDCStore V H →
      Prop where
  | start : Batch cfg relID tableName dst allowed alters tbl₀ before s₀ [] tbl₀ before s₀ .new
  | own {log : List (SourceChange V × Record V)} {tbl : SourceTable} {t t' : Table V}
      {s s' : PullState V H} {d d' : CDCStore V H} {change : SourceChange V} {msg : RowChange D}
      {key : TableWithPkey H} {rec : Record V}
      (batch : Batch cfg relID tableName dst allowed alters tbl₀ before s₀ log tbl t s d)
      (ok : allowed change) (applies : tbl.Applies t change t')
      (sends : tbl.Sends cfg.proc relID change msg) (pulls : Pulls cfg s d msg key rec s' d') :
      Batch cfg relID tableName dst allowed alters tbl₀ before s₀ (log ++ [(change, rec)]) tbl t'
        s' d'
  | between {log : List (SourceChange V × Record V)} {tbl tbl' : SourceTable} {t : Table V}
      {s s' : PullState V H} {d : CDCStore V H} {turn : Turn D}
      (batch : Batch cfg relID tableName dst allowed alters tbl₀ before s₀ log tbl t s d)
      (received : receive cfg (s.reading d) turn = .next s')
      (quiet : s'.records.records = s.records.records) (altered : alters tbl tbl')
      (announced : Announced cfg s'.src tbl' relID tableName) :
      Batch cfg relID tableName dst allowed alters tbl₀ before s₀ log tbl' t s' d
  | other {log : List (SourceChange V × Record V)} {tbl : SourceTable} {t : Table V}
      {s s' : PullState V H} {d d' : CDCStore V H} {msg : RowChange D} {key : TableWithPkey H}
      {rec : Record V}
      (batch : Batch cfg relID tableName dst allowed alters tbl₀ before s₀ log tbl t s d)
      (foreign : rec.getDestinationTableName ≠ dst) (pulls : Pulls cfg s d msg key rec s' d') :
      Batch cfg relID tableName dst allowed alters tbl₀ before s₀ log tbl t s' d'

variable {cfg : CDCConfig D V H} {tbl : SourceTable} {relID : ℕ} {tableName dst : String}
  {schema : TableSchema} {s s' : PullState V H} {d d' : CDCStore V H} {key : TableWithPkey H}
  {rec : Record V}

/-! ### One message -/

omit [DecidableEq V] in
theorem Pulls.src {msg : RowChange D} (h : Pulls cfg s d msg key rec s' d') : s'.src = s.src := by
  obtain ⟨t, lsn, -, -, rfl⟩ := h.received
  rfl

omit [DecidableEq V] in
theorem Pulls.view {msg : RowChange D} (h : Pulls cfg s d msg key rec s' d') :
    d'.view = d.view.set key rec := by
  obtain ⟨exceeded, rfl⟩ := h.stored
  exact d.view_set exceeded key rec

omit [DecidableEq V] in
theorem Pulls.records {msg : RowChange D} (h : Pulls cfg s d msg key rec s' d') :
    s'.records.records = s.records.records ++ [rec] := by
  obtain ⟨t, lsn, -, -, rfl⟩ := h.received
  exact addRecordWithKey_records _ key rec

omit [DecidableEq V] in
/-- A step adds one record, so it is the same record in every description of the step. -/
theorem addRecordWithKey_inj {lsn : LSN} {key key' : TableWithPkey H} {rec rec' : Record V}
    (h : ((s.reading d).advance lsn).addRecordWithKey key rec =
      ((s.reading d).advance lsn).addRecordWithKey key' rec') :
    rec = rec' ∧ d.view.set key rec = d.view.set key' rec' := by
  have hrecords := congrArg (fun s => s.records.records) h
  have hstore := congrArg PullState.store h
  simp only [addRecordWithKey_records] at hrecords
  exact ⟨List.singleton_inj.mp (List.append_cancel_left hrecords), Option.some.inj hstore⟩

omit [DecidableEq V] in
/-- The record and the store, from what the row cases did. -/
theorem Pulls.of_handled {msg : RowChange D} (h : Pulls cfg s d msg key rec s' d')
    {decoded : LSN → Record V}
    (hdecoded : ∀ lsn, processRowMessage cfg s.src lsn msg = .ok (some (decoded lsn))) :
    ∃ (lsn : LSN), handleRow cfg ((s.reading d).advance lsn) (decoded lsn) = .ok s' ∧
      ∀ key' rec', s' = ((s.reading d).advance lsn).addRecordWithKey key' rec' →
        rec = rec' ∧ d'.view = d.view.set key' rec' := by
  have hview := h.view
  obtain ⟨t, lsn, hrecv, hreceive, hs'⟩ := h.received
  refine ⟨lsn, receive_row hrecv (hdecoded lsn) hreceive, fun key' rec' hother => ?_⟩
  obtain ⟨hrec, hset⟩ := addRecordWithKey_inj (hs'.symm.trans hother)
  exact ⟨hrec, hview.trans hset⟩

omit [DecidableEq V] [DecidableEq H] in
theorem storeKey_congr {f g : Row V} (h : ∀ c ∈ schema.primaryKeyColumns, f c = g c) :
    storeKey cfg schema dst f = storeKey cfg schema dst g := by
  rw [storeKey, storeKey, List.map_congr_left fun c hc => by rw [h c hc]]

omit [DecidableEq V] in
theorem handleRow_keys
    (hmapped : cfg.tableNameSchemaMapping rec.getDestinationTableName = some schema)
    (hkeyed : schema.isReplicaIdentityFull = false) (h : handleRow cfg s rec = .ok s') :
    ∀ c ∈ schema.primaryKeyColumns, (rec.getItems.colToVal c).isSome := by
  rw [handleRow.eq_def, hmapped] at h
  simp only [hkeyed] at h
  obtain ⟨k, hk, -⟩ := bind_eq_ok h
  rw [recToTablePKey] at hk
  obtain ⟨cols, hcols, -⟩ := bind_eq_ok hk
  intro c hc
  obtain ⟨b, hb⟩ := mapM_mem_ok hcols c hc
  cases hval : rec.getItems.colToVal c <;> simp_all

omit [DecidableEq V] [DecidableEq H] in
/-- The key of the table stays the key. -/
theorem Watched.grows (hw : Watched cfg tbl tableName dst schema) {tbl' : SourceTable}
    (hgrows : tbl.Grows tbl') : Watched cfg tbl' tableName dst schema where
  name := hw.name
  named := hw.named
  mapped := hw.mapped
  keyed := hw.keyed
  identity := hw.identity.trans hgrows.1.symm
  columns c hc := hgrows.2 c (hw.columns c (hgrows.1 ▸ hc))
  unreserved c hc := hw.unreserved c (hgrows.1 ▸ hc)

/-- The values are for columns of the table, or were added. -/
def OwnColumns (cfg : CDCConfig D V H) (tbl : SourceTable) (tableName : String) (items : Items V) :
    Prop :=
  ∀ c, ¬ cfg.Reserved c → ¬ cfg.Wanted tbl tableName c → items.colToVal c = none

omit [DecidableEq V] [DecidableEq H] in
/-- A key column that is decoded is not excluded. -/
theorem Watched.wanted (hw : Watched cfg tbl tableName dst schema) {c : String}
    (hc : c ∈ tbl.identity) {items : Items V} (hown : OwnColumns cfg tbl tableName items)
    (hsome : (items.colToVal c).isSome) : cfg.Wanted tbl tableName c := by
  by_contra hunwanted
  rw [hown c (hw.unreserved c hc) hunwanted] at hsome
  cases hsome

omit [DecidableEq V] [DecidableEq H] in
theorem OwnColumns.grows {items : Items V} (h : OwnColumns cfg tbl tableName items)
    {tbl' : SourceTable} (hgrows : tbl.Grows tbl') : OwnColumns cfg tbl' tableName items :=
  fun c hreserved hunwanted => h c hreserved fun hc =>
    hunwanted ⟨hgrows.2 c hc.1, hc.2.1, hreserved⟩

omit [DecidableEq V] [DecidableEq H] in
theorem OwnColumns.backfill {newItems : Items V} (h : OwnColumns cfg tbl tableName newItems)
    {latest : Option (Record V)}
    (hlatest : ∀ r, latest = some r → OwnColumns cfg tbl tableName r.getItems)
    (unchanged : List String) :
    OwnColumns cfg tbl tableName (backfillUpdate latest newItems unchanged).1 := by
  intro c hreserved hunwanted
  cases latest with
  | none => exact h c hreserved hunwanted
  | some r =>
    rw [backfillUpdate, Items.updateIfNotExists_colToVal, h c hreserved hunwanted,
      hlatest r rfl c hreserved hunwanted]
    rfl

section Own

variable (hw : Watched cfg tbl tableName dst schema) (ha : Announced cfg s.src tbl relID tableName)

include hw ha

section Messages

omit [DecidableEq V]

theorem Pulls.insert {row : Row V} {tuple : TupleData D}
    (hwritten : tbl.Writes cfg.proc (fun _ => false) row tuple)
    (h : Pulls cfg s d (.insert relID tuple) key rec s' d') :
    ∃ base items, rec = .insert base items tableName dst ∧
      (∀ c, cfg.Wanted tbl tableName c → items.colToVal c = some (row c)) ∧
      OwnColumns cfg tbl tableName items ∧
      d'.view = d.view.set (storeKey cfg schema dst row) rec := by
  choose items hdecoded hitems hown using fun lsn => ha.processInsertMessage_eq lsn hwritten
  rw [hw.name] at hdecoded
  obtain ⟨lsn, hhandle, hunique⟩ := h.of_handled hdecoded
  have hval : ∀ c ∈ schema.primaryKeyColumns, (items lsn).colToVal c = some (row c) := by
    intro c hc
    have hkeys := handleRow_keys hw.mapped hw.keyed hhandle c hc
    rw [hw.identity] at hc
    exact hitems lsn c (hw.wanted hc (hown lsn) hkeys)
  have heq : handleRow cfg ((s.reading d).advance lsn)
      (.insert (baseRecord s.src.commitLock lsn) (items lsn) tableName dst) = .ok _ :=
    handleRow_insert hw.mapped hw.keyed _ fun c hc => Option.isSome_of_mem (hval c hc)
  obtain ⟨rfl, hview⟩ := hunique _ _ (Except.ok.inj (hhandle.symm.trans heq))
  refine ⟨_, items lsn, rfl, hitems lsn, hown lsn, hview.trans ?_⟩
  rw [storeKey_congr fun c hc => Items.value_of_colToVal (hval c hc)]

/-- An update fills what its message leaves out from the store. -/
theorem Pulls.update {kind : OldTuple} {old new : Row V} {toasted : String → Bool}
    {oldTuple : Option (TupleData D)} {newTuple : TupleData D}
    (hwritten : tbl.WritesUpdate cfg.proc kind toasted old new oldTuple newTuple)
    (h : Pulls cfg s d (.update relID oldTuple newTuple) key rec s' d') :
    ∃ lsn base oldItems newItems unchanged,
      processUpdateMessage cfg s.src lsn relID oldTuple newTuple =
        .ok (some (.update base oldItems newItems unchanged tableName dst)) ∧
      (∀ c, cfg.Wanted tbl tableName c →
        newItems.colToVal c =
          (if toasted c then (tbl.oldRow kind old).map fun row => row c else some (new c)) ∧
        (c ∈ unchanged ↔ toasted c = true ∧ tbl.oldRow kind old = none)) ∧
      (∀ c ∈ tbl.identity, newItems.value c = new c) ∧ OwnColumns cfg tbl tableName newItems ∧
      rec = .update base oldItems
        (backfillUpdate (d.get (storeKey cfg schema dst new)) newItems unchanged).1
        (backfillUpdate (d.get (storeKey cfg schema dst new)) newItems unchanged).2
        tableName dst ∧
      d'.view = d.view.set (storeKey cfg schema dst new) rec := by
  choose oldItems newItems unchanged hdecoded hitems hown using
    fun lsn => ha.processUpdateMessage_eq lsn hwritten
  rw [hw.name] at hdecoded
  obtain ⟨lsn, hhandle, hunique⟩ := h.of_handled hdecoded
  have hkeys := handleRow_keys hw.mapped hw.keyed hhandle
  -- the key columns that are not sent again are in the old tuple
  have hval : ∀ c ∈ tbl.identity, (newItems lsn).value c = new c := by
    intro c hc
    have hsome : ((newItems lsn).colToVal c).isSome := hkeys c (hw.identity ▸ hc)
    have hcol := (hitems lsn c (hw.wanted hc (hown lsn) hsome)).2.1
    have hkept := hwritten.kept c
    refine Items.value_of_colToVal ?_
    cases kind <;> simp only [SourceTable.oldRow, Option.map_some, Option.map_none] at hcol <;>
      grind
  have hkey : storeKey cfg schema dst (newItems lsn).value = storeKey cfg schema dst new :=
    storeKey_congr fun c hc => hval c (hw.identity ▸ hc)
  have heq : handleRow cfg ((s.reading d).advance lsn) (.update (baseRecord s.src.commitLock lsn)
      (oldItems lsn) (newItems lsn) (unchanged lsn) tableName dst) = .ok _ :=
    handleRow_update hw.mapped hw.keyed _ hkeys
  rw [hkey] at heq
  obtain ⟨hrec, hview⟩ := hunique _ _ (Except.ok.inj (hhandle.symm.trans heq))
  exact ⟨lsn, _, oldItems lsn, newItems lsn, unchanged lsn, hdecoded lsn,
    fun c hc => (hitems lsn c hc).2, hval, hown lsn, hrec, hrec ▸ hview⟩

theorem Pulls.delete {row : Row V} {tuple : TupleData D}
    (hwritten : tbl.Writes cfg.proc (fun _ => false) row tuple)
    (h : Pulls cfg s d (.delete relID tuple) key rec s' d') :
    rec.getDestinationTableName = dst ∧ d'.view = d.view := by
  choose items hdecoded _ _ using fun lsn => ha.processDeleteMessage_eq lsn hwritten
  rw [hw.name] at hdecoded
  obtain ⟨lsn, hhandle, hunique⟩ := h.of_handled hdecoded
  have heq : handleRow cfg ((s.reading d).advance lsn)
      (.delete (baseRecord s.src.commitLock lsn) (items lsn) [] tableName dst) = .ok _ :=
    handleRow_delete hw.mapped hw.keyed _ (handleRow_keys hw.mapped hw.keyed hhandle)
  obtain ⟨rfl, hview⟩ := hunique _ _ (Except.ok.inj (hhandle.symm.trans heq))
  exact ⟨rfl, hview⟩

end Messages

omit ha [DecidableEq V] in
/-- What the store has after a record was set. -/
theorem Pulls.get_set (row f : Row V)
    (hview : d'.view = d.view.set (storeKey cfg schema dst row) rec) :
    d'.get (storeKey cfg schema dst f) =
      if storeKey cfg schema dst row = storeKey cfg schema dst f then some rec
      else d.get (storeKey cfg schema dst f) := by
  rw [CDCStore.get_eq, CDCStore.get_eq, hview]
  split_ifs with hkey
  · rw [← hkey]
    exact d.view.get_set_self hw.named rec
  · exact d.view.get_set_ne hkey rec

theorem Pulls.own {change : SourceChange V} {msg : RowChange D}
    (hsends : tbl.Sends cfg.proc relID change msg)
    (hstore : ∀ f r, d.get (storeKey cfg schema dst f) = some r →
      OwnColumns cfg tbl tableName r.getItems)
    (h : Pulls cfg s d msg key rec s' d') :
    rec.getDestinationTableName = dst ∧
      (∀ f, d'.get (storeKey cfg schema dst f) =
        if change.isDelete = false ∧
          storeKey cfg schema dst change.row = storeKey cfg schema dst f then some rec
        else d.get (storeKey cfg schema dst f)) ∧
      (change.isDelete = false → OwnColumns cfg tbl tableName rec.getItems) := by
  cases hsends with
  | insert hwritten =>
    obtain ⟨base, items, rfl, -, hown, hview⟩ := h.insert hw ha hwritten
    refine ⟨rfl, fun f => ?_, fun _ => hown⟩
    simp only [SourceChange.isDelete, SourceChange.row, true_and, Pulls.get_set hw _ f hview]
  | update hwritten =>
    obtain ⟨lsn, base, oldItems, newItems, unchanged, -, -, -, hown, hrec, hview⟩ :=
      h.update hw ha hwritten
    refine ⟨by rw [hrec]; rfl, fun f => ?_, fun _ => ?_⟩
    · simp only [SourceChange.isDelete, SourceChange.row, true_and, Pulls.get_set hw _ f hview]
    · rw [hrec]
      exact hown.backfill (hstore _) unchanged
  | delete _ hwritten =>
    obtain ⟨hdst, hview⟩ := h.delete hw ha hwritten
    refine ⟨hdst, fun f => ?_, nofun⟩
    rw [CDCStore.get_eq, hview]
    rfl

end Own

omit [DecidableEq V] in
/-- A record of another table is stored under a key of that table. -/
theorem Pulls.other {msg : RowChange D} (h : Pulls cfg s d msg key rec s' d')
    (hforeign : rec.getDestinationTableName ≠ dst) (f : Row V) :
    d'.get (storeKey cfg schema dst f) = d.get (storeKey cfg schema dst f) := by
  have hview := h.view
  obtain ⟨t, lsn, hrecv, hreceive, hs'⟩ := h.received
  rcases receive_row_cases hrecv hreceive with ⟨-, hnone⟩ | ⟨decoded, -, hhandle⟩
  · have hlen := congrArg (fun s => s.records.records.length) (hs'.symm.trans hnone)
    simp [PullState.advance] at hlen
  · obtain ⟨key', rec', htag, htable, hadded⟩ := handleRow_ok hhandle
    obtain ⟨rfl, hset⟩ := addRecordWithKey_inj (hs'.symm.trans hadded)
    have hdst : rec.getDestinationTableName = decoded.getDestinationTableName :=
      congrArg RowTag.destinationTableName htag
    rw [CDCStore.get_eq, CDCStore.get_eq, hview, hset, Store.get_set_ne]
    rintro rfl
    exact hforeign (hdst.trans (htable _ rfl).symm)

/-! ### The books of a batch -/

namespace SourceTable

/-- A row that is there after a change was put there by the change or was there before. -/
theorem Applies.there {t t' : Table V} {change : SourceChange V} (h : tbl.Applies t change t')
    {k : List (Option V)} {row : Row V} (hrow : t' k = some row) :
    (tbl.key change.row = k ∧ change.row = row ∧ change.isDelete = false) ∨
      (tbl.key change.row ≠ k ∧ t k = some row) := by
  cases h with
  | insert | delete =>
    simp only [Table.set, SourceChange.row, SourceChange.isDelete] at hrow ⊢
    grind
  | update =>
    simp only [Table.set, SourceChange.row, SourceChange.isDelete] at hrow ⊢
    grind

end SourceTable

def lastChange (tbl : SourceTable) (k : List (Option V)) (log : List (SourceChange V × Record V)) :
    Option (SourceChange V × Record V) :=
  last (fun e => tbl.key e.1.row) k log

/-- What the stream and the store hold after the changes of `log`. -/
structure Books (cfg : CDCConfig D V H) (tbl : SourceTable) (relID : ℕ) (tableName dst : String)
    (schema : TableSchema) (log : List (SourceChange V × Record V)) (t : Table V)
    (s : PullState V H) (d : CDCStore V H) : Prop where
  watched : Watched cfg tbl tableName dst schema
  announced : Announced cfg s.src tbl relID tableName
  streamed : (s.records.records.filter fun rec => decide (rec.getDestinationTableName = dst)) =
    log.map Prod.snd
  stored : ∀ f, d.get (storeKey cfg schema dst f) =
    (last (fun e => storeKey cfg schema dst e.1.row) (storeKey cfg schema dst f)
      (log.filter fun e => !e.1.isDelete)).map Prod.snd
  live : ∀ k row, t k = some row → ∀ e, lastChange tbl k log = some e → e.1.isDelete = false
  ownColumns : ∀ f r, d.get (storeKey cfg schema dst f) = some r →
    OwnColumns cfg tbl tableName r.getItems

namespace Books

variable {log : List (SourceChange V × Record V)} {before t t' : Table V} {s₀ : PullState V H}
  {tbl₀ : SourceTable}

theorem own (h : Books cfg tbl relID tableName dst schema log t s d) {change : SourceChange V}
    {msg : RowChange D} (happlies : tbl.Applies t change t')
    (hsends : tbl.Sends cfg.proc relID change msg) (hpulls : Pulls cfg s d msg key rec s' d') :
    Books cfg tbl relID tableName dst schema (log ++ [(change, rec)]) t' s' d' := by
  obtain ⟨hdst, hget, hown⟩ := hpulls.own h.watched h.announced hsends h.ownColumns
  constructor
  case watched => exact h.watched
  case announced => exact hpulls.src ▸ h.announced
  case streamed => simp [hpulls.records, h.streamed, hdst]
  case stored =>
    intro f
    rw [last_filter_snoc, hget, h.stored f]
    simp only [Bool.not_eq_true']
    split_ifs <;> rfl
  case live =>
    intro k row hrow e he
    rw [lastChange, last_snoc] at he
    have hlive := h.live k row
    grind [happlies.there hrow, lastChange]
  case ownColumns =>
    intro f r hr
    rw [hget] at hr
    split_ifs at hr with hnew
    · exact Option.some.inj hr ▸ hown hnew.1
    · exact h.ownColumns f r hr

/-- The columns may grow between two changes. -/
theorem grows (h : Books cfg tbl relID tableName dst schema log t s d) {tbl' : SourceTable}
    (hgrows : tbl.Grows tbl') (hannounced : Announced cfg s'.src tbl' relID tableName)
    (hquiet : s'.records.records = s.records.records) :
    Books cfg tbl' relID tableName dst schema log t s' d where
  watched := h.watched.grows hgrows
  announced := hannounced
  streamed := hquiet ▸ h.streamed
  stored := h.stored
  live := by
    have hkey : (tbl'.key : Row V → _) = tbl.key := by
      funext row
      rw [SourceTable.key, hgrows.1]
      rfl
    have hlive := h.live
    simp only [lastChange, hkey] at hlive ⊢
    exact hlive
  ownColumns f r hr := (h.ownColumns f r hr).grows hgrows

/-- The books are kept over a whole batch in which no column goes. -/
theorem of_batch (hw : Watched cfg tbl₀ tableName dst schema)
    (ha : Announced cfg s₀.src tbl₀ relID tableName) (hfresh : s₀.records.records = [])
    {allowed : SourceChange V → Prop}
    (h : Batch cfg relID tableName dst allowed SourceTable.Grows tbl₀ before s₀ log tbl t s d) :
    Books cfg tbl relID tableName dst schema log t s d := by
  induction h with
  | start =>
    exact ⟨hw, ha, by rw [hfresh]; rfl, fun f => rfl, fun k row _ e he => (by cases he),
      fun f r hr => (by cases hr)⟩
  | own _ _ happlies hsends hpulls ih => exact ih.own happlies hsends hpulls
  | between _ _ hquiet haltered hannounced ih => exact ih.grows haltered hannounced hquiet
  | other _ hforeign hpulls ih =>
    refine ⟨ih.watched, hpulls.src ▸ ih.announced, ?_, fun f => ?_, ih.live, fun f r hr => ?_⟩
    · simp [hpulls.records, ih.streamed, hforeign]
    · rw [hpulls.other hforeign]
      exact ih.stored f
    · rw [hpulls.other hforeign] at hr
      exact ih.ownColumns f r hr

omit [DecidableEq V] [DecidableEq H] in
theorem storeKey_of_key (hw : Watched cfg tbl tableName dst schema) {f g : Row V}
    (h : tbl.key f = tbl.key g) : storeKey cfg schema dst f = storeKey cfg schema dst g := by
  refine storeKey_congr fun c hc => ?_
  rw [hw.identity] at hc
  exact List.map_inj_left.mp h c hc

theorem latest
    (hdistinct : ∀ f g : Row V, storeKey cfg schema dst f = storeKey cfg schema dst g →
      tbl.key f = tbl.key g)
    (h : Books cfg tbl relID tableName dst schema log t s d) {f row : Row V}
    (hrow : t (tbl.key f) = some row) :
    d.get (storeKey cfg schema dst f) = (lastChange tbl (tbl.key f) log).map Prod.snd := by
  have hsame : ∀ e ∈ log.filter (fun e => !e.1.isDelete),
      storeKey cfg schema dst e.1.row = storeKey cfg schema dst f ↔ tbl.key e.1.row = tbl.key f :=
    fun e _ => ⟨hdistinct e.1.row f, storeKey_of_key h.watched⟩
  rw [h.stored f, last_congr hsame, last_filter]
  · rfl
  · intro e he
    rw [h.live _ row hrow e he]
    rfl

theorem fresh (h : Books cfg tbl relID tableName dst schema log t s d) {f row : Row V}
    (hrow : t (tbl.key f) = some row) {r : Record V}
    (hr : d.get (storeKey cfg schema dst f) = some r) :
    ∃ older x newer, log = older ++ x :: newer ∧ x.2 = r ∧
      ∀ y ∈ newer, tbl.key y.1.row = tbl.key f → y.1.isDelete = false := by
  rw [h.stored f] at hr
  obtain ⟨x, hx, rfl⟩ := Option.map_eq_some_iff.mp hr
  obtain ⟨older, newer, hlog, -, -, hnewer⟩ := last_filter_split hx
  refine ⟨older, x, newer, hlog, rfl, fun y hy hkey => ?_⟩
  -- the last change of the key would be stored, and it would come after the stored one
  cases hlast : last (fun e => tbl.key e.1.row) (tbl.key f) newer with
  | none => exact absurd hkey (last_none hlast y hy)
  | some z =>
    obtain ⟨hz, hzkey⟩ := last_some hlast
    have hlive : z.1.isDelete = false := by
      refine h.live _ row hrow z ?_
      rw [lastChange, hlog, List.append_cons, last_append, hlast]
      rfl
    exact absurd (storeKey_of_key h.watched hzkey) (hnewer z hz (by rw [hlive]; rfl))

end Books

/-! ### What the records of a batch carry -/

namespace Batch

variable {log : List (SourceChange V × Record V)} {before t : Table V} {s₀ : PullState V H}
  {tbl₀ : SourceTable} {allowed : SourceChange V → Prop}

theorem fixed (h : Batch cfg relID tableName dst allowed Eq tbl₀ before s₀ log tbl t s d) :
    tbl = tbl₀ := by
  induction h with
  | start => rfl
  | own _ _ _ _ _ ih => exact ih
  | between _ _ _ haltered _ ih => exact haltered.symm.trans ih
  | other _ _ _ ih => exact ih

theorem toGrows (h : Batch cfg relID tableName dst allowed Eq tbl₀ before s₀ log tbl t s d) :
    Batch cfg relID tableName dst allowed SourceTable.Grows tbl₀ before s₀ log tbl t s d := by
  induction h with
  | start => exact .start
  | own _ hok happlies hsends hpulls ih => exact .own ih hok happlies hsends hpulls
  | between _ hreceived hquiet haltered hannounced ih =>
    exact .between ih hreceived hquiet (haltered ▸ ⟨rfl, fun _ hc => hc⟩) hannounced
  | other _ hforeign hpulls ih => exact .other ih hforeign hpulls

end Batch

/-- A record has the value of a column in `row`, or leaves the column out like all records of
the row before it. -/
def Filled (cfg : CDCConfig D V H) (tbl : SourceTable) (tableName : String)
    (earlier : List (SourceChange V × Record V)) (row : Row V) (rec : Record V) : Prop :=
  ∀ c, cfg.Wanted tbl tableName c →
    (rec.getItems.colToVal c = some (row c) ∧ c ∉ rec.unchangedColumns) ∨
    (rec.getItems.colToVal c = none ∧ c ∈ rec.unchangedColumns ∧
      ∀ x ∈ earlier, tbl.key x.1.row = tbl.key row → x.2.getItems.colToVal c = none)

omit [DecidableEq V] [DecidableEq H] in
/-- A later record of the row may be counted as well if it has no value either. -/
theorem Filled.snoc {earlier : List (SourceChange V × Record V)} {row : Row V} {rec : Record V}
    (h : Filled cfg tbl tableName earlier row rec) {x : SourceChange V × Record V}
    (hx : tbl.key x.1.row = tbl.key row → ∀ c, rec.getItems.colToVal c = none →
      x.2.getItems.colToVal c = none) :
    Filled cfg tbl tableName (earlier ++ [x]) row rec := by
  intro c hc
  have hcol := h c hc
  grind

def SourceTable.KeepsKey (tbl : SourceTable) : SourceChange V → Prop
  | .update old new _ => tbl.key new = tbl.key old
  | _ => True

section KeepsKey

variable {log : List (SourceChange V × Record V)} {before t t' : Table V} {s₀ : PullState V H}
  (hw : Watched cfg tbl tableName dst schema)

include hw

/-- An update that keeps the key takes what its message leaves out from the last record of the
row. -/
theorem Pulls.filled (ha : Announced cfg s.src tbl relID tableName) {old new : Row V}
    {toasted : String → Bool} {msg : RowChange D}
    (hsends : tbl.Sends cfg.proc relID (.update old new toasted) msg)
    (hstable : tbl.key new = tbl.key old)
    (hlatest : d.get (storeKey cfg schema dst new) =
      (lastChange tbl (tbl.key new) log).map Prod.snd)
    (hlast : ∀ e, lastChange tbl (tbl.key new) log = some e →
      Filled cfg tbl tableName log old e.2)
    (h : Pulls cfg s d msg key rec s' d') :
    rec.kind = .update ∧ Filled cfg tbl tableName log new rec := by
  cases hsends with
  | update hwritten =>
    obtain ⟨lsn, base, oldItems, newItems, unchanged, -, hitems, -, -, hrec, -⟩ :=
      h.update hw ha hwritten
    have hnone : tbl.oldRow (tbl.oldTuple old new) old = none := by
      rw [SourceTable.oldTuple, if_pos hstable.symm]
      rfl
    rw [hlatest] at hrec
    refine ⟨by rw [hrec]; rfl, fun c hc => ?_⟩
    obtain ⟨hcol, hunchanged⟩ := hitems c hc
    rw [hnone, Option.map_none] at hcol
    have hmem : c ∈ unchanged ↔ toasted c = true := hunchanged.trans (and_iff_left hnone)
    rw [hrec]
    show (Items.colToVal (backfillUpdate _ newItems unchanged).1 c = _ ∧
      c ∉ (backfillUpdate _ newItems unchanged).2) ∨
      (Items.colToVal (backfillUpdate _ newItems unchanged).1 c = none ∧
      c ∈ (backfillUpdate _ newItems unchanged).2 ∧ _)
    split_ifs at hcol with htoast
    · cases hchange : lastChange tbl (tbl.key new) log with
      | none =>
        exact Or.inr ⟨hcol, hmem.mpr htoast, fun x hx hkey => absurd hkey (last_none hchange x hx)⟩
      | some e =>
        have hfilter : c ∈ (backfillUpdate (some e.2) newItems unchanged).2 ↔
            e.2.getItems.colToVal c = none := by
          simp [backfillUpdate, List.mem_filter, hmem.mpr htoast, Items.updatedCols, hcol]
        have hval : (newItems.updateIfNotExists e.2.getItems).colToVal c =
            e.2.getItems.colToVal c := by
          rw [Items.updateIfNotExists_colToVal, hcol, Option.none_or]
        rw [Option.map_some, hfilter, backfillUpdate, hval, ← hwritten.kept c htoast]
        have hearlier := hlast e hchange c hc
        grind
    · have hsome : (newItems.colToVal c).isSome := by simp [hcol]
      rw [backfillUpdate_colToVal hsome]
      exact Or.inl ⟨hcol, fun hc => htoast (hmem.mp (backfillUpdate_unchanged hc))⟩

theorem Batch.filled (ha : Announced cfg s₀.src tbl relID tableName)
    (hfresh : s₀.records.records = [])
    (hdistinct : ∀ f g : Row V, storeKey cfg schema dst f = storeKey cfg schema dst g →
      tbl.key f = tbl.key g)
    {tbl' : SourceTable}
    (h : Batch cfg relID tableName dst tbl.KeepsKey Eq tbl before s₀ log tbl' t s d) :
    (∀ row, t (tbl.key row) = some row → ∀ e, lastChange tbl (tbl.key row) log = some e →
      Filled cfg tbl tableName log row e.2) ∧
    ∀ older e newer, log = older ++ e :: newer → ∀ old new toasted, e.1 = .update old new toasted →
      e.2.kind = .update ∧ Filled cfg tbl tableName older new e.2 := by
  induction h with
  | start => exact ⟨nofun, by simp⟩
  | between _ _ _ _ _ ih => exact ih
  | other _ _ _ ih => exact ih
  | @own log tbl' t t' s s' d d' change msg key rec hbatch hok happlies hsends hpulls ih =>
    obtain ⟨ihrows, ihlog⟩ := ih
    have hbooks := Books.of_batch hw ha hfresh hbatch.toGrows
    obtain rfl := hbatch.fixed.symm
    -- what the step adds to both parts
    have hupdate : ∀ old new toasted, change = .update old new toasted →
        rec.kind = .update ∧ Filled cfg tbl tableName log new rec := by
      rintro old new toasted rfl
      have hstable : tbl.key new = tbl.key old := hok
      cases happlies with
      | update there free =>
        exact hpulls.filled hw hbooks.announced hsends hstable
          (hbooks.latest hdistinct (hstable ▸ there))
          fun e he => ihrows old there e (hstable ▸ he)
    refine ⟨fun row hrow e he => ?_, fun older e newer hlog old new toasted he => ?_⟩
    · rw [lastChange, last_snoc] at he
      rcases happlies.there hrow with ⟨hk, rfl, hdel⟩ | ⟨hk, hthere⟩
      · rw [if_pos hk] at he
        cases he
        cases hsends with
        | insert hwritten =>
          obtain ⟨base, items, rfl, hitems, -, -⟩ := hpulls.insert hw hbooks.announced hwritten
          exact fun c hc => Or.inl ⟨hitems c hc, List.not_mem_nil⟩
        | update hwritten => exact (hupdate _ _ _ rfl).2.snoc fun _ _ hnone => hnone
        | delete _ _ => cases hdel
      · rw [if_neg hk] at he
        exact (ihrows row hthere e he).snoc fun hkey => absurd hkey hk
    · rcases List.eq_nil_or_concat newer with rfl | ⟨newer, e', rfl⟩
      · obtain ⟨rfl, heq⟩ := List.append_inj' hlog rfl
        obtain rfl := List.singleton_inj.mp heq
        exact hupdate old new toasted he
      · rw [List.concat_eq_append, ← List.cons_append, ← List.append_assoc] at hlog
        obtain ⟨rfl, -⟩ := List.append_inj' hlog rfl
        exact ihlog older e newer rfl old new toasted he

end KeepsKey

end Batch

/-! ### A table with a `body` stored out of line -/

def docsSource : SourceTable :=
  ⟨[{ name := "id" }, { name := "body" }, { name := "views" }], ["id"]⟩

/-- The relation message has come, nothing else. -/
def docsStart : PullState UInt8 (List UInt8) :=
  PullState.init { maxBatchSize := 10 }
    { relationMessageMapping := fun relID =>
        if relID = 1 then some ⟨1, docsSource.columns⟩ else none
      childToParentRelIDMapping := fun _ => none
      commitLock := none }

theorem docsStart_announced : Announced docsMirror docsStart.src docsSource 1 "public.docs" where
  table := rfl
  relation := ⟨⟨1, docsSource.columns⟩, rfl, rfl⟩
  schemaName := ⟨"", rfl⟩

theorem docsMirror_watched : Watched docsMirror docsSource "public.docs" "docs" docsSchema where
  name := rfl
  named := by decide
  mapped := rfl
  keyed := rfl
  identity := rfl
  columns := by decide
  unreserved c _ := by
    rintro (⟨hoff, -⟩ | ⟨hoff, -⟩) <;> cases hoff

/-- A tuple of the table, column by column. -/
theorem docsSource_writes {toasted : String → Bool} {row : Row UInt8}
    {x y z : TupleDataColumn UInt8}
    (h : ∀ c ∈ [("id", x), ("body", y), ("views", z)], if toasted c.1 then c.2 = .unchanged
      else c.2 ≠ .unchanged ∧ docsMirror.proc.process { name := c.1 } c.2 = .ok (row c.1)) :
    docsSource.Writes docsMirror.proc toasted row [x, y, z] := by
  refine ⟨fun col => if col.name = "id" then x else if col.name = "body" then y else z, rfl, ?_⟩
  simpa [docsSource] using h

theorem docsSource_insert (id body views : UInt8) :
    docsSource.Sends docsMirror.proc 1 (.insert (docsRow id body views))
      (.insert 1 [.text id, .text body, .text views]) :=
  .insert (docsSource_writes (by simp [docsMirror, docsRow]))

theorem docsSource_delete (id body views : UInt8) :
    docsSource.Sends docsMirror.proc 1 (.delete (docsRow id body views))
      (.delete 1 [.text id, .null, .null]) :=
  .delete rfl (docsSource_writes (by simp [docsMirror, docsRow, docsSource]))

/-- An update of `views`; the `body` is not sent again. -/
theorem docsSource_update (id body views views' : UInt8) :
    docsSource.Sends docsMirror.proc 1
      (.update (docsRow id body views) (docsRow id body views') fun c => c == "body")
      (.update 1 none [.text id, .unchanged, .text views']) := by
  have hkey : docsSource.key (docsRow id body views) = docsSource.key (docsRow id body views') :=
    rfl
  refine .update ⟨fun c hc => ?_, ?_, docsSource_writes (by simp [docsMirror, docsRow])⟩
  · obtain rfl := beq_iff_eq.mp hc
    rfl
  · rw [SourceTable.oldTuple, if_pos hkey]
    rfl

/-- The table without its `body`. -/
def docsDropped : SourceTable := ⟨[{ name := "id" }, { name := "views" }], ["id"]⟩

/-- Row 3 becomes row 2 after the `body` was dropped. -/
theorem docsDropped_update :
    docsDropped.Sends docsMirror.proc 1 (.update (docsRow 3 8 0) (docsRow 2 8 0) fun _ => false)
      (.update 1 (some [.text 3, .null]) [.text 2, .text 0]) := by
  have hkey : docsDropped.key (docsRow 3 8 0) ≠ docsDropped.key (docsRow 2 8 0) := by decide
  refine .update ⟨nofun, ?_, ?_⟩
  · rw [SourceTable.oldTuple, if_neg hkey]
    refine ⟨_, rfl, fun col => if col.name = "id" then .text 3 else .null, rfl, ?_⟩
    simp [docsDropped, docsMirror, docsRow]
  · refine ⟨fun col => if col.name = "id" then .text 2 else .text 0, rfl, ?_⟩
    simp [docsDropped, docsMirror, docsRow]

/-- The old tuple does not blank the column: it is not a key tuple, or the column is in
it, or the value is NULL anyway. -/
def SourceTable.Spares {V : Type} (tbl : SourceTable) (kind : OldTuple) (new : Row V) (c : String) :
    Prop :=
  kind = .key → c ∈ tbl.identity ∨ new c = none

/-- **An unchanged column keeps its value if the old tuple spares it**, and only then: it
is listed as unchanged and has no value in the record, or has the value of the new row.  A
key tuple has NULL for the columns outside the replica identity, and the update is filled
with it. -/
theorem unchanged_not_nulled_iff {D V H : Type} {cfg : CDCConfig D V H} {p : SourceState}
    {tbl : SourceTable} {relID : ℕ} {tableName : String} {kind : OldTuple}
    {toasted : String → Bool} {old new : Row V} {oldTuple : Option (TupleData D)}
    {newTuple : TupleData D} (h : Announced cfg p tbl relID tableName) (lsn : LSN)
    (hw : tbl.WritesUpdate cfg.proc kind toasted old new oldTuple newTuple) :
    ∃ base oldItems newItems unchanged dst,
      processUpdateMessage cfg p lsn relID oldTuple newTuple =
        .ok (some (.update base oldItems newItems unchanged tableName dst)) ∧
      ∀ c, cfg.Wanted tbl tableName c → toasted c = true →
        ((c ∈ unchanged ∧ newItems.colToVal c = none) ∨ newItems.colToVal c = some (new c) ↔
          tbl.Spares kind new c) := by
  obtain ⟨oldItems, newItems, unchanged, heq, hitems, -⟩ := h.processUpdateMessage_eq lsn hw
  refine ⟨_, oldItems, newItems, unchanged, _, heq, fun c hc htoast => ?_⟩
  obtain ⟨-, hnew, hunchanged⟩ := hitems c hc
  have hkept : old c = new c := hw.kept c htoast
  rw [htoast, if_pos rfl] at hnew
  cases kind with
  | absent => exact ⟨fun _ => nofun, fun _ => Or.inl ⟨hunchanged.mpr ⟨htoast, rfl⟩, hnew⟩⟩
  | full => exact ⟨fun _ => nofun, fun _ => Or.inr (hnew.trans (congrArg some hkept))⟩
  | key =>
    -- the record has the value of the key tuple, and the column is not listed
    have hfilled : newItems.colToVal c = some (if c ∈ tbl.identity then old c else none) := hnew
    have hlisted : c ∉ unchanged := fun hmem => by cases (hunchanged.mp hmem).2
    simp only [hfilled, hlisted, hkept, SourceTable.Spares]
    grind

/-- An update that leaves the key alone has no old tuple. -/
theorem docsViews_not_nulled :
    ∃ base oldItems newItems unchanged dst,
      processUpdateMessage docsMirror docsStart.src 1 1 none [.text 2, .unchanged, .text 1] =
        .ok (some (.update base oldItems newItems unchanged "public.docs" dst)) ∧
      ("body" ∈ unchanged ∧ newItems.colToVal "body" = none ∨
        newItems.colToVal "body" = some (docsRow 2 9 1 "body")) := by
  have hw : docsSource.WritesUpdate docsMirror.proc .absent (fun c => c == "body") (docsRow 2 9 0)
      (docsRow 2 9 1) none [.text 2, .unchanged, .text 1] := by
    refine ⟨fun c hc => ?_, rfl, docsSource_writes (by simp [docsMirror, docsRow])⟩
    obtain rfl := beq_iff_eq.mp hc
    rfl
  obtain ⟨base, oldItems, newItems, unchanged, dst, heq, hcols⟩ :=
    unchanged_not_nulled_iff docsStart_announced 1 hw
  have hwanted : docsMirror.Wanted docsSource "public.docs" "body" := by
    refine ⟨by decide, by decide, ?_⟩
    rintro (⟨hoff, -⟩ | ⟨hoff, -⟩) <;> cases hoff
  exact ⟨base, oldItems, newItems, unchanged, dst, heq,
    (hcols "body" hwanted rfl).mpr (by simp [SourceTable.Spares])⟩

/-- **An update of the key blanks the `body`**: row 2 becomes row 3, its `body` 9 is not sent
again, and the record has NULL for it and does not list it as unchanged. -/
theorem keyUpdate_nulls_body :
    docsSource.WritesUpdate docsMirror.proc .key (fun c => c == "body") (docsRow 2 9 0)
      (docsRow 3 9 0) (some [.text 2, .null, .null]) [.text 3, .unchanged, .text 0] ∧
    docsRow 3 9 0 "body" = some 9 ∧
    ∃ base oldItems newItems unchanged dst,
      processUpdateMessage docsMirror docsStart.src 1 1 (some [.text 2, .null, .null])
          [.text 3, .unchanged, .text 0] =
        .ok (some (.update base oldItems newItems unchanged "public.docs" dst)) ∧
      newItems.colToVal "body" = some none ∧ "body" ∉ unchanged := by
  refine ⟨⟨fun c hc => ?_, ⟨_, rfl, docsSource_writes (by simp [docsMirror, docsRow, docsSource])⟩,
    docsSource_writes (by simp [docsMirror, docsRow])⟩, rfl, _, _, _, _, _, rfl, rfl, by decide⟩
  obtain rfl := beq_iff_eq.mp hc
  rfl
