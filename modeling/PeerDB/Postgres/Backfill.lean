/-
Backfilling of unchanged TOAST columns (`PullCdcRecords`, the row cases).

An update does not send columns that are stored out of line and did not change.  The
pull loop fills them from the latest record of the same key, which it keeps in the CDC
store, so that the last record of a key carries what the whole batch did to its row.

`Tracked` states this for one key: the last record describes the row the source has
now, except for unchanged columns that the row had before the batch.  `Tracks.step`
shows that `handleRow` does to the stream and the store what `Table.replay` does to the
table.
-/
import PeerDB.Lib.KeyedLog
import PeerDB.Model.Table
import PeerDB.Postgres.Pull

open Loop KeyedLog

/-! ### Mirrored tables and store keys -/

/-- A mirrored table as replay sees it. -/
def TableSchema.shape (schema : TableSchema) (dst : String) : TableShape where
  name := dst
  columns := schema.columns.map FieldDescription.name
  keyColumns := (schema.columns.map FieldDescription.name).filter fun c =>
    decide (c ∈ schema.primaryKeyColumns)

section Pull

variable {D V H : Type}

/-- A table whose replica identity is its primary key, with names that can be joined by
commas and keys that are kept apart by the store. -/
structure Mirrored (cfg : CDCConfig D V H) (schema : TableSchema) (dst : String) : Prop where
  mapped : cfg.tableNameSchemaMapping dst = some schema
  named : dst ≠ ""
  keyed : schema.isReplicaIdentityFull = false
  keys : ∀ c ∈ schema.primaryKeyColumns, c ∈ schema.columns.map FieldDescription.name
  names : ∀ c ∈ schema.columns.map FieldDescription.name, c ≠ "" ∧ ',' ∉ c.toList
  distinct : ∀ f g : Row V,
    cfg.codec.hash (schema.primaryKeyColumns.map fun c => cfg.codec.bytes (f c)).flatten =
      cfg.codec.hash (schema.primaryKeyColumns.map fun c => cfg.codec.bytes (g c)).flatten →
    schema.primaryKeyColumns.map f = schema.primaryKeyColumns.map g

def storeKey (cfg : CDCConfig D V H) (schema : TableSchema) (dst : String) (f : Row V) :
    TableWithPkey H :=
  some (dst, cfg.codec.hash (schema.primaryKeyColumns.map fun c => cfg.codec.bytes (f c)).flatten)

variable {cfg : CDCConfig D V H} {schema : TableSchema} {dst : String}

theorem mem_keyColumns {c : String} : c ∈ (schema.shape dst).keyColumns ↔
    c ∈ (schema.shape dst).columns ∧ c ∈ schema.primaryKeyColumns := by
  rw [TableSchema.shape, List.mem_filter, decide_eq_true_eq]

theorem recToTablePKey_ok (codec : KeyCodec V H) {pk : List String} {rec : Record V}
    (h : ∀ c ∈ pk, (rec.getItems.colToVal c).isSome) :
    recToTablePKey codec pk rec = .ok (some (rec.getDestinationTableName,
      codec.hash (pk.map fun c => codec.bytes (rec.getItems.value c)).flatten)) := by
  rw [recToTablePKey, mapM_eq_ok (g := fun c => codec.bytes (rec.getItems.value c))]
  · rfl
  · intro c hc
    simp only [Items.colToVal_of_isSome (h c hc)]

theorem TableSchema.key_eq_iff
    (hkeys : ∀ c ∈ schema.primaryKeyColumns, c ∈ schema.columns.map FieldDescription.name)
    {f g : Row V} : (schema.shape dst).key f = (schema.shape dst).key g ↔
      schema.primaryKeyColumns.map f = schema.primaryKeyColumns.map g := by
  rw [TableShape.key, TableShape.key, List.map_inj_left, List.map_inj_left]
  constructor
  · intro heq c hc
    exact heq c (mem_keyColumns.mpr ⟨hkeys c hc, hc⟩)
  · intro heq c hc
    exact heq c (mem_keyColumns.mp hc).2

namespace Mirrored

variable (h : Mirrored cfg schema dst)

include h

theorem mem_keyColumns_of_mem {c : String} (hc : c ∈ schema.primaryKeyColumns) :
    c ∈ (schema.shape dst).keyColumns :=
  mem_keyColumns.mpr ⟨h.keys c hc, hc⟩

theorem storeKey_eq_iff {f g : Row V} : storeKey cfg schema dst f = storeKey cfg schema dst g ↔
    (schema.shape dst).key f = (schema.shape dst).key g := by
  rw [TableSchema.key_eq_iff h.keys, storeKey, storeKey, Option.some.injEq, Prod.mk.injEq]
  constructor
  · rintro ⟨-, hhash⟩
    exact h.distinct f g hhash
  · intro heq
    rw [List.map_inj_left] at heq
    refine ⟨rfl, ?_⟩
    congr 2
    exact List.map_congr_left fun c hc => by rw [heq c hc]

end Mirrored

/-! ### What the last record of a key carries -/

/-- `items` describe `row`, up to unchanged columns that the row had `before`. -/
structure Carries (sh : TableShape) (before : Option (Row V)) (row : Row V) (items : Items V)
    (unchanged : List String) : Prop where
  columns : ∀ c ∈ sh.columns, (items.colToVal c = some (row c) ∧ c ∉ unchanged) ∨
    (items.colToVal c = none ∧ c ∈ unchanged ∧ ∃ old, before = some old ∧ row c = old c)
  unchanged : ∀ c ∈ unchanged, c ∈ sh.columns

/-- The last record of a key says how the row before the batch became the row now. -/
def Tracked (sh : TableShape) (before now : Option (Row V)) (latest : Option (Record V)) : Prop :=
  match latest with
  | none => now = before
  | some rec =>
    match now with
    | none => rec.kind = .delete
    | some row => rec.kind ≠ .delete ∧ Carries sh before row rec.getItems rec.unchangedColumns

variable [DecidableEq V]

/-- The last record of a key in the stream. -/
def lastRecord (sh : TableShape) (s : PullState V H) (k : List (Option V)) : Option (Record V) :=
  last sh.recordKey k
    (s.records.records.filter fun rec => decide (rec.getDestinationTableName = sh.name))

/-- The stream and the store after some records of a batch.  `sent` is what is known of the
columns of the inserts and updates, and of the deletes, of the batch. -/
structure Tracks (cfg : CDCConfig D V H) (schema : TableSchema) (dst : String)
    (sent : Bool → String → Option (Option V) → Prop) (before now : Table V)
    (s : PullState V H) : Prop where
  tracked : ∀ k, Tracked (schema.shape dst) (before k) (now k) (lastRecord (schema.shape dst) s k)
  -- a delete is not stored, and what was stored before it is stale
  stored : ∀ f, (∀ rec ∈ lastRecord (schema.shape dst) s ((schema.shape dst).key f),
      rec.kind ≠ .delete) →
    s.latest (storeKey cfg schema dst f) =
      lastRecord (schema.shape dst) s ((schema.shape dst).key f)
  rows : ∀ rec ∈ s.records.records, rec.isRow
  store : s.store.isSome
  -- backfilling moves values from record to record and makes none
  drawn : ∀ rec ∈ s.records.records, rec.getDestinationTableName = dst →
    ∀ c, sent (decide (rec.kind = .delete)) c (rec.getItems.colToVal c)

/-! ### Backfilling keeps track -/

section Backfill

omit [DecidableEq V]

variable {sh : TableShape} {before : Option (Row V)} {old : Row V} {latest : Option (Record V)}

variable {items newItems : Items V}

theorem insert_carries (hall : ∀ c ∈ sh.columns, (items.colToVal c).isSome) :
    Carries sh before items.value items [] where
  columns c hc := Or.inl ⟨Items.colToVal_of_isSome (hall c hc), List.not_mem_nil⟩
  unchanged _ hc := absurd hc List.not_mem_nil

variable {unchanged : List String}

/-- A column that is sent is not overwritten. -/
theorem backfillUpdate_colToVal {c : String} (h : (newItems.colToVal c).isSome) :
    (backfillUpdate latest newItems unchanged).1.colToVal c = newItems.colToVal c := by
  obtain ⟨v, hv⟩ := Option.isSome_iff_exists.mp h
  cases latest with
  | none => rfl
  | some rec =>
    rw [backfillUpdate, Items.updateIfNotExists_colToVal, hv]
    rfl

theorem backfillUpdate_unchanged {c : String}
    (h : c ∈ (backfillUpdate latest newItems unchanged).2) :
    c ∈ unchanged := by
  cases latest with
  | none => exact h
  | some rec => exact (List.mem_filter.mp h).1

/-- An update that keeps a column takes it from the last record of the key, or leaves it
to the destination if that record did so too. -/
theorem backfillUpdate_carries (htracked : Tracked sh before (some old) latest)
    (hall : ∀ c ∈ sh.columns, (newItems.colToVal c).isSome ∨ c ∈ unchanged)
    (hunchanged : ∀ c ∈ unchanged,
      c ∈ sh.columns ∧ c ∉ sh.keyColumns ∧ newItems.colToVal c = none) :
    Carries sh before (fun c => if c ∈ unchanged then old c else newItems.value c)
      (backfillUpdate latest newItems unchanged).1
      (backfillUpdate latest newItems unchanged).2 where
  columns c hc := by
    by_cases hmem : c ∈ unchanged
    · have hnone := (hunchanged c hmem).2.2
      rw [if_pos hmem]
      cases latest with
      | none => exact Or.inr ⟨hnone, hmem, old, htracked.symm, rfl⟩
      | some rec =>
        have hcol : (newItems.updateIfNotExists rec.getItems).colToVal c =
            rec.getItems.colToVal c := by
          rw [Items.updateIfNotExists_colToVal, hnone, Option.none_or]
        have hfilter : c ∈ (backfillUpdate (some rec) newItems unchanged).2 ↔
            rec.getItems.colToVal c = none := by
          simp [backfillUpdate, List.mem_filter, hmem, Items.updatedCols, hnone]
        rw [hfilter, backfillUpdate, hcol]
        rcases htracked.2.columns c hc with ⟨hsent, -⟩ | ⟨hkept, -, hold⟩
        · refine Or.inl ⟨hsent, ?_⟩
          rw [hsent]
          nofun
        · exact Or.inr ⟨hkept, hkept, hold⟩
    · have hsent := (hall c hc).resolve_right hmem
      rw [if_neg hmem, backfillUpdate_colToVal hsent]
      exact Or.inl ⟨Items.colToVal_of_isSome hsent, fun h => hmem (backfillUpdate_unchanged h)⟩
  unchanged c hc := (hunchanged c (backfillUpdate_unchanged hc)).1

/-- A delete takes over the items of the last record of its key. -/
theorem backfillDelete_items :
    (backfillDelete latest items).1 = (latest.elim items Record.getItems) := by
  cases latest with
  | none => rfl
  | some rec => cases rec <;> rfl

end Backfill

section Add

variable [DecidableEq H] (s : PullState V H)

omit [DecidableEq V]

@[simp] theorem addRecordWithKey_records (key : TableWithPkey H) (rec : Record V) :
    (s.addRecordWithKey key rec).records.records = s.records.records ++ [rec] := by
  rw [PullState.addRecordWithKey]
  by_cases hzero : s.totalRecords = 0
  · simp only [if_pos hzero]
    rfl
  · simp only [if_neg hzero]
    rfl

@[simp] theorem addRecordWithKey_store (key : TableWithPkey H) (rec : Record V) :
    (s.addRecordWithKey key rec).store = s.store.map (·.set key rec) := rfl

theorem latest_addRecordWithKey_ne {key key' : TableWithPkey H} (hne : key ≠ key')
    (rec : Record V) : (s.addRecordWithKey key rec).latest key' = s.latest key' := by
  rw [PullState.latest, PullState.latest, addRecordWithKey_store]
  cases s.store with
  | none => rfl
  | some store => exact store.get_set_ne hne rec

variable {s}

theorem latest_addRecordWithKey_self (hstore : s.store.isSome) {k : String × H}
    (hname : k.1 ≠ "") (rec : Record V) :
    (s.addRecordWithKey (some k) rec).latest (some k) = some rec := by
  obtain ⟨store, hstore⟩ := Option.isSome_iff_exists.mp hstore
  rw [PullState.latest, addRecordWithKey_store, hstore]
  exact store.get_set_self hname rec

end Add

theorem lastRecord_add [DecidableEq H] (sh : TableShape) (s : PullState V H)
    (key : TableWithPkey H) (rec : Record V) (k : List (Option V)) :
    lastRecord sh (s.addRecordWithKey key rec) k =
      if rec.getDestinationTableName = sh.name ∧ sh.recordKey rec = k then some rec
      else lastRecord sh s k := by
  rw [lastRecord, addRecordWithKey_records, last_filter_snoc]
  simp only [decide_eq_true_eq]
  rfl

namespace Tracks

variable [DecidableEq H] {before now : Table V} {s : PullState V H}
  {sent : Bool → String → Option (Option V) → Prop}

theorem rows_add (h : Tracks cfg schema dst sent before now s) (key : TableWithPkey H)
    {rec : Record V} (hrow : rec.isRow) :
    ∀ r ∈ (s.addRecordWithKey key rec).records.records, r.isRow := by
  intro r hr
  rw [addRecordWithKey_records, List.mem_append, List.mem_singleton] at hr
  rcases hr with hr | rfl
  · exact h.rows r hr
  · exact hrow

theorem store_add (h : Tracks cfg schema dst sent before now s) (key : TableWithPkey H)
    (rec : Record V) : (s.addRecordWithKey key rec).store.isSome := by
  rw [addRecordWithKey_store, Option.isSome_map]
  exact h.store

theorem add (hm : Mirrored cfg schema dst) (h : Tracks cfg schema dst sent before now s)
    {key : TableWithPkey H} (rec : Record V) (row : Option (Row V))
    (hdst : rec.getDestinationTableName = dst) (hrow : rec.isRow)
    (htracked : Tracked (schema.shape dst) (before ((schema.shape dst).recordKey rec)) row
      (some rec))
    (hkey : rec.kind = .delete ∧ key = none ∨ key = storeKey cfg schema dst rec.getItems.value)
    (hsent : ∀ c, sent (decide (rec.kind = .delete)) c (rec.getItems.colToVal c)) :
    Tracks cfg schema dst sent before (now.set ((schema.shape dst).recordKey rec) row)
      (s.addRecordWithKey key rec) where
  tracked k := by
    rw [lastRecord_add]
    by_cases hk : (schema.shape dst).recordKey rec = k
    · rw [if_pos ⟨hdst, hk⟩, ← hk, Table.set_self]
      exact htracked
    · rw [if_neg fun hc => hk hc.2, Table.set_ne _ _ (Ne.symm hk)]
      exact h.tracked k
  stored f := by
    rw [lastRecord_add]
    by_cases hk : (schema.shape dst).recordKey rec = (schema.shape dst).key f
    · rw [if_pos ⟨hdst, hk⟩]
      intro hdel
      obtain rfl : key = storeKey cfg schema dst rec.getItems.value :=
        hkey.resolve_left fun hc => hdel rec rfl hc.1
      rw [← hm.storeKey_eq_iff.mpr hk]
      exact latest_addRecordWithKey_self h.store hm.named rec
    · rw [if_neg fun hc => hk hc.2]
      intro hdel
      have hne : key ≠ storeKey cfg schema dst f := by
        rcases hkey with ⟨-, rfl⟩ | rfl
        · nofun
        · exact fun heq => hk (hm.storeKey_eq_iff.mp heq)
      rw [latest_addRecordWithKey_ne s hne]
      exact h.stored f hdel
  rows := h.rows_add key hrow
  store := h.store_add key rec
  drawn r hr hdst := by
    rw [addRecordWithKey_records, List.mem_append, List.mem_singleton] at hr
    rcases hr with hr | rfl
    · exact h.drawn r hr hdst
    · exact hsent

theorem addOther (h : Tracks cfg schema dst sent before now s) {key : TableWithPkey H}
    {rec : Record V} (hdst : rec.getDestinationTableName ≠ dst) (hrow : rec.isRow)
    (hkey : ∀ k, key = some k → k.1 ≠ dst) :
    Tracks cfg schema dst sent before now (s.addRecordWithKey key rec) where
  tracked k := by
    rw [lastRecord_add, if_neg fun hc => hdst hc.1]
    exact h.tracked k
  stored f := by
    have hne : key ≠ storeKey cfg schema dst f := fun heq => hkey _ heq rfl
    rw [lastRecord_add, if_neg fun hc => hdst hc.1, latest_addRecordWithKey_ne s hne]
    exact h.stored f
  rows := h.rows_add key hrow
  store := h.store_add key rec
  drawn r hr hname := by
    rw [addRecordWithKey_records, List.mem_append, List.mem_singleton] at hr
    rcases hr with hr | rfl
    · exact h.drawn r hr hname
    · exact absurd hname hdst

omit [DecidableEq H] in
theorem latest_eq (h : Tracks cfg schema dst sent before now s) {f row : Row V}
    (hrow : now ((schema.shape dst).key f) = some row) :
    s.latest (storeKey cfg schema dst f) =
      lastRecord (schema.shape dst) s ((schema.shape dst).key f) := by
  refine h.stored f fun rec hrec => ?_
  have htracked := h.tracked ((schema.shape dst).key f)
  rw [hrow, Option.mem_def.mp hrec] at htracked
  exact htracked.1

omit [DecidableEq H] in
/-- What is stored for a row was sent by an insert or an update. -/
theorem latest_drawn (h : Tracks cfg schema dst sent before now s) {f row : Row V}
    (hrow : now ((schema.shape dst).key f) = some row) {latest : Record V}
    (hlatest : s.latest (storeKey cfg schema dst f) = some latest) (c : String) :
    sent false c (latest.getItems.colToVal c) := by
  have htracked := h.tracked ((schema.shape dst).key f)
  rw [h.latest_eq hrow] at hlatest
  rw [hrow, hlatest] at htracked
  obtain ⟨hmem, -⟩ := last_some hlatest
  rw [List.mem_filter, decide_eq_true_eq] at hmem
  have hdrawn := h.drawn latest hmem.1 hmem.2 c
  rwa [decide_eq_false htracked.1] at hdrawn

end Tracks

/-- A row record the loop does not fail on. -/
structure Pullable (cfg : CDCConfig D V H) (rec : Record V) : Prop where
  row : rec.isRow
  schema : ∃ schema, cfg.tableNameSchemaMapping rec.getDestinationTableName = some schema ∧
    (schema.isReplicaIdentityFull = true ∨
      ∀ c ∈ schema.primaryKeyColumns, (rec.getItems.colToVal c).isSome)

variable [DecidableEq H]

omit [DecidableEq V] in
theorem handleRow_pullable {rec : Record V} (h : Pullable cfg rec) (s : PullState V H) :
    ∃ s', handleRow cfg s rec = .ok s' := by
  obtain ⟨schema, hschema, hkey⟩ := h.schema
  by_cases hfull : schema.isReplicaIdentityFull = true
  · simp only [handleRow, hschema, if_pos hfull]
    exact ⟨_, rfl⟩
  · have hpk := recToTablePKey_ok cfg.codec (hkey.resolve_left hfull)
    simp only [handleRow, hschema, if_neg hfull, hpk]
    cases rec <;> exact ⟨_, rfl⟩

omit [DecidableEq V] in
theorem handleRow_oldItems {s s' : PullState V H} {base : BaseRecord} {oldItems newItems : Items V}
    {unchanged : List String} {src dst : String}
    (h : handleRow cfg s (.update base oldItems newItems unchanged src dst) = .ok s') :
    ∃ newItems' unchanged', s'.records.records =
      s.records.records ++ [.update base oldItems newItems' unchanged' src dst] := by
  rw [handleRow.eq_def, Record.getDestinationTableName] at h
  cases hschema : cfg.tableNameSchemaMapping dst with
  | none =>
    rw [hschema] at h
    cases h
  | some schema =>
    simp only [hschema] at h
    split_ifs at h
    · cases h
      exact ⟨newItems, unchanged, addRecordWithKey_records s none _⟩
    · obtain ⟨key, -, h⟩ := bind_eq_ok h
      cases h
      exact ⟨_, _, addRecordWithKey_records s key _⟩

/-! ### The row cases of a table that has a key -/

section Keyed

variable (hmapped : cfg.tableNameSchemaMapping dst = some schema)
  (hkeyed : schema.isReplicaIdentityFull = false) (s : PullState V H)

include hmapped hkeyed

omit [DecidableEq V]

theorem handleRow_insert {base : BaseRecord} {items : Items V} {src : String}
    (hkey : ∀ c ∈ schema.primaryKeyColumns, (items.colToVal c).isSome) :
    handleRow cfg s (.insert base items src dst) = .ok
      (s.addRecordWithKey (storeKey cfg schema dst items.value) (.insert base items src dst)) := by
  have hpk : recToTablePKey cfg.codec schema.primaryKeyColumns (.insert base items src dst) =
      .ok (storeKey cfg schema dst items.value) := recToTablePKey_ok cfg.codec hkey
  simp only [handleRow, Record.getDestinationTableName, hmapped, hkeyed, hpk]
  rfl

theorem handleRow_update {base : BaseRecord} {oldItems newItems : Items V}
    {unchanged : List String} {src : String}
    (hkey : ∀ c ∈ schema.primaryKeyColumns, (newItems.colToVal c).isSome) :
    handleRow cfg s (.update base oldItems newItems unchanged src dst) = .ok
      (let filled := backfillUpdate (s.latest (storeKey cfg schema dst newItems.value)) newItems
        unchanged
      s.addRecordWithKey (storeKey cfg schema dst newItems.value)
        (.update base oldItems filled.1 filled.2 src dst)) := by
  have hpk : recToTablePKey cfg.codec schema.primaryKeyColumns
      (.update base oldItems newItems unchanged src dst) =
      .ok (storeKey cfg schema dst newItems.value) := recToTablePKey_ok cfg.codec hkey
  simp only [handleRow, Record.getDestinationTableName, hmapped, hkeyed, hpk]
  rfl

theorem handleRow_delete {base : BaseRecord} {items : Items V} {unchanged : List String}
    {src : String} (hkey : ∀ c ∈ schema.primaryKeyColumns, (items.colToVal c).isSome) :
    handleRow cfg s (.delete base items unchanged src dst) = .ok
      (let filled := backfillDelete (s.latest (storeKey cfg schema dst items.value)) items
      s.addRecordWithKey none (.delete base filled.1 filled.2 src dst)) := by
  have hpk : recToTablePKey cfg.codec schema.primaryKeyColumns
      (.delete base items unchanged src dst) =
      .ok (storeKey cfg schema dst items.value) := recToTablePKey_ok cfg.codec hkey
  simp only [handleRow, Record.getDestinationTableName, hmapped, hkeyed, hpk]
  rfl

end Keyed

/-- **One record.**  What replay can do to the table the pull loop can do to the
stream. -/
theorem Tracks.step (hm : Mirrored cfg schema dst) {before now now' : Table V}
    {s : PullState V H} {sent : Bool → String → Option (Option V) → Prop}
    (hmono : ∀ c o, sent false c o → sent true c o)
    (h : Tracks cfg schema dst sent before now s) {rec : Record V}
    (hother : rec.getDestinationTableName ≠ dst → Pullable cfg rec)
    (hown : rec.getDestinationTableName = dst →
      ∀ c, sent (decide (rec.kind = .delete)) c (rec.getItems.colToVal c))
    (hreplay : Table.replay (schema.shape dst) now rec = some now') :
    ∃ s', handleRow cfg s rec = .ok s' ∧ Tracks cfg schema dst sent before now' s' := by
  cases Table.replay_change hreplay with
  | other hname =>
    obtain ⟨s', hs'⟩ := handleRow_pullable (hother hname) s
    obtain ⟨key, rec', htag, htable, rfl⟩ := handleRow_ok hs'
    have hdst : rec'.getDestinationTableName = rec.getDestinationTableName :=
      congrArg RowTag.destinationTableName htag
    have hrow : rec'.isRow = rec.isRow := Record.isRow_congr (Record.kind_eq_of_tag htag)
    refine ⟨_, hs', h.addOther (hdst ▸ hname) (hrow ▸ (hother hname).row) fun k hk => ?_⟩
    rw [htable k hk]
    exact hname
  | @insert base items src hall hkey hfree =>
    have hcarries : Carries (schema.shape dst) (before ((schema.shape dst).key items.value))
        items.value items [] := insert_carries hall
    have hsent : ∀ c ∈ (schema.shape dst).keyColumns, (items.colToVal c).isSome :=
      fun c hc => hall c (mem_keyColumns.mp hc).1
    exact ⟨_, handleRow_insert hm.mapped hm.keyed s
      (fun c hc => hsent c (hm.mem_keyColumns_of_mem hc)), h.add hm (.insert base items src dst)
      (some items.value) rfl rfl ⟨(fun hc => by cases hc), hcarries⟩ (Or.inr rfl) (hown rfl)⟩
  | @update base oldItems newItems unchanged src old hold hall hunchanged =>
    have hsent : ∀ c ∈ (schema.shape dst).keyColumns, (newItems.colToVal c).isSome := by
      intro c hc
      exact (hall c (mem_keyColumns.mp hc).1).resolve_right fun hu => (hunchanged c hu).2.1 hc
    have htracked := h.tracked ((schema.shape dst).key newItems.value)
    rw [hold] at htracked
    have hcarries := backfillUpdate_carries htracked hall hunchanged
    rw [← h.latest_eq hold] at hcarries
    set filled := backfillUpdate (s.latest (storeKey cfg schema dst newItems.value)) newItems
      unchanged with hfilled
    -- the key columns are sent, so backfilling keeps the key
    have hkey : (schema.shape dst).key filled.1.value = (schema.shape dst).key newItems.value := by
      refine List.map_congr_left fun c hc => ?_
      rw [Items.value, Items.value, hfilled, backfillUpdate_colToVal (hsent c hc)]
    have hadd := h.add hm (.update base oldItems filled.1 filled.2 src dst)
      (some fun c => if c ∈ unchanged then old c else newItems.value c) rfl rfl
      (by
        rw [TableShape.recordKey, Record.getItems, hkey]
        exact ⟨(fun hc => by cases hc), hcarries⟩)
      (Or.inr (hm.storeKey_eq_iff.mpr hkey.symm))
      (fun c => by
        show sent false c (filled.1.colToVal c)
        rw [hfilled]
        cases hlatest : s.latest (storeKey cfg schema dst newItems.value) with
        | none => exact hown rfl c
        | some latest =>
          rw [backfillUpdate, Items.updateIfNotExists_colToVal]
          by_cases hnew : (newItems.colToVal c).isSome
          · rw [Option.or_of_isSome hnew]
            exact hown rfl c
          · rw [Option.not_isSome_iff_eq_none.mp hnew, Option.none_or]
            exact h.latest_drawn hold hlatest c)
    rw [TableShape.recordKey, Record.getItems, hkey] at hadd
    exact ⟨_, handleRow_update hm.mapped hm.keyed s
      (fun c hc => hsent c (hm.mem_keyColumns_of_mem hc)), hadd⟩
  | @delete base items unchanged src old hsent hold =>
    set filled := backfillDelete (s.latest (storeKey cfg schema dst items.value)) items
      with hfilled
    have hkey : (schema.shape dst).key filled.1.value = (schema.shape dst).key items.value := by
      rw [hfilled, backfillDelete_items, h.latest_eq hold]
      cases hlast : lastRecord (schema.shape dst) s ((schema.shape dst).key items.value) with
      | none => rfl
      | some latest => exact (last_some hlast).2
    have hadd := h.add hm (.delete base filled.1 filled.2 src dst) none rfl rfl rfl
      (Or.inl ⟨rfl, rfl⟩) (fun c => by
        show sent true c (filled.1.colToVal c)
        rw [hfilled, backfillDelete_items]
        cases hlatest : s.latest (storeKey cfg schema dst items.value) with
        | none => exact hown rfl c
        | some latest => exact hmono c _ (h.latest_drawn hold hlatest c))
    rw [TableShape.recordKey, Record.getItems, hkey] at hadd
    exact ⟨_, handleRow_delete hm.mapped hm.keyed s
      (fun c hc => hsent c (hm.mem_keyColumns_of_mem hc)), hadd⟩

end Pull
