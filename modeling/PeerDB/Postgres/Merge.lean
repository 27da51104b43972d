/-
The Postgres destination: raw rows, the generated MERGE, and what it does
(`connectors/postgres`: `syncRecordsCore`, `generateMergeStatement`).

A batch is copied to the raw table as JSON.  For each table one MERGE then ranks the raw
rows of every key, reads the columns of the newest one back, and applies the first of its
WHEN clauses that fits; `unchangedColsOf` has one set of unchanged columns for each clause
that updates.  Only the last record of a key is ever applied, and `Tracked` says that it
carries everything the batch did to that key.

`merge_eq_replay` is the result: pulling, copying and merging a batch leaves the
destination as replaying the batch leaves the source, if what the batch sends is read back
as it was.  That is not so for everything it may send: `notesBatch_changed`.

A statement is modelled by its parts; names are not quoted, as quoting is injective.
-/
import PeerDB.Model.Raw
import PeerDB.Postgres.Backfill
import PeerDB.Postgres.NormalizeExpr

open Loop KeyedLog

/-! ### Raw rows -/

section Sync

variable {V : Type} (toMap : V → Option String)

/-- One row of the COPY of `syncRecordsCore`; messages are skipped. -/
def rawRow (now : ℤ) (syncBatchID : ℕ) : Record V → Except String (Option (RawRow String))
  | .insert _ items _ dst => .ok (some
      { timestamp := now, destinationTableName := dst, data := items.toJSON toMap, recordType := 0,
        matchData := some Items.empty, batchID := syncBatchID, unchangedToastColumns := "" })
  | .update _ oldItems newItems unchanged _ dst => .ok (some
      { timestamp := now, destinationTableName := dst, data := newItems.toJSON toMap,
        recordType := 1, matchData := some (oldItems.toJSON toMap), batchID := syncBatchID,
        unchangedToastColumns := keysToString unchanged })
  | .delete _ items _ _ dst => .ok (some
      { timestamp := now, destinationTableName := dst, data := items.toJSON toMap, recordType := 2,
        matchData := some (items.toJSON toMap), batchID := syncBatchID,
        unchangedToastColumns := "" })
  | .message .. => .ok none
  | .relation .. => .error "unsupported record type for Postgres flow connector"

/-- The rows `syncRecordsCore` copies; `now` is the clock at each record. -/
def syncRecordsCore (now : ℕ → ℤ) (syncBatchID : ℕ) (records : List (Record V)) :
    Except String (List (RawRow String)) := do
  let rows ← records.zipIdx.mapM fun r => rawRow toMap (now r.2) syncBatchID r.1
  return rows.reduceOption

end Sync

/-! ### The statement -/

structure PeerDBColumns where
  softDeleteColName : String := ""
  syncedAtColName : String := ""

/-- The right-hand side of an assignment. -/
inductive SqlValue where
  | src (column : String)
  | currentTimestamp
  | bool (b : Bool)
  deriving DecidableEq, Repr

inductive MergeAction where
  | insert (values : List (String × SqlValue))
  | update (set : List (String × SqlValue))
  | delete
  deriving DecidableEq, Repr

/-- `WHEN [NOT] MATCHED AND src._peerdb_record_type [!]= 2 [AND
_peerdb_unchanged_toast_columns = …] THEN …`. -/
structure WhenClause where
  matched : Bool
  isDelete : Bool
  unchangedToastColumns : Option String := none
  action : MergeAction
  deriving DecidableEq, Repr

structure MergeStatement where
  destinationTableName : String
  partitionBy : List String
  on : List String
  clauses : List WhenClause
  deriving DecidableEq, Repr

/-- A MERGE with the expressions its columns stand for: those evaluated for every raw row of the
batch, among them the ones of PARTITION BY, and those of the select list. -/
structure PgMergeStatement extends MergeStatement where
  rankExprs : List (String × SqlExpr)
  selectExprs : List (String × SqlExpr)
  deriving DecidableEq, Repr

section Generate

variable (cols : PeerDBColumns)

/-- The assignment of the synced-at column, if there is one. -/
def syncedAt : List (String × SqlValue) :=
  if cols.syncedAtColName ≠ "" then [(cols.syncedAtColName, .currentTimestamp)] else []

def generateUpdateStatements (columns unchangedToastColumns : List String) : List WhenClause :=
  unchangedToastColumns.flatMap fun unchanged =>
    let otherCols := arrayMinus columns (splitComma unchanged)
    let set := (otherCols.map fun c => (c, .src c)) ++ syncedAt cols
    if cols.softDeleteColName ≠ "" then
      [⟨true, false, some unchanged, .update (set ++ [(cols.softDeleteColName, .bool false)])⟩,
        ⟨true, true, some unchanged, .update (set ++ [(cols.softDeleteColName, .bool true)])⟩]
    else [⟨true, false, some unchanged, .update set⟩]

/-- The columns that are evaluated for every raw row: the key, or those of
`jsonb_to_record`. -/
def rankedColumns (schema : TableSchema) : List FieldDescription :=
  match schema.system with
  | .q => schema.columns.filter fun col => decide (col.name ∈ schema.primaryKeyColumns)
  | .pg => schema.columns

def generateMergeStatement (dstTableName : String) (schema : TableSchema)
    (unchangedToastColumns : List String) : PgMergeStatement :=
  let columns := schema.columns.map FieldDescription.name
  let on := columns.filter fun c => decide (c ∈ schema.primaryKeyColumns)
  let values := (columns.map fun c => (c, .src c)) ++ syncedAt cols
  let softDeletes := cols.softDeleteColName ≠ ""
  { destinationTableName := dstTableName
    partitionBy := if schema.system = .pg then schema.primaryKeyColumns else on
    on := on
    clauses :=
      [⟨false, false, none, .insert values⟩]
        ++ generateUpdateStatements cols columns unchangedToastColumns
        ++ (if softDeletes then
              [⟨false, true, none, .insert (values ++ [(cols.softDeleteColName, .bool true)])⟩]
            else [])
        ++ [⟨true, true, none,
              if softDeletes then
                .update ((cols.softDeleteColName, .bool true) :: syncedAt cols)
              else .delete⟩]
    rankExprs := (rankedColumns schema).map fun col => (col.name, rankExpr schema col)
    selectExprs := schema.columns.map fun col => (col.name, selectExpr schema col) }

end Generate

/-! ### Running it -/

section Run

variable {V : Type}

def SqlValue.eval (env : SqlEnv V) (r : RawRow V) : SqlValue → Option V
  | .src column => r.data.value column
  | .currentTimestamp => some env.currentTimestamp
  | .bool b => some (env.ofBool b)

def assign (env : SqlEnv V) (r : RawRow V) (values : List (String × SqlValue)) (row : Row V) :
    Row V :=
  fun c => match values.lookup c with
    | some v => v.eval env r
    | none => row c

/-- The row of a key after the action. -/
def MergeAction.run (env : SqlEnv V) (r : RawRow V) (old : Option (Row V)) :
    MergeAction → Option (Row V)
  | .insert values => some (assign env r values fun _ => none)
  | .update set => old.map (assign env r set)
  | .delete => none

def WhenClause.applies (w : WhenClause) (r : RawRow V) (matched : Bool) : Bool :=
  decide (w.matched = matched) && decide (w.isDelete = decide (r.recordType = 2)) &&
    w.unchangedToastColumns.all fun text => decide (text = r.unchangedToastColumns)

namespace MergeStatement

variable (stmt : MergeStatement)

def key (r : RawRow V) : List (Option V) := stmt.on.map r.data.value

/-- The first clause that fits, if any. -/
def step (env : SqlEnv V) (r : RawRow V) (old : Option (Row V)) : Option (Row V) :=
  match stmt.clauses.find? fun w => w.applies r old.isSome with
  | some w => w.action.run env r old
  | none => old

end MergeStatement

namespace PgMergeStatement

variable (stmt : PgMergeStatement) (env : PgEnv V)

/-- The values of the listed expressions. -/
def values (exprs : List (String × SqlExpr)) (r : RawRow String) :
    Except String (List (String × Option V)) :=
  exprs.mapM fun e => do return (e.1, ← e.2.eval env (r.data.value e.2.column))

/-- What a raw row is ranked by. -/
def rank (r : RawRow String) : Except String (List (Option V)) := do
  let values ← values env stmt.rankExprs r
  stmt.partitionBy.mapM fun c =>
    match values.lookup c with
    | some v => .ok v
    | none => .error s!"column {c} does not exist"

/-- The row of the subquery for a raw row of rank one. -/
def select (r : RawRow String) : Except String (RawRow V) := do
  let values ← values env stmt.selectExprs r
  return { timestamp := r.timestamp, destinationTableName := r.destinationTableName,
           data := ⟨fun c => values.lookup c⟩, recordType := r.recordType, matchData := none,
           batchID := r.batchID, unchangedToastColumns := r.unchangedToastColumns }

variable [DecidableEq V]

/-- The rows of rank one among the rows of a batch. -/
def source (raw : List (RawRow String)) (batchID : ℕ) : Except String (List (RawRow V)) := do
  let rows := raw.filter fun r => decide (r.batchID = batchID) &&
    decide (r.destinationTableName = stmt.destinationTableName)
  let ranked ← rows.mapM fun r => do return (← stmt.rank env r, r)
  (newest Prod.fst (fun p => p.2.timestamp) ranked).mapM fun p => stmt.select env p.2

/-- MERGE fails if it would touch a row twice. -/
def run (raw : List (RawRow String)) (batchID : ℕ) (dst : Table V) : Except String (Table V) := do
  let src ← stmt.source env raw batchID
  if (src.map stmt.key).Nodup then
    return fun k =>
      match src.find? fun r => decide (stmt.key r = k) with
      -- the ON condition is not true of NULL
      | some r => stmt.step env.toSqlEnv r (if k.all Option.isSome then dst k else none)
      | none => dst k
  else .error "MERGE command cannot affect row a second time"

end PgMergeStatement

/-- `getTableNametoUnchangedCols`, for one table. -/
def unchangedColsOf (raw : List (RawRow V)) (batchID : ℕ) (dstTableName : String) : List String :=
  ((raw.filter fun r => decide (r.batchID = batchID) && decide (r.recordType ≠ 2) &&
    decide (r.destinationTableName = dstTableName)).map RawRow.unchangedToastColumns).dedup

end Run

/-! ### The raw rows of a batch -/

open List

section Raw

variable {V : Type}

def Record.matchItems : Record V → Items V
  | .update _ oldItems _ _ _ _ => oldItems
  | .delete _ items _ _ _ => items
  | _ => Items.empty

/-- A raw row as it is copied. -/
def RawRow.toJSON (toMap : V → Option String) (r : RawRow V) : RawRow String where
  timestamp := r.timestamp
  destinationTableName := r.destinationTableName
  data := r.data.toJSON toMap
  recordType := r.recordType
  matchData := r.matchData.map (Items.toJSON toMap)
  batchID := r.batchID
  unchangedToastColumns := r.unchangedToastColumns

/-- The raw row of a record, with the values in place of their JSON. -/
def rawOf (now : ℤ) (syncBatchID : ℕ) (rec : Record V) : RawRow V where
  timestamp := now
  destinationTableName := rec.getDestinationTableName
  data := rec.getItems
  recordType := rec.rawType
  matchData := some rec.matchItems
  batchID := syncBatchID
  unchangedToastColumns := keysToString rec.unchangedColumns

theorem rawRow_eq (toMap : V → Option String) (now : ℤ) (syncBatchID : ℕ) {rec : Record V}
    (hrow : rec.isRow) : rawRow toMap now syncBatchID rec =
      .ok (some ((rawOf now syncBatchID rec).toJSON toMap)) := by
  have hempty : keysToString [] = "" := by decide
  cases rec with
  | insert | delete =>
    simp only [rawRow, rawOf, RawRow.toJSON, Record.unchangedColumns, hempty]
    rfl
  | update base oldItems newItems unchanged src dst => rfl
  | relation | message => cases hrow

def rawsOf (now : ℕ → ℤ) (syncBatchID : ℕ) (records : List (Record V)) : List (RawRow V) :=
  records.zipIdx.map fun r => rawOf (now r.2) syncBatchID r.1

variable {now : ℕ → ℤ} {syncBatchID : ℕ} {records : List (Record V)}

theorem syncRecordsCore_eq (toMap : V → Option String) (hrows : ∀ rec ∈ records, rec.isRow) :
    syncRecordsCore toMap now syncBatchID records =
      .ok ((rawsOf now syncBatchID records).map (RawRow.toJSON toMap)) := by
  have hraw : ∀ r ∈ records.zipIdx, rawRow toMap (now r.2) syncBatchID r.1 =
      .ok (some ((rawOf (now r.2) syncBatchID r.1).toJSON toMap)) :=
    fun r hr => rawRow_eq _ _ _ (hrows r.1 (fst_mem_of_mem_zipIdx hr))
  rw [syncRecordsCore, mapM_reduceOption hraw, rawsOf, map_map]
  rfl

theorem rawsOf_sorted (hnow : ∀ ⦃i j⦄, i < j → now i < now j) (syncBatchID : ℕ)
    (records : List (Record V)) :
    (rawsOf now syncBatchID records).Pairwise fun a b => a.timestamp < b.timestamp := by
  have hidx : (records.zipIdx.map Prod.snd).Pairwise fun i j => i < j := by
    rw [zipIdx_map_snd]
    exact pairwise_lt_range'
  rw [rawsOf, pairwise_map]
  exact (pairwise_map.mp hidx).imp fun hlt => hnow hlt

theorem rawsOf_batchID {r : RawRow V} (h : r ∈ rawsOf now syncBatchID records) :
    r.batchID = syncBatchID := by
  obtain ⟨p, -, rfl⟩ := mem_map.mp h
  rfl

theorem last_rawsOf [DecidableEq V] (now : ℕ → ℤ) (syncBatchID : ℕ) (records : List (Record V))
    (sh : TableShape) (k : List (Option V)) :
    ∃ x : Option (Record V × ℕ),
      last sh.recordKey k (records.filter fun rec =>
        decide (rec.getDestinationTableName = sh.name)) = x.map Prod.fst ∧
      last (fun r : RawRow V => sh.key r.data.value) k
        ((rawsOf now syncBatchID records).filter fun r =>
          decide (r.destinationTableName = sh.name)) =
        x.map fun r => rawOf (now r.2) syncBatchID r.1 := by
  refine ⟨last (fun r : Record V × ℕ => sh.recordKey r.1) k (records.zipIdx.filter fun r =>
    decide (r.1.getDestinationTableName = sh.name)), ?_, ?_⟩
  · conv_lhs => rw [← zipIdx_map_fst 0 records]
    rw [filter_map, last_map]
    rfl
  · rw [rawsOf, filter_map, last_map]
    rfl

end Raw

/-! ### The clauses -/

section Clauses

variable {V : Type} {cols : PeerDBColumns} {dst : String} {schema : TableSchema}
  {texts : List String}

/-- The assignments of the clause for one set of unchanged columns. -/
def updateSet (cols : PeerDBColumns) (schema : TableSchema) (text : String) :
    List (String × SqlValue) :=
  ((arrayMinus (schema.columns.map FieldDescription.name) (splitComma text)).map fun c =>
    (c, .src c)) ++ syncedAt cols

theorem clauses_eq (hsoft : cols.softDeleteColName = "") :
    (generateMergeStatement cols dst schema texts).clauses =
      ⟨false, false, none, .insert
        (((schema.columns.map FieldDescription.name).map fun c => (c, .src c)) ++ syncedAt cols)⟩ ::
      ((texts.map fun text => ⟨true, false, some text, .update (updateSet cols schema text)⟩) ++
        [⟨true, true, none, .delete⟩]) := by
  simp [generateMergeStatement, generateUpdateStatements, hsoft, updateSet, map_eq_flatMap]

variable (env : SqlEnv V) {r : RawRow V}

theorem step_delete (hsoft : cols.softDeleteColName = "") (htype : r.recordType = 2)
    (old : Option (Row V)) :
    (generateMergeStatement cols dst schema texts).step env r old = none := by
  have hnone : texts.find? ((fun w : WhenClause => w.applies r old.isSome) ∘ fun text =>
      ⟨true, false, some text, .update (updateSet cols schema text)⟩) = none := by
    rw [List.find?_eq_none]
    intro text _
    simp [WhenClause.applies, htype]
  rw [MergeStatement.step, clauses_eq hsoft, List.find?_cons, List.find?_append, List.find?_map,
    hnone]
  cases old with
  | none => simp [WhenClause.applies, htype]
  | some row => simp [WhenClause.applies, htype, MergeAction.run]

theorem step_insert (hsoft : cols.softDeleteColName = "") (htype : r.recordType ≠ 2) :
    (generateMergeStatement cols dst schema texts).step env r none =
      some (assign env r (((schema.columns.map FieldDescription.name).map fun c => (c, .src c)) ++
        syncedAt cols) fun _ => none) := by
  rw [MergeStatement.step, clauses_eq hsoft, List.find?_cons]
  simp [WhenClause.applies, htype, MergeAction.run]

theorem step_update (hsoft : cols.softDeleteColName = "") (htype : r.recordType ≠ 2)
    (htext : r.unchangedToastColumns ∈ texts) (row : Row V) :
    (generateMergeStatement cols dst schema texts).step env r (some row) =
      some (assign env r (updateSet cols schema r.unchangedToastColumns) row) := by
  have hfind : texts.find? ((fun w : WhenClause => w.applies r true) ∘ fun text =>
      ⟨true, false, some text, .update (updateSet cols schema text)⟩) =
      some r.unchangedToastColumns := by
    have happlies : ((fun w : WhenClause => w.applies r true) ∘ fun text =>
        ⟨true, false, some text, .update (updateSet cols schema text)⟩) =
        fun text => decide (text = r.unchangedToastColumns) := by
      funext text
      simp [WhenClause.applies, htype]
    rw [happlies]
    cases hfound : texts.find? fun text => decide (text = r.unchangedToastColumns) with
    | none => exact absurd (decide_eq_true rfl) (List.find?_eq_none.mp hfound _ htext)
    | some text =>
      have hdec := List.find?_some hfound
      rw [of_decide_eq_true hdec]
  rw [MergeStatement.step, clauses_eq hsoft, List.find?_cons, List.find?_append, List.find?_map]
  simp only [Option.isSome_some]
  rw [hfind]
  simp [WhenClause.applies, MergeAction.run]

theorem lookup_src {columns : List String} (rest : List (String × SqlValue)) {c : String}
    (h : c ∈ columns) :
    ((columns.map fun c => (c, SqlValue.src c)) ++ rest).lookup c = some (.src c) := by
  induction columns with
  | nil => cases h
  | cons a columns ih =>
    by_cases hc : c = a
    · subst hc
      simp
    · have hmem : c ∈ columns := (mem_cons.mp h).resolve_left hc
      rw [map_cons, cons_append, lookup_cons, beq_false_of_ne hc]
      exact ih hmem

theorem lookup_none {columns : List String} {c : String} (h : c ∉ columns)
    (hsynced : c ≠ cols.syncedAtColName) :
    ((columns.map fun c => (c, SqlValue.src c)) ++ syncedAt cols).lookup c = none := by
  rw [lookup_eq_none_iff]
  intro p hp
  rcases mem_append.mp hp with hp | hp
  · obtain ⟨a, ha, rfl⟩ := mem_map.mp hp
    exact bne_iff_ne.mpr fun hc => h (by rwa [hc])
  · rw [syncedAt] at hp
    split at hp
    · obtain rfl := mem_singleton.mp hp
      exact bne_iff_ne.mpr hsynced
    · cases hp

theorem assign_src {values : List (String × SqlValue)} {row : Row V} {c : String}
    (h : values.lookup c = some (.src c)) : assign env r values row c = r.data.value c := by
  rw [assign, h]
  rfl

theorem assign_none {values : List (String × SqlValue)} {row : Row V} {c : String}
    (h : values.lookup c = none) : assign env r values row c = row c := by
  rw [assign, h]

end Clauses

/-! ### The batch -/

section Merge

variable {D V H : Type} {cfg : CDCConfig D V H} {schema : TableSchema} {dst : String}
  {cols : PeerDBColumns} {texts : List String}

/-- The same row, or both none, to a reader of the mirrored columns. -/
def RowsAgree (sh : TableShape) : Option (Row V) → Option (Row V) → Prop :=
  Option.Rel fun row row' => ∀ c ∈ sh.columns, row c = row' c

theorem RowsAgree.eq_none {sh : TableShape} {row : Option (Row V)} (h : RowsAgree sh row none) :
    row = none := by
  cases h
  rfl

theorem join_eq {sh : TableShape} {before : Table V} (hkeyed : sh.Keyed before)
    {k : List (Option V)} {row : Option (Row V)} (hagree : RowsAgree sh row (before k)) :
    (if k.all Option.isSome then row else none) = row := by
  by_cases hnull : k.all Option.isSome = true
  · rw [if_pos hnull]
  · rw [if_neg hnull]
    cases hbefore : before k with
    | none =>
      rw [hbefore] at hagree
      exact hagree.eq_none.symm
    | some old => exact absurd (hkeyed.key_isSome hbefore) hnull

variable [DecidableEq V]

omit [DecidableEq V] in
theorem filter_raw {α : Type} {other rows : List (RawRow α)} {batchID : ℕ}
    (hother : ∀ r ∈ other, r.batchID ≠ batchID) (hrows : ∀ r ∈ rows, r.batchID = batchID) :
    (other ++ rows).filter (fun r =>
      decide (r.batchID = batchID) && decide (r.destinationTableName = dst)) =
      rows.filter fun r => decide (r.destinationTableName = dst) := by
  rw [filter_append, filter_eq_nil_iff.mpr, nil_append]
  · refine filter_congr fun r hr => ?_
    rw [decide_eq_true (hrows r hr), Bool.true_and]
  · intro r hr
    rw [decide_eq_false (hother r hr), Bool.false_and]
    exact Bool.false_ne_true

/-! ### Reading the raw rows -/

omit [DecidableEq V] in
theorem mem_partitionBy
    (hkeys : ∀ c ∈ schema.primaryKeyColumns, c ∈ schema.columns.map FieldDescription.name)
    {c : String} : c ∈ (generateMergeStatement cols dst schema texts).partitionBy ↔
      c ∈ schema.columns.map FieldDescription.name ∧ c ∈ schema.primaryKeyColumns := by
  rw [generateMergeStatement]
  dsimp only
  split_ifs
  · exact ⟨fun hc => ⟨hkeys c hc, hc⟩, fun hc => hc.2⟩
  · rw [mem_filter, decide_eq_true_eq]

theorem find_rankedColumns {c : String} (hc : c ∈ schema.primaryKeyColumns) :
    (rankedColumns schema).find? (fun col => decide (col.name = c)) = schema.column? c := by
  rw [rankedColumns, TableSchema.column?]
  cases schema.system with
  | q =>
    dsimp only
    rw [List.find?_filter]
    congr 1
    funext col
    by_cases hcol : col.name = c
    · simp [hcol, hc]
    · simp [hcol]
  | pg => rfl

/-- The statement can read what the items have for the columns, reads the key as it is, and does
not rank two keys as one. -/
structure Legible (env : PgEnv V) (toMap : V → Option String) (schema : TableSchema)
    (rows : List (Items V)) : Prop where
  read : ∀ items ∈ rows, ∀ col ∈ schema.columns,
    ∃ v, env.read toMap (selectExpr schema col) (items.value col.name) = .ok v
  key : ∀ items ∈ rows, ∀ col ∈ schema.columns, col.name ∈ schema.primaryKeyColumns →
    env.read toMap (selectExpr schema col) (items.value col.name) = .ok (items.value col.name) ∧
      ∃ v, env.read toMap (rankExpr schema col) (items.value col.name) = .ok v
  ranked : ∀ items ∈ rows, ∀ items' ∈ rows, ∀ col ∈ schema.columns,
    col.name ∈ schema.primaryKeyColumns →
    env.read toMap (rankExpr schema col) (items.value col.name) =
      env.read toMap (rankExpr schema col) (items'.value col.name) →
    items.value col.name = items'.value col.name

section Read

variable (env : PgEnv V) (toMap : V → Option String) (schema : TableSchema)

/-- What an expression makes of the value of a row. -/
def readColumn (e : SqlExpr) (r : RawRow V) : Option V :=
  (env.read toMap e (r.data.value e.column)).toOption.join

/-- A raw row as the subquery has it. -/
def selected (r : RawRow V) : RawRow V :=
  { r with
    data := ⟨fun c => (schema.column? c).map fun col =>
      readColumn env toMap (selectExpr schema col) r⟩
    matchData := none }

/-- What a row is ranked by, for one column. -/
def rankedBy (r : RawRow V) (c : String) : Option V :=
  ((schema.column? c).map fun col => readColumn env toMap (rankExpr schema col) r).join

variable {env toMap schema} {r : RawRow V}

omit [DecidableEq V] in
theorem readColumn_eq {e : SqlExpr} {v : Option V}
    (h : env.read toMap e (r.data.value e.column) = .ok v) : readColumn env toMap e r = v := by
  rw [readColumn, h]
  rfl

omit [DecidableEq V] in
theorem selected_value {c : String} {col : FieldDescription} (hcol : schema.column? c = some col)
    {v : Option V} (h : env.read toMap (selectExpr schema col) (r.data.value c) = .ok v) :
    (selected env toMap schema r).data.value c = v := by
  obtain ⟨-, rfl⟩ := TableSchema.column?_some hcol
  show ((schema.column? col.name).map _).join = v
  rw [hcol]
  exact readColumn_eq (by rwa [selectExpr_column])

omit [DecidableEq V] in
theorem values_eq {exprs : List (String × SqlExpr)}
    (h : ∀ e ∈ exprs, ∃ v, env.read toMap e.2 (r.data.value e.2.column) = .ok v) :
    PgMergeStatement.values env exprs (r.toJSON toMap) =
      .ok (exprs.map fun e => (e.1, readColumn env toMap e.2 r)) := by
  refine mapM_eq_ok fun e he => ?_
  obtain ⟨v, hv⟩ := h e he
  have heval : e.2.eval env ((r.toJSON toMap).data.value e.2.column) = .ok v := by
    rw [RawRow.toJSON, Items.toJSON_value]
    exact hv
  rw [heval, readColumn_eq hv]
  rfl

variable {rows : List (Items V)} (hlegible : Legible env toMap schema rows)
  (hr : r.data ∈ rows)

include hlegible hr

omit [DecidableEq V] in
theorem select_eq : (generateMergeStatement cols dst schema texts).select env (r.toJSON toMap) =
    .ok (selected env toMap schema r) := by
  rw [PgMergeStatement.select, generateMergeStatement, values_eq]
  · show Except.ok _ = _
    simp only [map_map, Function.comp_def, lookup_columns_map]
    rfl
  · intro e he
    obtain ⟨col, hcol, rfl⟩ := mem_map.mp he
    simpa using hlegible.read _ hr col hcol

omit [DecidableEq V] in
theorem Legible.rank {col : FieldDescription} (hcol : col ∈ rankedColumns schema) :
    ∃ v, env.read toMap (rankExpr schema col) (r.data.value col.name) = .ok v := by
  cases hsystem : schema.system with
  | q =>
    rw [rankedColumns, hsystem] at hcol
    obtain ⟨hmem, hkey⟩ := mem_filter.mp hcol
    exact (hlegible.key _ hr col hmem (of_decide_eq_true hkey)).2
  | pg =>
    rw [rankedColumns, hsystem] at hcol
    by_cases hjson : col.type = "json" ∨ col.type = "jsonb"
    · -- a text is a JSON string
      rw [rankExpr, hsystem]
      dsimp only
      rw [if_pos hjson]
      exact ⟨_, rfl⟩
    · have hread := hlegible.read _ hr col hcol
      rw [selectExpr, hsystem] at hread
      rw [rankExpr, hsystem]
      dsimp only at hread ⊢
      rw [if_neg hjson] at hread ⊢
      exact hread

omit [DecidableEq V] in
theorem rank_eq
    (hkeys : ∀ c ∈ schema.primaryKeyColumns, c ∈ schema.columns.map FieldDescription.name) :
    (generateMergeStatement cols dst schema texts).rank env (r.toJSON toMap) =
      .ok ((generateMergeStatement cols dst schema texts).partitionBy.map
        (rankedBy env toMap schema r)) := by
  rw [PgMergeStatement.rank, generateMergeStatement, values_eq]
  · show List.mapM _ _ = _
    refine mapM_eq_ok fun c hc => ?_
    have hkey := (mem_partitionBy hkeys).mp hc
    obtain ⟨col, hcol⟩ := TableSchema.column?_of_mem hkey.1
    simp only [map_map, Function.comp_def, lookup_columns_map, find_rankedColumns hkey.2, hcol,
      rankedBy, Option.map_some, Option.join_some]
  · intro e he
    obtain ⟨col, hcol, rfl⟩ := mem_map.mp he
    simpa using hlegible.rank hr hcol

end Read

omit [DecidableEq V] in
/-- Two rows are ranked together if they have the same key. -/
theorem rankedBy_eq_iff {env : PgEnv V} {toMap : V → Option String} {rows : List (RawRow V)}
    (hlegible : Legible env toMap schema (rows.map RawRow.data))
    (hkeys : ∀ c ∈ schema.primaryKeyColumns, c ∈ schema.columns.map FieldDescription.name)
    {a b : RawRow V} (ha : a ∈ rows) (hb : b ∈ rows) :
    (generateMergeStatement cols dst schema texts).partitionBy.map (rankedBy env toMap schema a) =
        (generateMergeStatement cols dst schema texts).partitionBy.map
          (rankedBy env toMap schema b) ↔
      (schema.shape dst).key a.data.value = (schema.shape dst).key b.data.value := by
  have hcolumn : ∀ c ∈ schema.primaryKeyColumns,
      rankedBy env toMap schema a c = rankedBy env toMap schema b c ↔
        a.data.value c = b.data.value c := by
    intro c hc
    obtain ⟨col, hcol⟩ := TableSchema.column?_of_mem (hkeys c hc)
    obtain ⟨hmem, rfl⟩ := TableSchema.column?_some hcol
    obtain ⟨v, hv⟩ := (hlegible.key _ (mem_map_of_mem ha) col hmem hc).2
    obtain ⟨w, hw⟩ := (hlegible.key _ (mem_map_of_mem hb) col hmem hc).2
    have hrank : ∀ {r : RawRow V} {v}, env.read toMap (rankExpr schema col)
        (r.data.value col.name) = .ok v → rankedBy env toMap schema r col.name = v := by
      intro r v hv
      rw [rankedBy, hcol]
      exact readColumn_eq (by rwa [rankExpr_column])
    rw [hrank hv, hrank hw]
    constructor
    · rintro rfl
      exact hlegible.ranked _ (mem_map_of_mem ha) _ (mem_map_of_mem hb) col hmem hc
        (hv.trans hw.symm)
    · intro heq
      rw [heq, hw] at hv
      exact (Except.ok.inj hv).symm
  rw [TableShape.key, TableShape.key, map_inj_left, map_inj_left]
  constructor
  · intro h c hc
    have hkey := mem_keyColumns.mp hc
    exact (hcolumn c hkey.2).mp (h c ((mem_partitionBy hkeys).mpr hkey))
  · intro h c hc
    have hkey := (mem_partitionBy hkeys).mp hc
    exact (hcolumn c hkey.2).mpr (h c (mem_keyColumns.mpr hkey))

omit [DecidableEq V] in
/-- **One key.**  The clause for the last record brings the row up to date. -/
theorem step_tracked (hm : Mirrored cfg schema dst) (hsoft : cols.softDeleteColName = "")
    (hsynced : cols.syncedAtColName ∉ (schema.shape dst).columns) {texts : List String}
    {env : PgEnv V} {toMap : V → Option String} (t : ℤ) (batchID : ℕ)
    {before now old : Option (Row V)} {rec : Record V}
    (hagree : RowsAgree (schema.shape dst) old before)
    (htracked : Tracked (schema.shape dst) before now (some rec))
    (htext : rec.kind ≠ .delete → keysToString rec.unchangedColumns ∈ texts)
    (hread : rec.kind ≠ .delete → ∀ col ∈ schema.columns, ∀ v,
      rec.getItems.colToVal col.name = some v →
      env.read toMap (selectExpr schema col) v = .ok v) :
    RowsAgree (schema.shape dst)
      ((generateMergeStatement cols dst schema texts).step env.toSqlEnv
        (selected env toMap schema (rawOf t batchID rec)) old) now := by
  cases now with
  | none =>
    rw [step_delete env.toSqlEnv hsoft (Record.rawType_eq_two.mpr htracked)]
    exact .none
  | some row =>
    obtain ⟨hkind, hcarries⟩ := htracked
    have htype : (selected env toMap schema (rawOf t batchID rec)).recordType ≠ 2 :=
      mt Record.rawType_eq_two.mp hkind
    -- a column that is sent is read as it was sent
    have hsame : ∀ c ∈ (schema.shape dst).columns, rec.getItems.colToVal c = some (row c) →
        (selected env toMap schema (rawOf t batchID rec)).data.value c = row c := by
      intro c hc hsent
      obtain ⟨col, hcol⟩ := TableSchema.column?_of_mem hc
      obtain ⟨hmem, rfl⟩ := TableSchema.column?_some hcol
      refine selected_value hcol ?_
      rw [rawOf, Items.value_of_colToVal hsent]
      exact hread hkind col hmem _ hsent
    cases hagree with
    | none =>
      rw [step_insert env.toSqlEnv hsoft htype]
      refine .some fun c hc => ?_
      refine (assign_src env.toSqlEnv (lookup_src _ hc)).trans ?_
      rcases hcarries.columns c hc with ⟨hsent, -⟩ | ⟨-, -, old, hold, -⟩
      · exact hsame c hc hsent
      · cases hold
    | @some kept old hkept =>
      rw [step_update env.toSqlEnv hsoft htype (htext hkind)]
      refine .some fun c hc => ?_
      have hcomma : ∀ name ∈ rec.unchangedColumns, ',' ∉ name.toList :=
        fun name hname => (hm.names name (hcarries.unchanged name hname)).2
      have hsplit := mem_split_keysToString hcomma (hm.names c hc).1
      rcases hcarries.columns c hc with ⟨hsent, hnot⟩ | ⟨-, hmem, old, hold, hval⟩
      · have hset : c ∈ arrayMinus (schema.columns.map FieldDescription.name)
            (splitComma (keysToString rec.unchangedColumns)) := by
          rw [arrayMinus, mem_filter, decide_eq_true_eq]
          exact ⟨hc, mt hsplit.mp hnot⟩
        refine (assign_src env.toSqlEnv (lookup_src _ hset)).trans ?_
        exact hsame c hc hsent
      · have hset : c ∉ arrayMinus (schema.columns.map FieldDescription.name)
            (splitComma (keysToString rec.unchangedColumns)) := by
          rw [arrayMinus, mem_filter, decide_eq_true_eq]
          exact fun h => h.2 (hsplit.mpr hmem)
        have hne : c ≠ cols.syncedAtColName := fun heq => hsynced (heq ▸ hc)
        cases hold
        rw [hval]
        exact (assign_none env.toSqlEnv (lookup_none hset hne)).trans (hkept c hc)

section Run

variable {env : PgEnv V} {toMap : V → Option String} {raw : List (RawRow String)}
  {rows : List (RawRow V)} {batchID : ℕ}
  (hkeys : ∀ c ∈ schema.primaryKeyColumns, c ∈ schema.columns.map FieldDescription.name)
  (hfilter : raw.filter (fun r =>
    decide (r.batchID = batchID) && decide (r.destinationTableName = dst)) =
      rows.map (RawRow.toJSON toMap))
  (hlegible : Legible env toMap schema (rows.map RawRow.data))

include hkeys hfilter hlegible

theorem source_eq (texts : List String) :
    (generateMergeStatement cols dst schema texts).source env raw batchID =
      .ok ((newest (fun r : RawRow V => (schema.shape dst).key r.data.value) RawRow.timestamp
        rows).map (selected env toMap schema)) := by
  set stmt := generateMergeStatement cols dst schema texts with hstmt
  have hmem : ∀ r ∈ rows, r.data ∈ rows.map RawRow.data := fun r hr => mem_map_of_mem hr
  have hranked : (rows.map (RawRow.toJSON toMap)).mapM (fun r => do return (← stmt.rank env r, r)) =
      Except.ok (rows.map fun r =>
        (stmt.partitionBy.map (rankedBy env toMap schema r), r.toJSON toMap)) := by
    rw [mapM_map]
    refine mapM_eq_ok fun r hr => ?_
    rw [Function.comp_apply, hstmt, rank_eq hlegible (hmem r hr) hkeys]
    rfl
  have hnewest : newest (fun r : RawRow V => stmt.partitionBy.map (rankedBy env toMap schema r))
      RawRow.timestamp rows =
      newest (fun r => (schema.shape dst).key r.data.value) RawRow.timestamp rows :=
    newest_congr fun a ha b hb => rankedBy_eq_iff hlegible hkeys ha hb
  have hfirst : stmt.source env raw batchID = (newest Prod.fst (fun p => p.2.timestamp)
      (rows.map fun r => (stmt.partitionBy.map (rankedBy env toMap schema r), r.toJSON toMap))).mapM
        fun p => stmt.select env p.2 := by
    rw [PgMergeStatement.source]
    show ((raw.filter fun r => decide (r.batchID = batchID) &&
      decide (r.destinationTableName = dst)).mapM _ >>= _) = _
    rw [hfilter, hranked]
    rfl
  rw [hfirst, newest_map, mapM_map]
  show (newest _ _ rows).mapM _ = _
  rw [← hnewest]
  exact mapM_eq_ok fun r hr => select_eq hlegible (hmem r (mem_filter.mp hr).1)

theorem run_eq (hsorted : rows.Pairwise fun a b => a.timestamp < b.timestamp)
    (texts : List String) (dest : Table V) :
    (generateMergeStatement cols dst schema texts).run env raw batchID dest =
      .ok fun k =>
        match last (fun r : RawRow V => (schema.shape dst).key r.data.value) k rows with
        | some r => (generateMergeStatement cols dst schema texts).step env.toSqlEnv
            (selected env toMap schema r) (if k.all Option.isSome then dest k else none)
        | none => dest k := by
  -- the key is read as it is
  have hkey : ∀ r ∈ rows, (generateMergeStatement cols dst schema texts).key
      (selected env toMap schema r) = (schema.shape dst).key r.data.value := by
    intro r hr
    refine map_congr_left fun c (hc : c ∈ (schema.shape dst).keyColumns) => ?_
    obtain ⟨hcol, hpk⟩ := mem_keyColumns.mp hc
    obtain ⟨col, hcol⟩ := TableSchema.column?_of_mem hcol
    obtain ⟨hmem, rfl⟩ := TableSchema.column?_some hcol
    exact selected_value hcol (hlegible.key _ (mem_map_of_mem hr) col hmem hpk).1
  set src := newest (fun r : RawRow V => (schema.shape dst).key r.data.value) RawRow.timestamp rows
    with hsrc
  have hsub : ∀ r ∈ src, r ∈ rows := fun r hr => (mem_filter.mp hr).1
  have hnodup : ((src.map (selected env toMap schema)).map
      (generateMergeStatement cols dst schema texts).key).Nodup := by
    have hmap : (src.map (selected env toMap schema)).map
        (generateMergeStatement cols dst schema texts).key =
        src.map fun r => (schema.shape dst).key r.data.value := by
      rw [map_map]
      exact map_congr_left fun r hr => hkey r (hsub r hr)
    rw [hmap]
    exact newest_nodup hsorted
  rw [PgMergeStatement.run, source_eq hkeys hfilter hlegible texts]
  show (if _ then _ else _) = _
  rw [if_pos hnodup]
  refine congrArg Except.ok (funext fun k => ?_)
  have hfind : (src.map (selected env toMap schema)).find? (fun r => decide
      ((generateMergeStatement cols dst schema texts).key r = k)) =
      (last (fun r : RawRow V => (schema.shape dst).key r.data.value) k rows).map
        (selected env toMap schema) := by
    rw [List.find?_map, ← find_newest hsorted k, ← List.head?_filter, ← List.head?_filter]
    congr 2
    refine filter_congr fun r hr => ?_
    rw [Function.comp_apply, hkey r (hsub r hr)]
  rw [hfind]
  cases last (fun r : RawRow V => (schema.shape dst).key r.data.value) k rows with
  | none => rfl
  | some r => rfl

end Run

omit [DecidableEq V] in
/-- The statement has a clause for the unchanged columns of every raw row it updates
with. -/
theorem mem_unchangedColsOf {raw : List (RawRow V)} {batchID : ℕ} {r : RawRow V}
    (hmem : r ∈ raw) (hbatch : r.batchID = batchID) (hdst : r.destinationTableName = dst)
    (htype : r.recordType ≠ 2) : r.unchangedToastColumns ∈ unchangedColsOf raw batchID dst := by
  rw [unchangedColsOf, mem_dedup]
  refine mem_map_of_mem (mem_filter.mpr ⟨hmem, ?_⟩)
  rw [decide_eq_true hbatch, decide_eq_true htype, decide_eq_true hdst]
  rfl

theorem Tracks.init {req : PullRequest} (hstore : req.cdcStoreEnabled = true) (src : SourceState)
    (sent : Bool → String → Option (Option V) → Prop) (before : Table V) :
    Tracks cfg schema dst sent before before (PullState.init req src) where
  tracked _ := rfl
  stored f _ := by
    rw [PullState.latest, PullState.init, if_pos hstore]
    rfl
  rows _ h := absurd h not_mem_nil
  store := by
    rw [PullState.init, if_pos hstore]
    rfl
  drawn _ h := absurd h not_mem_nil

/-- The items of the records of a table. -/
def itemsOf (dst : String) (records : List (Record V)) : List (Items V) :=
  (records.filter fun rec => decide (rec.getDestinationTableName = dst)).map Record.getItems

omit [DecidableEq V] in
theorem mem_itemsOf {records : List (Record V)} {items : Items V} :
    items ∈ itemsOf dst records ↔
      ∃ rec ∈ records, rec.getDestinationTableName = dst ∧ rec.getItems = items := by
  simp [itemsOf, and_assoc]

/-- What a batch sends for a table comes through: the statement can read it, and reads what the
inserts and updates send as it was sent. -/
structure ReadBack (env : PgEnv V) (toMap : V → Option String) (schema : TableSchema)
    (dst : String) (batch : List (Record V)) : Prop where
  legible : Legible env toMap schema (itemsOf dst batch)
  sent : ∀ rec ∈ batch, rec.getDestinationTableName = dst → rec.kind ≠ .delete →
    ∀ col ∈ schema.columns, ∀ v, rec.getItems.colToVal col.name = some v →
      env.read toMap (selectExpr schema col) v = .ok v

/-- A column of a record of the batch; a delete only counts for deletes. -/
def SentBy (dst : String) (batch : List (Record V)) (isDelete : Bool) (c : String)
    (o : Option (Option V)) : Prop :=
  ∃ rec ∈ batch, rec.getDestinationTableName = dst ∧ rec.getItems.colToVal c = o ∧
    (rec.kind = .delete → isDelete = true)

omit [DecidableEq V] in
/-- The pulled records have columns of the batch, so they are as legible. -/
theorem Legible.of_sentBy {env : PgEnv V} {toMap : V → Option String}
    {batch records : List (Record V)} (h : Legible env toMap schema (itemsOf dst batch))
    (hsent : ∀ rec ∈ records, rec.getDestinationTableName = dst → ∀ c,
      SentBy dst batch (decide (rec.kind = .delete)) c (rec.getItems.colToVal c)) :
    Legible env toMap schema (itemsOf dst records) := by
  have hvalue : ∀ items ∈ itemsOf dst records, ∀ c, ∃ items' ∈ itemsOf dst batch,
      items.value c = items'.value c := by
    intro items hitems c
    obtain ⟨rec, hrec, hdst, rfl⟩ := mem_itemsOf.mp hitems
    obtain ⟨rec', hrec', hdst', hcol, -⟩ := hsent rec hrec hdst c
    exact ⟨_, mem_itemsOf.mpr ⟨rec', hrec', hdst', rfl⟩, by rw [Items.value, Items.value, hcol]⟩
  constructor
  · intro items hitems col hcol
    obtain ⟨items', hitems', heq⟩ := hvalue items hitems col.name
    rw [heq]
    exact h.read items' hitems' col hcol
  · intro items hitems col hcol hkey
    obtain ⟨items', hitems', heq⟩ := hvalue items hitems col.name
    rw [heq]
    exact h.key items' hitems' col hcol hkey
  · intro a ha b hb col hcol hkey
    obtain ⟨a', ha', haeq⟩ := hvalue a ha col.name
    obtain ⟨b', hb', hbeq⟩ := hvalue b hb col.name
    rw [haeq, hbeq]
    exact h.ranked a' ha' b' hb' col hcol hkey

omit [DecidableEq V] in
theorem rawsOf_data (now : ℕ → ℤ) (batchID : ℕ) (records : List (Record V)) :
    ((rawsOf now batchID records).filter fun r =>
      decide (r.destinationTableName = dst)).map RawRow.data = itemsOf dst records := by
  conv_rhs => rw [itemsOf, ← zipIdx_map_fst 0 records]
  rw [rawsOf, filter_map, map_map, filter_map, map_map]
  rfl

variable [DecidableEq H]

/-- **A merged batch is a replayed batch.**  For a mirrored table, a batch that is valid
against the table before it and whose values come through, and a destination that has that
table: the batch is pulled, its raw rows are copied, the statement runs, and the destination
has the table after the batch. -/
theorem merge_eq_replay (hm : Mirrored cfg schema dst) {req : PullRequest}
    (hstore : req.cdcStoreEnabled = true) (src : SourceState)
    (hsoft : cols.softDeleteColName = "")
    (hsynced : cols.syncedAtColName ∉ (schema.shape dst).columns)
    {now : ℕ → ℤ} (hnow : ∀ ⦃i j⦄, i < j → now i < now j) {before after : Table V}
    (hkeyed : (schema.shape dst).Keyed before) {batch : List (Record V)}
    (hothers : ∀ rec ∈ batch, rec.getDestinationTableName ≠ dst → Pullable cfg rec)
    (hvalid : runs (Table.replay (schema.shape dst)) before batch = some after)
    {env : PgEnv V} {toMap : V → Option String} (hread : ReadBack env toMap schema dst batch)
    {raw : List (RawRow String)} {batchID : ℕ} (hraw : ∀ r ∈ raw, r.batchID ≠ batchID)
    {dest : Table V} (hdest : ∀ k, RowsAgree (schema.shape dst) (dest k) (before k)) :
    ∃ s rows dest', batch.foldlM (handleRow cfg) (PullState.init req src) = .ok s ∧
      syncRecordsCore toMap now batchID s.records.records = .ok rows ∧
      (generateMergeStatement cols dst schema
        (unchangedColsOf (raw ++ rows) batchID dst)).run env (raw ++ rows) batchID dest =
          .ok dest' ∧
      ∀ k, RowsAgree (schema.shape dst) (dest' k) (after k) := by
  have hmono : ∀ c o, SentBy dst batch false c o → SentBy dst batch true c o :=
    fun c o ⟨rec, hrec, hdst, hcol, _⟩ => ⟨rec, hrec, hdst, hcol, fun _ => rfl⟩
  have hstep : ∀ (now : Table V) (s : PullState V H) rec now',
      Tracks cfg schema dst (SentBy dst batch) before now s →
      rec ∈ batch → Table.replay (schema.shape dst) now rec = some now' →
      ∃ s', handleRow cfg s rec = .ok s' ∧
        Tracks cfg schema dst (SentBy dst batch) before now' s' :=
    fun _ _ rec _ h hrec hreplay => h.step hm hmono (hothers rec hrec)
      (fun hdst c => ⟨rec, hrec, hdst, rfl, decide_eq_true⟩) hreplay
  -- the pull follows the replay, and its store the last record of each key
  obtain ⟨s, hpull, htracks⟩ := runs_simulated (Tracks cfg schema dst (SentBy dst batch) before)
    hstep (fun _ h => h) (Tracks.init hstore src (SentBy dst batch) before) hvalid
  have hsorted := (rawsOf_sorted hnow batchID s.records.records).filter
    fun r => decide (r.destinationTableName = dst)
  have hlegible := hread.legible.of_sentBy htracks.drawn
  rw [← rawsOf_data now batchID] at hlegible
  have hfilter : (raw ++ (rawsOf now batchID s.records.records).map (RawRow.toJSON toMap)).filter
      (fun r => decide (r.batchID = batchID) && decide (r.destinationTableName = dst)) =
      ((rawsOf now batchID s.records.records).filter fun r =>
        decide (r.destinationTableName = dst)).map (RawRow.toJSON toMap) := by
    rw [filter_raw hraw, filter_map]
    · rfl
    · intro r hr
      obtain ⟨r', hr', rfl⟩ := mem_map.mp hr
      have hbatch := rawsOf_batchID hr'
      exact hbatch
  refine ⟨s, _, _, hpull, syncRecordsCore_eq toMap htracks.rows,
    run_eq hm.keys hfilter hlegible hsorted _ dest, fun k => ?_⟩
  obtain ⟨x, hrecord, hrow⟩ := last_rawsOf now batchID s.records.records (schema.shape dst) k
  have htracked := htracks.tracked k
  rw [lastRecord, hrecord] at htracked
  have hlast : last (fun r : RawRow V => (schema.shape dst).key r.data.value) k
      ((rawsOf now batchID s.records.records).filter fun r =>
        decide (r.destinationTableName = dst)) =
      x.map fun r => rawOf (now r.2) batchID r.1 := hrow
  simp only [hlast]
  cases x with
  | none =>
    -- no record of the batch has the key
    have hsame : after k = before k := htracked
    rw [hsame]
    exact hdest k
  | some p =>
    obtain ⟨hmem, -⟩ := last_some hlast
    rw [mem_filter, decide_eq_true_eq] at hmem
    have hstream : p.1 ∈ s.records.records := by
      have hp := (last_some hrecord).1
      exact (mem_filter.mp hp).1
    -- a clause was generated for the columns the record leaves out
    have htext : p.1.kind ≠ .delete → keysToString p.1.unchangedColumns ∈
        unchangedColsOf (raw ++ (rawsOf now batchID s.records.records).map (RawRow.toJSON toMap))
          batchID dst := by
      intro hkind
      exact mem_unchangedColsOf (mem_append_right raw (mem_map_of_mem hmem.1)) rfl
        hmem.2 (mt Record.rawType_eq_two.mp hkind)
    simp only [Option.map_some, join_eq hkeyed (hdest k)]
    refine step_tracked hm hsoft hsynced _ batchID (hdest k) htracked htext
      fun hkind col hcol v hv => ?_
    -- an insert or update of the batch sent it
    obtain ⟨rec, hrec, hdst, hcol', hdelete⟩ := htracks.drawn p.1 hstream hmem.2 col.name
    refine hread.sent rec hrec hdst (fun hkind' => ?_) col hcol v (hcol'.trans hv)
    rw [decide_eq_false hkind] at hdelete
    cases hdelete hkind'

end Merge

/-- Values of every column come through if all of them are read as they are. -/
theorem ReadBack.of_forall {V : Type} {env : PgEnv V} {toMap : V → Option String}
    {schema : TableSchema} (hselect : ∀ col ∈ schema.columns, ∀ v,
      env.read toMap (selectExpr schema col) v = .ok v)
    (hrank : ∀ col ∈ schema.columns, ∀ v, env.read toMap (rankExpr schema col) v = .ok v)
    (dst : String) (batch : List (Record V)) : ReadBack env toMap schema dst batch where
  legible :=
    { read := fun _ _ col hcol => ⟨_, hselect col hcol _⟩
      key := fun _ _ col hcol _ => ⟨hselect col hcol _, _, hrank col hcol _⟩
      ranked := fun _ _ _ _ col hcol _ heq => by
        rw [hrank col hcol, hrank col hcol] at heq
        exact Except.ok.inj heq }
  sent _ _ _ _ col hcol v _ := hselect col hcol v

/-! ### A batch with unchanged columns -/

def docsSchema : TableSchema where
  columns := [⟨"id", "int2", -1, false, "", none⟩, ⟨"body", "text", -1, true, "", none⟩,
    ⟨"views", "int2", -1, true, "", none⟩]
  primaryKeyColumns := ["id"]

/-- A mirror of one table whose values are bytes. -/
def docsMirror : CDCConfig UInt8 UInt8 (List UInt8) where
  proc :=
    { process := fun _ tuple =>
        match tuple with
        | .text data => .ok (some data)
        | _ => .ok none
      ofString := fun s => s.length.toUInt8
      originColumns := fun _ => [] }
  codec := ⟨Option.toList, id⟩
  srcTableIDNameMapping relID := if relID = 1 then some "public.docs" else none
  tableNameMapping name := if name = "public.docs" then some { name := "docs" } else none
  tableNameSchemaMapping name := if name = "docs" then some docsSchema else none

theorem docsMirror_mirrored : Mirrored docsMirror docsSchema "docs" where
  mapped := rfl
  named := by decide
  keyed := rfl
  keys := by decide
  names := by decide
  distinct f g h := by
    have hid : (f "id").toList = (g "id").toList := by
      simpa [docsMirror, docsSchema] using h
    have heq : f "id" = g "id" := by
      have hhead := congrArg List.head? hid
      rwa [Option.head?_toList, Option.head?_toList] at hhead
    rw [docsSchema, map_singleton, map_singleton, heq]

def docsRow (id body views : UInt8) : Row UInt8 := fun c =>
  if c = "id" then some id else if c = "body" then some body else
    if c = "views" then some views else none

/-- Rows 1 and 3. -/
def docsBefore : Table UInt8 := fun k =>
  if k = [some 1] then some (docsRow 1 7 0) else
    if k = [some 3] then some (docsRow 3 8 0) else none

theorem docsBefore_keyed : (docsSchema.shape "docs").Keyed docsBefore := by
  have hrow : ∀ k row, docsBefore k = some row →
      ∃ id body views, k = [some id] ∧ row = docsRow id body views := by
    intro k row h
    rw [docsBefore] at h
    split at h
    · exact ⟨1, 7, 0, by assumption, (Option.some.inj h).symm⟩
    · split at h
      · exact ⟨3, 8, 0, by assumption, (Option.some.inj h).symm⟩
      · cases h
  constructor
  · intro k row h
    obtain ⟨id, body, views, rfl, rfl⟩ := hrow k row h
    rfl
  · intro k row h c hc
    obtain ⟨id, body, views, rfl, rfl⟩ := hrow k row h
    obtain rfl : c = "id" := mem_singleton.mp hc
    rfl

def docsItems (id views : UInt8) : Items UInt8 :=
  (Items.empty.addColumn "id" (some id)).addColumn "views" (some views)

/-- Row 1 keeps its `body` from before the batch, row 2 from its insert. -/
def docsBatch : List (Record UInt8) :=
  [.update .zero .empty (docsItems 1 1) ["body"] "public.docs" "docs",
   .insert .zero ((docsItems 2 0).addColumn "body" (some 9)) "public.docs" "docs",
   .update .zero .empty (docsItems 2 1) ["body"] "public.docs" "docs",
   .delete .zero (docsItems 3 0) [] "public.docs" "docs"]

/-- A byte as the text of one character. -/
def byteText (b : UInt8) : String := String.ofList [Char.ofNat b.toNat]

def docsEnv : PgEnv UInt8 where
  currentTimestamp := 0
  ofBool b := b.toNat.toUInt8
  cast _ text :=
    match text.toList with
    | [c] => .ok c.toNat.toUInt8
    | _ => .error "invalid input syntax"
  jsonbString text := text.length.toUInt8
  jsonArrayElementsText _ := .error "cannot call json_array_elements_text on a scalar"
  castArray _ elements := .ok elements.length.toUInt8
  decodeBase64 _ _ := .error "invalid base64 end sequence"

theorem docsEnv_cast (pgType : String) (b : UInt8) : docsEnv.cast pgType (byteText b) = .ok b := by
  have hvalid : b.toNat.isValidChar := Or.inl (by have := b.toNat_lt; omega)
  have hchar : (Char.ofNat b.toNat).toNat = b.toNat := by
    rw [Char.ofNat, dif_pos hvalid]
    rfl
  show (match (String.ofList [Char.ofNat b.toNat]).toList with
    | [c] => Except.ok c.toNat.toUInt8
    | _ => .error "invalid input syntax") = .ok b
  rw [String.toList_ofList]
  dsimp only
  rw [hchar]
  exact congrArg Except.ok UInt8.ofNat_toNat

theorem docsEnv_reads (batch : List (Record UInt8)) :
    ReadBack docsEnv (fun b => some (byteText b)) docsSchema "docs" batch := by
  have hread : ∀ (e : SqlExpr) (v : Option UInt8), e.form = .record →
      docsEnv.read (fun b => some (byteText b)) e v = .ok v := by
    intro e v hform
    rw [PgEnv.read, SqlExpr.eval, hform]
    cases v with
    | none => rfl
    | some b =>
      show (some <$> docsEnv.cast e.pgType (byteText b)) = _
      rw [docsEnv_cast]
      rfl
  have hselect : ∀ col ∈ docsSchema.columns, (selectExpr docsSchema col).form = .record := by decide
  have hrank : ∀ col ∈ docsSchema.columns, (rankExpr docsSchema col).form = .record := by decide
  exact .of_forall (fun col hcol v => hread _ v (hselect col hcol))
    (fun col hcol v => hread _ v (hrank col hcol)) "docs" batch

/-- The theorem at this batch. -/
theorem docsBatch_merged :
    ∃ after, runs (Table.replay (docsSchema.shape "docs")) docsBefore docsBatch = some after ∧
      (([1, 2, 3].map fun id => (after [some id]).map fun row => (row "body", row "views")) =
        [some (some 7, some 1), some (some 9, some 1), none]) ∧
      ∃ s rows dest', docsBatch.foldlM (handleRow docsMirror)
          (PullState.init { maxBatchSize := 10 } (docsMirror.newSource fun _ => none)) = .ok s ∧
        syncRecordsCore (fun b => some (byteText b)) (fun i => i) 5 s.records.records = .ok rows ∧
        (generateMergeStatement { syncedAtColName := "_peerdb_synced_at" } "docs" docsSchema
          (unchangedColsOf ([] ++ rows) 5 "docs")).run docsEnv ([] ++ rows) 5 docsBefore =
            .ok dest' ∧
        ∀ k, RowsAgree (docsSchema.shape "docs") (dest' k) (after k) := by
  have hrun : ((runs (Table.replay (docsSchema.shape "docs")) docsBefore docsBatch).map fun after =>
      [1, 2, 3].map fun id => (after [some id]).map fun row => (row "body", row "views")) =
      some [some (some 7, some 1), some (some 9, some 1), none] := by decide +kernel
  obtain ⟨after, hafter, hrows⟩ := Option.map_eq_some_iff.mp hrun
  have hdst : ∀ rec ∈ docsBatch, rec.getDestinationTableName = "docs" := by decide
  refine ⟨after, hafter, hrows, merge_eq_replay docsMirror_mirrored rfl _ rfl (by decide)
    (fun i j hij => Int.ofNat_lt.mpr hij) docsBefore_keyed
    (fun rec hrec hne => absurd (hdst rec hrec) hne) hafter (docsEnv_reads docsBatch)
    (fun _ h => absurd h not_mem_nil) fun k => ?_⟩
  cases docsBefore k with
  | none => exact .none
  | some row => exact .some fun c _ => rfl

/-! ### A batch with values that are not read back -/

/-- A table of the other type system, with an array and a float. -/
def notesSchema : TableSchema where
  columns := [⟨"id", "int16", -1, false, "", none⟩, ⟨"tags", "array_string", -1, true, "", none⟩,
    ⟨"score", "float64", -1, true, "", none⟩]
  primaryKeyColumns := ["id"]
  system := .q

def notesMirror : CDCConfig Unit QValue (List UInt8) where
  proc := ⟨fun _ _ => .ok none, .string, fun _ => []⟩
  codec :=
    { bytes := fun v =>
        match v with
        | some (.plain text) => text.toList.map fun c => c.toNat.toUInt8
        | _ => []
      hash := id }
  srcTableIDNameMapping relID := if relID = 1 then some "public.notes" else none
  tableNameMapping name := if name = "public.notes" then some { name := "notes" } else none
  tableNameSchemaMapping name := if name = "notes" then some notesSchema else none

/-- The database, on texts of these columns. -/
def notesEnv : PgEnv QValue where
  currentTimestamp := .plain "2024-01-01"
  ofBool b := .plain (if b then "true" else "false")
  cast pgType text :=
    .ok (if pgType = "DOUBLE PRECISION" then .float (.finite text) else .plain text)
  jsonbString text := .json text
  jsonArrayElementsText text := if text = "[]" then .ok [] else .error "invalid input syntax"
  castArray _ elements := .ok (.array elements)
  decodeBase64 _ text := .ok (.plain text)

/-- A note without tags whose score is not a number. -/
def notesBatch : List (Record QValue) :=
  [.insert .zero (((Items.empty.addColumn "id" (some (.plain "1"))).addColumn "tags" none).addColumn
    "score" (some (.float .nan))) "public.notes" "notes"]

/-- **NULL becomes an empty array and NaN becomes NULL.**  The batch is one insert into an empty
table; the destination was equal to the source before it and is not after it. -/
theorem notesBatch_changed : ∃ after s,
    runs (Table.replay (notesSchema.shape "notes")) (fun _ => none) notesBatch = some after ∧
    ((after [some (.plain "1")]).map fun row => (row "tags", row "score")) =
      some (none, some (.float .nan)) ∧
    notesBatch.foldlM (handleRow notesMirror)
      (PullState.init { maxBatchSize := 10 } (notesMirror.newSource fun _ => none)) = .ok s ∧
    ∀ marshal : List (Option String) → String, ∃ rows dest',
      syncRecordsCore (QValue.toMap recordItemsThreshold marshal) (fun i => i) 5
        s.records.records = .ok rows ∧
      (generateMergeStatement {} "notes" notesSchema (unchangedColsOf rows 5 "notes")).run notesEnv
        rows 5 (fun _ => none) = .ok dest' ∧
      ((dest' [some (.plain "1")]).map fun row => (row "tags", row "score")) =
        some (some (.array []), none) := by
  exact ⟨_, _, rfl, rfl, rfl, fun marshal => ⟨_, _, rfl, rfl, rfl⟩⟩
