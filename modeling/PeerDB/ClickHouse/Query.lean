/-
The ClickHouse destination: raw rows, the query that normalizes them, and the table
they end up in (`recordToQRecordOrError`, `BuildQuery`).

`BuildQuery` makes one INSERT INTO … SELECT for a table and a range of batches: every
raw row of the range becomes a row of the table, with the record type as its deleted
flag and the timestamp as its version.  Nothing is ever updated.  The table engine keeps
the newest version of each ordering key, and a reader drops the deleted ones; this is
`MergeTree.view`.

A query is modelled by its parts, without quoting and settings.  How ClickHouse decodes
a JSON field into a column is a parameter (`decode`); which decoder a column gets is
translated from the source.
-/
import PeerDB.Lib.KeyedLog
import PeerDB.Lib.Loop
import PeerDB.Model.Raw
import PeerDB.Model.Table

open Loop KeyedLog

namespace ClickHouse

/-! ### Raw rows -/

section Raw

variable {V : Type}

/-- `truncateNumerics`: each value is made to fit the destination type of its column. -/
def truncateNumerics (truncate : String → Option V → Option V) (items : Items V) : Items V :=
  ⟨fun c => (items.colToVal c).map (truncate c)⟩

/-- `recordToQRecordOrError`; the truncation depends on the destination table. -/
def recordToQRecordOrError (truncate : String → String → Option V → Option V) (now : ℤ)
    (batchID : ℕ) : Record V → Except String (Option (RawRow V))
  | .insert _ items _ dst => .ok (some
      { timestamp := now, destinationTableName := dst,
        data := truncateNumerics (truncate dst) items, recordType := 0, matchData := none,
        batchID := batchID, unchangedToastColumns := "" })
  | .update _ oldItems newItems unchanged _ dst => .ok (some
      { timestamp := now, destinationTableName := dst,
        data := truncateNumerics (truncate dst) newItems, recordType := 1,
        matchData := some oldItems, batchID := batchID,
        unchangedToastColumns := keysToString unchanged })
  | .delete _ items unchanged _ dst => .ok (some
      { timestamp := now, destinationTableName := dst, data := items, recordType := 2,
        matchData := some items, batchID := batchID,
        unchangedToastColumns := keysToString unchanged })
  | .message .. => .ok none
  | .relation .. => .error "unknown record type"

/-- The raw rows of one batch; each record comes with the clock reading it gets. -/
def stageBatch (truncate : String → String → Option V → Option V) (batchID : ℕ)
    (records : List (Record V × ℤ)) : Except String (List (RawRow V)) := do
  let rows ← records.mapM fun r => recordToQRecordOrError truncate r.2 batchID r.1
  return rows.reduceOption

/-- The raw rows of consecutive batches, the first of which follows batch `start`. -/
def stageBatches (truncate : String → String → Option V → Option V) (start : ℕ)
    (batches : List (List (Record V × ℤ))) : Except String (List (RawRow V)) := do
  let stages ← (batches.zipIdx (start + 1)).mapM fun b => stageBatch truncate b.2 b.1
  return stages.flatten

end Raw

/-! ### The query -/

structure ColumnSetting where
  sourceName : String
  destinationName : String := ""
  destinationType : String := ""
  nullableEnabled : Bool := false

structure TableMapping where
  destinationTableIdentifier : String
  columns : List ColumnSetting := []

inductive BinaryFormat where
  | raw
  | base64
  | hex
  deriving DecidableEq, Repr

/-- The two JSON columns of the raw table. -/
inductive JsonColumn where
  | data
  | matchData
  deriving DecidableEq, Repr

/-- How a JSON field is turned into a column. -/
inductive Decoder where
  | toTime64OrNull
  | clampDates
  | extendedTimeToDateTime (time64Supported : Bool)
  | clampTimestamps
  | arrayMapClampTimestamps
  | json
  | base64Decode
  | hexBase64Decode
  | jsonExtractString
  | jsonExtract (clickHouseType : String)
  deriving DecidableEq, Repr

/-- An expression of a SELECT. -/
inductive Expr where
  | column (decoder : Decoder) (json : JsonColumn) (colName : String)
  /-- `intDiv(_peerdb_record_type, 2)` -/
  | recordTypeDivTwo
  | one
  | timestamp
  | timestampMinusOne
  deriving DecidableEq, Repr

/-- `SELECT … FROM raw WHERE _peerdb_batch_id > … AND _peerdb_batch_id <= … AND
_peerdb_destination_table_name = …`; the second half of a UNION ALL takes updates with
match data only. -/
structure Select where
  projection : List (String × Expr)
  updatesOnly : Bool
  lastNormBatchID : ℕ
  endBatchID : ℕ
  tableName : String
  deriving DecidableEq, Repr

/-- `INSERT INTO tableName (columns) SELECT … UNION ALL SELECT …`. -/
structure InsertSelect where
  tableName : String
  columns : List String
  selects : List Select
  deriving DecidableEq, Repr

def versionColName : String := "_peerdb_version"

def sourceSchemaColName : String := "_peerdb_source_schema"

/-- The deleted flag of a mirror, by its soft-delete setting. -/
def isDeletedColumn (configuredSoftDeleteColName : String) : String :=
  if configuredSoftDeleteColName ≠ "" then configuredSoftDeleteColName else "_peerdb_is_deleted"

/-- The fields of `NormalizeQueryGenerator` that `BuildQuery` reads; `ToDWHColumnType` and
`PeerDBBinaryFormat` are taken as their results. -/
structure NormalizeQueryGenerator where
  tableName : String
  tableNameSchemaMapping : String → Option TableSchema
  tableMappings : List TableMapping := []
  lastNormBatchID : ℕ := 0
  endBatchID : ℕ := 0
  enablePrimaryUpdate : Bool := false
  sourceSchemaAsDestinationColumn : Bool := false
  isDeletedColName : String := isDeletedColumn ""
  flags : List String := []
  toDWHColumnType : FieldDescription → Bool → Except String String
  binaryFormat : Except String BinaryFormat := .ok .raw

/-- A column of the destination: its name there, its decoder, its name in the source. -/
structure Projected where
  dstColName : String
  decoder : Decoder
  colName : String
  deriving DecidableEq, Repr

namespace NormalizeQueryGenerator

variable (t : NormalizeQueryGenerator)

/-- The setting of a column: the first one in the first mapping of the table. -/
def columnSetting (colName : String) : Option ColumnSetting :=
  (t.tableMappings.find? fun tm => decide (tm.destinationTableIdentifier = t.tableName)).bind
    fun tm => tm.columns.find? fun col => decide (col.sourceName = colName)

/-- The `switch clickHouseType` of `BuildQuery`. -/
def decoder (clickHouseType colType : String) : Except String Decoder :=
  if clickHouseType = "Time64(6)" ∨ clickHouseType = "Nullable(Time64(6))" then
    .ok .toTime64OrNull
  else if clickHouseType = "Date32" ∨ clickHouseType = "Nullable(Date32)" then .ok .clampDates
  else if clickHouseType = "DateTime64(6)" ∨ clickHouseType = "Nullable(DateTime64(6))" then
    -- the legacy path, where a time is stored as a DateTime64
    if colType = "time" ∨ colType = "timetz" then
      .ok (.extendedTimeToDateTime (decide ("clickhouse_time64_enabled" ∈ t.flags)))
    else .ok .clampTimestamps
  else if clickHouseType = "Array(DateTime64(6))" ∨
      clickHouseType = "Nullable(Array(DateTime64(6)))" then .ok .arrayMapClampTimestamps
  else if clickHouseType = "JSON" ∨ clickHouseType = "Nullable(JSON)" then .ok .json
  else if colType = "bytes" then
    match t.binaryFormat with
    | .error e => .error e
    | .ok .raw => .ok .base64Decode
    | .ok .hex => .ok .hexBase64Decode
    | .ok .base64 => .ok (.jsonExtract clickHouseType)
  else .ok (.jsonExtract clickHouseType)

/-- One turn of the loop over the columns. -/
def project (schema : TableSchema) (column : FieldDescription) : Except String Projected := do
  let setting := t.columnSetting column.name
  let dstColName := ((setting.map ColumnSetting.destinationName).filter (· ≠ "")).getD column.name
  let clickHouseType ←
    match (setting.map ColumnSetting.destinationType).filter (· ≠ "") with
    | some destinationType => .ok destinationType
    | none =>
      (t.toDWHColumnType column
        (schema.nullableEnabled || (setting.map ColumnSetting.nullableEnabled).getD false)).mapError
          fun e => s!"error while converting column type to clickhouse type: {e}"
  let decoder ← t.decoder clickHouseType column.type
  return ⟨dstColName, decoder, column.name⟩

/-- The columns of the destination table. -/
def columns : Except String (List Projected) :=
  match t.tableNameSchemaMapping t.tableName with
  -- the schema pointer is dereferenced without a check
  | none => .error s!"nil table schema for {t.tableName}"
  | some schema => schema.columns.mapM (t.project schema)

/-- The SELECT list: the columns out of one JSON column, the source schema if it is asked
for, the deleted flag and the version. -/
def projection (cols : List Projected) (json : JsonColumn) (isDeleted version : Expr) :
    List (String × Expr) :=
  (cols.map fun col => (col.dstColName, .column col.decoder json col.colName)) ++
    (if t.sourceSchemaAsDestinationColumn then
      [(sourceSchemaColName, .column .jsonExtractString .data sourceSchemaColName)] else []) ++
    [(t.isDeletedColName, isDeleted), (versionColName, version)]

def buildQuery : Except String InsertSelect := do
  let cols ← t.columns
  let projection := t.projection cols .data .recordTypeDivTwo .timestamp
  return {
    tableName := t.tableName
    columns := projection.map Prod.fst
    selects := ⟨projection, false, t.lastNormBatchID, t.endBatchID, t.tableName⟩ ::
      -- a delete of the previous row, just older than the update
      (if t.enablePrimaryUpdate then
        [⟨t.projection cols .matchData .one .timestampMinusOne, true, t.lastNormBatchID,
          t.endBatchID, t.tableName⟩]
      else []) }

end NormalizeQueryGenerator

/-! ### Running it -/

/-- A value of a row: a decoded column, or a flag or version. -/
inductive Cell (W : Type) where
  | value (w : Option W)
  | int (n : ℤ)
  deriving DecidableEq, Repr

/-- A row of a ClickHouse table. -/
abbrev ChRow (W : Type) := String → Option (Cell W)

section Run

variable {V W : Type} (decode : Decoder → Option (Option V) → Option W)

def Expr.eval (r : RawRow V) : Expr → Cell W
  | .column decoder .data colName => .value (decode decoder (r.data.colToVal colName))
  | .column decoder .matchData colName =>
    .value (decode decoder (r.matchData.bind fun items => items.colToVal colName))
  | .recordTypeDivTwo => .int (r.recordType / 2 : ℕ)
  | .one => .int 1
  | .timestamp => .int r.timestamp
  | .timestampMinusOne => .int (r.timestamp - 1)

def Select.selects (sel : Select) (r : RawRow V) : Bool :=
  decide (sel.lastNormBatchID < r.batchID) && decide (r.batchID ≤ sel.endBatchID) &&
    decide (r.destinationTableName = sel.tableName) &&
    (!sel.updatesOnly || (r.matchData.isSome && decide (r.recordType = 1)))

/-- The values of a SELECT list go into the named columns by position. -/
def insertRow (columns : List String) (cells : List (Cell W)) : ChRow W :=
  fun c => (columns.zip cells).lookup c

def Select.row (sel : Select) (columns : List String) (r : RawRow V) : ChRow W :=
  insertRow columns (sel.projection.map fun p => p.2.eval decode r)

def InsertSelect.run (q : InsertSelect) (raw : List (RawRow V)) : List (ChRow W) :=
  q.selects.flatMap fun sel => (raw.filter sel.selects).map (sel.row decode q.columns)

end Run

/-! ### The table -/

/-- The engine of a destination table. -/
structure MergeTree where
  orderBy : List String
  isDeletedColName : String

namespace MergeTree

variable {W : Type} (e : MergeTree)

def key (r : ChRow W) : List (Option (Cell W)) := e.orderBy.map r

def version (r : ChRow W) : ℤ :=
  match r versionColName with
  | some (.int n) => n
  | _ => 0

variable [DecidableEq W]

def deleted (r : ChRow W) : Bool := decide (r e.isDeletedColName = some (.int 1))

/-- What a reader sees of a table: for each ordering key the row with the largest
version, unless it is deleted. -/
def view (rows : List (ChRow W)) (k : List (Option (Cell W))) : Option (ChRow W) :=
  (newestOf version (rows.filter fun r => decide (e.key r = k))).filter fun r => !e.deleted r

end MergeTree

/-! ### What the query inserts -/

section Inserted

variable {V W : Type} {t : NormalizeQueryGenerator} {cols : List Projected}

/-- `BuildQuery` without the primary-update option. -/
theorem buildQuery_eq (hcols : t.columns = .ok cols) (hupdate : t.enablePrimaryUpdate = false) :
    t.buildQuery = .ok
      { tableName := t.tableName
        columns := (t.projection cols .data .recordTypeDivTwo .timestamp).map Prod.fst
        selects := [⟨t.projection cols .data .recordTypeDivTwo .timestamp, false,
          t.lastNormBatchID, t.endBatchID, t.tableName⟩] } := by
  simp only [NormalizeQueryGenerator.buildQuery, hcols, hupdate]
  rfl

theorem lookup_zip_map {α β : Type} {f : String × α → β} {l : List (String × α)}
    (hnodup : (l.map Prod.fst).Nodup) {p : String × α} (hp : p ∈ l) :
    ((l.map Prod.fst).zip (l.map f)).lookup p.1 = some (f p) := by
  induction l with
  | nil => cases hp
  | cons q l ih =>
    rw [List.map_cons, List.nodup_cons] at hnodup
    rw [List.map_cons, List.map_cons, List.zip_cons_cons, List.lookup_cons]
    rcases List.mem_cons.mp hp with rfl | hp
    · rw [beq_self_eq_true]
    · have hne : p.1 ≠ q.1 := fun heq => hnodup.1 (heq ▸ List.mem_map_of_mem hp)
      rw [beq_false_of_ne hne]
      exact ih hnodup.2 hp

def NormalizeQueryGenerator.row (t : NormalizeQueryGenerator) (cols : List Projected)
    (decode : Decoder → Option (Option V) → Option W) (r : RawRow V) : ChRow W :=
  insertRow ((t.projection cols .data .recordTypeDivTwo .timestamp).map Prod.fst)
    ((t.projection cols .data .recordTypeDivTwo .timestamp).map fun p => p.2.eval decode r)

variable (decode : Decoder → Option (Option V) → Option W)
  (hnodup : ((t.projection cols .data .recordTypeDivTwo .timestamp).map Prod.fst).Nodup)

include hnodup

theorem row_column {col : Projected} (hcol : col ∈ cols) (r : RawRow V) :
    t.row cols decode r col.dstColName =
      some (.value (decode col.decoder (r.data.colToVal col.colName))) := by
  have hmem : (col.dstColName, Expr.column col.decoder .data col.colName) ∈
      t.projection cols .data .recordTypeDivTwo .timestamp :=
    List.mem_append_left _ (List.mem_append_left _ (List.mem_map_of_mem hcol))
  exact lookup_zip_map hnodup hmem

theorem row_isDeleted (r : RawRow V) :
    t.row cols decode r t.isDeletedColName = some (.int (r.recordType / 2 : ℕ)) := by
  have hmem : (t.isDeletedColName, Expr.recordTypeDivTwo) ∈
      t.projection cols .data .recordTypeDivTwo .timestamp :=
    List.mem_append_right _ List.mem_cons_self
  exact lookup_zip_map hnodup hmem

theorem row_version (r : RawRow V) :
    MergeTree.version (t.row cols decode r) = r.timestamp := by
  have hmem : (versionColName, Expr.timestamp) ∈
      t.projection cols .data .recordTypeDivTwo .timestamp :=
    List.mem_append_right _ (List.mem_cons_of_mem _ List.mem_cons_self)
  have hcell : t.row cols decode r versionColName = some (.int r.timestamp) :=
    lookup_zip_map hnodup hmem
  rw [MergeTree.version, hcell]

end Inserted

end ClickHouse
