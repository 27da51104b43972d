/-
The MySQL source: `PullRecords` (`connectors/mysql/cdc.go`).

One `Turn` is one iteration of the main loop: a binlog event (or the events of
one compressed transaction payload), an expired timeout, or an error.  The text
of a query event enters as what the SQL parser makes of it; values of row
columns and the descriptions of new columns come from `Config`.

A checkpoint is a text: a file position `!f:name,hex`, or a GTID set in the
form the client library prints it.  The offsets that the inactivity path
persists are logged in `PullState.saved`, oldest first.
-/
import PeerDB.Lib.Hex
import PeerDB.Lib.Loop
import PeerDB.Model.Record

open Loop Hex

namespace MySQL

/-! ### Offsets -/

structure Position where
  name : String := ""
  pos : ℕ := 0
  deriving DecidableEq, Repr

def posToOffsetText (p : Position) : String :=
  String.ofList (['!', 'f', ':'] ++ p.name.toList ++ ',' :: hex 8 p.pos)

/-- How the client library prints and parses GTID sets.  A set is given by a list
of its members. -/
structure GTIDCodec (U : Type) where
  string : List U → String
  parse : String → Except String (List U)
  parse_string : ∀ gset, ∃ gset', parse (string gset) = .ok gset' ∧ ∀ u, u ∈ gset' ↔ u ∈ gset
  string_notFilePos : ∀ gset rest, (string gset).toList ≠ '!' :: 'f' :: ':' :: rest

/-- `parsedReplicationOffset`, by its mechanism. -/
inductive ReplicationOffset (U : Type) where
  | filePos (pos : Position)
  | gtid (gset : List U)

def parseReplicationOffsetText {U : Type} (codec : GTIDCodec U) (offsetText : String) :
    Except String (ReplicationOffset U) :=
  match offsetText.toList with
  | '!' :: 'f' :: ':' :: rest =>
    match splitLast ',' rest with
    | none => .error s!"no comma in file/pos offset {offsetText}"
    | some (name, digits) =>
      match parseHex digits with
      | none => .error s!"invalid offset in file/pos offset {offsetText}"
      | some offset =>
        if offset < 2 ^ 32 then .ok (.filePos ⟨String.ofList name, offset⟩)
        else .error s!"invalid offset in file/pos offset {offsetText}"
  | _ =>
    match codec.parse offsetText with
    | .ok gset => .ok (.gtid gset)
    | .error e => .error s!"failed to parse mysql offset text {offsetText} as GTID set: {e}"

/-- A file position reads back, whatever the file is called. -/
theorem parse_posToOffsetText {U : Type} (codec : GTIDCodec U) {p : Position}
    (h : p.pos < 2 ^ 32) :
    parseReplicationOffsetText codec (posToOffsetText p) = .ok (.filePos p) := by
  have hsplit : splitLast ',' (p.name.toList ++ ',' :: hex 8 p.pos) =
      some (p.name.toList, hex 8 p.pos) := splitLast_append _ _ (hex_avoids (by rfl) 8 p.pos)
  have hdigits : parseHex (hex 8 p.pos) = some p.pos := parseHex_hex (by omega)
  unfold parseReplicationOffsetText posToOffsetText
  simp only [String.toList_ofList, List.cons_append, List.nil_append, hsplit, hdigits, if_pos h,
    String.ofList_toList]

/-- A GTID set reads back as the same set. -/
theorem parse_gtidString {U : Type} (codec : GTIDCodec U) (gset : List U) :
    ∃ gset', parseReplicationOffsetText codec (codec.string gset) = .ok (.gtid gset') ∧
      ∀ u, u ∈ gset' ↔ u ∈ gset := by
  obtain ⟨gset', hparse, hmem⟩ := codec.parse_string gset
  refine ⟨gset', ?_, hmem⟩
  unfold parseReplicationOffsetText
  split
  · rename_i rest heq
    exact absurd heq (codec.string_notFilePos gset rest)
  · rw [hparse]

/-! ### Events -/

/-- `ast.ColumnDef`: its name and, unless the statement gives none, its type. -/
structure ColumnDef where
  name : String
  type : Option String
  deriving DecidableEq, Repr

/-- `ast.AlterTableSpec`, as far as it is read. -/
inductive AlterSpec where
  | newColumns (columns : List ColumnDef) (positioned : Bool)
  | dropColumn (name : String)
  | renameColumn (oldName newName : String)
  | other
  deriving DecidableEq, Repr

/-- A parsed statement.  `ROLLBACK TO SAVEPOINT s` is a rollback statement with a
savepoint name. -/
inductive Stmt where
  | alterTable (schema table : String) (specs : List AlterSpec)
  | renameTable
  | commit
  | rollback (savepointName : String)
  | other
  deriving DecidableEq, Repr

inductive DdlKind where
  | alterTable | renameTable | commit | rollback | ignored
  deriving DecidableEq, Repr

def classifyParsedStatement : Stmt → DdlKind
  | .alterTable .. => .alterTable
  | .renameTable => .renameTable
  | .commit => .commit
  | .rollback _ => .rollback
  | .other => .ignored

/-- A column of a TABLE_MAP event with the description its metadata gives, if
the type is known. -/
structure TableMapColumn where
  name : String
  field : Option FieldDescription
  deriving DecidableEq, Repr

structure TableMap where
  schema : String
  table : String
  tableID : ℕ := 0
  /-- absent unless `binlog_row_metadata` is full -/
  columns : Option (List TableMapColumn) := none
  compressed : Bool := false
  deriving DecidableEq, Repr

def TableMap.name (m : TableMap) : String := m.schema ++ "." ++ m.table

inductive RowsType where
  | write | update | delete | v0 | partialUpdate | unsupported
  deriving DecidableEq, Repr

/-- The body of a binlog event.  `gset` is the set the client library attaches:
what was executed up to and including the current transaction. -/
inductive Event (U D : Type) where
  | xid (gset : List U)
  | rotate (nextLogName : String) (position : ℕ)
  | query (gset : List U) (schema : String) (stmts : Option (List Stmt))
  | tableMap (table : TableMap)
  | rows (type : RowsType) (table : TableMap) (rows : List (List D)) (skipped : List (List ℕ))
  | incident (message : String)
  | partialRowData (tableID : Option ℕ) (totalFragments : ℕ)
  | benign

structure BinlogEvent (U D : Type) where
  logPos : ℕ
  timestamp : ℕ := 1
  event : Event U D

/-- One row of a rows event, with the columns its row image leaves out. -/
inductive Change (D : Type) where
  | insert (table : String) (schemaName : String) (timestamp : ℕ) (row : List D)
  | update (table : String) (schemaName : String) (timestamp : ℕ) (old new : List D)
      (skipped : List ℕ)
  | delete (table : String) (schemaName : String) (timestamp : ℕ) (row : List D)
      (skipped : List ℕ)

def Change.table {D : Type} : Change D → String
  | .insert table .. | .update table .. | .delete table .. => table

/-- Rows two by two, with the index of the second. -/
def rowPairs {D : Type} : ℕ → List (List D) → List (List D × List D × ℕ)
  | idx, old :: new :: rows => (old, new, idx + 1) :: rowPairs (idx + 2) rows
  | _, _ => []

/-- The rows of a rows event. -/
def rowChanges {D : Type} (type : RowsType) (m : TableMap) (timestamp : ℕ)
    (rows : List (List D)) (skipped : List (List ℕ)) : List (Change D) :=
  match type with
  | .write => rows.map fun row => .insert m.name m.schema timestamp row
  | .update => (rowPairs 0 rows).map fun r =>
      .update m.name m.schema timestamp r.1 r.2.1 ((skipped[r.2.2]?).getD [])
  | .delete => rows.zipIdx.map fun r =>
      .delete m.name m.schema timestamp r.1 ((skipped[r.2]?).getD [])
  | _ => []

/-! ### The puller -/

/-- What a pull does not change. -/
structure Config (U D V : Type) where
  codec : GTIDCodec U
  tableNameMapping : String → Option NameAndExclude
  tableNameSchemaMapping : String → Option TableSchema
  isMariaDb : Bool := false
  binlogRowMetadataSupported : Bool := true
  sourceSchemaAsDestinationColumn : Bool := false
  /-- `fieldDescriptionFromMysqlColumn` of a column with a type -/
  fieldDescription : ColumnDef → Except String FieldDescription
  /-- `QValueFromMysqlRowEvent` -/
  value : FieldDescription → D → Except String (Option V)
  ofString : String → V
  auditSchemaDelta : TableSchemaDelta → Except String Unit := fun _ => .ok ()

structure PullState (U V : Type) where
  gset : Option (List U)
  pos : Position
  stream : CDCStream V := {}
  schemas : String → Option TableSchema
  updatedOffset : String := ""
  inTx : Bool := false
  overtime : Bool := false
  recordCount : ℕ := 0
  tableIdToName : ℕ → Option String := fun _ => none
  partialRowSkipFragments : ℕ := 0
  saved : List String := []

inductive PullExit (U V : Type) where
  | returned (s : PullState U V)
  | failed (s : PullState U V) (err : String)

section Process

variable {U D V : Type} (cfg : Config U D V)

/-- `req.TableNameMapping[name]`, the zero value when absent. -/
def Config.nameAndExclude (name : String) : NameAndExclude := (cfg.tableNameMapping name).getD {}

/-- Record a new offset. -/
def PullState.setOffset (s : PullState U V) (text : String) : PullState U V :=
  { s with updatedOffset := text, stream := s.stream.updateLatestCheckpointText text }

/-- Record a file position as the new offset. -/
def PullState.moveTo (s : PullState U V) (pos : Position) : PullState U V :=
  { s with pos := pos }.setOffset (posToOffsetText pos)

def advanceCheckpoint (s : PullState U V) (evGSet : List U) (logPos : ℕ) : PullState U V :=
  match s.gset with
  | some _ => { s with gset := some evGSet }.setOffset (cfg.codec.string evGSet)
  | none =>
    if logPos > s.pos.pos then s.moveTo { s.pos with pos := logPos } else s

def addRecord (s : PullState U V) (rec : Record V) : PullState U V :=
  let stream := s.stream.addRecord rec
  { s with
    recordCount := s.recordCount + 1
    stream := if s.recordCount = 0 then stream.signalAsNotEmpty else stream }

/-- The columns of one ALTER TABLE clause: the added descriptions so far, and
whether column positions shift. -/
def alterSpec (acc : List FieldDescription × Bool) (spec : AlterSpec) :
    Except String (List FieldDescription × Bool) :=
  match spec with
  | .newColumns columns positioned =>
    columns.foldlM (fun acc col =>
      match col.type with
      | none => .ok acc
      | some _ => do
        let fd ← cfg.fieldDescription col
        return (acc.1 ++ [fd], acc.2 || positioned)) acc
  | .dropColumn _ => .ok (acc.1, true)
  | _ => .ok acc

/-- The source table of an ALTER TABLE; without a schema name, the schema attached
to the event. -/
def alterSource (schema table stmtSchema : String) : String :=
  (if schema ≠ "" then schema else stmtSchema) ++ "." ++ table

def PullState.addColumns (s : PullState U V) (sourceTableName destinationTableName : String)
    (current : TableSchema) (added : List FieldDescription) : PullState U V :=
  { s with
    stream := s.stream.addSchemaDelta
      ⟨sourceTableName, destinationTableName, added, .q, current.nullableEnabled⟩
    schemas := fun name =>
      if name = destinationTableName then
        some { current with columns := current.columns ++ added }
      else s.schemas name }

def processAlterTableQuery (s : PullState U V) (schema table : String) (specs : List AlterSpec)
    (stmtSchema : String) : Except String (PullState U V) :=
  let sourceTableName := alterSource schema table stmtSchema
  let destinationTableName := (cfg.nameAndExclude sourceTableName).name
  if destinationTableName = "" then .ok s
  else do
    let (added, shifting) ← specs.foldlM (alterSpec cfg) ([], false)
    if shifting && !cfg.binlogRowMetadataSupported then
      .error s!"unsupported position-shifting DDL on {sourceTableName}"
    else if added = [] then .ok s
    else
      match s.schemas destinationTableName with
      -- the columns are appended to a nil schema
      | none => .error s!"nil table schema for {destinationTableName}"
      | some current => do
        cfg.auditSchemaDelta
          ⟨sourceTableName, destinationTableName, added, .q, current.nullableEnabled⟩
        return s.addColumns sourceTableName destinationTableName current added

/-- One statement of a query event. -/
def processStmt (gset : List U) (logPos : ℕ) (stmtSchema : String) (s : PullState U V)
    (stmt : Stmt) : Except String (PullState U V) :=
  match classifyParsedStatement stmt, stmt with
  | .alterTable, .alterTable schema table specs =>
    (processAlterTableQuery cfg s schema table specs stmtSchema).mapError
      fun e => s!"failed to process ALTER TABLE query: {e}"
  | .commit, _ => .ok { advanceCheckpoint cfg s gset logPos with inTx := false }
  | .rollback, _ => .ok { advanceCheckpoint cfg s gset logPos with inTx := false }
  -- a rename is only counted
  | _, _ => .ok s

/-- Outside a transaction a query event moves the file position. -/
def queryOffset (s : PullState U V) (logPos : ℕ) : PullState U V :=
  if !s.inTx && s.gset.isNone && decide (logPos > s.pos.pos) then
    s.moveTo { s.pos with pos := logPos }
  else s

/-- The query case of `processEvent`. -/
def processQuery (s : PullState U V) (logPos : ℕ) (gset : List U) (schema : String)
    (stmts : Option (List Stmt)) : Except String (PullState U V) :=
  match stmts with
  -- a statement that does not parse is logged and skipped
  | none => .ok (queryOffset s logPos)
  | some stmts => stmts.foldlM (processStmt cfg gset logPos schema) (queryOffset s logPos)

/-- The columns of a TABLE_MAP event by index, and the descriptions that are
new. -/
def tableMapFields (columns : List TableMapColumn) (existing : List FieldDescription)
    (exclude : List String) : List (Option FieldDescription) × List FieldDescription :=
  let fields := columns.map fun col =>
    if col.name ∈ exclude then none
    else (existing.find? fun fd => fd.name == col.name).or col.field
  let added := (columns.filter fun col =>
    !(exclude.contains col.name) && !(existing.any fun fd => fd.name == col.name)).filterMap
      TableMapColumn.field
  (fields, added)

def processTableMapEventSchema (s : PullState U V) (columns : List TableMapColumn)
    (sourceTableName : String) (dst : NameAndExclude) (schema : TableSchema) :
    Except String (PullState U V × List (Option FieldDescription)) :=
  let (fields, added) := tableMapFields columns schema.columns dst.exclude
  if added = [] then .ok (s, fields)
  else do
    cfg.auditSchemaDelta ⟨sourceTableName, dst.name, added, .q, schema.nullableEnabled⟩
    return (s.addColumns sourceTableName dst.name schema added, fields)

/-- The items of a row image; an index without a description is left out. -/
def rowItems (getFd : ℕ → Option FieldDescription) (row : List D) : Except String (Items V) :=
  row.zipIdx.foldlM (fun items val =>
    match getFd val.2 with
    | none => .ok items
    | some fd => do
      let v ← cfg.value fd val.1
      return items.addColumn fd.name v) Items.empty

def withSourceSchema (schemaName : String) (items : Items V) : Items V :=
  if cfg.sourceSchemaAsDestinationColumn then
    items.addColumn "_peerdb_source_schema" (some (cfg.ofString schemaName))
  else items

def skippedNames (schema : TableSchema) (skipped : List ℕ) : Except String (List String) :=
  skipped.mapM fun idx =>
    match schema.columns[idx]? with
    | some fd => .ok fd.name
    | none => .error "index out of range"

/-- The record of one row. -/
def changeRecord (schema : TableSchema) (getFd : ℕ → Option FieldDescription)
    (change : Change D) : Except String (Record V) :=
  match change with
  | .insert table schemaName timestamp row => do
    let items ← rowItems cfg getFd row
    return .insert ⟨0, timestamp * 1000000000, 0⟩ (withSourceSchema cfg schemaName items) table
      (cfg.nameAndExclude table).name
  | .update table schemaName timestamp old new skipped => do
    let unchanged ← skippedNames schema skipped
    let oldItems ← rowItems cfg getFd old
    let newItems ← rowItems cfg getFd new
    return .update ⟨0, timestamp * 1000000000, 0⟩ oldItems
      (withSourceSchema cfg schemaName newItems) unchanged table (cfg.nameAndExclude table).name
  | .delete table schemaName timestamp row skipped => do
    let unchanged ← skippedNames schema skipped
    let items ← rowItems cfg getFd row
    return .delete ⟨0, timestamp * 1000000000, 0⟩ (withSourceSchema cfg schemaName items) unchanged
      table (cfg.nameAndExclude table).name

/-- Add the record of one row. -/
def addChange (schema : TableSchema) (getFd : ℕ → Option FieldDescription)
    (s : PullState U V) (change : Change D) : Except String (PullState U V) := do
  let rec ← changeRecord cfg schema getFd change
  return addRecord s rec

/-- `getFd`: the description of a column by its index, from the TABLE_MAP event
if it has names, else from the known columns. -/
def rowFields (s : PullState U V) (m : TableMap) (dst : NameAndExclude) (schema : TableSchema) :
    Except String (PullState U V × (ℕ → Option FieldDescription)) :=
  match m.columns with
  | some columns =>
    (processTableMapEventSchema cfg s columns m.name dst schema).map fun r =>
      (r.1, fun idx => (r.2[idx]?).join)
  | none => .ok (s, fun idx => schema.columns[idx]?)

/-- The switch over the type of a rows event. -/
def emitRows (schema : TableSchema) (timestamp : ℕ) (type : RowsType) (m : TableMap)
    (rows : List (List D)) (skipped : List (List ℕ))
    (sf : PullState U V × (ℕ → Option FieldDescription)) : Except String (PullState U V) :=
  match type with
  | .v0 => .error "mysql v0 replication protocol not supported"
  | .partialUpdate => .error s!"unsupported binlog row value options for {m.table}"
  | .update =>
    if rows.length % 2 = 0 then
      (rowChanges type m timestamp rows skipped).foldlM (addChange cfg schema sf.2) sf.1
    else .error "index out of range"
  | _ => (rowChanges type m timestamp rows skipped).foldlM (addChange cfg schema sf.2) sf.1

/-- The rows case of `processEvent`. -/
def processRows (s : PullState U V) (timestamp : ℕ) (type : RowsType) (m : TableMap)
    (rows : List (List D)) (skipped : List (List ℕ)) : Except String (PullState U V) :=
  let dst := cfg.nameAndExclude m.name
  match s.schemas dst.name with
  | none => .ok s
  | some schema =>
    if cfg.isMariaDb && m.compressed then
      .error s!"unsupported compressed columns in {m.table}"
    else if cfg.binlogRowMetadataSupported && m.columns.isNone then
      .error s!"unsupported binlog row metadata for {m.table}"
    else
      rowFields cfg { s with inTx := true } m dst schema >>=
        emitRows cfg schema timestamp type m rows skipped

def processEvent (s : PullState U V) (ev : BinlogEvent U D) : Except String (PullState U V) :=
  match ev.event with
  | .xid gset => .ok { advanceCheckpoint cfg s gset ev.logPos with inTx := false }
  | .rotate nextLogName position =>
    if s.gset.isNone && (decide (ev.timestamp ≠ 0) || decide (nextLogName ≠ s.pos.name)) then
      .ok (s.moveTo ⟨nextLogName, position⟩)
    else .ok s
  | .query gset schema stmts => processQuery cfg s ev.logPos gset schema stmts
  | .tableMap m =>
    .ok { s with tableIdToName := fun id => if id = m.tableID then some m.name
                                            else s.tableIdToName id }
  | .rows type m rows skipped => processRows cfg s ev.timestamp type m rows skipped
  | .incident message => .error s!"binlog incident: {message}"
  | .partialRowData tableID totalFragments =>
    if s.partialRowSkipFragments > 0 then
      .ok { s with partialRowSkipFragments := s.partialRowSkipFragments - 1 }
    else
      match tableID.bind s.tableIdToName with
      | none => .error "unresolvable partial row data event"
      | some name =>
        match s.schemas (cfg.nameAndExclude name).name with
        | none =>
          .ok (if totalFragments > 1 then
            { s with partialRowSkipFragments := totalFragments - 1 } else s)
        | some _ => .error s!"unsupported partial row data event for {name}"
  | .benign => .ok s

end Process

/-! ### What one event can do -/

section Spec

variable {U D V : Type} {cfg : Config U D V}

/-- Which tables have a schema never changes during a pull, nor does anything of a
schema but its columns. -/
def SameTables (s s' : PullState U V) : Prop :=
  ∀ name, (s'.schemas name).map TableSchema.nullableEnabled =
    (s.schemas name).map TableSchema.nullableEnabled

/-- The tables of a pull are those of the request. -/
def KnowsTables (cfg : Config U D V) (s : PullState U V) : Prop :=
  ∀ name, (s.schemas name).map TableSchema.nullableEnabled =
    (cfg.tableNameSchemaMapping name).map TableSchema.nullableEnabled

variable {s s' s'' : PullState U V}

theorem KnowsTables.isSome (h : KnowsTables cfg s) (name : String) :
    (s.schemas name).isSome = (cfg.tableNameSchemaMapping name).isSome := by
  have hmap := congrArg Option.isSome (h name)
  rwa [Option.isSome_map, Option.isSome_map] at hmap

theorem KnowsTables.step (h : KnowsTables cfg s) (hsame : SameTables s s') :
    KnowsTables cfg s' := fun name => (hsame name).trans (h name)

/-- The offset a pull would resume from, and what it has persisted, are
unchanged. -/
structure SameOffset (s s' : PullState U V) : Prop where
  gset : s'.gset = s.gset
  pos : s'.pos = s.pos
  updatedOffset : s'.updatedOffset = s.updatedOffset
  checkpoint : s'.stream.lastCheckpointText = s.stream.lastCheckpointText
  saved : s'.saved = s.saved

/-- No row was read. -/
structure SameRows (s s' : PullState U V) : Prop where
  records : s'.stream.records = s.stream.records
  recordCount : s'.recordCount = s.recordCount
  tables : SameTables s s'
  deltas : s.stream.schemaDeltas ⊆ s'.stream.schemaDeltas
  overtime : s'.overtime = s.overtime
  saved : s'.saved = s.saved

theorem SameOffset.refl (s : PullState U V) : SameOffset s s := ⟨rfl, rfl, rfl, rfl, rfl⟩

theorem SameOffset.trans (h : SameOffset s s') (h' : SameOffset s' s'') : SameOffset s s'' :=
  ⟨h'.gset.trans h.gset, h'.pos.trans h.pos, h'.updatedOffset.trans h.updatedOffset,
    h'.checkpoint.trans h.checkpoint, h'.saved.trans h.saved⟩

theorem SameRows.refl (s : PullState U V) : SameRows s s :=
  ⟨rfl, rfl, fun _ => rfl, List.Subset.refl _, rfl, rfl⟩

theorem SameRows.trans (h : SameRows s s') (h' : SameRows s' s'') :
    SameRows s s'' :=
  ⟨h'.records.trans h.records, h'.recordCount.trans h.recordCount,
    fun name => (h'.tables name).trans (h.tables name),
    List.Subset.trans h.deltas h'.deltas, h'.overtime.trans h.overtime,
    h'.saved.trans h.saved⟩

/-- Only rows events and group ends change `inTx`. -/
structure Still (s s' : PullState U V) : Prop where
  offset : SameOffset s s'
  rows : SameRows s s'
  inTx : s'.inTx = s.inTx

theorem Still.refl (s : PullState U V) : Still s s := ⟨SameOffset.refl s, SameRows.refl s, rfl⟩

theorem Still.trans (h : Still s s') (h' : Still s' s'') :
    Still s s'' :=
  ⟨h.offset.trans h'.offset, h.rows.trans h'.rows, h'.inTx.trans h.inTx⟩

theorem addColumns_still {source destination : String} {current : TableSchema}
    {added : List FieldDescription} (h : s.schemas destination = some current) :
    Still s (s.addColumns source destination current added) := by
  refine ⟨⟨rfl, rfl, rfl, rfl, rfl⟩, ⟨rfl, rfl, fun name => ?_, ?_, rfl, rfl⟩, rfl⟩
  · by_cases hname : name = destination
    · simp [PullState.addColumns, hname, h]
    · simp [PullState.addColumns, hname]
  · exact List.subset_append_left _ _

theorem processAlterTableQuery_cases {schema table stmtSchema : String} {specs : List AlterSpec}
    (h : processAlterTableQuery cfg s schema table specs stmtSchema = .ok s') :
    (s' = s ∧ ((cfg.nameAndExclude (alterSource schema table stmtSchema)).name = "" ∨
      ∃ shifting, specs.foldlM (alterSpec cfg) ([], false) = .ok ([], shifting) ∧
        (shifting = true → cfg.binlogRowMetadataSupported = true))) ∨
    ∃ added shifting current, specs.foldlM (alterSpec cfg) ([], false) = .ok (added, shifting) ∧
      (shifting = true → cfg.binlogRowMetadataSupported = true) ∧
      s.schemas (cfg.nameAndExclude (alterSource schema table stmtSchema)).name = some current ∧
      s' = s.addColumns (alterSource schema table stmtSchema)
        (cfg.nameAndExclude (alterSource schema table stmtSchema)).name current added := by
  unfold processAlterTableQuery at h
  simp only at h
  split at h
  case isTrue hunmapped =>
    cases h
    exact Or.inl ⟨rfl, Or.inl hunmapped⟩
  case isFalse =>
    obtain ⟨⟨added, shifting⟩, hspecs, h⟩ := bind_eq_ok h
    simp only at h
    split at h
    · cases h
    · rename_i hplaced
      have hmetadata : shifting = true → cfg.binlogRowMetadataSupported = true := by
        simpa using hplaced
      split at h
      case isTrue hnone =>
        cases h
        exact Or.inl ⟨rfl, Or.inr ⟨shifting, hnone ▸ hspecs, hmetadata⟩⟩
      case isFalse =>
        split at h
        · cases h
        · rename_i current hcurrent
          obtain ⟨-, -, h⟩ := bind_eq_ok h
          cases h
          exact Or.inr ⟨added, shifting, current, hspecs, hmetadata, hcurrent, rfl⟩

theorem processAlterTableQuery_ok {schema table stmtSchema : String} {specs : List AlterSpec}
    (h : processAlterTableQuery cfg s schema table specs stmtSchema = .ok s') : Still s s' := by
  rcases processAlterTableQuery_cases h with
    ⟨rfl, -⟩ | ⟨added, shifting, current, -, -, hcurrent, rfl⟩
  · exact Still.refl s'
  · exact addColumns_still hcurrent

/-- A statement that neither commits nor rolls back. -/
def Stmt.quiet (stmt : Stmt) : Bool :=
  match classifyParsedStatement stmt with
  | .commit | .rollback => false
  | _ => true

theorem processStmt_quiet {gset : List U} {logPos : ℕ} {stmtSchema : String} {stmt : Stmt}
    (hquiet : stmt.quiet = true) (h : processStmt cfg gset logPos stmtSchema s stmt = .ok s') :
    Still s s' := by
  cases stmt with
  | alterTable schema table specs => exact processAlterTableQuery_ok (mapError_eq_ok h)
  | renameTable | other =>
    cases h
    exact Still.refl s
  | commit | rollback => cases hquiet

theorem processStmts_quiet {gset : List U} {logPos : ℕ} {stmtSchema : String} {stmts : List Stmt}
    (hquiet : ∀ stmt ∈ stmts, stmt.quiet = true)
    (h : stmts.foldlM (processStmt cfg gset logPos stmtSchema) s = .ok s') : Still s s' := by
  refine foldlM_history (fun pre s₁ => (∀ stmt ∈ pre, stmt.quiet = true) → Still s s₁)
    (fun _ => Still.refl s) ?_ h hquiet
  intro pre stmt s₁ s₂ ih hstep hall
  have hpre : Still s s₁ := ih fun x hx => hall x (List.mem_append_left _ hx)
  exact hpre.trans (processStmt_quiet (hall stmt (by simp)) hstep)

variable {schema : TableSchema}

theorem processTableMapEventSchema_ok {columns : List TableMapColumn} {sourceTableName : String}
    {dst : NameAndExclude} {fields : List (Option FieldDescription)}
    (hschema : s.schemas dst.name = some schema)
    (h : processTableMapEventSchema cfg s columns sourceTableName dst schema = .ok (s', fields)) :
    Still s s' := by
  unfold processTableMapEventSchema at h
  simp only at h
  split at h
  · cases h
    exact Still.refl s
  · obtain ⟨_, -, h⟩ := bind_eq_ok h
    cases h
    exact addColumns_still hschema

/-- The record of a row in a state: with the schema that the state has for the table, and the
columns of a TABLE_MAP event. -/
def RecordIn (cfg : Config U D V) (s : PullState U V) (change : Change D) (rec : Record V) : Prop :=
  ∃ m schema s' getFd, m.name = change.table ∧
    s.schemas (cfg.nameAndExclude m.name).name = some schema ∧
    rowFields cfg { s with inTx := true } m (cfg.nameAndExclude m.name) schema = .ok (s', getFd) ∧
    changeRecord cfg schema getFd change = .ok rec

/-- The records of some rows were added, in order; nothing else changed. -/
structure AddsRows (isRecord : Change D → Record V → Prop) (changes : List (Change D))
    (s s' : PullState U V) : Prop where
  offset : SameOffset s s'
  inTx : s'.inTx = s.inTx
  overtime : s'.overtime = s.overtime
  tables : SameTables s s'
  deltas : s.stream.schemaDeltas ⊆ s'.stream.schemaDeltas
  records : ∃ recs, List.Forall₂ isRecord changes recs ∧
    s'.stream.records = s.stream.records ++ recs
  recordCount : s'.recordCount = s.recordCount + changes.length

theorem addRecord_records (s : PullState U V) (rec : Record V) :
    (addRecord s rec).stream.records = s.stream.records ++ [rec] := by
  unfold addRecord
  simp only
  split <;> rfl

theorem addRecord_deltas (s : PullState U V) (rec : Record V) :
    (addRecord s rec).stream.schemaDeltas = s.stream.schemaDeltas := by
  unfold addRecord
  simp only
  split <;> rfl

theorem addRecord_offset (s : PullState U V) (rec : Record V) : SameOffset s (addRecord s rec) := by
  refine ⟨rfl, rfl, rfl, ?_, rfl⟩
  unfold addRecord
  simp only
  split <;> rfl

variable {getFd : ℕ → Option FieldDescription}

theorem addChanges_ok {changes : List (Change D)}
    (h : changes.foldlM (addChange cfg schema getFd) s = .ok s') :
    AddsRows (fun change rec => changeRecord cfg schema getFd change = .ok rec) changes s s' := by
  refine foldlM_history (fun pre s₁ => AddsRows _ pre s s₁) ?_ ?_ h
  · exact ⟨SameOffset.refl s, rfl, rfl, fun _ => rfl, List.Subset.refl _,
      ⟨[], List.Forall₂.nil, by simp⟩, by simp⟩
  · intro pre change s₁ s₂ ih hstep
    obtain ⟨rec, hrec, hadd⟩ := bind_eq_ok hstep
    cases hadd
    obtain ⟨recs, hrecs, hstream⟩ := ih.records
    refine ⟨ih.offset.trans (addRecord_offset s₁ rec), ih.inTx, ih.overtime, ih.tables,
      by rw [addRecord_deltas]; exact ih.deltas, ⟨recs ++ [rec], ?_, ?_⟩, ?_⟩
    · exact List.rel_append hrecs (List.Forall₂.cons hrec List.Forall₂.nil)
    · rw [addRecord_records, hstream, List.append_assoc]
    · show s₁.recordCount + 1 = _
      rw [ih.recordCount, List.length_append]
      rfl

theorem rowFields_ok {m : TableMap} {dst : NameAndExclude}
    (hschema : s.schemas dst.name = some schema)
    (h : rowFields cfg s m dst schema = .ok (s', getFd)) : Still s s' := by
  unfold rowFields at h
  split at h
  · rename_i columns _
    cases htm : processTableMapEventSchema cfg s columns m.name dst schema with
    | error e =>
      rw [htm] at h
      cases h
    | ok r =>
      obtain ⟨s₁, fields⟩ := r
      rw [htm] at h
      cases h
      exact processTableMapEventSchema_ok hschema htm
  · cases h
    exact Still.refl s

theorem emitRows_ok {timestamp : ℕ} {type : RowsType} {m : TableMap} {rows : List (List D)}
    {skipped : List (List ℕ)}
    (h : emitRows cfg schema timestamp type m rows skipped (s, getFd) = .ok s') :
    AddsRows (fun change rec => changeRecord cfg schema getFd change = .ok rec)
      (rowChanges type m timestamp rows skipped) s s' := by
  unfold emitRows at h
  split at h
  · cases h
  · cases h
  · split at h
    · exact addChanges_ok h
    · cases h
  · exact addChanges_ok h

theorem rowChanges_table {timestamp : ℕ} {type : RowsType} {m : TableMap} {rows : List (List D)}
    {skipped : List (List ℕ)} :
    ∀ change ∈ rowChanges type m timestamp rows skipped, m.name = change.table := by
  unfold rowChanges
  split
  case h_4 => exact List.forall_mem_nil _
  all_goals exact List.forall_mem_map.mpr fun _ _ => rfl

/-- **The rows case**: a table without a schema is skipped; otherwise a record is
added for each row, and the group is open. -/
theorem processRows_ok {timestamp : ℕ} {type : RowsType} {m : TableMap} {rows : List (List D)}
    {skipped : List (List ℕ)} (h : processRows cfg s timestamp type m rows skipped = .ok s') :
    ((s.schemas (cfg.nameAndExclude m.name).name = none) ∧ s' = s) ∨
    ((s.schemas (cfg.nameAndExclude m.name).name).isSome = true ∧ s'.inTx = true ∧
      ∃ s₁, s₁.inTx = true ∧ SameOffset s s₁ ∧ SameRows s s₁ ∧
        AddsRows (RecordIn cfg s) (rowChanges type m timestamp rows skipped) s₁ s') := by
  unfold processRows at h
  cases hschema : s.schemas (cfg.nameAndExclude m.name).name with
  | none =>
    simp only [hschema, Except.ok.injEq] at h
    exact Or.inl ⟨rfl, h.symm⟩
  | some schema =>
    right
    simp only [hschema] at h
    split at h
    · cases h
    · split at h
      · cases h
      · obtain ⟨⟨s₁, getFd⟩, hfields, h⟩ := bind_eq_ok h
        -- the columns of the TABLE_MAP event may add a schema delta first
        have hstill : Still { s with inTx := true } s₁ := rowFields_ok hschema hfields
        have hadds := emitRows_ok h
        obtain ⟨recs, hrecs, hstream⟩ := hadds.records
        have hall := (List.forall₂_and_left _ _).mpr ⟨rowChanges_table, hrecs⟩
        have hin : s₁.inTx = true := hstill.inTx
        refine ⟨rfl, hadds.inTx.trans hin, s₁, hin, ?_, ?_, { hadds with records :=
          ⟨recs, hall.imp fun _ _ hc => ⟨m, schema, s₁, getFd, hc.1, hschema, hfields, hc.2⟩,
            hstream⟩ }⟩
        · exact ⟨hstill.offset.gset, hstill.offset.pos, hstill.offset.updatedOffset,
            hstill.offset.checkpoint, hstill.offset.saved⟩
        · exact ⟨hstill.rows.records, hstill.rows.recordCount, hstill.rows.tables,
            hstill.rows.deltas, hstill.rows.overtime, hstill.rows.saved⟩

theorem partialRowData_still {logPos timestamp total : ℕ} {tableID : Option ℕ}
    (h : processEvent cfg s ⟨logPos, timestamp, .partialRowData tableID total⟩ = .ok s') :
    Still s s' := by
  simp only [processEvent] at h
  split at h
  · cases h
    exact ⟨⟨rfl, rfl, rfl, rfl, rfl⟩,
      ⟨rfl, rfl, fun _ => rfl, List.Subset.refl _, rfl, rfl⟩, rfl⟩
  · split at h
    · cases h
    · split at h
      · cases h
        split
        · exact ⟨⟨rfl, rfl, rfl, rfl, rfl⟩,
            ⟨rfl, rfl, fun _ => rfl, List.Subset.refl _, rfl, rfl⟩, rfl⟩
        · exact Still.refl s
      · cases h

/-- The checkpoint of a group end, by the mode of replication. -/
theorem advanceCheckpoint_cases (cfg : Config U D V) (s : PullState U V) (gset : List U)
    (logPos : ℕ) :
    (s.gset.isSome = true ∧ advanceCheckpoint cfg s gset logPos =
      { s with gset := some gset }.setOffset (cfg.codec.string gset)) ∨
    (s.gset = none ∧ s.pos.pos < logPos ∧
      advanceCheckpoint cfg s gset logPos = s.moveTo { s.pos with pos := logPos }) ∨
    (s.gset = none ∧ ¬ s.pos.pos < logPos ∧ advanceCheckpoint cfg s gset logPos = s) := by
  unfold advanceCheckpoint
  cases hgset : s.gset with
  | some g => exact Or.inl ⟨rfl, rfl⟩
  | none =>
    right
    by_cases hpos : s.pos.pos < logPos
    · exact Or.inl ⟨rfl, hpos, if_pos hpos⟩
    · exact Or.inr ⟨rfl, hpos, if_neg hpos⟩

theorem advanceCheckpoint_sameRows (cfg : Config U D V) (s : PullState U V) (gset : List U)
    (logPos : ℕ) : SameRows s (advanceCheckpoint cfg s gset logPos) := by
  rcases advanceCheckpoint_cases cfg s gset logPos with
    ⟨-, heq⟩ | ⟨-, -, heq⟩ | ⟨-, -, heq⟩
  · rw [heq]
    exact ⟨rfl, rfl, fun _ => rfl, List.Subset.refl _, rfl, rfl⟩
  · rw [heq]
    exact ⟨rfl, rfl, fun _ => rfl, List.Subset.refl _, rfl, rfl⟩
  · rw [heq]
    exact SameRows.refl s

theorem advanceCheckpoint_gset (cfg : Config U D V) (s : PullState U V) (gset : List U)
    (logPos : ℕ) : (advanceCheckpoint cfg s gset logPos).gset.isSome = s.gset.isSome := by
  rcases advanceCheckpoint_cases cfg s gset logPos with
    ⟨hsome, heq⟩ | ⟨-, -, heq⟩ | ⟨-, -, heq⟩
  · rw [heq, hsome]
    rfl
  · rw [heq]
    rfl
  · rw [heq]

end Spec

/-! ### The main loop -/

/-- What one iteration gets: events, an expired timeout (with whether the
connection is stale and whether the catalog can be written), or an error. -/
inductive Turn (U D : Type) where
  | events (evs : List (BinlogEvent U D))
  | deadline (stale saveOk : Bool)
  | cancelled
  | failed (err : String)

section Loop

variable {U D V : Type} (cfg : Config U D V) (maxBatchSize : ℕ)

/-- The condition of the loop. -/
def PullState.continues (s : PullState U V) : Bool :=
  s.inTx || (!s.overtime && decide (s.recordCount < maxBatchSize))

/-- `DeadlineExceeded`. -/
def onDeadline (s : PullState U V) (stale saveOk : Bool) :
    Flow (PullExit U V) (PullState U V) :=
  if s.recordCount = 0 ∨ s.inTx then
    if stale then .leave (.failed s "stale connection")
    else if s.recordCount = 0 then
      -- progress the offset while nothing was read; a failure to save is ignored
      if s.updatedOffset ≠ "" ∧ saveOk then
        .next { s with saved := s.saved ++ [s.updatedOffset], updatedOffset := "" }
      else .next s
    else .next { s with overtime := true }
  else .leave (.returned s)

def pullTurn (s : PullState U V) (t : Turn U D) : Flow (PullExit U V) (PullState U V) :=
  if s.continues maxBatchSize then
    match t with
    | .events evs =>
      match evs.foldlM (processEvent cfg) s with
      | .ok s' => .next s'
      | .error e => .leave (.failed s e)
    | .deadline stale saveOk => onDeadline s stale saveOk
    | .cancelled => .leave (.failed s "context canceled")
    | .failed e => .leave (.failed s e)
  else .leave (.returned s)

/-- The state `startStreaming` leaves behind for a parsed offset. -/
def PullState.start : ReplicationOffset U → PullState U V
  | .filePos pos => { gset := none, pos := pos, schemas := cfg.tableNameSchemaMapping }
  | .gtid gset => { gset := some gset, pos := {}, schemas := cfg.tableNameSchemaMapping }

/-- The states of the runs of `PullRecords`. -/
inductive Reached : PullState U V → Prop
  | start (offset : ReplicationOffset U) : Reached (.start cfg offset)
  | event {s s' : PullState U V} {ev : BinlogEvent U D} (h : Reached s)
      (step : processEvent cfg s ev = .ok s') : Reached s'
  | deadline {s s' : PullState U V} {stale saveOk : Bool} (h : Reached s)
      (step : onDeadline s stale saveOk = .next s') : Reached s'

/-- A record that stands for a row: a run has made it of the row, in one of its states. -/
def Represents (change : Change D) (rec : Record V) : Prop :=
  ∃ s, Reached cfg s ∧ RecordIn cfg s change rec

/-- `PullRecords` from an offset text, on the turns it takes. -/
def pullRecords (lastOffset : String) (turns : List (Turn U D)) :
    Except String (Flow (PullExit U V) (PullState U V)) := do
  let offset ← parseReplicationOffsetText cfg.codec lastOffset
  return iterate (pullTurn cfg maxBatchSize) (PullState.start cfg offset) turns

end Loop

end MySQL
