/-
Decoding of logical replication messages (`connectors/postgres/cdc.go`).

`processMessage` turns one pgoutput message into at most one record.  What it
keeps between messages is `SourceState` (the open transaction, the relation
messages seen, the partition-to-parent map); what it asks of the outside is in
`CDCConfig`: the table mappings of the mirror, the value decoder of the type
system (`ReplProcessor`), and the catalog lookups.

The catalog is read as one snapshot: `inhParent` is `pg_inherits` restricted to
the parents' relkinds, with one parent per relation, as for partitions.
-/
import PeerDB.Lib.Loop
import PeerDB.Model.Record

open Loop

/-- A WAL position.  Positions stay below `2 ^ 63`, where `int64(lsn)` is the
same number. -/
abbrev LSN := ℕ

/-- `pglogrepl.TupleDataColumn`, by its data type byte. -/
inductive TupleDataColumn (D : Type) where
  | null
  | text (data : D)
  | binary (data : D)
  | unchanged
  | other (dataType : Char)

abbrev TupleData (D : Type) := List (TupleDataColumn D)

/-- `pglogrepl.RelationMessageColumn`. -/
structure RelationColumn where
  name : String
  dataType : ℕ := 25
  typeModifier : ℤ := -1
  deriving DecidableEq, Repr

structure RelationMessage where
  relationID : ℕ
  columns : List RelationColumn
  deriving DecidableEq, Repr

structure BeginMessage where
  finalLSN : LSN
  commitTime : ℤ := 0
  xid : ℕ := 0
  deriving DecidableEq, Repr

/-- The three messages that change a row. -/
inductive RowChange (D : Type) where
  | insert (relationID : ℕ) (tuple : TupleData D)
  | update (relationID : ℕ) (oldTuple : Option (TupleData D)) (newTuple : TupleData D)
  | delete (relationID : ℕ) (oldTuple : TupleData D)

def RowChange.relationID {D : Type} : RowChange D → ℕ
  | .insert relID _ => relID
  | .update relID _ _ => relID
  | .delete relID _ => relID

def RowChange.kind {D : Type} : RowChange D → RecordKind
  | .insert .. => .insert
  | .update .. => .update
  | .delete .. => .delete

/-- The result of `pglogrepl.Parse`. -/
inductive LogicalMsg (D : Type) where
  | begin (msg : BeginMessage)
  | row (change : RowChange D)
  | commit (commitLSN transactionEndLSN : LSN)
  | relation (msg : RelationMessage)
  | message (transactional : Bool) (lsn : LSN) (pfx content : String)
  | unhandled
  | unparsable

/-- `replProcessor`: how a tuple column and the added columns become values. -/
structure ReplProcessor (D V : Type) where
  process : RelationColumn → TupleDataColumn D → Except String (Option V)
  ofString : String → V
  originColumns : BaseRecord → List (String × V)

/-- `pgProcessor`: text is passed on as it is. -/
def pgProcessor : ReplProcessor String String where
  process col tuple :=
    match tuple with
    | .null => .ok none
    | .text data => .ok (some data)
    | .binary _ =>
      .error s!"binary encoding not supported, received for {col.name} type {col.dataType}"
    | .unchanged => .error s!"unknown column data type for column {col.name}: u"
    | .other c => .error s!"unknown column data type for column {col.name}: {c}"
  ofString := id
  originColumns base :=
    [("_peerdb_origin_transaction_id", toString base.transactionID),
     ("_peerdb_origin_checkpoint_id", toString base.checkpointID),
     ("_peerdb_origin_commit_time_nano", toString base.commitTimeNano)]

def parseTableIdentifier (tableIdentifier : String) : Except String (String × String) :=
  let ns := tableIdentifier.toList.takeWhile (· != '.')
  match tableIdentifier.toList.dropWhile (· != '.') with
  | _ :: table =>
    if ns = [] ∨ table = [] ∨ '.' ∈ table then
      .error s!"invalid table name: {tableIdentifier}"
    else .ok (String.ofList ns, String.ofList table)
  | [] => .error s!"invalid table name: {tableIdentifier}"

/-- What a `PostgresCDCSource` does not change while it pulls. -/
structure CDCConfig (D V H : Type) where
  proc : ReplProcessor D V
  codec : KeyCodec V H
  srcTableIDNameMapping : ℕ → Option String
  tableNameMapping : String → Option NameAndExclude
  tableNameSchemaMapping : String → Option TableSchema
  inhParent : ℕ → Option ℕ := fun _ => none
  idToRelKindMap : ℕ → Option Char := fun _ => none
  publishViaPartitionRoot : Bool := false
  sourceSchemaAsDestinationColumn : Bool := false
  originMetadataAsDestinationColumn : Bool := false
  /-- Type name, nullability and default of an added column, from `pg_catalog`. -/
  describeAdded : RelationColumn → Except String FieldDescription :=
    fun col => .ok { name := col.name, type := "text" }
  /-- Whether `AuditSchemaDelta` could be written. -/
  auditSchemaDelta : TableSchemaDelta → Except String Unit := fun _ => .ok ()

/-- What a `PostgresCDCSource` carries from message to message. -/
structure SourceState where
  relationMessageMapping : ℕ → Option RelationMessage
  childToParentRelIDMapping : ℕ → Option ℕ
  commitLock : Option BeginMessage

namespace CDCConfig

variable {D V H : Type} (cfg : CDCConfig D V H)

/-- `getChildToParentRelIDMap`: the children of the mirrored parents. -/
def getChildToParentRelIDMap (relID : ℕ) : Option ℕ :=
  (cfg.inhParent relID).filter fun parent => (cfg.srcTableIDNameMapping parent).isSome

/-- `NewPostgresCDCSource`; the relation messages are kept by the connector. -/
def newSource (relationMessageMapping : ℕ → Option RelationMessage) : SourceState where
  relationMessageMapping := relationMessageMapping
  childToParentRelIDMapping := cfg.getChildToParentRelIDMap
  commitLock := none

/-- `tableNameMapping[name]`, the zero value when absent. -/
def nameAndExclude (name : String) : NameAndExclude := (cfg.tableNameMapping name).getD {}

end CDCConfig

def getParentRelIDIfPartitioned (children : ℕ → Option ℕ) (relID : ℕ) : ℕ :=
  (children relID).getD relID

/-- The mirrored table a relation id stands for, given the partition map. -/
def CDCConfig.mirroredTable {D V H : Type} (cfg : CDCConfig D V H) (children : ℕ → Option ℕ)
    (relID : ℕ) : Option String :=
  cfg.srcTableIDNameMapping (getParentRelIDIfPartitioned children relID)

/-- `baseRecord`: the commit time and the transaction id come from the open
transaction. -/
def baseRecord (commitLock : Option BeginMessage) (lsn : LSN) : BaseRecord :=
  match commitLock with
  | some msg => ⟨lsn, msg.commitTime, msg.xid⟩
  | none => ⟨lsn, 0, 0⟩

section Decode

variable {D V H : Type} (cfg : CDCConfig D V H)

/-- One column of `processTuple`. -/
def processColumn (exclude : List String) (acc : Items V × List String)
    (col : RelationColumn × TupleDataColumn D) : Except String (Items V × List String) :=
  if col.1.name ∈ exclude then .ok acc
  else
    match col.2 with
    | .unchanged => .ok (acc.1, acc.2 ++ [col.1.name])
    | tuple => do
      let val ← cfg.proc.process col.1 tuple
      return (acc.1.addColumn col.1.name val, acc.2)

/-- `processTuple`: the items of a tuple and its unchanged TOAST columns. -/
def processTuple (tuple : Option (TupleData D)) (rel : RelationMessage)
    (exclude : List String) (schemaName : String) (base : BaseRecord) :
    Except String (Items V × List String) :=
  match tuple with
  | none => .ok (Items.empty, [])
  | some columns =>
    if columns.length > rel.columns.length then
      .error ("tuple has more columns than the last RelationMessage: " ++
        s!"{columns.length} > {rel.columns.length}")
    else do
      let (items, unchanged) ←
        (rel.columns.zip columns).foldlM (processColumn cfg exclude) (Items.empty, [])
      let items :=
        if schemaName ≠ "" then
          items.addColumn "_peerdb_source_schema" (some (cfg.proc.ofString schemaName))
        else items
      let items :=
        if cfg.originMetadataAsDestinationColumn then
          (cfg.proc.originColumns base).foldl (fun acc c => acc.addColumn c.1 (some c.2)) items
        else items
      return (items, unchanged)

/-- `getSourceSchemaForDestinationColumn`; the source caches the answer per
relation, and a relation keeps its table name. -/
def getSourceSchemaForDestinationColumn (tableName : String) : Except String String :=
  if cfg.sourceSchemaAsDestinationColumn then
    (parseTableIdentifier tableName).map Prod.fst
  else .ok ""

/-- The body shared by `processInsertMessage` and `processDeleteMessage`. -/
def processSingleTuple (p : SourceState) (lsn : LSN) (relID : ℕ) (tuple : TupleData D)
    (verb : String) (mk : BaseRecord → Items V → String → String → Record V) :
    Except String (Option (Record V)) :=
  let relID := getParentRelIDIfPartitioned p.childToParentRelIDMapping relID
  match cfg.srcTableIDNameMapping relID with
  | none => .ok none
  | some tableName =>
    match p.relationMessageMapping relID with
    | none => .error s!"unknown relation id {relID} for table {tableName}"
    | some rel => do
      let schemaName ← getSourceSchemaForDestinationColumn cfg tableName
      let base := baseRecord p.commitLock lsn
      let dst := cfg.nameAndExclude tableName
      let (items, _) ← (processTuple cfg (some tuple) rel dst.exclude schemaName base).mapError
        fun e => s!"failed to process {verb} message for table {tableName}: {e}"
      return some (mk base items tableName dst.name)

def processInsertMessage (p : SourceState) (lsn : LSN) (relID : ℕ) (tuple : TupleData D) :
    Except String (Option (Record V)) :=
  processSingleTuple cfg p lsn relID tuple "insert" fun base items src dst =>
    .insert base items src dst

def processDeleteMessage (p : SourceState) (lsn : LSN) (relID : ℕ) (oldTuple : TupleData D) :
    Except String (Option (Record V)) :=
  processSingleTuple cfg p lsn relID oldTuple "delete" fun base items src dst =>
    .delete base items [] src dst

/-- `processUpdateMessage`: columns missing from the new tuple are taken from
the old one, and dropped there. -/
def processUpdateMessage (p : SourceState) (lsn : LSN) (relID : ℕ)
    (oldTuple : Option (TupleData D)) (newTuple : TupleData D) :
    Except String (Option (Record V)) :=
  let relID := getParentRelIDIfPartitioned p.childToParentRelIDMapping relID
  match cfg.srcTableIDNameMapping relID with
  | none => .ok none
  | some tableName =>
    match p.relationMessageMapping relID with
    | none => .error s!"unknown relation id {relID} for table {tableName}"
    | some rel => do
      let schemaName ← getSourceSchemaForDestinationColumn cfg tableName
      let dst := cfg.nameAndExclude tableName
      let (oldItems, _) ←
        (processTuple cfg oldTuple rel dst.exclude "" BaseRecord.zero).mapError
          fun e => s!"failed to process update message (OldTuple) for table {tableName}: {e}"
      let base := baseRecord p.commitLock lsn
      let (newItems, unchanged) ←
        (processTuple cfg (some newTuple) rel dst.exclude schemaName base).mapError
          fun e => s!"failed to process update message (NewTuple) for table {tableName}: {e}"
      let backfilledCols := newItems.updatedCols oldItems
      return some (.update base (oldItems.deleteColNames backfilledCols)
        (newItems.updateIfNotExists oldItems)
        (unchanged.filter fun col => !backfilledCols col) tableName dst.name)

def processRowMessage (p : SourceState) (lsn : LSN) :
    RowChange D → Except String (Option (Record V))
  | .insert relID tuple => processInsertMessage cfg p lsn relID tuple
  | .update relID oldTuple newTuple => processUpdateMessage cfg p lsn relID oldTuple newTuple
  | .delete relID oldTuple => processDeleteMessage cfg p lsn relID oldTuple

/-- `checkIfUnknownTableInherits`: the relation id to use, the relkind of the
parent, and the extended partition map. -/
def checkIfUnknownTableInherits (children : ℕ → Option ℕ) (relID : ℕ) :
    ℕ × Option Char × (ℕ → Option ℕ) :=
  let relID := getParentRelIDIfPartitioned children relID
  match cfg.srcTableIDNameMapping relID with
  | some _ => (relID, cfg.idToRelKindMap relID, children)
  | none =>
    match cfg.inhParent relID with
    | none => (relID, none, children)
    | some parent =>
      (parent, cfg.idToRelKindMap parent, fun k => if k = relID then some parent else children k)

/-- `processRelationMessage`: remember the relation, and report the columns the
mirror does not know yet. -/
def processRelationMessage (p : SourceState) (lsn : LSN) (currRel : RelationMessage) :
    Except String (SourceState × Option (Record V)) :=
  match cfg.srcTableIDNameMapping currRel.relationID with
  | none => .ok (p, none)
  | some currRelName =>
    match cfg.tableNameMapping currRelName with
    | none => .error s!"cannot find table name mapping for {currRelName}"
    | some dst =>
      match cfg.tableNameSchemaMapping dst.name with
      | none => .error s!"cannot find table schema for {dst.name}"
      | some prevSchema => do
        let added ← (currRel.columns.filter fun column =>
          !(prevSchema.columns.any fun c => c.name == column.name) &&
            !(dst.exclude.contains column.name)).mapM cfg.describeAdded
        let delta : TableSchemaDelta :=
          ⟨currRelName, dst.name, added, prevSchema.system, prevSchema.nullableEnabled⟩
        let p' := { p with relationMessageMapping := fun k =>
          if k = currRel.relationID then some currRel else p.relationMessageMapping k }
        if added.length > 0 then do
          cfg.auditSchemaDelta delta
          return (p', some (.relation (baseRecord p.commitLock lsn) delta))
        else return (p', none)

/-- The relation case of `processMessage`. -/
def processRelation (p : SourceState) (currentClientXlogPos : LSN) (msg : RelationMessage) :
    Except String (SourceState × Option (Record V)) :=
  let (relID, parentRelKind, children) :=
    checkIfUnknownTableInherits cfg p.childToParentRelIDMapping msg.relationID
  let p := { p with childToParentRelIDMapping := children }
  if (cfg.srcTableIDNameMapping relID).isNone then .ok (p, none)
  -- with publish_via_partition_root the parent's column list is the wire format
  else if msg.relationID ≠ relID ∧ parentRelKind = some 'p' ∧ cfg.publishViaPartitionRoot then
    .ok (p, none)
  else processRelationMessage cfg p currentClientXlogPos { msg with relationID := relID }

def processMessage (p : SourceState) (batch : CDCStream V) (walStart : LSN)
    (currentClientXlogPos : LSN) :
    LogicalMsg D → Except String (SourceState × CDCStream V × Option (Record V))
  | .begin msg => .ok ({ p with commitLock := some msg }, batch, none)
  | .row change => do
    let rec? ← processRowMessage cfg p walStart change
    return (p, batch, rec?)
  | .commit commitLSN _ =>
    .ok ({ p with commitLock := none }, batch.updateLatestCheckpointID commitLSN, none)
  | .relation msg => do
    let (p, rec?) ← processRelation cfg p currentClientXlogPos msg
    return (p, batch, rec?)
  | .message transactional lsn pfx content =>
    let batch := if transactional then batch else batch.updateLatestCheckpointID lsn
    .ok (p, batch, some (.message (baseRecord p.commitLock lsn) pfx content))
  | .unhandled => .ok (p, batch, none)
  | .unparsable => .error s!"error parsing logical message (walStart={walStart})"

/-! ### What the decoders return -/

variable {cfg}

/-- The record of a row change is determined, up to its values, by the partition
map and the open transaction; there is one exactly when the table is mirrored. -/
def rowTag (cfg : CDCConfig D V H) (children : ℕ → Option ℕ) (commitLock : Option BeginMessage)
    (lsn : LSN) (change : RowChange D) : Option RowTag :=
  (cfg.mirroredTable children change.relationID).map fun table =>
    ⟨change.kind, baseRecord commitLock lsn, table, (cfg.nameAndExclude table).name⟩

variable {p p' : SourceState} {lsn : LSN} {rec? : Option (Record V)}

private theorem processSingleTuple_ok {relID : ℕ} {tuple : TupleData D} {verb : String}
    {mk : BaseRecord → Items V → String → String → Record V}
    (h : processSingleTuple cfg p lsn relID tuple verb mk = .ok rec?) :
    (cfg.mirroredTable p.childToParentRelIDMapping relID = none ∧ rec? = none) ∨
    ∃ table items, cfg.mirroredTable p.childToParentRelIDMapping relID = some table ∧
      rec? = some (mk (baseRecord p.commitLock lsn) items table
        (cfg.nameAndExclude table).name) := by
  unfold processSingleTuple at h
  unfold CDCConfig.mirroredTable
  cases htable : cfg.srcTableIDNameMapping
      (getParentRelIDIfPartitioned p.childToParentRelIDMapping relID) with
  | none =>
    simp only [htable, Except.ok.injEq] at h
    exact Or.inl ⟨rfl, h.symm⟩
  | some table =>
    cases hrel : p.relationMessageMapping
        (getParentRelIDIfPartitioned p.childToParentRelIDMapping relID) with
    | none => simp [htable, hrel] at h
    | some rel =>
      simp only [htable, hrel] at h
      obtain ⟨schemaName, -, h⟩ := bind_eq_ok h
      obtain ⟨⟨items, unchanged⟩, -, h⟩ := bind_eq_ok h
      cases h
      exact Or.inr ⟨table, items, rfl, rfl⟩

private theorem processUpdateMessage_ok {relID : ℕ} {oldTuple : Option (TupleData D)}
    {newTuple : TupleData D}
    (h : processUpdateMessage cfg p lsn relID oldTuple newTuple = .ok rec?) :
    (cfg.mirroredTable p.childToParentRelIDMapping relID = none ∧ rec? = none) ∨
    ∃ table oldItems newItems unchanged,
      cfg.mirroredTable p.childToParentRelIDMapping relID = some table ∧
      rec? = some (.update (baseRecord p.commitLock lsn) oldItems newItems unchanged table
        (cfg.nameAndExclude table).name) := by
  unfold processUpdateMessage at h
  unfold CDCConfig.mirroredTable
  cases htable : cfg.srcTableIDNameMapping
      (getParentRelIDIfPartitioned p.childToParentRelIDMapping relID) with
  | none =>
    simp only [htable, Except.ok.injEq] at h
    exact Or.inl ⟨rfl, h.symm⟩
  | some table =>
    cases hrel : p.relationMessageMapping
        (getParentRelIDIfPartitioned p.childToParentRelIDMapping relID) with
    | none => simp [htable, hrel] at h
    | some rel =>
      simp only [htable, hrel] at h
      obtain ⟨schemaName, -, h⟩ := bind_eq_ok h
      obtain ⟨⟨oldItems, _⟩, -, h⟩ := bind_eq_ok h
      obtain ⟨⟨newItems, unchanged⟩, -, h⟩ := bind_eq_ok h
      rw [← Except.ok.inj h]
      exact Or.inr ⟨table, _, _, _, rfl, rfl⟩

theorem processRowMessage_ok {change : RowChange D}
    (h : processRowMessage cfg p lsn change = .ok rec?) :
    rec?.map Record.tag = rowTag cfg p.childToParentRelIDMapping p.commitLock lsn change := by
  cases change with
  | insert relID tuple =>
    unfold processRowMessage processInsertMessage at h
    obtain ⟨hnone, rfl⟩ | ⟨table, items, hsome, rfl⟩ := processSingleTuple_ok h
    · simp [rowTag, RowChange.relationID, hnone]
    · simp [rowTag, RowChange.relationID, RowChange.kind, hsome, Record.tag, Record.kind,
        Record.base, Record.getSourceTableName, Record.getDestinationTableName]
  | update relID oldTuple newTuple =>
    obtain ⟨hnone, rfl⟩ | ⟨table, _, _, _, hsome, rfl⟩ := processUpdateMessage_ok h
    · simp [rowTag, RowChange.relationID, hnone]
    · simp [rowTag, RowChange.relationID, RowChange.kind, hsome, Record.tag, Record.kind,
        Record.base, Record.getSourceTableName, Record.getDestinationTableName]
  | delete relID tuple =>
    unfold processRowMessage processDeleteMessage at h
    obtain ⟨hnone, rfl⟩ | ⟨table, items, hsome, rfl⟩ := processSingleTuple_ok h
    · simp [rowTag, RowChange.relationID, hnone]
    · simp [rowTag, RowChange.relationID, RowChange.kind, hsome, Record.tag, Record.kind,
        Record.base, Record.getSourceTableName, Record.getDestinationTableName]

theorem processRowMessage_isRow {change : RowChange D} {rec : Record V}
    (h : processRowMessage cfg p lsn change = .ok (some rec)) :
    rec.isRow = true := by
  have htag := processRowMessage_ok h
  obtain ⟨table, -, htable⟩ := Option.map_eq_some_iff.mp htag.symm
  have hkind : rec.kind = change.kind := (congrArg RowTag.kind htable).symm
  rw [Record.isRow, hkind]
  cases change <;> rfl

private theorem processRelationMessage_ok {msg : RelationMessage}
    (h : processRelationMessage cfg p lsn msg = .ok (p', rec?)) :
    p'.commitLock = p.commitLock ∧
    p'.childToParentRelIDMapping = p.childToParentRelIDMapping ∧
    ∀ rec, rec? = some rec → ∃ base delta, rec = .relation base delta := by
  unfold processRelationMessage at h
  split at h
  · cases h
    exact ⟨rfl, rfl, by simp⟩
  · split at h
    · cases h
    · split at h
      · cases h
      · obtain ⟨added, -, h⟩ := bind_eq_ok h
        simp only at h
        split at h
        · obtain ⟨_, -, h⟩ := bind_eq_ok h
          cases h
          exact ⟨rfl, rfl, by simp⟩
        · cases h
          exact ⟨rfl, rfl, by simp⟩

/-- A relation message keeps the open transaction, extends the partition map by
what `checkIfUnknownTableInherits` found, and yields at most a relation record. -/
theorem processRelation_ok {pos : LSN} {msg : RelationMessage}
    (h : processRelation cfg p pos msg = .ok (p', rec?)) :
    p'.commitLock = p.commitLock ∧
    p'.childToParentRelIDMapping =
      (checkIfUnknownTableInherits cfg p.childToParentRelIDMapping msg.relationID).2.2 ∧
    ∀ rec, rec? = some rec → ∃ base delta, rec = .relation base delta := by
  unfold processRelation at h
  simp only at h
  split at h
  · cases h
    exact ⟨rfl, rfl, by simp⟩
  · split at h
    · cases h
      exact ⟨rfl, rfl, by simp⟩
    · exact processRelationMessage_ok h

/-- The partition map after a relation message. -/
theorem checkIfUnknownTableInherits_children (children : ℕ → Option ℕ) (relID k : ℕ) :
    (checkIfUnknownTableInherits cfg children relID).2.2 k = children k ∨
    (cfg.srcTableIDNameMapping k = none ∧ k = getParentRelIDIfPartitioned children relID ∧
      (checkIfUnknownTableInherits cfg children relID).2.2 k = cfg.inhParent k) := by
  unfold checkIfUnknownTableInherits
  simp only
  cases htable : cfg.srcTableIDNameMapping (getParentRelIDIfPartitioned children relID) with
  | some table => exact Or.inl rfl
  | none =>
    cases hparent : cfg.inhParent (getParentRelIDIfPartitioned children relID) with
    | none => exact Or.inl rfl
    | some parent =>
      by_cases hk : k = getParentRelIDIfPartitioned children relID
      · subst hk
        exact Or.inr ⟨htable, rfl, by simp [hparent]⟩
      · exact Or.inl (if_neg hk)

end Decode
