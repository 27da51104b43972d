/-
Records, items and the CDC stream (`flow/model`).

A batch of change data is a sequence of `Record`s handed from the puller to the
syncer over a `CDCStream`.  A record carries `Items`, a partial map from column
names to values: a column may be absent (an unchanged TOAST column is not
sent), present with SQL NULL, or present with a value.

`RecToTablePKey` hashes the primary-key columns of a record; SHA-256 and the
byte rendering of a value are parameters (`KeyCodec`).  The spill-to-disk store
of the puller is used through its map interface only (`Store`).
-/
import Mathlib.Data.List.Sort

/-- `RecordItems`/`PgItems`: a partial map from column names to values; the
inner `none` is SQL NULL. -/
@[ext] structure Items (V : Type) where
  colToVal : String → Option (Option V)

namespace Items

variable {V : Type}

/-- `NewRecordItems`/`NewPgItems`. -/
def empty : Items V := ⟨fun _ => none⟩

def addColumn (r : Items V) (col : String) (val : Option V) : Items V :=
  ⟨fun c => if c = col then some val else r.colToVal c⟩

/-- The columns `UpdateIfNotExists` takes over from its argument. -/
def updatedCols (r input : Items V) (col : String) : Bool :=
  (r.colToVal col).isNone && (input.colToVal col).isSome

/-- `UpdateIfNotExists`: columns of `input` that `r` lacks are copied. -/
def updateIfNotExists (r input : Items V) : Items V :=
  ⟨fun c => (r.colToVal c).or (input.colToVal c)⟩

/-- `DeleteColName` for every column in a set. -/
def deleteColNames (r : Items V) (cols : String → Bool) : Items V :=
  ⟨fun c => if cols c then none else r.colToVal c⟩

@[simp] theorem updateIfNotExists_colToVal (r input : Items V) (c : String) :
    (r.updateIfNotExists input).colToVal c = (r.colToVal c).or (input.colToVal c) := rfl

end Items

structure BaseRecord where
  checkpointID : ℕ
  commitTimeNano : ℤ
  transactionID : ℕ
  deriving DecidableEq, Repr

/-- The zero value `BaseRecord{}`. -/
def BaseRecord.zero : BaseRecord := ⟨0, 0, 0⟩

structure FieldDescription where
  name : String
  type : String
  typeModifier : ℤ := -1
  nullable : Bool := true
  typeSchemaName : String := ""
  defaultExpr : Option String := none
  deriving DecidableEq, Repr

inductive TypeSystem where
  | q
  | pg
  deriving DecidableEq, Repr

/-- The fields of `protos.TableSchema` the modelled code reads. -/
structure TableSchema where
  columns : List FieldDescription
  primaryKeyColumns : List String
  isReplicaIdentityFull : Bool := false
  system : TypeSystem := .pg
  nullableEnabled : Bool := false
  deriving DecidableEq, Repr

structure TableSchemaDelta where
  srcTableName : String
  dstTableName : String
  addedColumns : List FieldDescription
  system : TypeSystem
  nullableEnabled : Bool
  deriving DecidableEq, Repr

structure NameAndExclude where
  name : String := ""
  exclude : List String := []
  deriving DecidableEq, Repr

/-- `model.Record`, one constructor per concrete record type.  A set of
unchanged TOAST columns is the list of its members; `[]` is also the nil map. -/
inductive Record (V : Type) where
  | insert (base : BaseRecord) (items : Items V)
      (sourceTableName destinationTableName : String)
  | update (base : BaseRecord) (oldItems newItems : Items V)
      (unchangedToastColumns : List String)
      (sourceTableName destinationTableName : String)
  | delete (base : BaseRecord) (items : Items V) (unchangedToastColumns : List String)
      (sourceTableName destinationTableName : String)
  | relation (base : BaseRecord) (tableSchemaDelta : TableSchemaDelta)
  | message (base : BaseRecord) (pfx content : String)

/-- `Record.Kind()`. -/
inductive RecordKind where
  | insert | update | delete | relation | message
  deriving DecidableEq, Repr

namespace Record

variable {V : Type}

def kind : Record V → RecordKind
  | .insert .. => .insert
  | .update .. => .update
  | .delete .. => .delete
  | .relation .. => .relation
  | .message .. => .message

def base : Record V → BaseRecord
  | .insert base .. => base
  | .update base .. => base
  | .delete base .. => base
  | .relation base .. => base
  | .message base .. => base

def getCheckpointID (r : Record V) : ℕ := r.base.checkpointID

def getDestinationTableName : Record V → String
  | .insert _ _ _ dst => dst
  | .update _ _ _ _ _ dst => dst
  | .delete _ _ _ _ dst => dst
  | .relation _ delta => delta.dstTableName
  | .message .. => ""

def getSourceTableName : Record V → String
  | .insert _ _ src _ => src
  | .update _ _ _ _ src _ => src
  | .delete _ _ _ src _ => src
  | .relation _ delta => delta.srcTableName
  | .message .. => ""

def getItems : Record V → Items V
  | .insert _ items _ _ => items
  | .update _ _ newItems _ _ _ => newItems
  | .delete _ items _ _ _ => items
  | .relation .. => Items.empty
  | .message .. => Items.empty

def unchangedColumns : Record V → List String
  | .update _ _ _ unchanged _ _ => unchanged
  | _ => []

/-- The record types that change a row; `AddRecord` sets `needsNormalize` on
these. -/
def isRow (r : Record V) : Bool :=
  match r.kind with
  | .insert | .update | .delete => true
  | .relation | .message => false

end Record

/-- A record and the commit position of its transaction. -/
structure SourceRecord (V : Type) where
  record : Record V
  commitLSN : ℕ

def SourceRecord.lsn {V : Type} (x : SourceRecord V) : ℕ := x.record.getCheckpointID

def SourceRecord.isMessage {V : Type} (x : SourceRecord V) : Bool :=
  match x.record with
  | .message .. => true
  | _ => false

/-- A record without its values: which change of which table it stands for. -/
structure RowTag where
  kind : RecordKind
  base : BaseRecord
  sourceTableName : String
  destinationTableName : String
  deriving DecidableEq, Repr

def Record.tag {V : Type} (r : Record V) : RowTag :=
  ⟨r.kind, r.base, r.getSourceTableName, r.getDestinationTableName⟩

theorem Record.isRow_congr {V : Type} {r r' : Record V} (h : r.kind = r'.kind) :
    r.isRow = r'.isRow := by
  unfold Record.isRow
  rw [h]

/-- `CDCStream`.  The channel is the list of the records added so far, in
order. -/
structure CDCStream (V : Type) where
  records : List (Record V) := []
  schemaDeltas : List TableSchemaDelta := []
  lastCheckpointID : ℕ := 0
  lastCheckpointText : String := ""
  needsNormalize : Bool := false
  empty : Bool := true

namespace CDCStream

variable {V : Type}

def updateLatestCheckpointID (r : CDCStream V) (val : ℕ) : CDCStream V :=
  { r with lastCheckpointID := max r.lastCheckpointID val }

def updateLatestCheckpointText (r : CDCStream V) (val : String) : CDCStream V :=
  { r with lastCheckpointText := val }

def addRecord (r : CDCStream V) (record : Record V) : CDCStream V :=
  { r with
    records := r.records ++ [record]
    needsNormalize := r.needsNormalize || record.isRow }

def signalAsNotEmpty (r : CDCStream V) : CDCStream V := { r with empty := false }

def addSchemaDelta (r : CDCStream V) (delta : TableSchemaDelta) : CDCStream V :=
  { r with schemaDeltas := r.schemaDeltas ++ [delta] }

/-- The row records among the records added so far. -/
def rows (r : CDCStream V) : List (Record V) := r.records.filter Record.isRow

variable (r : CDCStream V)

@[simp] theorem addRecord_lastCheckpointID (rec : Record V) :
    (r.addRecord rec).lastCheckpointID = r.lastCheckpointID := rfl

@[simp] theorem signalAsNotEmpty_lastCheckpointID :
    r.signalAsNotEmpty.lastCheckpointID = r.lastCheckpointID := rfl

theorem rows_addRecord (rec : Record V) :
    (r.addRecord rec).rows = if rec.isRow then r.rows ++ [rec] else r.rows := by
  unfold rows addRecord
  rw [List.filter_append]
  by_cases h : rec.isRow <;> simp [h]

end CDCStream

/-! ### Store keys -/

/-- What `RecToTablePKey` needs of the outside: the bytes of a column value
(`GetBytesByColName`) and the hash of the concatenated bytes (SHA-256). -/
structure KeyCodec (V H : Type) where
  bytes : Option V → List UInt8
  hash : List UInt8 → H

/-- `TableWithPkey`; `none` is the zero value `TableWithPkey{}`. -/
abbrev TableWithPkey (H : Type) := Option (String × H)

/-- `RecToTablePKey`: the error names the first key column the items lack. -/
def recToTablePKey {V H : Type} (codec : KeyCodec V H) (primaryKeyColumns : List String)
    (rec : Record V) : Except String (TableWithPkey H) := do
  let cols ← primaryKeyColumns.mapM fun pkeyCol =>
    match rec.getItems.colToVal pkeyCol with
    | none => .error pkeyCol
    | some val => .ok (codec.bytes val)
  return some (rec.getDestinationTableName, codec.hash cols.flatten)

/-- The map interface of `CDCStore`. -/
abbrev Store (V H : Type) := String × H → Option (Record V)

namespace Store

variable {V H : Type} [DecidableEq H]

def new : Store V H := fun _ => none

def get (s : Store V H) (key : TableWithPkey H) : Option (Record V) := key.bind s

/-- `Set` records nothing under a key without a table name. -/
def set (s : Store V H) (key : TableWithPkey H) (rec : Record V) : Store V H :=
  match key with
  | none => s
  | some k => if k.1 = "" then s else fun k' => if k' = k then some rec else s k'

theorem get_set_self (s : Store V H) {k : String × H} (hname : k.1 ≠ "") (rec : Record V) :
    (s.set (some k) rec).get (some k) = some rec := by
  simp [set, get, hname]

theorem get_set_ne (s : Store V H) {key key' : TableWithPkey H} (hne : key ≠ key')
    (rec : Record V) : (s.set key rec).get key' = s.get key' := by
  cases key with
  | none => rfl
  | some k =>
    cases key' with
    | none => rfl
    | some k' =>
      have hk : k' ≠ k := fun heq => hne (congrArg some heq.symm)
      by_cases hname : k.1 = ""
      · simp [set, get, hname]
      · simp [set, get, hname, hk]

end Store
