/-
The expressions by which a generated statement reads `_peerdb_data` (`connectors/postgres`:
`columnTypeToPg`, `generateExpr`, and the select lists of `generateMergeStatement`).

What the database does with a text is a parameter, `PgEnv`.  `->>` is NULL for a column that
is null in the JSON or not in it; a cast of NULL is NULL, but the array of the elements of
NULL is the empty array.
-/
import PeerDB.Model.QValue

/-- The ways a column is read as a value of a type `T`. -/
inductive SqlForm where
  /-- `(_peerdb_data->>'c')::T` -/
  | cast
  /-- `ARRAY(SELECT JSON_ARRAY_ELEMENTS_TEXT((_peerdb_data->>'c')::JSON))::T` -/
  | array
  /-- `decode(_peerdb_data->>'c', 'base64')::T` -/
  | decode
  /-- the column `"c" T` of `jsonb_to_record(_peerdb_data)` -/
  | record
  /-- the column `"c" jsonb` of it, which holds the text as a JSON string -/
  | wrapped
  /-- `("c" #>> '{}')::T` of such a column -/
  | unwrapped
  deriving DecidableEq, Repr

structure SqlExpr where
  form : SqlForm
  column : String
  pgType : String
  deriving DecidableEq, Repr

/-! ### Types -/

def qValueKindToPostgresType (colTypeStr : String) : String :=
  match colTypeStr with
  | "bool" => "BOOLEAN"
  | "int16" | "uint16" | "int8" | "uint8" => "SMALLINT"
  | "int32" | "uint32" | "uint16enum" => "INTEGER"
  | "int64" | "uint64" | "uint64set" => "BIGINT"
  | "float32" => "REAL"
  | "float64" => "DOUBLE PRECISION"
  | "qchar" => "\"char\""
  | "bytes" => "BYTEA"
  | "json" => "JSON"
  | "jsonb" => "JSONB"
  | "hstore" => "HSTORE"
  | "uuid" => "UUID"
  | "array_uuid" => "UUID[]"
  | "time" => "TIME"
  | "timetz" => "TIMETZ"
  | "date" => "DATE"
  | "timestamp" => "TIMESTAMP"
  | "timestamptz" => "TIMESTAMPTZ"
  | "numeric" => "NUMERIC"
  | "inet" => "INET"
  | "cidr" => "CIDR"
  | "macaddr" => "MACADDR"
  | "array_int16" => "SMALLINT[]"
  | "array_int32" => "INTEGER[]"
  | "array_int64" => "BIGINT[]"
  | "array_float32" => "REAL[]"
  | "array_float64" => "DOUBLE PRECISION[]"
  | "array_date" => "DATE[]"
  | "array_timestamp" => "TIMESTAMP[]"
  | "array_timestamptz" => "TIMESTAMPTZ[]"
  | "array_bool" => "BOOLEAN[]"
  | "array_interval" | "array_string" | "array_enum" => "TEXT[]"
  | "array_json" => "JSON[]"
  | "array_jsonb" => "JSONB[]"
  | "array_numeric" => "NUMERIC[]"
  | "geography" => "GEOGRAPHY"
  | "geometry" => "GEOMETRY"
  | "point" => "POINT"
  | _ => "TEXT"

section Generate

variable (schema : TableSchema) (column : FieldDescription)

def columnTypeToPg : String :=
  match schema.system with
  | .q => qValueKindToPostgresType column.type
  | .pg =>
    if column.typeSchemaName ≠ "" then column.typeSchemaName ++ "." ++ column.type else column.type

def generateExpr (genericColumnType stringCol pgType : String) : SqlExpr :=
  match schema.system with
  | .q =>
    if "array_".toList.isPrefixOf genericColumnType.toList then ⟨.array, stringCol, pgType⟩
    else if genericColumnType = "bytes" then ⟨.decode, stringCol, pgType⟩
    else ⟨.cast, stringCol, pgType⟩
  | .pg => ⟨.cast, stringCol, pgType⟩

/-- The entry of `selectExprs`. -/
def selectExpr : SqlExpr :=
  match schema.system with
  | .q => generateExpr schema column.type column.name (columnTypeToPg schema column)
  | .pg =>
    if column.type = "json" ∨ column.type = "jsonb" then ⟨.unwrapped, column.name, column.type⟩
    else ⟨.record, column.name, columnTypeToPg schema column⟩

/-- The entry of `primaryKeyColumnCasts` or of `recordDefs`, by which the rows are ranked. -/
def rankExpr : SqlExpr :=
  match schema.system with
  | .q => ⟨.cast, column.name, columnTypeToPg schema column⟩
  | .pg =>
    if column.type = "json" ∨ column.type = "jsonb" then ⟨.wrapped, column.name, "jsonb"⟩
    else ⟨.record, column.name, columnTypeToPg schema column⟩

@[simp] theorem selectExpr_column : (selectExpr schema column).column = column.name := by
  rw [selectExpr, generateExpr]
  cases schema.system with
  | q | pg => dsimp only; split_ifs <;> rfl

@[simp] theorem rankExpr_column : (rankExpr schema column).column = column.name := by
  rw [rankExpr]
  cases schema.system with
  | q => rfl
  | pg => dsimp only; split_ifs <;> rfl

end Generate

/-! ### Reading -/

/-- The values a statement makes itself. -/
structure SqlEnv (V : Type) where
  currentTimestamp : V
  ofBool : Bool → V

/-- The conversions of the database; an error makes the statement fail. -/
structure PgEnv (V : Type) extends SqlEnv V where
  /-- `text::T`, and what `jsonb_to_record` makes of a JSON string for a column of type `T` -/
  cast : (pgType text : String) → Except String V
  /-- a JSON string as `jsonb` -/
  jsonbString : String → V
  /-- `JSON_ARRAY_ELEMENTS_TEXT(text::JSON)` -/
  jsonArrayElementsText : String → Except String (List (Option String))
  /-- `ARRAY(…)::T` -/
  castArray : (pgType : String) → List (Option String) → Except String V
  /-- `decode(text, 'base64')::T` -/
  decodeBase64 : (pgType text : String) → Except String V

variable {V : Type}

/-- The value of an expression, given the text `->>` has for its column. -/
def SqlExpr.eval (env : PgEnv V) (e : SqlExpr) (text : Option String) : Except String (Option V) :=
  match e.form with
  | .cast | .record | .unwrapped => text.mapM (env.cast e.pgType)
  | .wrapped => .ok (text.map env.jsonbString)
  | .array => do
    let elements ← text.elim (.ok []) env.jsonArrayElementsText
    return some (← env.castArray e.pgType elements)
  | .decode => text.mapM (env.decodeBase64 e.pgType)

/-- What an expression makes of a value that was written by `toMap`. -/
def PgEnv.read (env : PgEnv V) (toMap : V → Option String) (e : SqlExpr) (v : Option V) :
    Except String (Option V) :=
  e.eval env (v.bind toMap)

def TableSchema.column? (schema : TableSchema) (c : String) : Option FieldDescription :=
  schema.columns.find? fun col => decide (col.name = c)

theorem TableSchema.column?_some {schema : TableSchema} {c : String} {col : FieldDescription}
    (h : schema.column? c = some col) : col ∈ schema.columns ∧ col.name = c := by
  have hname := List.find?_some h
  exact ⟨List.mem_of_find?_eq_some h, of_decide_eq_true hname⟩

theorem TableSchema.column?_of_mem {schema : TableSchema} {c : String}
    (h : c ∈ schema.columns.map FieldDescription.name) : ∃ col, schema.column? c = some col := by
  obtain ⟨col, hcol, rfl⟩ := List.mem_map.mp h
  rw [← Option.isSome_iff_exists, TableSchema.column?, List.find?_isSome]
  exact ⟨col, hcol, decide_eq_true rfl⟩

/-- A select list, read by name. -/
theorem lookup_columns_map {α : Type} (f : FieldDescription → α) (c : String) :
    ∀ columns : List FieldDescription, (columns.map fun col => (col.name, f col)).lookup c =
      (columns.find? fun col => decide (col.name = c)).map f
  | [] => rfl
  | col :: columns => by
    rw [List.map_cons, List.lookup_cons, List.find?_cons]
    by_cases hc : col.name = c
    · simp [hc]
    · rw [beq_false_of_ne (Ne.symm hc), decide_eq_false hc]
      exact lookup_columns_map f c columns
