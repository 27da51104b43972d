/-
Copying a staged snapshot file into ClickHouse (`table_function.go`,
`pushStagingDataToClickHouseForSnapshot`).

A file is inserted by one query, or by several that split its rows by the hash of the
first column: `WHERE cityHash64(column) % n = i`.  The hash of NULL is NULL, and so is
the comparison, and a row is only selected if the condition is true.

* `partQueries_count` — with more than one part, a row is selected by one part if its
  first column is not NULL, and by no part if it is;
* `partQueries_inserts` — so the parts together insert what the one query inserts as
  long as no row has NULL there.

Queries are modelled by their parts, without quoting and settings.  How ClickHouse
evaluates a selected expression and hashes a value are parameters.
-/
import PeerDB.Lib.Loop
import Mathlib.Data.List.Nodup
import Mathlib.Data.List.Perm.Basic

open Loop

namespace ClickHouse

open List

namespace Snapshot

/-! ### Building the queries -/

/-- The kinds of columns that need a conversion, and all others. -/
inductive QValueKind
  | json
  | jsonb
  | time
  | timetz
  | other (name : String)
deriving DecidableEq

structure QField where
  name : String
  type : QValueKind
  nullable : Bool

/-- An expression of the SELECT. -/
inductive SelectExpr
  | column (name : String)
  /-- `CAST(…, 'JSON')` -/
  | castJSON (e : SelectExpr)
  /-- `toTime64(toDecimal64(…, 6) / 1000000, 6)` -/
  | toTime64 (e : SelectExpr)
  | literal (s : String)
deriving DecidableEq

/-- `insertFromTableFunctionConfig`, with what the conversions read of the flow: whether
the native JSON type is used, the source type and the flag for `Time64`. -/
structure InsertConfig where
  destinationTable : String
  schema : List QField
  columnNameMap : Option (String → Option String)
  excludedColumns : List String
  watermarkTable : String
  nativeJSON : Bool
  sourceIsBigQuery : Bool
  time64Enabled : Bool
  fieldExpressionConverters : List (QField → SelectExpr → Except String SelectExpr)
  /-- `internal.PeerDBSourceSchemaAsDestinationColumn`. -/
  sourceSchemaAsDestinationColumn : Except String Bool
  /-- `common.ParseTableIdentifier`, of which the namespace is used. -/
  parseNamespace : String → Except String String

def jsonFieldExpressionConverter (cfg : InsertConfig) (field : QField) (e : SelectExpr) :
    Except String SelectExpr :=
  if field.type ≠ .json ∧ field.type ≠ .jsonb then .ok e
  else if ¬ cfg.nativeJSON then .ok e
  else .ok (.castJSON e)

def timeFieldExpressionConverter (cfg : InsertConfig) (field : QField) (e : SelectExpr) :
    Except String SelectExpr :=
  if field.type ≠ .time ∧ field.type ≠ .timetz then .ok e
  else if cfg.sourceIsBigQuery then .ok e
  else if ¬ cfg.time64Enabled then .ok e
  else .ok (.toTime64 e)

/-- `cityHash64(column) % modulus = remainder`. -/
structure HashPredicate where
  column : String
  modulus : UInt64
  remainder : UInt64
deriving DecidableEq

/-- `INSERT INTO table(inserted) SELECT selected FROM source WHERE filter`. -/
structure InsertQuery where
  table : String
  inserted : List String
  selected : List SelectExpr
  source : String
  filter : Option HashPredicate
deriving DecidableEq

def sourceSchemaColName : String := "_peerdb_source_schema"

/-- One field: the name of its column in the staged file, converted. -/
def selectField (cfg : InsertConfig) (field : QField) : Except String SelectExpr := do
  let sourceFieldName ←
    match cfg.columnNameMap with
    | none => pure field.name
    | some columnNameMap =>
      match columnNameMap field.name with
      | some mappedName => pure mappedName
      | none => throw ("destination column " ++ field.name ++ " not found in column name map")
  ([jsonFieldExpressionConverter cfg, timeFieldExpressionConverter cfg] ++
    cfg.fieldExpressionConverters).foldlM (fun e converter => converter field e)
    (.column sourceFieldName)

def buildInsertFromTableFunctionQuery (cfg : InsertConfig) (tableFunctionExpr : String) :
    Except String InsertQuery := do
  let sourceSchema ← cfg.sourceSchemaAsDestinationColumn
  let fields := cfg.schema.filter fun field => decide (field.name ∉ cfg.excludedColumns)
  let selected ← fields.mapM (selectField cfg)
  let inserted := fields.map QField.name
  if sourceSchema then
    let schemaName ← cfg.parseNamespace cfg.watermarkTable
    return ⟨cfg.destinationTable, inserted ++ [sourceSchemaColName],
      selected ++ [.literal schemaName], tableFunctionExpr, none⟩
  else
    return ⟨cfg.destinationTable, inserted, selected, tableFunctionExpr, none⟩

/-- The column of the staged file that decides the part of a row: that of the first
field, under its mapped name if it has one. -/
def hashFieldName (cfg : InsertConfig) (field : QField) : String :=
  match cfg.columnNameMap with
  | none => field.name
  | some columnNameMap => (columnNameMap field.name).getD field.name

def buildInsertFromTableFunctionQueryWithPartitioning (cfg : InsertConfig)
    (tableFunctionExpr : String) (partitionIndex totalPartitions : UInt64) :
    Except String InsertQuery := do
  let query ← buildInsertFromTableFunctionQuery cfg tableFunctionExpr
  if 1 < totalPartitions then
    match cfg.schema with
    | [] => throw "schema has no fields for partitioning"
    | field :: _ =>
      return { query with
        filter := some ⟨hashFieldName cfg field, totalPartitions, partitionIndex⟩ }
  else
    return query

/-- The query for one part of a file, in `pushStagingDataToClickHouseForSnapshot`. -/
def partQuery (cfg : InsertConfig) (tableFunctionExpr : UInt64 → Except String String)
    (numParts i : UInt64) : Except String InsertQuery := do
  let stagingTableFunction ← (tableFunctionExpr i).mapError
    ("failed to build staging table function: " ++ ·)
  Except.mapError ("failed to build insert query: " ++ ·)
    (if 1 < numParts then
      buildInsertFromTableFunctionQueryWithPartitioning cfg stagingTableFunction i numParts
    else
      buildInsertFromTableFunctionQuery cfg stagingTableFunction)

/-- The queries for one file, in their order. -/
def partQueries (cfg : InsertConfig) (tableFunctionExpr : UInt64 → Except String String)
    (numParts : UInt64) : Except String (List InsertQuery) :=
  (List.range numParts.toNat).mapM fun i => partQuery cfg tableFunctionExpr numParts (.ofNat i)

/-! ### What a query inserts -/

section Semantics

variable {V : Type} (cityHash64 : V → UInt64) (eval : SelectExpr → (String → Option V) → Option V)

/-- The condition on a row: true, false, or NULL. -/
def HashPredicate.holds (p : HashPredicate) (row : String → Option V) : Option Bool :=
  (row p.column).map fun v => cityHash64 v % p.modulus == p.remainder

/-- The row is selected: a condition that is NULL filters it out. -/
def InsertQuery.selects (q : InsertQuery) (row : String → Option V) : Bool :=
  match q.filter with
  | none => true
  | some p => p.holds cityHash64 row == some true

/-- The rows that the query inserts, for the rows of the staged file. -/
def InsertQuery.inserts (q : InsertQuery) (rows : List (String → Option V)) :
    List (List (Option V)) :=
  (rows.filter (q.selects cityHash64)).map fun row => q.selected.map fun e => eval e row

/-- The value whose hash decides the part of the row. -/
def hashValue (cfg : InsertConfig) (row : String → Option V) : Option V :=
  cfg.schema.head?.bind fun field => row (hashFieldName cfg field)

/-! ### What the queries have in common -/

variable {cfg : InsertConfig} {tableFunctionExpr : UInt64 → Except String String} {n : UInt64}

/-- The staged file does not matter for the rest of the query, which has no condition. -/
theorem buildInsertFromTableFunctionQuery_ok {source : String} {q : InsertQuery}
    (h : buildInsertFromTableFunctionQuery cfg source = .ok q) :
    q.filter = none ∧ ∀ source', buildInsertFromTableFunctionQuery cfg source' =
      .ok { q with source := source' } := by
  rw [buildInsertFromTableFunctionQuery] at h
  obtain ⟨sourceSchema, hschema, h⟩ := bind_eq_ok h
  obtain ⟨selected, hselected, h⟩ := bind_eq_ok h
  cases sourceSchema with
  | true =>
    obtain ⟨schemaName, hname, h⟩ := bind_eq_ok h
    cases h
    refine ⟨rfl, fun source' => ?_⟩
    rw [buildInsertFromTableFunctionQuery, hschema]
    show (List.mapM (selectField cfg) _ >>= _) = _
    rw [hselected]
    show (cfg.parseNamespace cfg.watermarkTable >>= _) = _
    rw [hname]
    rfl
  | false =>
    cases h
    refine ⟨rfl, fun source' => ?_⟩
    rw [buildInsertFromTableFunctionQuery, hschema]
    show (List.mapM (selectField cfg) _ >>= _) = _
    rw [hselected]
    rfl

/-- The condition of part `i` of `n`. -/
def partFilter (cfg : InsertConfig) (n i : UInt64) : Option HashPredicate :=
  if 1 < n then cfg.schema.head?.map fun field => ⟨hashFieldName cfg field, n, i⟩ else none

/-- A part is the query for the whole file with a condition. -/
theorem partQuery_ok {i : UInt64} {p : InsertQuery}
    (h : partQuery cfg tableFunctionExpr n i = .ok p) :
    ∃ q, buildInsertFromTableFunctionQuery cfg p.source = .ok q ∧
      p = { q with filter := partFilter cfg n i } ∧ (1 < n → cfg.schema ≠ []) := by
  rw [partQuery] at h
  obtain ⟨source, -, h⟩ := bind_eq_ok h
  have h := mapError_eq_ok h
  rw [partFilter]
  split_ifs at h ⊢ with hparts
  · rw [buildInsertFromTableFunctionQueryWithPartitioning] at h
    obtain ⟨q, hq, h⟩ := bind_eq_ok h
    rw [if_pos hparts] at h
    have hsource := (buildInsertFromTableFunctionQuery_ok hq).2 source
    rw [hq] at hsource
    cases hfields : cfg.schema with
    | nil =>
      rw [hfields] at h
      cases h
    | cons field fields =>
      rw [hfields] at h
      cases h
      refine ⟨q, ?_, rfl, fun _ => cons_ne_nil _ _⟩
      rw [show q.source = source from congrArg InsertQuery.source (Except.ok.inj hsource)]
      exact hq
  · obtain ⟨hfilter, hsource⟩ := buildInsertFromTableFunctionQuery_ok h
    have hsame := hsource source
    rw [h] at hsame
    refine ⟨p, ?_, by rw [← hfilter], fun hlt => absurd hlt hparts⟩
    rw [show p.source = source from congrArg InsertQuery.source (Except.ok.inj hsame)]
    exact h

theorem partQueries_ok {qs : List InsertQuery} (hn : 1 ≤ n.toNat)
    (h : partQueries cfg tableFunctionExpr n = .ok qs) :
    (1 < n → cfg.schema ≠ []) ∧ ∀ source, ∃ q,
      buildInsertFromTableFunctionQuery cfg source = .ok q ∧
      ∃ sources : ℕ → String, qs = (List.range n.toNat).map fun i =>
        { q with source := sources i, filter := partFilter cfg n (.ofNat i) } := by
  have hmem := mapM_mem_ok h
  obtain ⟨p₀, hp₀⟩ := hmem 0 (mem_range.mpr hn)
  obtain ⟨q₀, hq₀, -, hschema⟩ := partQuery_ok hp₀
  refine ⟨hschema, fun source => ?_⟩
  have hbuild := (buildInsertFromTableFunctionQuery_ok hq₀).2
  refine ⟨{ q₀ with source := source }, hbuild source, ?_⟩
  -- the source of part `i` is what the staging store gave for it
  refine ⟨fun i => ((partQuery cfg tableFunctionExpr n (.ofNat i)).toOption.map
    InsertQuery.source).getD "", ?_⟩
  refine Except.ok.inj (h.symm.trans (mapM_eq_ok fun i hi => ?_))
  obtain ⟨p, hp⟩ := hmem i hi
  obtain ⟨q, hq, hpq, -⟩ := partQuery_ok hp
  have hsame : q = { q₀ with source := p.source } := Except.ok.inj (hq.symm.trans (hbuild p.source))
  beta_reduce
  rw [hp]
  exact congrArg Except.ok (hpq.trans (by rw [hsame]; rfl))

/-! ### Every row once -/

theorem hashFieldName_value {field : QField} {fields : List QField} {row : String → Option V}
    (h : cfg.schema = field :: fields) : hashValue cfg row = row (hashFieldName cfg field) := by
  rw [hashValue, h]
  rfl

/-- The part of a row with this hash. -/
theorem ofNat_eq_mod_iff (u : UInt64) {i : ℕ} (hi : i < n.toNat) :
    (u % n == UInt64.ofNat i) = (i == (u % n).toNat) := by
  have hlt := n.toNat_lt
  rw [Bool.eq_iff_iff, beq_iff_eq, beq_iff_eq, ← UInt64.toNat_inj, UInt64.toNat_ofNat_of_lt' (by
    show i < 2 ^ 64
    omega)]
  exact eq_comm

theorem partFilter_count (hn : 1 ≤ n.toNat) (hschema : 1 < n → cfg.schema ≠ [])
    (q : InsertQuery) (sources : ℕ → String) (row : String → Option V) :
    ((List.range n.toNat).countP fun i => InsertQuery.selects cityHash64
      { q with source := sources i, filter := partFilter cfg n (.ofNat i) } row) =
      if n = 1 ∨ hashValue cfg row ≠ none then 1 else 0 := by
  by_cases hparts : 1 < n
  · have hone : n ≠ 1 := by
      rintro rfl
      exact absurd hparts (by decide)
    obtain ⟨field, fields, hfields⟩ := exists_cons_of_ne_nil (hschema hparts)
    have hfilter : ∀ i, partFilter cfg n i = some ⟨hashFieldName cfg field, n, i⟩ := by
      intro i
      rw [partFilter, if_pos hparts, hfields]
      rfl
    rw [hashFieldName_value hfields]
    simp only [InsertQuery.selects, hfilter, HashPredicate.holds, hone, false_or]
    cases row (hashFieldName cfg field) with
    | none => simp
    | some v =>
      -- exactly the remainder of the hash
      have hlt : (cityHash64 v % n).toNat < n.toNat := by
        rw [UInt64.toNat_mod]
        exact Nat.mod_lt _ hn
      rw [if_pos (Option.some_ne_none v)]
      have hcount := count_eq_one_of_mem nodup_range (mem_range.mpr hlt)
      rw [List.count] at hcount
      rw [← hcount]
      refine countP_congr fun i hi => ?_
      rw [Option.map_some, ofNat_eq_mod_iff _ (mem_range.mp hi)]
      simp
  · have hone : n = 1 := by
      rw [UInt64.lt_iff_toNat_lt, show (1 : UInt64).toNat = 1 from rfl] at hparts
      exact UInt64.toNat_inj.mp (by rw [show (1 : UInt64).toNat = 1 from rfl]; omega)
    subst hone
    simp [InsertQuery.selects, partFilter]

/-- Selections of which every entry is in exactly one together are the list. -/
theorem flatMap_filter_perm {ι α : Type} {p : ι → α → Bool} :
    ∀ {is : List ι} {l : List α}, (∀ a ∈ l, (is.countP fun i => p i a) = 1) →
      (is.flatMap fun i => l.filter (p i)).Perm l := by
  intro is
  induction is with
  | nil =>
    intro l h
    cases l with
    | nil => exact List.Perm.refl _
    | cons a l => exact absurd (h a mem_cons_self) (by simp)
  | cons i is ih =>
    intro l h
    -- what the other selections take is what the first one leaves
    have hcount : ∀ a ∈ l, ∀ j ∈ is, p j a = true → p i a = false := by
      intro a ha j hj hja
      have hone := h a ha
      rw [countP_cons] at hone
      have hpos : 0 < is.countP fun i => p i a := countP_pos_iff.mpr ⟨j, hj, hja⟩
      by_contra hia
      rw [if_pos (by simpa using hia)] at hone
      omega
    have hrest : (is.flatMap fun j => l.filter (p j)) =
        is.flatMap fun j => (l.filter fun a => !p i a).filter (p j) := by
      refine flatMap_congr fun j hj => ?_
      rw [filter_filter]
      refine filter_congr fun a ha => ?_
      cases hja : p j a with
      | false => rfl
      | true => rw [hcount a ha j hj hja]; rfl
    rw [flatMap_cons, hrest]
    refine ((ih fun a ha => ?_).append_left _).trans (filter_append_perm (p i) l)
    obtain ⟨hmem, hia⟩ := mem_filter.mp ha
    have hone := h a hmem
    rw [countP_cons, if_neg (by simpa using hia), Nat.add_zero] at hone
    exact hone

/-- **Part queries select every row once, except for NULL**: with `n` parts a row is
selected by exactly one of them if and only if `n` is 1 or its first column is not NULL;
if that holds for all rows of the file, the parts together insert what the query without
parts inserts. -/
theorem partQueries_exact_iff (hn : 1 ≤ n.toNat) {qs : List InsertQuery}
    (hqs : partQueries cfg tableFunctionExpr n = .ok qs) :
    (∀ row : String → Option V, (qs.countP fun q => q.selects cityHash64 row) = 1 ↔
      n = 1 ∨ hashValue cfg row ≠ none) ∧
    ∀ source, ∃ q, buildInsertFromTableFunctionQuery cfg source = .ok q ∧
      ∀ rows : List (String → Option V), (∀ row ∈ rows, n = 1 ∨ hashValue cfg row ≠ none) →
        (qs.flatMap fun p => p.inserts cityHash64 eval rows).Perm
          (q.inserts cityHash64 eval rows) := by
  obtain ⟨hschema, hparts⟩ := partQueries_ok hn hqs
  constructor
  · intro row
    obtain ⟨q, -, sources, rfl⟩ := hparts ""
    rw [countP_map]
    have hcount := partFilter_count cityHash64 hn hschema q sources row
    refine Iff.trans (Eq.congr_left hcount) ?_
    split_ifs with hcond <;> simp [hcond]
  · intro source
    obtain ⟨q, hq, sources, rfl⟩ := hparts source
    refine ⟨q, hq, fun rows hrows => ?_⟩
    have hall : rows.filter (q.selects cityHash64) = rows := by
      rw [filter_eq_self]
      intro row _
      rw [InsertQuery.selects, (buildInsertFromTableFunctionQuery_ok hq).1]
    have hperm : ((List.range n.toNat).flatMap fun i => rows.filter (InsertQuery.selects cityHash64
        { q with source := sources i, filter := partFilter cfg n (.ofNat i) })).Perm rows :=
      flatMap_filter_perm fun row hrow => by
        rw [partFilter_count cityHash64 hn hschema q sources row, if_pos (hrows row hrow)]
    rw [InsertQuery.inserts, hall, flatMap_map]
    simp only [InsertQuery.inserts]
    rw [← map_flatMap]
    exact hperm.map _

end Semantics

/-- A table with one column, which may be NULL. -/
def nullableTable : InsertConfig where
  destinationTable := "events"
  schema := [⟨"ref", .other "int64", true⟩]
  columnNameMap := none
  excludedColumns := []
  watermarkTable := "public.events"
  nativeJSON := false
  sourceIsBigQuery := false
  time64Enabled := false
  fieldExpressionConverters := []
  sourceSchemaAsDestinationColumn := .ok false
  parseNamespace := fun _ => .ok "public"

def evalColumn (e : SelectExpr) (row : String → Option UInt64) : Option UInt64 :=
  match e with
  | .column name => row name
  | _ => none

/-- Two parts of a file whose rows have values. -/
theorem partQueries_exact_values : ∃ qs,
    partQueries nullableTable (fun _ => .ok "s3('snapshot.avro')") 2 = .ok qs ∧
    (qs.countP fun q => q.selects id fun _ => some (7 : UInt64)) = 1 ∧
    ∃ q, buildInsertFromTableFunctionQuery nullableTable "s3('snapshot.avro')" = .ok q ∧
      (qs.flatMap fun p => p.inserts id evalColumn [fun _ => some 7, fun _ => some 4]).Perm
        (q.inserts id evalColumn [fun _ => some 7, fun _ => some 4]) := by
  obtain ⟨qs, hqs⟩ : ∃ qs,
    partQueries nullableTable (fun _ => .ok "s3('snapshot.avro')") 2 = .ok qs := ⟨_, rfl⟩
  obtain ⟨hcount, hparts⟩ := partQueries_exact_iff id evalColumn (by decide) hqs
  obtain ⟨q, hq, hperm⟩ := hparts "s3('snapshot.avro')"
  refine ⟨qs, hqs, (hcount _).mpr (.inr (Option.some_ne_none _)), q, hq, hperm _ ?_⟩
  intro row hrow
  rcases mem_pair.mp hrow with rfl | rfl <;> exact .inr (Option.some_ne_none _)

/-- **A row with NULL in the first column is not copied** by two parts, and is by one. -/
theorem nullRow_not_copied : ∃ qs,
    partQueries nullableTable (fun _ => .ok "s3('snapshot.avro')") 2 = .ok qs ∧
    (qs.countP fun q => q.selects (id : UInt64 → UInt64) fun _ => none) = 0 ∧
    (qs.flatMap fun p => p.inserts id evalColumn [fun _ => none]) = [] ∧
    ∃ q, buildInsertFromTableFunctionQuery nullableTable "s3('snapshot.avro')" = .ok q ∧
      q.inserts id evalColumn [fun _ => none] = [[none]] :=
  ⟨_, rfl, rfl, rfl, _, rfl, rfl⟩

end Snapshot

end ClickHouse
