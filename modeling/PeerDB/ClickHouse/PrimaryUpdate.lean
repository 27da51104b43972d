/-
Retracting the previous row of an update (`PEERDB_CLICKHOUSE_ENABLE_PRIMARY_UPDATE`).

With the option on, `BuildQuery` adds a second SELECT: every update with match data also
inserts a deleted row, one version older than the update, whose columns are read from the
match data.  The match data is the JSON of the old items, which is `{}` and never the
empty text when the source sent no old tuple.  A column that is missing there is read as
the default of its type, so the deleted row has the key of the old row only if each
ordering column is told by the old tuple and sent again in the new one, or happens to have
that default.
-/
import PeerDB.ClickHouse.Normalize
import PeerDB.Postgres.Backfill
import PeerDB.Postgres.Tuple

open Loop

namespace ClickHouse

open List

/-! ### The second SELECT -/

section Query

variable {V W : Type} {t : NormalizeQueryGenerator} {cols : List Projected}

/-- Both SELECTs fill the same columns. -/
theorem projection_fst (t : NormalizeQueryGenerator) (cols : List Projected)
    (json json' : JsonColumn) (isDeleted isDeleted' version version' : Expr) :
    (t.projection cols json isDeleted version).map Prod.fst =
      (t.projection cols json' isDeleted' version').map Prod.fst := by
  rw [NormalizeQueryGenerator.projection, NormalizeQueryGenerator.projection]
  simp only [map_append, map_map]
  rfl

/-- `BuildQuery` with the primary-update option. -/
theorem buildQuery_primaryUpdate (hcols : t.columns = .ok cols)
    (hupdate : t.enablePrimaryUpdate = true) :
    t.buildQuery = .ok
      { tableName := t.tableName
        columns := (t.projection cols .data .recordTypeDivTwo .timestamp).map Prod.fst
        selects := [⟨t.projection cols .data .recordTypeDivTwo .timestamp, false,
            t.lastNormBatchID, t.endBatchID, t.tableName⟩,
          ⟨t.projection cols .matchData .one .timestampMinusOne, true,
            t.lastNormBatchID, t.endBatchID, t.tableName⟩] } := by
  simp only [NormalizeQueryGenerator.buildQuery, hcols, hupdate]
  rfl

/-- The deleted row made of the match data of a raw row. -/
def NormalizeQueryGenerator.tombstone (t : NormalizeQueryGenerator) (cols : List Projected)
    (decode : Decoder → Option (Option V) → Option W) (r : RawRow V) : ChRow W :=
  insertRow ((t.projection cols .data .recordTypeDivTwo .timestamp).map Prod.fst)
    ((t.projection cols .matchData .one .timestampMinusOne).map fun p => p.2.eval decode r)

variable (decode : Decoder → Option (Option V) → Option W)
  (hnodup : ((t.projection cols .data .recordTypeDivTwo .timestamp).map Prod.fst).Nodup)

include hnodup

theorem tombstone_cell {p : String × Expr}
    (hp : p ∈ t.projection cols .matchData .one .timestampMinusOne) (r : RawRow V) :
    t.tombstone cols decode r p.1 = some (p.2.eval decode r) := by
  have hnames := projection_fst t cols .data .matchData .recordTypeDivTwo .one .timestamp
    .timestampMinusOne
  rw [NormalizeQueryGenerator.tombstone, hnames]
  exact lookup_zip_map (hnames ▸ hnodup) hp

theorem tombstone_column {col : Projected} (hcol : col ∈ cols) (r : RawRow V) :
    t.tombstone cols decode r col.dstColName =
      some (.value (decode col.decoder (r.matchData.bind fun items =>
        items.colToVal col.colName))) := by
  have hmem : (col.dstColName, Expr.column col.decoder .matchData col.colName) ∈
      t.projection cols .matchData .one .timestampMinusOne :=
    mem_append_left _ (mem_append_left _ (mem_map_of_mem hcol))
  exact tombstone_cell decode hnodup hmem r

theorem tombstone_isDeleted (r : RawRow V) :
    t.tombstone cols decode r t.isDeletedColName = some (.int 1) := by
  have hmem : (t.isDeletedColName, Expr.one) ∈
      t.projection cols .matchData .one .timestampMinusOne :=
    mem_append_right _ mem_cons_self
  exact tombstone_cell decode hnodup hmem r

end Query

/-! ### Which row is retracted -/

/-- The old tuple tells the value of a column, and the new one does not leave it out. -/
def TellsOld (tbl : SourceTable) (kind : OldTuple) (toasted : String → Bool) (c : String) : Prop :=
  toasted c = false ∧ (kind = .full ∨ kind = .key ∧ c ∈ tbl.identity)

/-- What the old items have for a column that is not told: a key tuple has NULL for it, but
not once the NULL was moved to the new items. -/
def untold (V : Type) (kind : OldTuple) (toasted : String → Bool) (c : String) :
    Option (Option V) :=
  if kind = .key ∧ toasted c = false then some none else none

theorem field_of_tellsOld {V : Type} {tbl : SourceTable} {kind : OldTuple}
    {toasted : String → Bool} {c : String} (h : TellsOld tbl kind toasted c) (old : Row V) :
    (if toasted c then none else (tbl.oldRow kind old).map fun row => row c) =
      some (old c) := by
  rw [h.1, if_neg Bool.false_ne_true]
  rcases h.2 with rfl | ⟨rfl, hmem⟩
  · rfl
  · show some (if c ∈ tbl.identity then old c else none) = _
    rw [if_pos hmem]

theorem field_of_not_tellsOld {V : Type} {tbl : SourceTable} {kind : OldTuple}
    {toasted : String → Bool} {c : String} (h : ¬ TellsOld tbl kind toasted c) (old : Row V) :
    (if toasted c then none else (tbl.oldRow kind old).map fun row => row c) =
      untold V kind toasted c := by
  rw [untold]
  cases htoast : toasted c with
  | true => simp
  | false =>
    rw [if_neg Bool.false_ne_true]
    cases kind with
    | absent => rfl
    | key =>
      have hmem : c ∉ tbl.identity := fun hmem => h ⟨htoast, Or.inr ⟨rfl, hmem⟩⟩
      rw [if_pos ⟨rfl, rfl⟩]
      show some (if c ∈ tbl.identity then old c else none) = _
      rw [if_neg hmem]
    | full => exact absurd ⟨htoast, Or.inl rfl⟩ h

section Retract

variable {D V W H : Type}

/-- A destination whose query retracts, ordered by some of its columns. -/
structure Destination.Retracts (d : Destination) : Prop where
  columns : d.generator.columns = .ok d.cols
  primaryUpdate : d.generator.enablePrimaryUpdate = true
  nodup : ((d.generator.projection d.cols .data .recordTypeDivTwo .timestamp).map Prod.fst).Nodup
  order : ∀ col ∈ d.order, col ∈ d.cols

/-- The ordering key of a source row, read from its own values. -/
def Destination.readKey (d : Destination) (decode : Decoder → Option (Option V) → Option W)
    (row : Row V) : List (Option (Cell W)) :=
  d.order.map fun col => some (.value (decode col.decoder (some (row col.colName))))

/-- The raw row of an update message: it is received, goes through the pull loop, and the
record it adds to the stream is written to the raw table. -/
def RawOfUpdate [DecidableEq H] (cfg : CDCConfig D V H)
    (truncate : String → String → Option V → Option V) (s : PullState V H) (lsn : LSN) (relID : ℕ)
    (oldTuple : Option (TupleData D)) (newTuple : TupleData D) (now : ℤ) (batchID : ℕ)
    (r : RawRow V) : Prop :=
  ∃ t s' rec, t.recv = .xLogData lsn (.row (.update relID oldTuple newTuple)) ∧
    receive cfg s t = .next s' ∧ s'.records.records = s.records.records ++ [rec] ∧
    recordToQRecordOrError truncate now batchID rec = .ok (some r)

variable [DecidableEq H] {cfg : CDCConfig D V H} {tbl : SourceTable} {s : PullState V H}
  {relID : ℕ} {tableName : String} {truncate : String → String → Option V → Option V}
  {lsn : LSN} {kind : OldTuple} {toasted : String → Bool} {old new : Row V}
  {oldTuple : Option (TupleData D)} {newTuple : TupleData D} {now : ℤ} {batchID : ℕ}
  {r : RawRow V}

theorem RawOfUpdate.matchData (ha : Announced cfg s.src tbl relID tableName)
    (hw : tbl.WritesUpdate cfg.proc kind toasted old new oldTuple newTuple)
    (hr : RawOfUpdate cfg truncate s lsn relID oldTuple newTuple now batchID r) :
    r.batchID = batchID ∧ r.recordType = 1 ∧
    r.destinationTableName = (cfg.nameAndExclude tableName).name ∧
    ∃ oldItems, r.matchData = some oldItems ∧ ∀ c, cfg.Wanted tbl tableName c →
      oldItems.colToVal c =
        if toasted c then none else (tbl.oldRow kind old).map fun row => row c := by
  obtain ⟨t, s', rec, hrecv, hreceive, hstream, hraw⟩ := hr
  obtain ⟨oldItems, newItems, unchanged, hrec, hitems, -⟩ := ha.processUpdateMessage_eq lsn hw
  have hhandle := receive_row hrecv hrec hreceive
  obtain ⟨newItems', unchanged', hadded⟩ := handleRow_oldItems hhandle
  have hsame : s.records.records ++ [rec] = s.records.records ++ [_] := hstream.symm.trans hadded
  obtain rfl := singleton_inj.mp (append_cancel_left hsame)
  cases hraw
  exact ⟨rfl, rfl, rfl, oldItems, rfl, fun c hc => (hitems c hc).1⟩

variable {decode : Decoder → Option (Option V) → Option W} {d : Destination}

omit [DecidableEq H] in
theorem mem_run_update (hd : d.Retracts) {q : InsertSelect} (hq : d.generator.buildQuery = .ok q)
    (hlow : d.generator.lastNormBatchID < r.batchID) (hhigh : r.batchID ≤ d.generator.endBatchID)
    (htype : r.recordType = 1) (htable : r.destinationTableName = d.generator.tableName)
    (hmatch : r.matchData.isSome) (row : ChRow W) :
    row ∈ q.run decode [r] ↔
      row = d.generator.row d.cols decode r ∨ row = d.generator.tombstone d.cols decode r := by
  rw [buildQuery_primaryUpdate hd.columns hd.primaryUpdate] at hq
  cases hq
  simp only [InsertSelect.run, Select.row, Select.selects, flatMap_cons, flatMap_nil,
    append_nil, mem_append, mem_map, mem_filter, mem_singleton]
  constructor
  · rintro (⟨_, ⟨rfl, -⟩, rfl⟩ | ⟨_, ⟨rfl, -⟩, rfl⟩)
    · exact Or.inl rfl
    · exact Or.inr rfl
  · rintro (rfl | rfl)
    · refine Or.inl ⟨r, ⟨rfl, ?_⟩, rfl⟩
      simp [hlow, hhigh, htable]
    · refine Or.inr ⟨r, ⟨rfl, ?_⟩, rfl⟩
      simp [hlow, hhigh, htable, hmatch, htype]

variable [DecidableEq W]

omit [DecidableEq H] in
theorem not_deleted_row (hd : d.Retracts) (htype : r.recordType = 1) :
    d.engine.deleted (d.generator.row d.cols decode r) = false := by
  have hcell : d.generator.row d.cols decode r d.engine.isDeletedColName = some (.int 0) := by
    have hflag := row_isDeleted decode hd.nodup r
    rw [htype] at hflag
    exact hflag
  rw [MergeTree.deleted, decide_eq_false_iff_not, hcell, Option.some.injEq, Cell.int.injEq]
  omega

omit [DecidableEq H] in
theorem deleted_tombstone (hd : d.Retracts) :
    d.engine.deleted (d.generator.tombstone d.cols decode r) = true :=
  decide_eq_true (tombstone_isDeleted decode hd.nodup r)

/-- **Retracted keys.**  The query retracts nothing but the row an update is about exactly
if for every ordering column the old tuple tells its value and the new one sends it again,
or what is read in its place is its value anyway. -/
theorem tombstone_own_key_iff (hd : d.Retracts) {q : InsertSelect}
    (hq : d.generator.buildQuery = .ok q) (ha : Announced cfg s.src tbl relID tableName)
    (htable : (cfg.nameAndExclude tableName).name = d.generator.tableName)
    (hwanted : ∀ col ∈ d.order, cfg.Wanted tbl tableName col.colName)
    (hw : tbl.WritesUpdate cfg.proc kind toasted old new oldTuple newTuple)
    (hr : RawOfUpdate cfg truncate s lsn relID oldTuple newTuple now batchID r)
    (hlow : d.generator.lastNormBatchID < batchID) (hhigh : batchID ≤ d.generator.endBatchID) :
    (∀ row ∈ q.run decode [r], d.engine.deleted row = true →
        d.engine.key row = d.readKey decode old) ↔
      ∀ col ∈ d.order, TellsOld tbl kind toasted col.colName ∨
        decode col.decoder (untold V kind toasted col.colName) =
          decode col.decoder (some (old col.colName)) := by
  obtain ⟨rfl, htype, hname, oldItems, hmatch, hfields⟩ := hr.matchData ha hw
  have hrows : ∀ row, row ∈ q.run decode [r] ↔ _ :=
    mem_run_update hd hq hlow hhigh htype (hname.trans htable) (Option.isSome_of_mem hmatch)
  have hkey : d.engine.key (d.generator.tombstone d.cols decode r) = d.order.map fun col =>
      some (.value (decode col.decoder (if toasted col.colName then none
        else (tbl.oldRow kind old).map fun row => row col.colName))) := by
    rw [MergeTree.key, Destination.engine, map_map]
    refine map_congr_left fun col hcol => ?_
    rw [Function.comp_apply, tombstone_column decode hd.nodup (hd.order col hcol), hmatch,
      Option.bind_some, hfields col.colName (hwanted col hcol)]
  have hown : (∀ row ∈ q.run decode [r], d.engine.deleted row = true →
      d.engine.key row = d.readKey decode old) ↔
      d.engine.key (d.generator.tombstone d.cols decode r) = d.readKey decode old := by
    constructor
    · intro hall
      exact hall _ ((hrows _).mpr (Or.inr rfl)) (deleted_tombstone hd)
    · intro heq row hmem hdel
      rcases (hrows row).mp hmem with rfl | rfl
      · rw [not_deleted_row hd htype] at hdel
        cases hdel
      · exact heq
  rw [hown, hkey, Destination.readKey, map_inj_left]
  refine forall₂_congr fun col _ => ?_
  rw [Option.some.injEq, Cell.value.injEq]
  by_cases htold : TellsOld tbl kind toasted col.colName
  · rw [field_of_tellsOld htold]
    exact ⟨fun _ => Or.inl htold, fun _ => rfl⟩
  · rw [field_of_not_tellsOld htold]
    exact ⟨Or.inr, fun hor => hor.resolve_left htold⟩

end Retract

/-! ### An update that keeps its key -/

def itemsRetracting : Destination :=
  { items with generator := { items.generator with enablePrimaryUpdate := true, endBatchID := 1 } }

theorem itemsRetracting_retracts : itemsRetracting.Retracts where
  columns := by rfl
  primaryUpdate := rfl
  nodup := by decide
  order := by decide

/-- The default replica identity. -/
def itemsSource : SourceTable := ⟨[{ name := "id" }, { name := "price" }], ["id"]⟩

def itemsConfig : CDCConfig ℕ ℕ (List UInt8) where
  proc :=
    { process := fun col tuple =>
        match tuple with
        | .null => .ok none
        | .text n => .ok (some n)
        | _ => .error s!"unknown column data type for column {col.name}"
      ofString := fun _ => 0
      originColumns := fun _ => [] }
  codec := { bytes := fun v => [UInt8.ofNat (v.getD 0)], hash := id }
  srcTableIDNameMapping := fun relID => if relID = 16 then some "public.items" else none
  tableNameMapping := fun name => if name = "public.items" then some { name := "items" } else none
  tableNameSchemaMapping := items.generator.tableNameSchemaMapping

/-- The relation message has come, nothing else. -/
def itemsStart : PullState ℕ (List UInt8) :=
  PullState.init { maxBatchSize := 10 }
    { relationMessageMapping := fun relID =>
        if relID = 16 then some ⟨16, itemsSource.columns⟩ else none
      childToParentRelIDMapping := fun _ => none
      commitLock := none }

theorem itemsStart_announced :
    Announced itemsConfig itemsStart.src itemsSource 16 "public.items" where
  table := rfl
  relation := ⟨⟨16, itemsSource.columns⟩, rfl, rfl⟩
  schemaName := ⟨"", rfl⟩

/-- A missing number is read as 0. -/
def readNumber (_ : Decoder) (field : Option (Option ℕ)) : Option ℕ := some (field.join.getD 0)

def itemsRow (id price : ℕ) : Row ℕ := (itemsOf id price).value

theorem itemsSource_writes {id price : ℕ} :
    itemsSource.Writes itemsConfig.proc (fun _ => false) (itemsRow id price)
      [.text id, .text price] := by
  refine ⟨fun col => if col.name = "id" then .text id else .text price, rfl, fun col hcol => ?_⟩
  rw [itemsSource, mem_cons, mem_singleton] at hcol
  rcases hcol with rfl | rfl <;> exact ⟨nofun, rfl⟩

/-- An update of the key, with the old key: item 7 becomes item 9. -/
theorem keyUpdate_retracts_own_key :
    ∃ r q, RawOfUpdate itemsConfig (fun _ _ v => v) itemsStart 1 16 (some [.text 7, .null])
        [.text 9, .text 6] 30 1 r ∧
      itemsRetracting.generator.buildQuery = .ok q ∧
      ∀ row ∈ q.run readNumber [r], itemsRetracting.engine.deleted row = true →
        itemsRetracting.engine.key row = itemsRetracting.readKey readNumber (itemsRow 7 6) := by
  have hw : itemsSource.WritesUpdate itemsConfig.proc .key (fun _ => false) (itemsRow 7 6)
      (itemsRow 9 6) (some [.text 7, .null]) [.text 9, .text 6] := by
    refine ⟨nofun, ⟨_, rfl, fun col => if col.name = "id" then .text 7 else .null, rfl,
      fun col hcol => ?_⟩, itemsSource_writes⟩
    rw [itemsSource, mem_cons, mem_singleton] at hcol
    rcases hcol with rfl | rfl <;> exact ⟨nofun, rfl⟩
  have hr : RawOfUpdate itemsConfig (fun _ _ v => v) itemsStart 1 16 (some [.text 7, .null])
      [.text 9, .text 6] 30 1 _ :=
    ⟨{ recv := .xLogData 1 (.row (.update 16 (some [.text 7, .null]) [.text 9, .text 6])) }, _, _,
      rfl, rfl, rfl, rfl⟩
  have hwanted : ∀ col ∈ itemsRetracting.order,
      itemsConfig.Wanted itemsSource "public.items" col.colName := by
    intro col hcol
    obtain rfl := mem_singleton.mp hcol
    refine ⟨by decide, by decide, ?_⟩
    rintro (⟨hoff, -⟩ | ⟨hoff, -⟩) <;> cases hoff
  have htold : ∀ col ∈ itemsRetracting.order,
      TellsOld itemsSource .key (fun _ => false) col.colName := by
    intro col hcol
    obtain rfl := mem_singleton.mp hcol
    exact ⟨rfl, Or.inr ⟨rfl, by decide⟩⟩
  refine ⟨_, _, hr, rfl, ?_⟩
  exact (tombstone_own_key_iff itemsRetracting_retracts rfl itemsStart_announced rfl hwanted hw hr
    (by decide) (by decide)).mpr fun col hcol => Or.inl (htold col hcol)

/-- An update of a price, without an old tuple since the key is the same: item 7 is updated,
and item 0 is retracted.  The table is that of the two inserts and the update. -/
theorem priceUpdate_retracts_other_row :
    ∃ r q, itemsSource.WritesUpdate itemsConfig.proc .absent (fun _ => false) (itemsRow 7 6)
        (itemsRow 7 8) none [.text 7, .text 8] ∧
      RawOfUpdate itemsConfig (fun _ _ v => v) itemsStart 1 16 none [.text 7, .text 8] 30 1 r ∧
      itemsRetracting.generator.buildQuery = .ok q ∧
      (∃ row ∈ q.run readNumber [r], itemsRetracting.engine.deleted row = true ∧
        itemsRetracting.engine.key row = itemsRetracting.readKey readNumber (itemsRow 0 5)) ∧
      itemsRetracting.readKey readNumber (itemsRow 0 5) ≠
        itemsRetracting.readKey readNumber (itemsRow 7 6) ∧
      ∀ inserts, stageBatch (fun _ _ v => v) 1
          [(.insert .zero (itemsOf 0 5) "public.items" "items", 10),
           (.insert .zero (itemsOf 7 6) "public.items" "items", 20)] = .ok inserts →
        (itemsRetracting.engine.view (q.run readNumber inserts)
          (itemsRetracting.readKey readNumber (itemsRow 0 5))).isSome ∧
        (itemsRetracting.engine.view (q.run readNumber (inserts ++ [r]))
          (itemsRetracting.readKey readNumber (itemsRow 0 5))) = none := by
  refine ⟨_, _, ⟨nofun, rfl, itemsSource_writes⟩,
    ⟨{ recv := .xLogData 1 (.row (.update 16 none [.text 7, .text 8])) }, _, _, rfl, rfl, rfl, rfl⟩,
    rfl, ⟨_, mem_append_right _ mem_cons_self, by decide, by decide⟩, by decide, ?_⟩
  intro inserts hinserts
  cases hinserts
  refine ⟨by decide +kernel, Option.isNone_iff_eq_none.mp (by decide +kernel)⟩

end ClickHouse
