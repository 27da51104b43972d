/-
Normalizing into ClickHouse: the table is the replayed source.

The rows a query inserts carry the timestamps of their raw rows as versions, so the
table is a log that is read without its order: whichever queries ran, in whichever
order and how often, the newest row of a key is the one of its last record
(`view_eq`, from `KeyedLog.newestOf_last`).  With complete records that record alone
decides the row of the source (`Table.replay_last`), and so the view is the source.

Values are compared as ClickHouse holds them: `stored` is a source value after
truncation and decoding.  The ordering key has to tell the keys of the source apart
(`Holds`).
-/
import PeerDB.ClickHouse.Query

open Loop KeyedLog

namespace ClickHouse

open List

/-! ### Staged batches -/

section Staged

variable {V : Type} (truncate : String → String → Option V → Option V)

/-- The data of the raw row of a record; a delete is not truncated. -/
def rawData (rec : Record V) : Items V :=
  if rec.kind = .delete then rec.getItems
  else truncateNumerics (truncate rec.getDestinationTableName) rec.getItems

def rawOf (now : ℤ) (batchID : ℕ) (rec : Record V) : RawRow V where
  timestamp := now
  destinationTableName := rec.getDestinationTableName
  data := rawData truncate rec
  recordType := rec.rawType
  matchData := match rec with
    | .update _ oldItems _ _ _ _ => some oldItems
    | .delete _ items _ _ _ => some items
    | _ => none
  batchID := batchID
  unchangedToastColumns := match rec with
    | .update _ _ _ unchanged _ _ => keysToString unchanged
    | .delete _ _ unchanged _ _ => keysToString unchanged
    | _ => ""

theorem rawData_delete {rec : Record V} (hkind : rec.kind = .delete) :
    rawData truncate rec = rec.getItems := if_pos hkind

theorem rawData_sent {rec : Record V} (hkind : rec.kind ≠ .delete) {c : String}
    (hsent : (rec.getItems.colToVal c).isSome) : (rawData truncate rec).colToVal c =
      some (truncate rec.getDestinationTableName c (rec.getItems.value c)) := by
  rw [rawData, if_neg hkind]
  show (rec.getItems.colToVal c).map _ = _
  rw [Items.colToVal_of_isSome hsent, Option.map_some]

theorem recordToQRecordOrError_eq (now : ℤ) (batchID : ℕ) {rec : Record V} (hrow : rec.isRow) :
    recordToQRecordOrError truncate now batchID rec =
      .ok (some (rawOf truncate now batchID rec)) := by
  cases rec with
  | insert | update | delete => rfl
  | relation | message => cases hrow

/-- A record in the raw table: with its timestamp and its batch. -/
structure Entry (V : Type) where
  record : Record V
  timestamp : ℤ
  batchID : ℕ

def Entry.raw (x : Entry V) : RawRow V := rawOf truncate x.timestamp x.batchID x.record

/-- The records of consecutive batches, in order. -/
def entries (start : ℕ) (batches : List (List (Record V × ℤ))) : List (Entry V) :=
  (batches.zipIdx (start + 1)).flatMap fun b => b.1.map fun r => ⟨r.1, r.2, b.2⟩

variable {truncate} {start : ℕ} {batches : List (List (Record V × ℤ))}

theorem stageBatch_eq (batchID : ℕ) {records : List (Record V × ℤ)}
    (hrows : ∀ r ∈ records, r.1.isRow) :
    stageBatch truncate batchID records =
      .ok ((records.map fun r => (⟨r.1, r.2, batchID⟩ : Entry V)).map (Entry.raw truncate)) := by
  have hraw : ∀ r ∈ records, recordToQRecordOrError truncate r.2 batchID r.1 =
      .ok (some (rawOf truncate r.2 batchID r.1)) :=
    fun r hr => recordToQRecordOrError_eq truncate _ _ (hrows r hr)
  rw [map_map]
  exact mapM_reduceOption hraw

theorem stageBatches_eq (hrows : ∀ batch ∈ batches, ∀ r ∈ batch, r.1.isRow) :
    stageBatches truncate start batches =
      .ok ((entries start batches).map (Entry.raw truncate)) := by
  have hstage : ∀ b ∈ batches.zipIdx (start + 1), stageBatch truncate b.2 b.1 =
      .ok ((b.1.map fun r => (⟨r.1, r.2, b.2⟩ : Entry V)).map (Entry.raw truncate)) :=
    fun b hb => stageBatch_eq b.2 (hrows b.1 (fst_mem_of_mem_zipIdx hb))
  rw [stageBatches, mapM_eq_ok hstage, entries, map_flatMap, List.flatMap]
  rfl

theorem entries_map {β : Type} (f : Record V × ℤ → β) (g : Entry V → β)
    (h : ∀ r b, g ⟨r.1, r.2, b⟩ = f r) :
    (entries start batches).map g = batches.flatten.map f := by
  have hbatch : ∀ b : List (Record V × ℤ) × ℕ,
      (b.1.map fun r => (⟨r.1, r.2, b.2⟩ : Entry V)).map g = b.1.map f := by
    intro b
    rw [map_map]
    exact map_congr_left fun r _ => h r b.2
  rw [entries, map_flatMap, flatMap_congr fun b _ => hbatch b, map_flatten]
  conv_rhs => rw [← zipIdx_map_fst (start + 1) batches, map_map]
  rfl

theorem entries_batchID {x : Entry V} (h : x ∈ entries start batches) :
    start < x.batchID ∧ x.batchID ≤ start + batches.length := by
  obtain ⟨b, hb, hx⟩ := mem_flatMap.mp h
  obtain ⟨r, -, rfl⟩ := mem_map.mp hx
  have hlow := le_snd_of_mem_zipIdx hb
  have hhigh := snd_lt_add_of_mem_zipIdx hb
  constructor
  · show start < b.2
    omega
  · show b.2 ≤ start + batches.length
    omega

end Staged

/-! ### The view of an append-only table -/

section View

variable {W : Type} [DecidableEq W] (e : MergeTree)

/-- **The view.**  A table that has the rows of a log with increasing versions, each at
least once and in any order, on top of older rows, shows the last row of the log for
every key that is in it. -/
theorem view_eq {l old new : List (ChRow W)}
    (hsorted : l.Pairwise fun a b => MergeTree.version a < MergeTree.version b)
    (hold : ∀ r ∈ old, ∀ a ∈ l, MergeTree.version r < MergeTree.version a)
    (hnew : ∀ r, r ∈ new ↔ r ∈ l) (k : List (Option (Cell W))) :
    e.view (old ++ new) k =
      match last e.key k l with
      | some r => if e.deleted r then none else some r
      | none => e.view old k := by
  cases hlast : last e.key k l with
  | some r =>
    have hmax := newestOf_last hsorted (m := old ++ new)
      (fun a ha => mem_append_right old ((hnew a).mpr ha))
      (fun b hb => (mem_append.mp hb).elim (fun hb => Or.inr (hold b hb))
        fun hb => Or.inl ((hnew b).mp hb)) hlast
    rw [MergeTree.view, hmax]
    cases hdel : e.deleted r with
    | true | false => simp [Option.filter, hdel]
  | none =>
    have hnone : new.filter (fun r => decide (e.key r = k)) = [] := by
      rw [filter_eq_nil_iff]
      intro r hr hk
      exact last_none hlast r ((hnew r).mp hr) (of_decide_eq_true hk)
    rw [MergeTree.view, filter_append, hnone, append_nil]
    rfl

end View

theorem MergeTree.view_some {W : Type} [DecidableEq W] {e : MergeTree} {rows : List (ChRow W)}
    {k : List (Option (Cell W))} {r : ChRow W} (h : e.view rows k = some r) :
    r ∈ rows ∧ e.key r = k := by
  rw [view, Option.filter_eq_some_iff] at h
  have hmem := newestOf_mem h.1
  rw [mem_filter, decide_eq_true_eq] at hmem
  exact hmem

/-! ### The source as ClickHouse holds it -/

section Mirror

variable {V W : Type} (truncate : String → String → Option V → Option V)
  (decode : Decoder → Option (Option V) → Option W)

/-- A column of a source row, as the destination holds it. -/
def stored (dst : String) (col : Projected) (row : Row V) : Cell W :=
  .value (decode col.decoder (some (truncate dst col.colName (row col.colName))))

/-- A destination table and the source table it mirrors: what the query inserts, and the
columns the table is ordered by. -/
structure Destination where
  generator : NormalizeQueryGenerator
  cols : List Projected
  order : List Projected
  source : TableShape

namespace Destination

variable (d : Destination)

def engine : MergeTree := ⟨d.order.map Projected.dstColName, d.generator.isDeletedColName⟩

/-- The ordering key of a source row. -/
def storedKey (row : Row V) : List (Option (Cell W)) :=
  d.order.map fun col => some (stored truncate decode d.source.name col row)

/-- The query can be built and is accepted, and the table is ordered by columns of the
key. -/
structure WF : Prop where
  columns : d.generator.columns = .ok d.cols
  name : d.generator.tableName = d.source.name
  primaryUpdate : d.generator.enablePrimaryUpdate = false
  nodup : ((d.generator.projection d.cols .data .recordTypeDivTwo .timestamp).map Prod.fst).Nodup
  sent : ∀ col ∈ d.cols, col.colName ∈ d.source.columns
  keys : ∀ c ∈ d.source.keyColumns, c ∈ d.source.columns
  order : ∀ col ∈ d.order, col ∈ d.cols ∧ col.colName ∈ d.source.keyColumns

/-- What is asked of decoding on the keys `K`: reading a key gives the same whether it was
truncated before or not, and different keys stay different. -/
structure Holds (K : List (Option V) → Prop) : Prop where
  truncated : ∀ row : Row V, K (d.source.key row) → ∀ col ∈ d.order,
    decode col.decoder (some (truncate d.source.name col.colName (row col.colName))) =
      decode col.decoder (some (row col.colName))
  injective : ∀ row row' : Row V, K (d.source.key row) → K (d.source.key row') →
    d.storedKey truncate decode row = d.storedKey truncate decode row' →
    d.source.key row = d.source.key row'

/-- The view has the rows of a table and no others. -/
structure Mirrors (view : List (Option (Cell W)) → Option (ChRow W)) (t : Table V) : Prop where
  rows : ∀ k row, t k = some row → ∃ r, view (d.storedKey truncate decode row) = some r ∧
    ∀ col ∈ d.cols, r col.dstColName = some (stored truncate decode d.source.name col row)
  only : ∀ k r, view k = some r →
    ∃ k' row, t k' = some row ∧ d.storedKey truncate decode row = k

variable {d} {truncate decode}

theorem storedKey_congr (hd : d.WF) {row row' : Row V} (h : d.source.key row = d.source.key row') :
    d.storedKey truncate decode row = d.storedKey truncate decode row' := by
  have hval : ∀ c ∈ d.source.keyColumns, row c = row' c := map_inj_left.mp h
  refine map_congr_left fun col hcol => ?_
  rw [stored, stored, hval col.colName (hd.order col hcol).2]

theorem key_eq_iff (hd : d.WF) {K : List (Option V) → Prop} (hK : d.Holds truncate decode K)
    {row row' : Row V} (hrow : K (d.source.key row)) (hrow' : K (d.source.key row')) :
    d.storedKey truncate decode row = d.storedKey truncate decode row' ↔
      d.source.key row = d.source.key row' :=
  ⟨hK.injective row row' hrow hrow', storedKey_congr hd⟩

/-! ### The row of a record -/

variable (d) (truncate decode) in
/-- The row a record becomes. -/
def row (x : Entry V) : ChRow W := d.generator.row d.cols decode (x.raw truncate)

theorem row_stored (hd : d.WF) {x : Entry V}
    (hname : x.record.getDestinationTableName = d.source.name) (hsent : d.source.Sent x.record)
    (hkind : x.record.kind ≠ .delete) {col : Projected} (hcol : col ∈ d.cols) :
    d.row truncate decode x col.dstColName =
      some (stored truncate decode d.source.name col x.record.getItems.value) := by
  have hval := rawData_sent truncate hkind (hsent.columns hkind col.colName (hd.sent col hcol))
  rw [hname] at hval
  rw [row, row_column decode hd.nodup hcol, stored, ← hval]
  rfl

theorem key_row (hd : d.WF) {x : Entry V}
    (hname : x.record.getDestinationTableName = d.source.name) (hsent : d.source.Sent x.record)
    {K : List (Option V) → Prop} (hK : d.Holds truncate decode K)
    (hkey : K (d.source.recordKey x.record)) :
    d.engine.key (d.row truncate decode x) =
      d.storedKey truncate decode x.record.getItems.value := by
  rw [MergeTree.key, engine, storedKey, map_map]
  refine map_congr_left fun col hcol => ?_
  obtain ⟨hmem, hcolumn⟩ := hd.order col hcol
  by_cases hkind : x.record.kind = .delete
  · -- the key of a delete is not truncated, but decoded all the same
    have hval : (rawData truncate x.record).colToVal col.colName =
        some (x.record.getItems.value col.colName) := by
      rw [rawData_delete truncate hkind]
      exact Items.colToVal_of_isSome (hsent.key col.colName hcolumn)
    rw [Function.comp_apply, row, row_column decode hd.nodup hmem, stored,
      hK.truncated _ hkey col hcol, ← hval]
    rfl
  · exact row_stored hd hname hsent hkind hmem

theorem deleted_row [DecidableEq W] (hd : d.WF) (x : Entry V) :
    d.engine.deleted (d.row truncate decode x) = decide (x.record.kind = .delete) := by
  have hcell : d.row truncate decode x d.engine.isDeletedColName =
      some (.int (x.record.rawType / 2 : ℕ)) := row_isDeleted decode hd.nodup _
  have hle : x.record.rawType ≤ 2 := by
    cases x.record <;> simp [Record.rawType]
  rw [MergeTree.deleted, decide_eq_decide, hcell, Option.some.injEq, Cell.int.injEq,
    ← Record.rawType_eq_two]
  omega

/-! ### The log of a table -/

section Log

variable [DecidableEq V] {before after : Table V} {log : List (Entry V)}

variable (d before) in
/-- A run of the source that the destination can follow: complete records with increasing
timestamps, and keys that fit. -/
structure Follows (truncate : String → String → Option V → Option V)
    (decode : Decoder → Option (Option V) → Option W) (log : List (Entry V)) (after : Table V) :
    Prop where
  valid : runs (Table.replay d.source) before (log.map Entry.record) = some after
  keyed : d.source.Keyed before
  complete : ∀ x ∈ log, x.record.getDestinationTableName = d.source.name →
    x.record.unchangedColumns = []
  increasing : log.Pairwise fun x y => x.timestamp < y.timestamp
  holds : d.Holds truncate decode (d.source.Occurs before (log.map Entry.record))

variable (d) in
/-- The entries of the table. -/
def entriesOf (log : List (Entry V)) : List (Entry V) :=
  log.filter fun x => decide (x.record.getDestinationTableName = d.source.name)

omit [DecidableEq V] in
theorem mem_entriesOf {x : Entry V} : x ∈ d.entriesOf log ↔
    x ∈ log ∧ x.record.getDestinationTableName = d.source.name := by
  rw [entriesOf, mem_filter, decide_eq_true_eq]

omit [DecidableEq V] in
theorem occurs_of_mem {x : Entry V} (hx : x ∈ d.entriesOf log) :
    d.source.Occurs before (log.map Entry.record) (d.source.recordKey x.record) := by
  obtain ⟨hmem, hname⟩ := mem_entriesOf.mp hx
  exact Or.inr ⟨x.record, mem_map_of_mem hmem, hname, rfl⟩

namespace Follows

variable (h : d.Follows before truncate decode log after)

include h

theorem sent (hd : d.WF) {x : Entry V} (hx : x ∈ d.entriesOf log) : d.source.Sent x.record := by
  obtain ⟨hmem, hname⟩ := mem_entriesOf.mp hx
  have hforall : ∀ rec ∈ log.map Entry.record, rec.getDestinationTableName = d.source.name →
      rec.unchangedColumns = [] → d.source.Sent rec :=
    runs_forall (fun _ _ _ hstep hname hcomplete =>
      Table.replay_sent hd.keys hstep hname hcomplete) h.valid
  exact hforall x.record (mem_map_of_mem hmem) hname (h.complete x hmem hname)

theorem key_row (hd : d.WF) {x : Entry V} (hx : x ∈ d.entriesOf log) :
    d.engine.key (d.row truncate decode x) =
      d.storedKey truncate decode x.record.getItems.value :=
  Destination.key_row hd (mem_entriesOf.mp hx).2 (h.sent hd hx) h.holds (occurs_of_mem hx)

theorem key_row_iff (hd : d.WF) {x : Entry V} (hx : x ∈ d.entriesOf log) {row : Row V}
    (hrow : d.source.Occurs before (log.map Entry.record) (d.source.key row)) :
    d.engine.key (d.row truncate decode x) = d.storedKey truncate decode row ↔
      d.source.recordKey x.record = d.source.key row := by
  rw [h.key_row hd hx]
  exact key_eq_iff hd h.holds (occurs_of_mem hx) hrow

theorem after_eq (k : List (Option V)) :
    after k = match last (d.source.recordKey ∘ Entry.record) k (d.entriesOf log) with
      | some x => if x.record.kind = .delete then none else some x.record.getItems.value
      | none => before k := by
  have hcomplete : ∀ rec ∈ log.map Entry.record, rec.getDestinationTableName = d.source.name →
      rec.unchangedColumns = [] := by
    intro rec hrec
    obtain ⟨x, hx, rfl⟩ := mem_map.mp hrec
    exact h.complete x hx
  have hfilter : (log.map Entry.record).filter
      (fun rec => decide (rec.getDestinationTableName = d.source.name)) =
      (d.entriesOf log).map Entry.record := filter_map ..
  rw [Table.replay_last hcomplete h.valid k, hfilter, last_map]
  cases last (d.source.recordKey ∘ Entry.record) k (d.entriesOf log) with
  | none => rfl
  | some x => rfl

theorem last_row [DecidableEq W] (hd : d.WF) {row : Row V}
    (hrow : d.source.Occurs before (log.map Entry.record) (d.source.key row)) :
    last (d.engine.key ∘ d.row truncate decode) (d.storedKey truncate decode row)
        (d.entriesOf log) =
      last (d.source.recordKey ∘ Entry.record) (d.source.key row) (d.entriesOf log) :=
  last_congr fun _ hx => h.key_row_iff hd hx hrow

theorem occurs_before {k : List (Option V)} {row : Row V} (hrow : before k = some row) :
    d.source.key row = k ∧ d.source.Occurs before (log.map Entry.record) (d.source.key row) := by
  have hkey := h.keyed.key k row hrow
  exact ⟨hkey, Or.inl ⟨row, hkey ▸ hrow⟩⟩

/-- What the table shows for an ordering key, by its last entry. -/
theorem view_eq [DecidableEq W] (hd : d.WF) {old new : List (ChRow W)}
    (hold : ∀ r ∈ old, ∀ x ∈ d.entriesOf log, MergeTree.version r < x.timestamp)
    (hnew : ∀ r, r ∈ new ↔ r ∈ (d.entriesOf log).map (d.row truncate decode))
    (k : List (Option (Cell W))) :
    d.engine.view (old ++ new) k =
      match last (d.engine.key ∘ d.row truncate decode) k (d.entriesOf log) with
      | some x => if x.record.kind = .delete then none else some (d.row truncate decode x)
      | none => d.engine.view old k := by
  have hversion : ∀ x : Entry V, MergeTree.version (d.row truncate decode x) = x.timestamp :=
    fun x => row_version decode hd.nodup _
  have hsorted : ((d.entriesOf log).map (d.row truncate decode)).Pairwise fun a b =>
      MergeTree.version a < MergeTree.version b := by
    rw [pairwise_map]
    refine (h.increasing.filter _).imp fun hlt => ?_
    rw [hversion, hversion]
    exact hlt
  have holder : ∀ r ∈ old, ∀ a ∈ (d.entriesOf log).map (d.row truncate decode),
      MergeTree.version r < MergeTree.version a := by
    intro r hr a ha
    obtain ⟨x, hx, rfl⟩ := mem_map.mp ha
    rw [hversion]
    exact hold r hr x hx
  rw [ClickHouse.view_eq d.engine hsorted holder hnew k, last_map]
  cases last (d.engine.key ∘ d.row truncate decode) k (d.entriesOf log) with
  | none => rfl
  | some x =>
    show (if d.engine.deleted (d.row truncate decode x) then none else _) = _
    rw [deleted_row hd]
    simp only [decide_eq_true_eq]

end Follows

/-- **The view is the source.**  If the table holds a row for each entry of the log, and
besides only older rows that showed the source before, it shows the source after. -/
theorem mirrors_of_follows [DecidableEq W] (hd : d.WF)
    (h : d.Follows before truncate decode log after) {old new : List (ChRow W)}
    (hmirrors : d.Mirrors truncate decode (d.engine.view old) before)
    (hold : ∀ r ∈ old, ∀ x ∈ d.entriesOf log, MergeTree.version r < x.timestamp)
    (hnew : ∀ r, r ∈ new ↔ r ∈ (d.entriesOf log).map (d.row truncate decode)) :
    d.Mirrors truncate decode (d.engine.view (old ++ new)) after := by
  have hview := h.view_eq hd hold hnew
  constructor
  · intro k row hrow
    rw [h.after_eq k] at hrow
    cases hx : last (d.source.recordKey ∘ Entry.record) k (d.entriesOf log) with
    | none =>
      rw [hx] at hrow
      obtain ⟨rfl, hocc⟩ := h.occurs_before hrow
      rw [hview, h.last_row hd hocc, hx]
      exact hmirrors.rows _ row hrow
    | some x =>
      simp only [hx, Option.ite_none_left_eq_some] at hrow
      obtain ⟨hkind, hval⟩ := hrow
      cases hval
      obtain ⟨hmem, rfl⟩ := last_some hx
      have hlast : last (d.engine.key ∘ d.row truncate decode)
          (d.storedKey truncate decode x.record.getItems.value) (d.entriesOf log) = some x :=
        (h.last_row hd (occurs_of_mem hmem)).trans hx
      refine ⟨d.row truncate decode x, ?_, fun col hcol =>
        row_stored hd (mem_entriesOf.mp hmem).2 (h.sent hd hmem) hkind hcol⟩
      rw [hview, hlast]
      exact if_neg hkind
  · intro k r hr
    rw [hview k] at hr
    cases hx : last (d.engine.key ∘ d.row truncate decode) k (d.entriesOf log) with
    | none =>
      rw [hx] at hr
      obtain ⟨k', row, hrow, rfl⟩ := hmirrors.only k r hr
      obtain ⟨rfl, hocc⟩ := h.occurs_before hrow
      rw [h.last_row hd hocc] at hx
      refine ⟨d.source.key row, row, ?_, rfl⟩
      rw [h.after_eq, hx]
      exact hrow
    | some x =>
      simp only [hx, Option.ite_none_left_eq_some] at hr
      obtain ⟨hmem, hkey⟩ := last_some hx
      have hstored : d.storedKey truncate decode x.record.getItems.value = k :=
        (h.key_row hd hmem).symm.trans hkey
      subst hstored
      rw [h.last_row hd (occurs_of_mem hmem)] at hx
      refine ⟨d.source.key x.record.getItems.value, x.record.getItems.value, ?_, rfl⟩
      rw [h.after_eq, hx]
      exact if_neg hr.1

end Log

end Destination

end Mirror

/-! ### Executing the queries -/

def NormalizeQueryGenerator.forRange (t : NormalizeQueryGenerator) (g : ℕ × ℕ) :
    NormalizeQueryGenerator :=
  { t with lastNormBatchID := g.1, endBatchID := g.2 }

section Execute

variable {V W : Type} {truncate : String → String → Option V → Option V}
  {decode : Decoder → Option (Option V) → Option W} {d : Destination}

/-- The rows inserted by the queries of some ranges, one after the other. -/
def execute (t : NormalizeQueryGenerator) (decode : Decoder → Option (Option V) → Option W)
    (raw : List (RawRow V)) (ranges : List (ℕ × ℕ)) : Except String (List (ChRow W)) := do
  let queries ← ranges.mapM fun g => (t.forRange g).buildQuery
  return queries.flatMap fun q => q.run decode raw

def inRange (tableName : String) (g : ℕ × ℕ) (r : RawRow V) : Bool :=
  decide (g.1 < r.batchID) && decide (r.batchID ≤ g.2) &&
    decide (r.destinationTableName = tableName)

/-- The query of a range. -/
def Destination.query (d : Destination) (g : ℕ × ℕ) : InsertSelect where
  tableName := d.generator.tableName
  columns := (d.generator.projection d.cols .data .recordTypeDivTwo .timestamp).map Prod.fst
  selects := [⟨d.generator.projection d.cols .data .recordTypeDivTwo .timestamp, false, g.1, g.2,
    d.generator.tableName⟩]

theorem buildQuery_forRange (hd : d.WF) (g : ℕ × ℕ) :
    (d.generator.forRange g).buildQuery = .ok (d.query g) :=
  buildQuery_eq hd.columns hd.primaryUpdate

theorem query_run (hd : d.WF) (g : ℕ × ℕ) (raw : List (RawRow V)) : (d.query g).run decode raw =
    (raw.filter (inRange d.source.name g)).map (d.generator.row d.cols decode) := by
  rw [InsertSelect.run, Destination.query, flatMap_singleton, ← hd.name]
  congr 1
  refine filter_congr fun r _ => ?_
  rw [Select.selects, inRange, Bool.not_false, Bool.true_or, Bool.and_true]

theorem execute_eq (hd : d.WF) (raw : List (RawRow V)) (ranges : List (ℕ × ℕ)) :
    execute d.generator decode raw ranges =
      .ok (ranges.flatMap fun g => (d.query g).run decode raw) := by
  rw [execute, mapM_eq_ok fun g _ => buildQuery_forRange hd g]
  show Except.ok ((ranges.map d.query).flatMap _) = _
  rw [flatMap_map]

/-- Consecutive groups of batches, by the last batch of each. -/
def groups : ℕ → List ℕ → List (ℕ × ℕ)
  | _, [] => []
  | lastNormBatchID, endBatchID :: ends =>
    (lastNormBatchID, endBatchID) :: groups endBatchID ends

theorem groups_cover {id : ℕ} : ∀ {ends : List ℕ} {start : ℕ}, start < id →
    id ≤ ends.getLastD start → ∃ g ∈ groups start ends, g.1 < id ∧ id ≤ g.2 := by
  intro ends
  induction ends with
  | nil =>
    intro start hlow hhigh
    exact absurd hhigh (Nat.not_le_of_lt hlow)
  | cons endBatchID ends ih =>
    intro start hlow hhigh
    by_cases hfirst : id ≤ endBatchID
    · exact ⟨(start, endBatchID), mem_cons_self, hlow, hfirst⟩
    · rw [getLastD_cons] at hhigh
      obtain ⟨g, hg, hcover⟩ := ih (Nat.lt_of_not_le hfirst) hhigh
      exact ⟨g, mem_cons_of_mem _ hg, hcover⟩

variable {start : ℕ} {batches : List (List (Record V × ℤ))} {before after : Table V}

theorem mem_executed (hd : d.WF) {ranges : List (ℕ × ℕ)}
    (hcover : ∀ x ∈ entries start batches, ∃ g ∈ ranges, g.1 < x.batchID ∧ x.batchID ≤ g.2)
    (r : ChRow W) :
    r ∈ ranges.flatMap (fun g =>
        (d.query g).run decode ((entries start batches).map (Entry.raw truncate))) ↔
      r ∈ (d.entriesOf (entries start batches)).map (d.row truncate decode) := by
  simp only [mem_flatMap, query_run hd, mem_map, mem_filter,
    Destination.mem_entriesOf]
  constructor
  · rintro ⟨g, -, raw, ⟨⟨x, hx, rfl⟩, hrange⟩, rfl⟩
    rw [inRange, Bool.and_eq_true, decide_eq_true_eq] at hrange
    exact ⟨x, ⟨hx, hrange.2⟩, rfl⟩
  · rintro ⟨x, ⟨hx, hname⟩, rfl⟩
    obtain ⟨g, hg, hlow, hhigh⟩ := hcover x hx
    refine ⟨g, hg, x.raw truncate, ⟨⟨x, hx, rfl⟩, ?_⟩, rfl⟩
    have hdst : (x.raw truncate).destinationTableName = d.source.name := hname
    have hbatch : (x.raw truncate).batchID = x.batchID := rfl
    rw [inRange, hdst, hbatch, decide_eq_true hlow, decide_eq_true hhigh, decide_eq_true rfl]
    rfl

variable [DecidableEq V]

theorem follows_entries (start : ℕ) (hkeyed : d.source.Keyed before)
    (hvalid : runs (Table.replay d.source) before (batches.flatten.map Prod.fst) = some after)
    (hcomplete : ∀ r ∈ batches.flatten, r.1.getDestinationTableName = d.source.name →
      r.1.unchangedColumns = [])
    (hclock : (batches.flatten.map Prod.snd).Pairwise fun a b => a < b)
    (hholds : d.Holds truncate decode
      (d.source.Occurs before (batches.flatten.map Prod.fst))) :
    d.Follows before truncate decode (entries start batches) after := by
  have hrecords : (entries start batches).map Entry.record = batches.flatten.map Prod.fst :=
    entries_map Prod.fst Entry.record fun _ _ => rfl
  have hclocks : (entries start batches).map Entry.timestamp = batches.flatten.map Prod.snd :=
    entries_map Prod.snd Entry.timestamp fun _ _ => rfl
  have hmem : ∀ x ∈ entries start batches, ∃ r ∈ batches.flatten, r.1 = x.record := by
    intro x hx
    have hrec : x.record ∈ batches.flatten.map Prod.fst := hrecords ▸ mem_map_of_mem hx
    exact mem_map.mp hrec
  refine ⟨hrecords ▸ hvalid, hkeyed, fun x hx hname => ?_, ?_, hrecords ▸ hholds⟩
  · obtain ⟨r, hr, hrec⟩ := hmem x hx
    rw [← hrec] at hname ⊢
    exact hcomplete r hr hname
  · rw [← hclocks, pairwise_map] at hclock
    exact hclock

variable [DecidableEq W]

/-- **Normalizing is replaying.**  A source table goes through consecutive batches of
complete records with increasing timestamps; the destination showed the table before
them with older versions.  The queries of any division of the batches into consecutive
groups are executed, in any order and each at least once.  Then the destination shows
the table after the batches. -/
theorem normalize_eq_replay (hd : d.WF) (hkeyed : d.source.Keyed before)
    (hrows : ∀ r ∈ batches.flatten, r.1.isRow)
    (hvalid : runs (Table.replay d.source) before (batches.flatten.map Prod.fst) = some after)
    (hcomplete : ∀ r ∈ batches.flatten, r.1.getDestinationTableName = d.source.name →
      r.1.unchangedColumns = [])
    (hclock : (batches.flatten.map Prod.snd).Pairwise fun a b => a < b)
    (hholds : d.Holds truncate decode
      (d.source.Occurs before (batches.flatten.map Prod.fst)))
    {old : List (ChRow W)} (hmirrors : d.Mirrors truncate decode (d.engine.view old) before)
    (hold : ∀ r ∈ old, ∀ x ∈ batches.flatten, MergeTree.version r < x.2)
    {ends : List ℕ} (hends : ends.getLastD start = start + batches.length)
    {executed : List (ℕ × ℕ)} (hexecuted : ∀ g ∈ groups start ends, g ∈ executed) :
    ∃ raw new, stageBatches truncate start batches = .ok raw ∧
      execute d.generator decode raw executed = .ok new ∧
      d.Mirrors truncate decode (d.engine.view (old ++ new)) after := by
  have hfollows := follows_entries start hkeyed hvalid hcomplete hclock hholds
  have hstaged : ∀ batch ∈ batches, ∀ r ∈ batch, r.1.isRow :=
    fun batch hbatch r hr => hrows r (mem_flatten_of_mem hbatch hr)
  -- no entry is left out by the ranges that were executed
  have hcover : ∀ x ∈ entries start batches, ∃ g ∈ executed, g.1 < x.batchID ∧ x.batchID ≤ g.2 := by
    intro x hx
    obtain ⟨hlow, hhigh⟩ := entries_batchID hx
    obtain ⟨g, hg, hin⟩ := groups_cover hlow (hends ▸ hhigh)
    exact ⟨g, hexecuted g hg, hin⟩
  -- what was there before loses against every entry
  have holder : ∀ r ∈ old, ∀ x ∈ d.entriesOf (entries start batches),
      MergeTree.version r < x.timestamp := by
    intro r hr x hx
    have hclocks : (entries start batches).map Entry.timestamp = batches.flatten.map Prod.snd :=
      entries_map Prod.snd Entry.timestamp fun _ _ => rfl
    have hmem : x.timestamp ∈ batches.flatten.map Prod.snd :=
      hclocks ▸ mem_map_of_mem (Destination.mem_entriesOf.mp hx).1
    obtain ⟨y, hy, hval⟩ := mem_map.mp hmem
    exact hval ▸ hold r hr y hy
  exact ⟨_, _, stageBatches_eq hstaged, execute_eq hd _ executed,
    Destination.mirrors_of_follows hd hfollows hmirrors holder (mem_executed hd hcover)⟩

end Execute

/-! ### Two batches and three queries -/

def itemsSchema : TableSchema where
  columns := [⟨"id", "int64", -1, false, "", none⟩, ⟨"price", "int64", -1, true, "", none⟩]
  primaryKeyColumns := ["id"]

/-- A destination with a renamed column. -/
def items : Destination where
  generator :=
    { tableName := "items"
      tableNameSchemaMapping := fun name => if name = "items" then some itemsSchema else none
      tableMappings := [⟨"items", [{ sourceName := "price", destinationName := "cost" }]⟩]
      toDWHColumnType := fun _ nullable => .ok (if nullable then "Nullable(Int64)" else "Int64") }
  cols := [⟨"id", .jsonExtract "Int64", "id"⟩, ⟨"cost", .jsonExtract "Int64", "price"⟩]
  order := [⟨"id", .jsonExtract "Int64", "id"⟩]
  source := ⟨"items", ["id", "price"], ["id"]⟩

theorem items_wf : items.WF where
  columns := by rfl
  name := rfl
  primaryUpdate := rfl
  nodup := by decide
  sent := by decide
  keys := by decide
  order := by decide

def itemsOf (id price : ℕ) : Items ℕ :=
  (Items.empty.addColumn "id" (some id)).addColumn "price" (some price)

/-- Row 1 at price 5. -/
def itemsBefore : Table ℕ := fun k => if k = [some 1] then some (itemsOf 1 5).value else none

/-- The table before the batches. -/
def itemsRows : List (ChRow ℕ) :=
  [items.row (fun _ _ v => v) (fun _ v => v.join)
    ⟨.insert .zero (itemsOf 1 5) "public.items" "items", 3, 0⟩]

def itemsBatches : List (List (Record ℕ × ℤ)) :=
  [[(.insert .zero (itemsOf 2 7) "public.items" "items", 10),
    (.update .zero .empty (itemsOf 1 6) [] "public.items" "items", 11)],
   [(.delete .zero (itemsOf 2 7) [] "public.items" "items", 20)]]

theorem items_holds (K : List (Option ℕ) → Prop) :
    items.Holds (fun _ _ v => v) (fun _ (v : Option (Option ℕ)) => v.join) K where
  truncated _ _ _ _ := rfl
  injective row other _ _ h := by
    have hid : row "id" = other "id" := by
      simpa [Destination.storedKey, items, stored] using h
    show [row "id"] = [other "id"]
    rw [hid]

theorem items_mirrors : items.Mirrors (fun _ _ v => v) (fun _ v => v.join)
    (items.engine.view itemsRows) itemsBefore where
  rows k row h := by
    rw [itemsBefore] at h
    split at h <;> cases h
    exact ⟨_, rfl, by decide⟩
  only k r h := by
    obtain ⟨hmem, hkey⟩ := MergeTree.view_some h
    obtain rfl := mem_singleton.mp hmem
    exact ⟨[some 1], _, rfl, hkey⟩

/-- The theorem for the groups of one batch each, the second of them executed before the
first and again after it. -/
theorem itemsBatches_normalized :
    ∃ after, runs (Table.replay items.source) itemsBefore (itemsBatches.flatten.map Prod.fst) =
        some after ∧
      (([1, 2].map fun id => (after [some id]).map fun row => row "price") =
        [some (some 6), none]) ∧
      ∃ raw new, stageBatches (fun _ _ v => v) 0 itemsBatches = .ok raw ∧
        execute items.generator (fun _ v => v.join) raw [(1, 2), (0, 1), (1, 2)] = .ok new ∧
        items.Mirrors (fun _ _ v => v) (fun _ v => v.join) (items.engine.view (itemsRows ++ new))
          after := by
  have hrun : ((runs (Table.replay items.source) itemsBefore
      (itemsBatches.flatten.map Prod.fst)).map fun after =>
        [1, 2].map fun id => (after [some id]).map fun row => row "price") =
      some [some (some 6), none] := by decide +kernel
  obtain ⟨after, hafter, hrows⟩ := Option.map_eq_some_iff.mp hrun
  have hkeyed : items.source.Keyed itemsBefore := by
    constructor
    · intro k row h
      rw [itemsBefore] at h
      split at h <;> cases h
      symm
      assumption
    · intro k row h c hc
      rw [itemsBefore] at h
      split at h <;> cases h
      obtain rfl : c = "id" := mem_singleton.mp hc
      rfl
  have hold : ∀ r ∈ itemsRows, ∀ x ∈ itemsBatches.flatten, MergeTree.version r < x.2 := by
    intro r hr
    obtain rfl := mem_singleton.mp hr
    decide
  have hends : [1, 2].getLastD 0 = 0 + itemsBatches.length := rfl
  exact ⟨after, hafter, hrows, normalize_eq_replay items_wf hkeyed (by decide) hafter (by decide)
    (by decide) (items_holds _) items_mirrors hold hends (by decide)⟩

/-! ### Two dates before 1900 -/

/-- A destination that is ordered by a date. -/
def days : Destination where
  generator :=
    { tableName := "days"
      tableNameSchemaMapping := fun _ => some
        { columns := [⟨"day", "date", -1, false, "", none⟩, ⟨"price", "int64", -1, false, "", none⟩]
          primaryKeyColumns := ["day"] }
      toDWHColumnType := fun col _ => .ok (if col.type = "date" then "Date32" else "Int64") }
  cols := [⟨"day", .clampDates, "day"⟩, ⟨"price", .jsonExtract "Int64", "price"⟩]
  order := [⟨"day", .clampDates, "day"⟩]
  source := ⟨"days", ["day", "price"], ["day"]⟩

/-- `clampDates` on dates written as the number of their eight digits. -/
def clampedDates : Decoder → Option (Option ℕ) → Option ℕ
  | .clampDates, v => v.join.map fun day => min 22991231 (max 19000101 day)
  | _, v => v.join

def dayOf (day price : ℕ) : Record ℕ :=
  .insert .zero ((Items.empty.addColumn "day" (some day)).addColumn "price" (some price))
    "public.days" "days"

/-- **Clamping takes two rows for one.**  The source has a row for 1800-01-01 and one for
1801-01-01; both are stored as 1900-01-01, and the view shows the second only. -/
theorem clampedDates_collide :
    days.WF ∧ days.source.Keyed (fun _ => (none : Option (Row ℕ))) ∧
    ∃ after raw new,
      runs (Table.replay days.source) (fun _ => none) [dayOf 18000101 5, dayOf 18010101 7] =
        some after ∧
      stageBatches (fun _ _ v => v) 0 [[(dayOf 18000101 5, 1), (dayOf 18010101 7, 2)]] = .ok raw ∧
      execute days.generator clampedDates raw [(0, 1)] = .ok new ∧
      ¬ days.Mirrors (fun _ _ v => v) clampedDates (days.engine.view new) after := by
  refine ⟨⟨rfl, rfl, rfl, by decide, by decide, by decide, by decide⟩, ⟨nofun, nofun⟩, _, _, _,
    rfl, rfl, rfl, fun hmirrors => ?_⟩
  obtain ⟨r, hr, hcols⟩ := hmirrors.rows [some 18000101] _ rfl
  have hprice := hcols ⟨"price", .jsonExtract "Int64", "price"⟩ (by decide)
  cases hr
  revert hprice
  decide

end ClickHouse
