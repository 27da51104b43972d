/-
Soft deletes at the Postgres destination.

With a soft-delete column, a delete updates its row: the clause for its set of unchanged
columns sets the other columns from the record, and the last clause, which every delete
fits, sets the flags only.  The pull loop marks a delete that has no values with a set no
update has, so that it gets to the last clause.  `syncRecordsCore` writes the empty text for
every delete, and a table has the clause for the empty text as soon as a batch inserts a row
into it.

`step_softDelete` says which of the two clauses a delete takes; `softDelete_keeps_iff` says
when the columns of a deleted row are kept.
-/
import PeerDB.Postgres.Merge

open Loop KeyedLog List

/-! ### The clauses for a delete -/

section Clauses

variable {V : Type} {cols : PeerDBColumns} {dst : String} {schema : TableSchema}
  {texts : List String} (env : SqlEnv V) {r : RawRow V}

/-- The clause that updates a row by a delete with the unchanged columns of `text`. -/
def deleteClause (cols : PeerDBColumns) (schema : TableSchema) (text : String) : WhenClause :=
  ⟨true, true, some text,
    .update (updateSet cols schema text ++ [(cols.softDeleteColName, .bool true)])⟩

theorem find_generateUpdateStatements (hsoft : cols.softDeleteColName ≠ "")
    (htype : r.recordType = 2) :
    (generateUpdateStatements cols (schema.columns.map FieldDescription.name) texts).find?
        (fun w => w.applies r true) =
      if r.unchangedToastColumns ∈ texts then
        some (deleteClause cols schema r.unchangedToastColumns)
      else none := by
  induction texts with
  | nil => rfl
  | cons text texts ih =>
    have hcons : generateUpdateStatements cols (schema.columns.map FieldDescription.name)
        (text :: texts) =
        ⟨true, false, some text,
          .update (updateSet cols schema text ++ [(cols.softDeleteColName, .bool false)])⟩ ::
        deleteClause cols schema text ::
        generateUpdateStatements cols (schema.columns.map FieldDescription.name) texts := by
      rw [generateUpdateStatements, flatMap_cons, if_pos hsoft]
      rfl
    have hupdate : WhenClause.applies ⟨true, false, some text,
        .update (updateSet cols schema text ++ [(cols.softDeleteColName, .bool false)])⟩ r true =
        false := by
      simp [WhenClause.applies, htype]
    have hdelete : (deleteClause cols schema text).applies r true =
        decide (text = r.unchangedToastColumns) := by
      simp [WhenClause.applies, deleteClause, htype]
    rw [hcons, List.find?_cons, hupdate, List.find?_cons, hdelete]
    by_cases htext : text = r.unchangedToastColumns
    · rw [decide_eq_true htext, ← htext, if_pos mem_cons_self]
    · rw [decide_eq_false htext]
      refine ih.trans ?_
      simp only [mem_cons, Ne.symm htext, false_or]

/-- **A delete of a row that is there.**  It takes the clause for its text if there is one. -/
theorem step_softDelete (hsoft : cols.softDeleteColName ≠ "") (htype : r.recordType = 2)
    (row : Row V) :
    (generateMergeStatement cols dst schema texts).step env r (some row) =
      some (assign env r
        (if r.unchangedToastColumns ∈ texts then
          updateSet cols schema r.unchangedToastColumns ++ [(cols.softDeleteColName, .bool true)]
        else (cols.softDeleteColName, .bool true) :: syncedAt cols) row) := by
  have hclauses : (generateMergeStatement cols dst schema texts).clauses =
      ⟨false, false, none, .insert
        (((schema.columns.map FieldDescription.name).map fun c => (c, .src c)) ++ syncedAt cols)⟩ ::
      (generateUpdateStatements cols (schema.columns.map FieldDescription.name) texts ++
        [⟨false, true, none, .insert
          ((((schema.columns.map FieldDescription.name).map fun c => (c, .src c)) ++
            syncedAt cols) ++ [(cols.softDeleteColName, .bool true)])⟩,
         ⟨true, true, none, .update ((cols.softDeleteColName, .bool true) :: syncedAt cols)⟩]) := by
    simp [generateMergeStatement, hsoft]
  have hfirst : ∀ action, WhenClause.applies ⟨false, false, none, action⟩ r true = false := by
    intro action
    simp [WhenClause.applies]
  have hinsert : ∀ action, WhenClause.applies ⟨false, true, none, action⟩ r true = false := by
    intro action
    simp [WhenClause.applies]
  have hlast : ∀ action, WhenClause.applies ⟨true, true, none, action⟩ r true = true := by
    intro action
    simp [WhenClause.applies, htype]
  rw [MergeStatement.step, hclauses, Option.isSome_some, List.find?_cons, hfirst,
    List.find?_append, find_generateUpdateStatements hsoft htype]
  by_cases htext : r.unchangedToastColumns ∈ texts
  · rw [if_pos htext, if_pos htext]
    rfl
  · rw [if_neg htext, if_neg htext, Option.none_or, List.find?_cons, hinsert, List.find?_cons,
      hlast]
    rfl

/-- The last clause leaves the columns alone. -/
theorem lookup_flags {c : String} (hsoft : c ≠ cols.softDeleteColName)
    (hsynced : c ≠ cols.syncedAtColName) :
    ((cols.softDeleteColName, SqlValue.bool true) :: syncedAt cols).lookup c = none := by
  rw [lookup_cons, beq_false_of_ne hsoft]
  have hnone : ((([] : List String).map fun c => (c, SqlValue.src c)) ++ syncedAt cols).lookup c =
      none := lookup_none not_mem_nil hsynced
  exact hnone

end Clauses

/-! ### The raw rows -/

section Raw

variable {V : Type} {toMap : V → Option String} {now : ℕ → ℤ} {batchID : ℕ}
  {records : List (Record V)} {rows : List (RawRow String)} {dst : String}

theorem syncRecordsCore_ok (h : syncRecordsCore toMap now batchID records = .ok rows) :
    (∀ r ∈ records.zipIdx, r.1.isRow = true ∨
      ∃ base pfx content, r.1 = .message base pfx content) ∧
    rows = records.zipIdx.filterMap fun r =>
      if r.1.isRow then some ((rawOf (now r.2) batchID r.1).toJSON toMap) else none := by
  obtain ⟨raws, hraws, h⟩ := bind_eq_ok h
  have hkinds : ∀ r ∈ records.zipIdx, r.1.isRow = true ∨
      ∃ base pfx content, r.1 = .message base pfx content := by
    intro r hr
    obtain ⟨b, hb⟩ := mapM_mem_ok hraws r hr
    cases hrec : r.1 with
    | insert | update | delete => exact Or.inl rfl
    | message base pfx content => exact Or.inr ⟨base, pfx, content, rfl⟩
    | relation base delta =>
      rw [hrec] at hb
      cases hb
  have hraw : ∀ r ∈ records.zipIdx, rawRow toMap (now r.2) batchID r.1 =
      .ok (if r.1.isRow then some ((rawOf (now r.2) batchID r.1).toJSON toMap) else none) := by
    intro r hr
    rcases hkinds r hr with hrow | ⟨base, pfx, content, hrec⟩
    · rw [if_pos hrow]
      exact rawRow_eq _ _ _ hrow
    · rw [hrec]
      rfl
  rw [mapM_eq_ok hraw] at hraws
  cases hraws
  cases h
  refine ⟨hkinds, ?_⟩
  rw [List.reduceOption, filterMap_map]
  rfl

theorem syncRecordsCore_batchID (h : syncRecordsCore toMap now batchID records = .ok rows) :
    ∀ r ∈ rows, r.batchID = batchID := by
  rw [(syncRecordsCore_ok h).2]
  intro r hr
  obtain ⟨p, -, hp⟩ := mem_filterMap.mp hr
  split_ifs at hp
  cases hp
  rfl

theorem syncRecordsCore_filter (h : syncRecordsCore toMap now batchID records = .ok rows)
    (hdst : dst ≠ "") :
    rows.filter (fun r => decide (r.destinationTableName = dst)) =
      ((rawsOf now batchID records).filter fun r =>
        decide (r.destinationTableName = dst)).map (RawRow.toJSON toMap) := by
  obtain ⟨hkinds, hrows⟩ := syncRecordsCore_ok h
  have hmap : ((rawsOf now batchID records).filter fun r =>
      decide (r.destinationTableName = dst)).map (RawRow.toJSON toMap) =
      (records.zipIdx.map fun r => (rawOf (now r.2) batchID r.1).toJSON toMap).filter fun r =>
        decide (r.destinationTableName = dst) := by
    rw [rawsOf, filter_map, filter_map, map_map]
    rfl
  rw [hrows, hmap, filter_filterMap, ← filterMap_eq_map, filter_filterMap]
  refine filterMap_congr fun p hp => ?_
  rcases hkinds p hp with hrow | ⟨base, pfx, content, hrec⟩
  · rw [if_pos hrow]
    rfl
  · have hother : ((rawOf (now p.2) batchID p.1).toJSON toMap).destinationTableName ≠ dst := by
      rw [hrec]
      exact hdst.symm
    have hnone : Option.filter (fun r : RawRow String => decide (r.destinationTableName = dst))
        (some ((rawOf (now p.2) batchID p.1).toJSON toMap)) = none := by
      rw [Option.filter_some, decide_eq_false hother]
      rfl
    rw [Function.comp_apply, hnone, hrec]
    rfl

/-- A batch gives the statement the clauses for the empty text by a record that is not a
delete and leaves no column out. -/
theorem empty_mem_unchangedColsOf {raw : List (RawRow String)}
    (hraw : ∀ r ∈ raw, r.batchID ≠ batchID)
    (h : syncRecordsCore toMap now batchID records = .ok rows) (hdst : dst ≠ "") :
    "" ∈ unchangedColsOf (raw ++ rows) batchID dst ↔
      ∃ rec ∈ records, rec.getDestinationTableName = dst ∧ rec.kind ≠ .delete ∧
        keysToString rec.unchangedColumns = "" := by
  rw [unchangedColsOf, mem_dedup, mem_map]
  constructor
  · rintro ⟨r, hr, htext⟩
    rw [mem_filter, Bool.and_eq_true, Bool.and_eq_true, decide_eq_true_eq, decide_eq_true_eq,
      decide_eq_true_eq] at hr
    obtain ⟨hmem, ⟨hbatch, htype⟩, hname⟩ := hr
    have hrow : r ∈ rows := (mem_append.mp hmem).resolve_left fun hold => hraw r hold hbatch
    have hmine : r ∈ rows.filter fun r => decide (r.destinationTableName = dst) :=
      mem_filter.mpr ⟨hrow, decide_eq_true hname⟩
    rw [syncRecordsCore_filter h hdst] at hmine
    obtain ⟨r, hr, rfl⟩ := mem_map.mp hmine
    obtain ⟨p, hp, rfl⟩ := mem_map.mp (mem_filter.mp hr).1
    exact ⟨p.1, fst_mem_of_mem_zipIdx hp, hname, mt Record.rawType_eq_two.mpr htype, htext⟩
  · rintro ⟨rec, hrec, hname, hkind, htext⟩
    obtain ⟨i, hi, rfl⟩ := mem_iff_getElem.mp hrec
    have hpair : (records[i], i) ∈ records.zipIdx := by
      rw [mem_zipIdx_iff_getElem?]
      exact List.getElem?_eq_getElem hi
    have hmine : (rawOf (now i) batchID records[i]).toJSON toMap ∈
        ((rawsOf now batchID records).filter fun r =>
          decide (r.destinationTableName = dst)).map (RawRow.toJSON toMap) :=
      mem_map_of_mem
        (mem_filter.mpr ⟨mem_map_of_mem hpair, decide_eq_true hname⟩)
    rw [← syncRecordsCore_filter h hdst, mem_filter] at hmine
    refine ⟨_, mem_filter.mpr ⟨mem_append_right raw hmine.1, ?_⟩, htext⟩
    have htype : ((rawOf (now i) batchID records[i]).toJSON toMap).recordType ≠ 2 :=
      mt Record.rawType_eq_two.mp hkind
    rw [decide_eq_true (syncRecordsCore_batchID h _ hmine.1), decide_eq_true htype, hmine.2]
    rfl

end Raw

/-! ### A deleted row -/

section Merge

variable {V : Type} [DecidableEq V] {cols : PeerDBColumns} {schema : TableSchema} {dst : String}

/-- **The columns of a soft-deleted row.**  A batch is copied and merged, and the last record
of a key that has a row is a delete.  A column of the row is kept exactly if no insert and no
update without unchanged columns is in the batch for the table, or the column has what is
read from the delete already. -/
theorem softDelete_keeps_iff (hsoft : cols.softDeleteColName ≠ "") (hdst : dst ≠ "")
    (hkeys : ∀ c ∈ schema.primaryKeyColumns, c ∈ schema.columns.map FieldDescription.name)
    {now : ℕ → ℤ} (hnow : ∀ ⦃i j⦄, i < j → now i < now j) {batchID : ℕ} {records : List (Record V)}
    {raw rows : List (RawRow String)} (hraw : ∀ r ∈ raw, r.batchID ≠ batchID)
    {toMap : V → Option String} (hsync : syncRecordsCore toMap now batchID records = .ok rows)
    {env : PgEnv V} (hlegible : Legible env toMap schema (itemsOf dst records)) (dest : Table V) :
    ∃ dest', (generateMergeStatement cols dst schema
        (unchangedColsOf (raw ++ rows) batchID dst)).run env (raw ++ rows) batchID dest =
          .ok dest' ∧
      ∀ k base items unchanged src old,
        last (schema.shape dst).recordKey k
          (records.filter fun rec => decide (rec.getDestinationTableName = dst)) =
            some (.delete base items unchanged src dst) →
        k.all Option.isSome → dest k = some old →
        ∃ row, dest' k = some row ∧
          ∀ c col, schema.column? c = some col → c ≠ "" → c ≠ cols.softDeleteColName →
            c ≠ cols.syncedAtColName →
            (row c = old c ↔
              (∀ rec ∈ records, rec.getDestinationTableName = dst → rec.kind ≠ .delete →
                keysToString rec.unchangedColumns ≠ "") ∨
              env.read toMap (selectExpr schema col) (items.value c) = .ok (old c)) := by
  have hsorted := (rawsOf_sorted hnow batchID records).filter
    fun r => decide (r.destinationTableName = dst)
  have hfilter : (raw ++ rows).filter (fun r =>
      decide (r.batchID = batchID) && decide (r.destinationTableName = dst)) = _ :=
    (filter_raw hraw (syncRecordsCore_batchID hsync)).trans (syncRecordsCore_filter hsync hdst)
  rw [← rawsOf_data now batchID] at hlegible
  refine ⟨_, run_eq hkeys hfilter hlegible hsorted _ dest,
    fun k base items unchanged src old hlast hnull hold => ?_⟩
  -- the row that is merged for a key is that of the last record of the key
  obtain ⟨x, hrecord, hrow⟩ := last_rawsOf now batchID records (schema.shape dst) k
  obtain ⟨p, rfl, hp⟩ := Option.map_eq_some_iff.mp (hrecord.symm.trans hlast)
  have hraws : last (fun r : RawRow V => (schema.shape dst).key r.data.value) k
      ((rawsOf now batchID records).filter fun r => decide (r.destinationTableName = dst)) =
      some (rawOf (now p.2) batchID p.1) := hrow
  simp only [hraws, if_pos hnull, hold, hp]
  rw [step_softDelete env.toSqlEnv hsoft rfl]
  refine ⟨_, rfl, fun c col hcol hname hflag hsynced => ?_⟩
  have hc : c ∈ schema.columns.map FieldDescription.name := by
    obtain ⟨hmem, rfl⟩ := TableSchema.column?_some hcol
    exact mem_map_of_mem hmem
  -- a delete lists no unchanged columns: its clause is the one for the empty list
  have htext : (selected env toMap schema (rawOf (now p.2) batchID
      (.delete base items unchanged src dst))).unchangedToastColumns = "" := by
    have hempty : keysToString [] = "" := by decide
    exact hempty
  have hclause := empty_mem_unchangedColsOf hraw hsync hdst
  rw [htext]
  by_cases hmem : "" ∈ unchangedColsOf (raw ++ rows) batchID dst
  · -- another record has that clause generated, and it assigns every column
    obtain ⟨rec, hrec, hname', hkind, hempty⟩ := hclause.mp hmem
    have hsplit : splitComma "" = [""] := by decide
    have hset : c ∈ arrayMinus (schema.columns.map FieldDescription.name) (splitComma "") := by
      rw [arrayMinus, mem_filter, decide_eq_true_eq, hsplit, mem_singleton]
      exact ⟨hc, hname⟩
    rw [if_pos hmem, updateSet, append_assoc, assign_src env.toSqlEnv (lookup_src _ hset)]
    obtain ⟨v, hv⟩ : ∃ v, env.read toMap (selectExpr schema col) (items.value c) = .ok v := by
      obtain ⟨hmem, rfl⟩ := TableSchema.column?_some hcol
      have hdelete := (last_some hraws).1
      rw [hp] at hdelete
      exact hlegible.read _ (mem_map_of_mem hdelete) col hmem
    rw [selected_value hcol hv, hv]
    constructor
    · rintro rfl
      exact Or.inr rfl
    · rintro (hnone | heq)
      · exact absurd hempty (hnone rec hrec hname' hkind)
      · exact Except.ok.inj heq
  · -- no clause matches, and only the flags are set
    rw [if_neg hmem, assign_none env.toSqlEnv (lookup_flags hflag hsynced)]
    refine ⟨fun _ => Or.inl fun rec hrec hname' hkind hempty => ?_, fun _ => rfl⟩
    exact hmem (hclause.mpr ⟨rec, hrec, hname', hkind, hempty⟩)

end Merge

/-! ### Deletes of documents -/

/-- The columns the destination of documents has in addition. -/
def docsFlags : PeerDBColumns where
  softDeleteColName := "_peerdb_is_deleted"
  syncedAtColName := "_peerdb_synced_at"

/-- A delete as it is decoded: the key, and NULL. -/
def docsDeleted (id : UInt8) : Record UInt8 :=
  .delete .zero (((Items.empty.addColumn "id" (some id)).addColumn "body" none).addColumn
    "views" none) [] "public.docs" "docs"

/-- Row 3 is deleted in a batch with an update that leaves a column out. -/
theorem docsDeleted_kept :
    ∃ s rows dest',
      [.update .zero .empty (docsItems 1 1) ["body"] "public.docs" "docs", docsDeleted 3].foldlM
          (handleRow docsMirror)
          (PullState.init { maxBatchSize := 10 } (docsMirror.newSource fun _ => none)) = .ok s ∧
        syncRecordsCore (fun b => some (byteText b)) (fun i => i) 5 s.records.records = .ok rows ∧
        (generateMergeStatement docsFlags "docs" docsSchema
          (unchangedColsOf ([] ++ rows) 5 "docs")).run docsEnv ([] ++ rows) 5 docsBefore =
            .ok dest' ∧
        ∃ row, dest' [some 3] = some row ∧ row "body" = some 8 := by
  obtain ⟨s, rows, hpull, hsync, hrecords⟩ : ∃ s rows,
      [.update .zero .empty (docsItems 1 1) ["body"] "public.docs" "docs", docsDeleted 3].foldlM
          (handleRow docsMirror)
          (PullState.init { maxBatchSize := 10 } (docsMirror.newSource fun _ => none)) = .ok s ∧
        syncRecordsCore (fun b => some (byteText b)) (fun i => i) 5 s.records.records = .ok rows ∧
        s.records.records = [.update .zero .empty (docsItems 1 1) ["body"] "public.docs" "docs",
          .delete .zero (docsDeleted 3).getItems ["_peerdb_not_backfilled_delete"] "public.docs"
            "docs"] := ⟨_, _, rfl, rfl, rfl⟩
  have hsoft : docsFlags.softDeleteColName ≠ "" := by decide
  have hdst : "docs" ≠ "" := by decide
  obtain ⟨dest', hrun, hkept⟩ := softDelete_keeps_iff hsoft hdst
    docsMirror_mirrored.keys (fun i j hij => Int.ofNat_lt.mpr hij)
    (fun _ h => absurd h not_mem_nil) hsync (docsEnv_reads s.records.records).legible
    docsBefore
  rw [hrecords] at hkept
  obtain ⟨row, hrow, hcolumns⟩ := hkept [some 3] _ _ _ _ (docsRow 3 8 0) rfl rfl rfl
  refine ⟨s, rows, dest', hpull, hsync, hrun, row, hrow, ?_⟩
  refine (hcolumns "body" _ rfl (by decide) (by decide) (by decide)).mpr (Or.inl ?_)
  decide +kernel

/-- Row 3 is deleted in a batch with an insert: its `body` is lost, although the delete is
marked as one that has no values. -/
theorem docsDeleted_cleared :
    ∃ s rows dest' base items,
      [.insert .zero ((docsItems 2 0).addColumn "body" (some 9)) "public.docs" "docs",
          docsDeleted 3].foldlM (handleRow docsMirror)
          (PullState.init { maxBatchSize := 10 } (docsMirror.newSource fun _ => none)) = .ok s ∧
        s.records.records.getLast? = some (.delete base items ["_peerdb_not_backfilled_delete"]
          "public.docs" "docs") ∧
        syncRecordsCore (fun b => some (byteText b)) (fun i => i) 5 s.records.records = .ok rows ∧
        (generateMergeStatement docsFlags "docs" docsSchema
          (unchangedColsOf rows 5 "docs")).run docsEnv rows 5 docsBefore = .ok dest' ∧
        (docsBefore [some 3]).map (fun row => row "body") = some (some 8) ∧
        (dest' [some 3]).map (fun row => row "body") = some none := by
  obtain ⟨s, rows, hpull, hlast, hsync, hrows⟩ : ∃ s rows,
      [.insert .zero ((docsItems 2 0).addColumn "body" (some 9)) "public.docs" "docs",
          docsDeleted 3].foldlM (handleRow docsMirror)
          (PullState.init { maxBatchSize := 10 } (docsMirror.newSource fun _ => none)) = .ok s ∧
        s.records.records.getLast? = some (.delete .zero (docsDeleted 3).getItems
          ["_peerdb_not_backfilled_delete"] "public.docs" "docs") ∧
        syncRecordsCore (fun b => some (byteText b)) (fun i => i) 5 s.records.records = .ok rows ∧
        rows = [rawOf 0 5 (.insert .zero ((docsItems 2 0).addColumn "body" (some 9)) "public.docs"
          "docs"), rawOf 1 5 (docsDeleted 3)].map (RawRow.toJSON fun b => some (byteText b)) :=
    ⟨_, _, rfl, rfl, rfl, rfl⟩
  obtain ⟨dest', hdest', hbody⟩ : ∃ dest', (generateMergeStatement docsFlags "docs" docsSchema
      (unchangedColsOf rows 5 "docs")).run docsEnv rows 5 docsBefore = .ok dest' ∧
      (dest' [some 3]).map (fun row => row "body") = some none := by
    rw [hrows]
    exact ⟨_, rfl, rfl⟩
  exact ⟨s, rows, dest', _, _, hpull, hlast, hsync, hdest', rfl, hbody⟩
