/-
What pgoutput sends for a row change, and what the decoders make of it.

A source row is given by its values as the mirror reads them.  An insert sends the whole
row.  An update sends the new row without the columns that are stored out of line and did
not change, and in front of it the old row, or the old row with NULL outside of the
replica identity, or nothing.  A delete sends the old row in the same way.

`processTuple_eq` says what one tuple is decoded to, and `processUpdateMessage_eq`,
`processInsertMessage_eq` and `processDeleteMessage_eq` what the three messages are.
-/
import PeerDB.Lib.Loop
import PeerDB.Model.Table
import PeerDB.Postgres.Message

open Loop

/-- A source table: its columns in the order they are sent, and the columns of its
replica identity. -/
structure SourceTable where
  columns : List RelationColumn
  identity : List String

/-- The kinds of old tuple. -/
inductive OldTuple where
  | absent
  | key
  | full
  deriving DecidableEq, Repr

namespace SourceTable

variable {D V H : Type} (tbl : SourceTable)

def names : List String := tbl.columns.map RelationColumn.name

def oldRow (kind : OldTuple) (old : Row V) : Option (Row V) :=
  match kind with
  | .absent => none
  | .key => some fun c => if c ∈ tbl.identity then old c else none
  | .full => some old

/-- A tuple with the values of a row, apart from the columns that are marked as unchanged. -/
def Writes (proc : ReplProcessor D V) (toasted : String → Bool) (row : Row V)
    (tuple : TupleData D) : Prop :=
  ∃ f : RelationColumn → TupleDataColumn D, tuple = tbl.columns.map f ∧
    ∀ col ∈ tbl.columns,
      if toasted col.name then f col = .unchanged
      else f col ≠ .unchanged ∧ proc.process col (f col) = .ok (row col.name)

/-- The old tuple of an update or a delete. -/
def WritesOld (proc : ReplProcessor D V) (kind : OldTuple) (old : Row V)
    (oldTuple : Option (TupleData D)) : Prop :=
  match tbl.oldRow kind old with
  | none => oldTuple = none
  | some row => ∃ tuple, oldTuple = some tuple ∧ tbl.Writes proc (fun _ => false) row tuple

/-- An update message: a column that is not sent again has the value it had. -/
structure WritesUpdate (proc : ReplProcessor D V) (kind : OldTuple) (toasted : String → Bool)
    (old new : Row V) (oldTuple : Option (TupleData D)) (newTuple : TupleData D) : Prop where
  kept : ∀ c, toasted c = true → old c = new c
  oldTuple : tbl.WritesOld proc kind old oldTuple
  newTuple : tbl.Writes proc toasted new newTuple

end SourceTable

section Decode

variable {D V H : Type} {cfg : CDCConfig D V H} {tbl : SourceTable}

/-! ### One tuple -/

/-- The names under which `processTuple` adds columns of its own. -/
def CDCConfig.Reserved (cfg : CDCConfig D V H) (c : String) : Prop :=
  (cfg.sourceSchemaAsDestinationColumn = true ∧ c = "_peerdb_source_schema") ∨
    (cfg.originMetadataAsDestinationColumn = true ∧
      ∃ base v, (c, v) ∈ cfg.proc.originColumns base)

/-- The columns of a table that a mirror asks for. -/
def CDCConfig.Wanted (cfg : CDCConfig D V H) (tbl : SourceTable) (tableName c : String) : Prop :=
  c ∈ tbl.names ∧ c ∉ (cfg.nameAndExclude tableName).exclude ∧ ¬ cfg.Reserved c

theorem foldl_addColumn {c : String} {added : List (String × V)} (hc : ∀ v, (c, v) ∉ added) :
    ∀ items : Items V,
      (added.foldl (fun acc a => acc.addColumn a.1 (some a.2)) items).colToVal c =
        items.colToVal c := by
  induction added with
  | nil =>
    intro items
    rfl
  | cons a added ih =>
    intro items
    have hne : c ≠ a.1 := fun heq => hc a.2 (heq ▸ List.mem_cons_self)
    rw [List.foldl_cons, ih fun v hv => hc v (List.mem_cons_of_mem a hv)]
    exact if_neg hne

theorem processColumn_eq (exclude : List String) {toasted : String → Bool} {row : Row V}
    {col : RelationColumn} {data : TupleDataColumn D}
    (hcol : if toasted col.name then data = .unchanged
      else data ≠ .unchanged ∧ cfg.proc.process col data = .ok (row col.name))
    (acc : Items V × List String) :
    ∃ acc', processColumn cfg exclude acc (col, data) = .ok acc' ∧
      (∀ c, acc'.1.colToVal c =
        if c = col.name ∧ c ∉ exclude ∧ toasted c = false then some (row c)
        else acc.1.colToVal c) ∧
      ∀ c, c ∈ acc'.2 ↔ c ∈ acc.2 ∨ (c = col.name ∧ c ∉ exclude ∧ toasted c = true) := by
  by_cases hexclude : col.name ∈ exclude
  · refine ⟨acc, if_pos hexclude, fun c => ?_, fun c => ?_⟩
    · rw [if_neg]
      rintro ⟨rfl, hnot, -⟩
      exact hnot hexclude
    · rw [or_iff_left]
      rintro ⟨rfl, hnot, -⟩
      exact hnot hexclude
  · by_cases htoast : toasted col.name = true
    · rw [if_pos htoast] at hcol
      refine ⟨(acc.1, acc.2 ++ [col.name]), ?_, fun c => ?_, fun c => ?_⟩
      · simp only [processColumn, if_neg hexclude, hcol]
      · rw [if_neg]
        rintro ⟨rfl, -, hsent⟩
        rw [htoast] at hsent
        cases hsent
      · rw [List.mem_append, List.mem_singleton]
        constructor
        · rintro (hc | rfl)
          · exact Or.inl hc
          · exact Or.inr ⟨rfl, hexclude, htoast⟩
        · rintro (hc | ⟨hc, -, -⟩)
          · exact Or.inl hc
          · exact Or.inr hc
    · rw [if_neg htoast] at hcol
      obtain ⟨hsent, hval⟩ := hcol
      refine ⟨(acc.1.addColumn col.name (row col.name), acc.2), ?_, fun c => ?_, fun c => ?_⟩
      · simp only [processColumn, if_neg hexclude, hval]
        cases data with
        | unchanged => exact absurd rfl hsent
        | null | text _ | binary _ | other _ => rfl
      · by_cases hc : c = col.name
        · subst hc
          simp [htoast, hexclude, Items.addColumn]
        · simp [hc, Items.addColumn]
      · rw [or_iff_left]
        rintro ⟨rfl, -, htoasted⟩
        exact htoast htoasted

theorem foldlM_processColumn (exclude : List String) {toasted : String → Bool} {row : Row V}
    {f : RelationColumn → TupleDataColumn D} :
    ∀ {cols : List RelationColumn},
      (∀ col ∈ cols, if toasted col.name then f col = .unchanged
        else f col ≠ .unchanged ∧ cfg.proc.process col (f col) = .ok (row col.name)) →
      ∀ acc : Items V × List String, ∃ items unchanged,
        (cols.zip (cols.map f)).foldlM (processColumn cfg exclude) acc =
          .ok (items, unchanged) ∧
        (∀ c, items.colToVal c =
          if c ∈ cols.map RelationColumn.name ∧ c ∉ exclude ∧ toasted c = false then some (row c)
          else acc.1.colToVal c) ∧
        ∀ c, c ∈ unchanged ↔ c ∈ acc.2 ∨
          (c ∈ cols.map RelationColumn.name ∧ c ∉ exclude ∧ toasted c = true) := by
  intro cols
  induction cols with
  | nil =>
    intro _ acc
    refine ⟨acc.1, acc.2, rfl, fun c => ?_, fun c => ?_⟩ <;> simp
  | cons col cols ih =>
    intro hf acc
    obtain ⟨acc', hstep, hitem, hadded⟩ :=
      processColumn_eq exclude (hf col List.mem_cons_self) acc
    obtain ⟨items, unchanged, heq, hitems, hunchanged⟩ :=
      ih (fun col hcol => hf col (List.mem_cons_of_mem _ hcol)) acc'
    rw [List.map_cons, List.zip_cons_cons, List.foldlM_cons, hstep]
    refine ⟨items, unchanged, heq, fun c => ?_, fun c => ?_⟩
    · -- a name that occurs twice has the same value both times
      rw [hitems c, hitem c]
      by_cases hc : c = col.name
      · subst hc
        by_cases hsent : col.name ∉ exclude ∧ toasted col.name = false <;> simp [hsent]
      · simp [hc]
    · rw [hunchanged c, hadded c, or_assoc, ← or_and_right, List.map_cons, List.mem_cons]

theorem processTuple_eq {toasted : String → Bool} {row : Row V} {tuple : TupleData D}
    (hw : tbl.Writes cfg.proc toasted row tuple) {rel : RelationMessage}
    (hrel : rel.columns = tbl.columns) (exclude : List String) {schemaName : String}
    (hschema : schemaName ≠ "" → cfg.sourceSchemaAsDestinationColumn = true) (base : BaseRecord) :
    ∃ items unchanged, processTuple cfg (some tuple) rel exclude schemaName base =
        .ok (items, unchanged) ∧
      (∀ c, ¬ cfg.Reserved c → items.colToVal c =
        if c ∈ tbl.names ∧ c ∉ exclude ∧ toasted c = false then some (row c) else none) ∧
      ∀ c, c ∈ unchanged ↔ c ∈ tbl.names ∧ c ∉ exclude ∧ toasted c = true := by
  obtain ⟨f, rfl, hf⟩ := hw
  obtain ⟨items, unchanged, heq, hitems, hunchanged⟩ :=
    foldlM_processColumn exclude hf (Items.empty, [])
  have hlen : ¬ (tbl.columns.map f).length > tbl.columns.length := by
    rw [List.length_map]
    omega
  simp only [processTuple, hrel, if_neg hlen, heq]
  refine ⟨_, _, rfl, fun c hreserved => ?_, fun c => ?_⟩
  · -- the added columns have reserved names
    have hadded : ∀ items' : Items V,
        (if schemaName ≠ "" then
          items'.addColumn "_peerdb_source_schema" (some (cfg.proc.ofString schemaName))
        else items').colToVal c = items'.colToVal c := by
      intro items'
      by_cases hname : schemaName ≠ ""
      · rw [if_pos hname]
        exact if_neg fun hc => hreserved (Or.inl ⟨hschema hname, hc⟩)
      · rw [if_neg hname]
    have horigin : ∀ items' : Items V,
        (if cfg.originMetadataAsDestinationColumn = true then
          (cfg.proc.originColumns base).foldl (fun acc a => acc.addColumn a.1 (some a.2)) items'
        else items').colToVal c = items'.colToVal c := by
      intro items'
      by_cases hmeta : cfg.originMetadataAsDestinationColumn = true
      · rw [if_pos hmeta]
        exact foldl_addColumn (fun v hv => hreserved (Or.inr ⟨hmeta, base, v, hv⟩)) items'
      · rw [if_neg hmeta]
    rw [horigin, hadded, hitems c]
    rfl
  · rw [hunchanged c]
    simp [SourceTable.names]

theorem processTuple_old {kind : OldTuple} {old : Row V} {oldTuple : Option (TupleData D)}
    (hw : tbl.WritesOld cfg.proc kind old oldTuple) {rel : RelationMessage}
    (hrel : rel.columns = tbl.columns) (exclude : List String) :
    ∃ items unchanged,
      processTuple cfg oldTuple rel exclude "" BaseRecord.zero = .ok (items, unchanged) ∧
      ∀ c, ¬ cfg.Reserved c → items.colToVal c =
        if c ∈ tbl.names ∧ c ∉ exclude then (tbl.oldRow kind old).map fun row => row c
        else none := by
  rw [SourceTable.WritesOld] at hw
  cases hrow : tbl.oldRow kind old with
  | none =>
    rw [hrow] at hw
    subst hw
    exact ⟨Items.empty, [], rfl, fun c _ => (ite_self none).symm⟩
  | some row =>
    rw [hrow] at hw
    obtain ⟨tuple, rfl, htuple⟩ := hw
    obtain ⟨items, unchanged, heq, hitems, -⟩ :=
      processTuple_eq htuple hrel exclude (fun hne => absurd rfl hne) BaseRecord.zero
    refine ⟨items, unchanged, heq, fun c hreserved => ?_⟩
    rw [hitems c hreserved]
    simp only [and_true]
    rfl

/-! ### The three messages -/

/-- The source knows the relation a message is sent under, with the columns of the table. -/
structure Announced (cfg : CDCConfig D V H) (p : SourceState) (tbl : SourceTable) (relID : ℕ)
    (tableName : String) : Prop where
  table : cfg.mirroredTable p.childToParentRelIDMapping relID = some tableName
  relation : ∃ rel, p.relationMessageMapping
      (getParentRelIDIfPartitioned p.childToParentRelIDMapping relID) = some rel ∧
    rel.columns = tbl.columns
  schemaName : ∃ schemaName, getSourceSchemaForDestinationColumn cfg tableName = .ok schemaName

theorem getSourceSchemaForDestinationColumn_ne {tableName schemaName : String}
    (h : getSourceSchemaForDestinationColumn cfg tableName = .ok schemaName)
    (hne : schemaName ≠ "") : cfg.sourceSchemaAsDestinationColumn = true := by
  by_contra hoff
  rw [getSourceSchemaForDestinationColumn, if_neg hoff] at h
  exact hne (Except.ok.inj h).symm

namespace Announced

variable {p : SourceState} {relID : ℕ} {tableName : String}
  (h : Announced cfg p tbl relID tableName) (lsn : LSN)

include h

theorem processSingleTuple_eq {toasted : String → Bool} {row : Row V} {tuple : TupleData D}
    (hw : tbl.Writes cfg.proc toasted row tuple) (verb : String)
    (mk : BaseRecord → Items V → String → String → Record V) :
    ∃ items, processSingleTuple cfg p lsn relID tuple verb mk = .ok (some
        (mk (baseRecord p.commitLock lsn) items tableName (cfg.nameAndExclude tableName).name)) ∧
      (∀ c, cfg.Wanted tbl tableName c →
        items.colToVal c = if toasted c then none else some (row c)) ∧
      ∀ c, ¬ cfg.Reserved c → ¬ cfg.Wanted tbl tableName c → items.colToVal c = none := by
  obtain ⟨rel, hmapped, hcolumns⟩ := h.relation
  obtain ⟨schemaName, hschemaName⟩ := h.schemaName
  obtain ⟨items, unchanged, heq, hitems, -⟩ := processTuple_eq hw hcolumns
    (cfg.nameAndExclude tableName).exclude (getSourceSchemaForDestinationColumn_ne hschemaName)
    (baseRecord p.commitLock lsn)
  have htable := h.table
  rw [CDCConfig.mirroredTable] at htable
  simp only [processSingleTuple, htable, hmapped, hschemaName]
  refine ⟨items, ?_, fun c hc => ?_, fun c hreserved hunwanted => ?_⟩
  · show ((processTuple cfg (some tuple) rel _ schemaName _).mapError _ >>= _) = _
    rw [heq]
    rfl
  · rw [hitems c hc.2.2]
    cases toasted c with
    | true => simp
    | false => exact if_pos ⟨hc.1, hc.2.1, rfl⟩
  · rw [hitems c hreserved]
    exact if_neg fun hsent => hunwanted ⟨hsent.1, hsent.2.1, hreserved⟩

theorem processInsertMessage_eq {row : Row V} {tuple : TupleData D}
    (hw : tbl.Writes cfg.proc (fun _ => false) row tuple) :
    ∃ items, processInsertMessage cfg p lsn relID tuple = .ok (some
        (.insert (baseRecord p.commitLock lsn) items tableName
          (cfg.nameAndExclude tableName).name)) ∧
      (∀ c, cfg.Wanted tbl tableName c → items.colToVal c = some (row c)) ∧
      ∀ c, ¬ cfg.Reserved c → ¬ cfg.Wanted tbl tableName c → items.colToVal c = none :=
  h.processSingleTuple_eq lsn hw "insert" _

theorem processDeleteMessage_eq {row : Row V} {tuple : TupleData D}
    (hw : tbl.Writes cfg.proc (fun _ => false) row tuple) :
    ∃ items, processDeleteMessage cfg p lsn relID tuple = .ok (some
        (.delete (baseRecord p.commitLock lsn) items [] tableName
          (cfg.nameAndExclude tableName).name)) ∧
      (∀ c, cfg.Wanted tbl tableName c → items.colToVal c = some (row c)) ∧
      ∀ c, ¬ cfg.Reserved c → ¬ cfg.Wanted tbl tableName c → items.colToVal c = none :=
  h.processSingleTuple_eq lsn hw "delete" _

/-- The old tuple fills the columns the new one leaves out, and keeps the others. -/
theorem processUpdateMessage_eq {kind : OldTuple} {toasted : String → Bool} {old new : Row V}
    {oldTuple : Option (TupleData D)} {newTuple : TupleData D}
    (hw : tbl.WritesUpdate cfg.proc kind toasted old new oldTuple newTuple) :
    ∃ oldItems newItems unchanged,
      processUpdateMessage cfg p lsn relID oldTuple newTuple = .ok (some
        (.update (baseRecord p.commitLock lsn) oldItems newItems unchanged tableName
          (cfg.nameAndExclude tableName).name)) ∧
      (∀ c, cfg.Wanted tbl tableName c →
        oldItems.colToVal c =
          (if toasted c then none else (tbl.oldRow kind old).map fun row => row c) ∧
        newItems.colToVal c =
          (if toasted c then (tbl.oldRow kind old).map fun row => row c else some (new c)) ∧
        (c ∈ unchanged ↔ toasted c = true ∧ tbl.oldRow kind old = none)) ∧
      ∀ c, ¬ cfg.Reserved c → ¬ cfg.Wanted tbl tableName c → newItems.colToVal c = none := by
  obtain ⟨rel, hmapped, hcolumns⟩ := h.relation
  obtain ⟨schemaName, hschemaName⟩ := h.schemaName
  set exclude := (cfg.nameAndExclude tableName).exclude
  obtain ⟨oldItems, oldUnchanged, holdEq, holdItems⟩ :=
    processTuple_old hw.oldTuple hcolumns exclude
  obtain ⟨newItems, unchanged, hnewEq, hnewItems, hunchanged⟩ :=
    processTuple_eq hw.newTuple hcolumns exclude
      (getSourceSchemaForDestinationColumn_ne hschemaName) (baseRecord p.commitLock lsn)
  have htable := h.table
  rw [CDCConfig.mirroredTable] at htable
  simp only [processUpdateMessage, htable, hmapped, hschemaName]
  refine ⟨oldItems.deleteColNames (newItems.updatedCols oldItems),
    newItems.updateIfNotExists oldItems,
    unchanged.filter fun col => !newItems.updatedCols oldItems col, ?_, fun c hc => ?_,
    fun c hreserved hunwanted => ?_⟩
  · show ((processTuple cfg oldTuple rel exclude "" BaseRecord.zero).mapError _ >>= _) = _
    rw [holdEq]
    show ((processTuple cfg (some newTuple) rel exclude schemaName _).mapError _ >>= _) = _
    rw [hnewEq]
    rfl
  · have hnewCol : newItems.colToVal c = if toasted c then none else some (new c) := by
      rw [hnewItems c hc.2.2]
      cases toasted c with
      | true => simp
      | false => exact if_pos ⟨hc.1, hc.2.1, rfl⟩
    have holdCol : oldItems.colToVal c = (tbl.oldRow kind old).map fun row => row c := by
      rw [holdItems c hc.2.2, if_pos ⟨hc.1, hc.2.1⟩]
    have hmem : c ∈ unchanged ↔ toasted c = true :=
      (hunchanged c).trans ⟨fun hm => hm.2.2, fun ht => ⟨hc.1, hc.2.1, ht⟩⟩
    have hfilled : newItems.updatedCols oldItems c =
        (toasted c && (tbl.oldRow kind old).isSome) := by
      rw [Items.updatedCols, hnewCol, holdCol, Option.isSome_map]
      cases toasted c with
      | true => rfl
      | false => rfl
    refine ⟨?_, ?_, ?_⟩
    · show (if newItems.updatedCols oldItems c then none else oldItems.colToVal c) = _
      rw [hfilled, holdCol]
      cases toasted c with
      | true =>
        cases tbl.oldRow kind old with
        | none | some => rfl
      | false => rfl
    · rw [Items.updateIfNotExists_colToVal, hnewCol, holdCol]
      cases toasted c with
      | true => rfl
      | false => rfl
    · rw [List.mem_filter, hmem, hfilled]
      cases htoast : toasted c with
      | true => simp
      | false => simp
  · rw [Items.updateIfNotExists_colToVal, hnewItems c hreserved, holdItems c hreserved,
      if_neg fun hsent => hunwanted ⟨hsent.1, hsent.2.1, hreserved⟩,
      if_neg fun hsent => hunwanted ⟨hsent.1, hsent.2, hreserved⟩]
    rfl

end Announced

end Decode
