/-
Columns by their ordinal position.

Without row metadata in the binlog the columns of a row have no names: value number `i` is
recorded under the `i`-th column the pull knows.  An ALTER TABLE that shifts positions is
refused; any other column it describes is put behind the known ones, in memory and, after
the batch, in the catalog, where a name that is known already is left out
(`applySchemaDeltas`).

MODIFY and CHANGE describe a column that is there, so the pull lists it twice.  This does no
harm until a column is added, which is then one place behind its values
(`modifyThenAdd_records_elsewhere`).  `recorded_under_own_column` states what keeps the
positions aligned.
-/
import PeerDB.MySQL.Binlog

open Loop

namespace MySQL

open List

/-! ### The catalog -/

/-- A column is added unless its name is there. -/
def addMissing (columns : List FieldDescription) (col : FieldDescription) :
    List FieldDescription :=
  if columns.any fun c => c.name == col.name then columns else columns ++ [col]

/-- The columns of a table with the added columns of a delta. -/
def mergeColumns (columns added : List FieldDescription) : List FieldDescription :=
  added.foldl addMissing columns

def applySchemaDelta (schemas : String → Option TableSchema) (delta : TableSchemaDelta) :
    String → Option TableSchema :=
  match schemas delta.dstTableName with
  -- a table that is not in the catalog is skipped
  | none => schemas
  | some schema => fun name =>
    if name = delta.dstTableName then
      some { schema with columns := mergeColumns schema.columns delta.addedColumns }
    else schemas name

def applySchemaDeltas (schemas : String → Option TableSchema) (deltas : List TableSchemaDelta) :
    String → Option TableSchema :=
  deltas.foldl applySchemaDelta schemas

theorem addMissing_cases (columns : List FieldDescription) (col : FieldDescription) :
    addMissing columns col = columns ∨ addMissing columns col = columns ++ [col] := by
  rw [addMissing]
  by_cases h : (columns.any fun c => c.name == col.name) = true
  · exact Or.inl (if_pos h)
  · exact Or.inr (if_neg h)

theorem addMissing_fresh {columns : List FieldDescription} {col : FieldDescription}
    (h : ∀ c ∈ columns, c.name ≠ col.name) : addMissing columns col = columns ++ [col] := by
  refine if_neg fun hany => ?_
  obtain ⟨c, hc, heq⟩ := any_eq_true.mp hany
  exact h c hc (beq_iff_eq.mp heq)

theorem mergeColumns_append (columns a b : List FieldDescription) :
    mergeColumns columns (a ++ b) = mergeColumns (mergeColumns columns a) b :=
  foldl_append

theorem mergeColumns_eq (columns added : List FieldDescription) :
    ∃ more, mergeColumns columns added = columns ++ more ∧ more.Sublist added := by
  induction added generalizing columns with
  | nil => exact ⟨[], (append_nil columns).symm, List.Sublist.refl _⟩
  | cons col added ih =>
    obtain ⟨more, hmore, hsub⟩ := ih (addMissing columns col)
    rcases addMissing_cases columns col with hskip | hadd
    · refine ⟨more, ?_, hsub.cons col⟩
      rw [hskip] at hmore
      show mergeColumns (addMissing columns col) added = _
      rw [hskip, hmore]
    · refine ⟨col :: more, ?_, hsub.cons_cons col⟩
      rw [hadd, append_assoc] at hmore
      show mergeColumns (addMissing columns col) added = _
      rw [hadd, hmore]
      rfl

theorem mergeColumns_sublist (columns added : List FieldDescription) :
    (mergeColumns columns added).Sublist (columns ++ added) := by
  obtain ⟨more, hmore, hsub⟩ := mergeColumns_eq columns added
  rw [hmore]
  exact hsub.append_left columns

theorem mergeColumns_fresh {columns added : List FieldDescription}
    (hnew : ∀ col ∈ added, ∀ c ∈ columns, c.name ≠ col.name)
    (hnodup : (added.map FieldDescription.name).Nodup) :
    mergeColumns columns added = columns ++ added := by
  induction added generalizing columns with
  | nil => exact (append_nil columns).symm
  | cons col added ih =>
    rw [map_cons, nodup_cons] at hnodup
    show mergeColumns (addMissing columns col) added = _
    rw [addMissing_fresh (hnew col mem_cons_self), ih, append_assoc]
    · rfl
    · intro col' hcol' c hc
      rcases mem_append.mp hc with hc | hc
      · exact hnew col' (mem_cons_of_mem col hcol') c hc
      · rw [mem_singleton.mp hc]
        exact fun heq => hnodup.1 (mem_map.mpr ⟨col', hcol', heq.symm⟩)
    · exact hnodup.2

theorem applySchemaDeltas_eq {dst : String} {deltas : List TableSchemaDelta} :
    ∀ {schemas : String → Option TableSchema} {schema : TableSchema},
      schemas dst = some schema → (∀ delta ∈ deltas, delta.dstTableName = dst) →
      applySchemaDeltas schemas deltas dst = some { schema with
        columns := mergeColumns schema.columns
          (deltas.flatMap TableSchemaDelta.addedColumns) } := by
  induction deltas with
  | nil =>
    intro schemas schema hschema _
    exact hschema
  | cons delta deltas ih =>
    intro schemas schema hschema hdst
    have hname : delta.dstTableName = dst := hdst delta mem_cons_self
    have hone : applySchemaDelta schemas delta dst = some { schema with
        columns := mergeColumns schema.columns delta.addedColumns } := by
      rw [applySchemaDelta, hname, hschema]
      exact if_pos rfl
    show applySchemaDeltas (applySchemaDelta schemas delta) deltas dst = _
    rw [ih hone fun d hd => hdst d (mem_cons_of_mem delta hd), flatMap_cons,
      mergeColumns_append]

/-! ### The source table -/

/-- A column with the names it has had, the present one first. -/
structure SourceColumn where
  names : List String
  deriving DecidableEq, Repr

def SourceColumn.renamed (c : SourceColumn) (name : String) : SourceColumn := ⟨name :: c.names⟩

/-- What a clause of ALTER TABLE does to the columns of the table.  Columns that are there are
given by their place; a new column comes with its type. -/
inductive ColumnChange where
  | add (columns : List (String × String)) (position : Option ℕ)
  | modify (i : ℕ) (column : String × String) (position : Option ℕ)
  | change (i : ℕ) (column : String × String) (position : Option ℕ)
  | setDefault (name : String)
  | rename (i : ℕ) (oldName newName : String)
  | drop (i : ℕ) (name : String)
  | other
  deriving DecidableEq, Repr

namespace ColumnChange

/-- A column gets a description, and a place unless it stays. -/
def redescribe (table : List SourceColumn) (i : ℕ) (name : String) :
    Option ℕ → List SourceColumn
  | none => table.modify i fun c => c.renamed name
  | some p =>
    match table[i]? with
    | none => table
    | some c => (table.eraseIdx i).insertIdx p (c.renamed name)

/-- The table after the clause. -/
def apply (table : List SourceColumn) : ColumnChange → List SourceColumn
  | .add columns none => table ++ columns.map fun c => ⟨[c.1]⟩
  | .add columns (some p) => table.take p ++ (columns.map fun c => ⟨[c.1]⟩) ++ table.drop p
  | .modify i column position => redescribe table i column.1 position
  | .change i column position => redescribe table i column.1 position
  | .setDefault _ => table
  | .rename i _ newName => table.modify i fun c => c.renamed newName
  | .drop i _ => table.eraseIdx i
  | .other => table

/-- The clause as it is parsed. -/
def spec : ColumnChange → AlterSpec
  | .add columns position => .newColumns (columns.map fun c => ⟨c.1, some c.2⟩) position.isSome
  | .modify _ column position => .newColumns [⟨column.1, some column.2⟩] position.isSome
  | .change _ column position => .newColumns [⟨column.1, some column.2⟩] position.isSome
  | .setDefault name => .newColumns [⟨name, none⟩] false
  | .rename _ oldName newName => .renameColumn oldName newName
  | .drop _ name => .dropColumn name
  | .other => .other

/-- The names of the columns the clause adds. -/
def added : ColumnChange → List String
  | .add columns _ => columns.map Prod.fst
  | _ => []

def describesOld : ColumnChange → Bool
  | .modify .. => true
  | .change .. => true
  | _ => false

end ColumnChange

/-! ### Alignment -/

/-- Each column of the table is listed at its place, under a name it has had. -/
def Aligned (listed : List FieldDescription) (table : List SourceColumn) : Prop :=
  ∀ (i : ℕ) (col : SourceColumn), table[i]? = some col →
    ∃ fd : FieldDescription, listed[i]? = some fd ∧ fd.name ∈ col.names

namespace Aligned

variable {listed : List FieldDescription} {table : List SourceColumn}

theorem length_le (h : Aligned listed table) : table.length ≤ listed.length := by
  by_contra hlt
  obtain ⟨col, hcol⟩ : ∃ col, table[listed.length]? = some col :=
    ⟨_, getElem?_eq_getElem (by omega)⟩
  obtain ⟨fd, hfd, -⟩ := h listed.length col hcol
  rw [getElem?_eq_none (le_refl _)] at hfd
  cases hfd

theorem append (h : Aligned listed table) (more : List FieldDescription) :
    Aligned (listed ++ more) table := by
  intro i col hcol
  obtain ⟨fd, hfd, hname⟩ := h i col hcol
  refine ⟨fd, ?_, hname⟩
  rw [List.getElem?_append_left (List.getElem?_eq_some_iff.mp hfd).1]
  exact hfd

/-- Columns can be added behind a table that is listed exactly. -/
theorem add (h : Aligned listed table) (hlen : listed.length = table.length)
    (fds : List FieldDescription) :
    Aligned (listed ++ fds) (table ++ fds.map fun fd => ⟨[fd.name]⟩) := by
  intro i col hcol
  by_cases hi : i < table.length
  · rw [getElem?_append_left hi] at hcol
    exact h.append fds i col hcol
  · rw [getElem?_append_right (by omega), getElem?_map] at hcol
    obtain ⟨fd, hfd, rfl⟩ := Option.map_eq_some_iff.mp hcol
    refine ⟨fd, ?_, mem_singleton_self _⟩
    rw [getElem?_append_right (by omega), hlen]
    exact hfd

theorem rename (h : Aligned listed table) (j : ℕ) (name : String) :
    Aligned listed (table.modify j fun c => c.renamed name) := by
  intro i col hcol
  rw [getElem?_modify] at hcol
  obtain ⟨old, hold, rfl⟩ := Option.map_eq_some_iff.mp hcol
  obtain ⟨fd, hfd, hname⟩ := h i old hold
  refine ⟨fd, hfd, ?_⟩
  split_ifs
  · exact mem_cons_of_mem name hname
  · exact hname

end Aligned

/-! ### The clauses of a statement -/

section Clauses

variable {U D V : Type} {cfg : Config U D V}

theorem alterSpec_newColumns
    (hnames : ∀ col fd, cfg.fieldDescription col = .ok fd → fd.name = col.name)
    {positioned : Bool} {columns : List (String × String)} :
    ∀ {acc acc' : List FieldDescription} {shifting : Bool},
      alterSpec cfg (acc, shifting)
        (.newColumns (columns.map fun c => ⟨c.1, some c.2⟩) positioned) = .ok (acc', false) →
      shifting = false ∧ (positioned = true → columns = []) ∧
      ∃ fds, acc' = acc ++ fds ∧ fds.map FieldDescription.name = columns.map Prod.fst := by
  induction columns with
  | nil =>
    intro acc acc' shifting h
    cases h
    exact ⟨rfl, fun _ => rfl, [], (append_nil acc).symm, rfl⟩
  | cons column columns ih =>
    intro acc acc' shifting h
    rw [alterSpec, map_cons, foldlM_cons] at h
    obtain ⟨⟨acc₁, shifting₁⟩, hone, h⟩ := bind_eq_ok h
    obtain ⟨fd, hfd, hone⟩ := bind_eq_ok hone
    cases hone
    obtain ⟨hfalse, -, fds, rfl, hfds⟩ := ih h
    rw [Bool.or_eq_false_iff] at hfalse
    refine ⟨hfalse.1, fun hpos => ?_, fd :: fds, append_assoc .., ?_⟩
    · rw [hfalse.2] at hpos
      cases hpos
    · rw [map_cons, map_cons, hnames _ fd hfd, hfds]

/-- The pull lists `listed`, and the catalog will list `merged`; `fds` come with the statement. -/
structure Lists (listed merged fds : List FieldDescription) (table : List SourceColumn) :
    Prop where
  listed : Aligned (listed ++ fds) table
  merged : Aligned (mergeColumns merged fds) table

/-- A statement adds columns only where the table is listed exactly, before it describes others
again, and under names that are not listed. -/
def Fits (listed : List FieldDescription) (table : List SourceColumn)
    (changes : List ColumnChange) : Prop :=
  (∀ a ∈ changes, a.added = []) ∨
    (listed.length = table.length ∧
      (changes.Pairwise fun a b => a.describesOld = true → b.added = []) ∧
      ∀ name ∈ changes.flatMap ColumnChange.added, ∀ fd ∈ listed, fd.name ≠ name)

instance (listed : List FieldDescription) (table : List SourceColumn)
    (changes : List ColumnChange) : Decidable (Fits listed table changes) := by
  unfold Fits
  infer_instance

variable {listed merged fds fds' : List FieldDescription} {table : List SourceColumn}

theorem Lists.append (h : Lists listed merged fds table) (more : List FieldDescription) :
    Lists listed merged (fds ++ more) table := by
  obtain ⟨kept, hkept, -⟩ := mergeColumns_eq (mergeColumns merged fds) more
  constructor
  · rw [← append_assoc]
    exact h.listed.append more
  · rw [mergeColumns_append, hkept]
    exact h.merged.append kept

theorem Lists.rename (h : Lists listed merged fds table) (i : ℕ) (name : String) :
    Lists listed merged fds (table.modify i fun c => c.renamed name) :=
  ⟨h.listed.rename i name, h.merged.rename i name⟩

/-- Columns are added to the pull and to the catalog alike. -/
theorem Lists.add (hsub : merged.Sublist listed)
    (h : Lists listed merged fds table) (hlen : (listed ++ fds).length = table.length)
    {more : List FieldDescription}
    (hnew : ∀ col ∈ more, ∀ fd ∈ listed ++ fds, fd.name ≠ col.name)
    (hnodup : (more.map FieldDescription.name).Nodup) :
    Lists listed merged (fds ++ more) (table ++ more.map fun fd => ⟨[fd.name]⟩) := by
  have hmerged : (mergeColumns merged fds).Sublist (listed ++ fds) :=
    (mergeColumns_sublist merged fds).trans (hsub.append_right fds)
  have hexact : (mergeColumns merged fds).length = table.length := by
    refine le_antisymm ?_ h.merged.length_le
    rw [← hlen]
    exact hmerged.length_le
  constructor
  · rw [← append_assoc]
    exact h.listed.add hlen more
  · rw [mergeColumns_append,
      mergeColumns_fresh (fun col hcol fd hfd => hnew col hcol fd (hmerged.mem hfd)) hnodup]
    exact h.merged.add hexact more

/-- A clause that describes a column again: it may get a new name and keeps its place. -/
theorem Lists.redescribe
    (hnames : ∀ col fd, cfg.fieldDescription col = .ok fd → fd.name = col.name)
    (h : Lists listed merged fds table) (i : ℕ) {column : String × String} {position : Option ℕ}
    (hspec : alterSpec cfg (fds, false)
      (.newColumns ([column].map fun c => ⟨c.1, some c.2⟩) position.isSome) = .ok (fds', false)) :
    Lists listed merged fds' (ColumnChange.redescribe table i column.1 position) ∧
      ∃ more, fds' = fds ++ more := by
  obtain ⟨-, hposition, more, rfl, -⟩ := alterSpec_newColumns hnames hspec
  cases position with
  | some p => cases hposition rfl
  | none => exact ⟨(h.append more).rename i column.1, more, rfl⟩

/-- **One clause.** -/
theorem Lists.clause
    (hnames : ∀ col fd, cfg.fieldDescription col = .ok fd → fd.name = col.name)
    (hsub : merged.Sublist listed)
    {a : ColumnChange} (h : Lists listed merged fds table)
    (hstep : alterSpec cfg (fds, false) a.spec = .ok (fds', false))
    (hadd : a.added ≠ [] → (listed ++ fds).length = table.length ∧ a.added.Nodup ∧
      ∀ name ∈ a.added, ∀ fd ∈ listed ++ fds, fd.name ≠ name) :
    Lists listed merged fds' (a.apply table) ∧
      ∃ more, fds' = fds ++ more ∧
        (a.describesOld = false → more.map FieldDescription.name = a.added ∧
          (a.apply table).length = table.length + more.length) := by
  cases a with
  | add columns position =>
    obtain ⟨-, hposition, more, rfl, hmore⟩ := alterSpec_newColumns hnames hstep
    have hcolumns : (columns.map fun c => (⟨[c.1]⟩ : SourceColumn)) =
        more.map fun fd => ⟨[fd.name]⟩ := by
      have hmap := congrArg (List.map fun name : String => (⟨[name]⟩ : SourceColumn)) hmore
      rw [map_map, map_map] at hmap
      exact hmap.symm
    by_cases hempty : columns = []
    · subst hempty
      obtain rfl : more = [] := map_eq_nil_iff.mp hmore
      have hsame : (ColumnChange.add [] position).apply table = table := by
        cases position with
        | none => exact append_nil table
        | some p =>
          show table.take p ++ [] ++ table.drop p = table
          rw [append_nil, take_append_drop]
      rw [hsame, append_nil]
      exact ⟨h, [], (append_nil fds).symm, fun _ => ⟨rfl, rfl⟩⟩
    · cases position with
      | some p => exact absurd (hposition rfl) hempty
      | none =>
        have happly : (ColumnChange.add columns none).apply table =
            table ++ more.map fun fd => ⟨[fd.name]⟩ := congrArg (table ++ ·) hcolumns
        obtain ⟨hlen, hnodup, hnew⟩ := hadd fun hnil => hempty (map_eq_nil_iff.mp hnil)
        rw [happly]
        refine ⟨h.add hsub hlen (fun col hcol fd hfd => ?_) ?_, more, rfl,
          fun _ => ⟨hmore, by simp⟩⟩
        · refine hnew col.name ?_ fd hfd
          show col.name ∈ columns.map Prod.fst
          rw [← hmore]
          exact mem_map_of_mem hcol
        · rw [hmore]
          exact hnodup
  | modify i _ _ | change i _ _ =>
    obtain ⟨hlists, more, hmore⟩ := h.redescribe hnames i hstep
    exact ⟨hlists, more, hmore, nofun⟩
  | rename i oldName newName =>
    cases hstep
    exact ⟨h.rename i newName, [], (append_nil fds).symm,
      fun _ => ⟨rfl, length_modify ..⟩⟩
  | drop i name => cases hstep
  | setDefault _ | other =>
    cases hstep
    exact ⟨h, [], (append_nil fds).symm, fun _ => ⟨rfl, rfl⟩⟩

/-- Positions that shift are not forgotten. -/
theorem alterSpec_shifting {acc acc' : List FieldDescription × Bool} {spec : AlterSpec}
    (h : alterSpec cfg acc spec = .ok acc') (hshifting : acc.2 = true) : acc'.2 = true := by
  cases spec with
  | newColumns columns positioned =>
    refine foldlM_history (fun _ acc => acc.2 = true) hshifting ?_ h
    intro _ col acc₁ acc₂ hacc hstep
    cases htype : col.type with
    | none =>
      rw [htype] at hstep
      cases hstep
      exact hacc
    | some type =>
      rw [htype] at hstep
      obtain ⟨fd, -, hstep⟩ := bind_eq_ok hstep
      cases hstep
      show (acc₁.2 || positioned) = true
      rw [hacc, Bool.true_or]
  | dropColumn name =>
    cases h
    rfl
  | renameColumn _ _ | other =>
    cases h
    exact hshifting

/-- **One statement.** -/
theorem Lists.statement
    (hnames : ∀ col fd, cfg.fieldDescription col = .ok fd → fd.name = col.name)
    (hsub : merged.Sublist listed) :
    ∀ {changes : List ColumnChange} {fds fds' : List FieldDescription} {table : List SourceColumn},
      Lists listed merged fds table → Fits (listed ++ fds) table changes →
      (changes.flatMap ColumnChange.added).Nodup →
      (changes.map ColumnChange.spec).foldlM (alterSpec cfg) (fds, false) = .ok (fds', false) →
      Lists listed merged fds' (changes.foldl ColumnChange.apply table) := by
  intro changes
  induction changes with
  | nil =>
    intro fds fds' table h _ _ hfold
    cases hfold
    exact h
  | cons a changes ih =>
    intro fds fds' table h hfits hnodup hfold
    rw [map_cons, foldlM_cons] at hfold
    obtain ⟨⟨fds₁, shifting⟩, hone, hrest⟩ := bind_eq_ok hfold
    have hplaced : shifting = false := by
      by_contra hne
      have htrue : shifting = true := Bool.not_eq_false _ ▸ hne
      have hlast := foldlM_history (fun _ acc => acc.2 = true) htrue
        (fun _ _ _ _ hacc hstep => alterSpec_shifting hstep hacc) hrest
      cases hlast
    subst hplaced
    rw [flatMap_cons, nodup_append'] at hnodup
    obtain ⟨hnodupA, hnodupRest, hdisjoint⟩ := hnodup
    have hadd : a.added ≠ [] → (listed ++ fds).length = table.length ∧ a.added.Nodup ∧
        ∀ name ∈ a.added, ∀ fd ∈ listed ++ fds, fd.name ≠ name := by
      intro hne
      rcases hfits with hnone | ⟨hlen, -, hnew⟩
      · exact absurd (hnone a mem_cons_self) hne
      · refine ⟨hlen, hnodupA, fun name hname => hnew name ?_⟩
        rw [flatMap_cons]
        exact mem_append_left _ hname
    obtain ⟨hlists, more, rfl, hexact⟩ := h.clause hnames hsub hone hadd
    refine ih hlists ?_ hnodupRest hrest
    rcases hfits with hnone | ⟨hlen, hordered, hnew⟩
    · exact Or.inl fun b hb => hnone b (mem_cons_of_mem a hb)
    · rw [pairwise_cons] at hordered
      cases hdescribes : a.describesOld with
      | true => exact Or.inl fun b hb => hordered.1 b hb hdescribes
      | false =>
        obtain ⟨hmore, happly⟩ := hexact hdescribes
        refine Or.inr ⟨?_, hordered.2, fun name hname fd hfd heq => ?_⟩
        · rw [happly, ← hlen, ← append_assoc, length_append]
        · rw [← append_assoc] at hfd
          rcases mem_append.mp hfd with hfd | hfd
          · refine hnew name ?_ fd hfd heq
            rw [flatMap_cons]
            exact mem_append_right _ hname
          · refine hdisjoint ?_ hname
            rw [← heq, ← hmore]
            exact mem_map_of_mem hfd

end Clauses

/-! ### Runs -/

section Runs

variable {U D V : Type}

/-- The columns of the source table, the pull, and the schemas in the catalog. -/
structure Ordinals (U V : Type) where
  table : List SourceColumn
  pull : PullState U V
  catalog : String → Option TableSchema

/-- An ALTER TABLE of the table, a rows event, or the end of a batch. -/
inductive OrdinalAction (D : Type) where
  | alter (schema table stmtSchema : String) (changes : List ColumnChange)
  | rows (timestamp : ℕ) (type : RowsType) (m : TableMap) (rows : List (List D))
      (skipped : List (List ℕ))
  | nextBatch

/-- The deltas of a batch go to the catalog, and the next pull reads its schemas from there. -/
def Ordinals.nextBatch (st : Ordinals U V) : Ordinals U V :=
  let catalog := applySchemaDeltas st.catalog st.pull.stream.schemaDeltas
  { st with
    catalog := catalog
    pull := { st.pull with stream := {}, schemas := catalog, recordCount := 0 } }

variable (cfg : Config U D V) (source : String)

/-- A statement names the columns it adds once; without row metadata a rows event names no
columns. -/
def ordinalStep (st : Ordinals U V) : OrdinalAction D → Option (Ordinals U V)
  | .alter schema table stmtSchema changes =>
    if alterSource schema table stmtSchema = source ∧
        (changes.flatMap ColumnChange.added).Nodup then
      (processAlterTableQuery cfg st.pull schema table (changes.map ColumnChange.spec)
        stmtSchema).toOption.map fun pull =>
          { st with table := changes.foldl ColumnChange.apply st.table, pull := pull }
    else none
  | .rows timestamp type m rows skipped =>
    if m.columns = none then
      (processRows cfg st.pull timestamp type m rows skipped).toOption.map fun pull =>
        { st with pull := pull }
    else none
  | .nextBatch => some st.nextBatch

/-- The columns the pull lists for the table. -/
def Ordinals.listed (st : Ordinals U V) : List FieldDescription :=
  ((st.pull.schemas (cfg.nameAndExclude source).name).map TableSchema.columns).getD []

/-- The condition on the statements of a run. -/
def StatementFits (st : Ordinals U V) : OrdinalAction D → Prop
  | .alter _ _ _ changes => Fits (st.listed cfg source) st.table changes
  | _ => True

instance (st : Ordinals U V) (a : OrdinalAction D) : Decidable (StatementFits cfg source st a) := by
  cases a with
  | alter schema table stmtSchema changes =>
    exact inferInstanceAs (Decidable (Fits (st.listed cfg source) st.table changes))
  | rows | nextBatch => exact instDecidableTrue

variable {cfg source}

theorem foldlM_addChange {schema : TableSchema} {getFd : ℕ → Option FieldDescription}
    {changes : List (Change D)} {s s' : PullState U V}
    (h : changes.foldlM (addChange cfg schema getFd) s = .ok s') :
    s'.schemas = s.schemas ∧ s'.stream.schemaDeltas = s.stream.schemaDeltas := by
  refine foldlM_history (fun _ s' => s'.schemas = s.schemas ∧
    s'.stream.schemaDeltas = s.stream.schemaDeltas) ⟨rfl, rfl⟩ ?_ h
  rintro _ change s₁ s₂ ⟨hschemas, hdeltas⟩ hstep
  obtain ⟨rec, -, hstep⟩ := bind_eq_ok hstep
  cases hstep
  refine ⟨hschemas, ?_⟩
  rw [← hdeltas, addRecord]
  by_cases hzero : s₁.recordCount = 0
  · simp only [if_pos hzero]
    rfl
  · simp only [if_neg hzero]
    rfl

/-- A rows event without names leaves the schemas alone. -/
theorem processRows_plain {s s' : PullState U V} {timestamp : ℕ} {type : RowsType} {m : TableMap}
    {rows : List (List D)} {skipped : List (List ℕ)} (hm : m.columns = none)
    (h : processRows cfg s timestamp type m rows skipped = .ok s') :
    s'.schemas = s.schemas ∧ s'.stream.schemaDeltas = s.stream.schemaDeltas := by
  rw [processRows] at h
  split at h
  · cases h
    exact ⟨rfl, rfl⟩
  · split at h
    · cases h
    · split at h
      · cases h
      · rw [rowFields, hm] at h
        obtain ⟨sf, hsf, h⟩ := bind_eq_ok h
        cases hsf
        rw [emitRows.eq_def] at h
        split at h
        · cases h
        · cases h
        · split at h
          · have hkept := foldlM_addChange h
            exact hkept
          · cases h
        · have hkept := foldlM_addChange h
          exact hkept

/-- The pull lists what the catalog has and what the batch added, and both lists are aligned
with the table, the catalog's as it will be after the batch. -/
structure Ordinals.Inv (cfg : Config U D V) (source : String) (st : Ordinals U V) : Prop where
  own : ∀ delta ∈ st.pull.stream.schemaDeltas,
    delta.dstTableName = (cfg.nameAndExclude source).name
  lists : ∃ known schema, st.catalog (cfg.nameAndExclude source).name = some known ∧
    st.pull.schemas (cfg.nameAndExclude source).name = some schema ∧
    schema.columns = known.columns ++
      st.pull.stream.schemaDeltas.flatMap TableSchemaDelta.addedColumns ∧
    Aligned schema.columns st.table ∧
    Aligned (mergeColumns known.columns
      (st.pull.stream.schemaDeltas.flatMap TableSchemaDelta.addedColumns)) st.table

variable {st st' : Ordinals U V}

theorem Ordinals.Inv.alter
    (hnames : ∀ col fd, cfg.fieldDescription col = .ok fd → fd.name = col.name)
    (hmetadata : cfg.binlogRowMetadataSupported = false)
    (hmirrored : (cfg.nameAndExclude source).name ≠ "") (h : st.Inv cfg source)
    {schemaName table stmtSchema : String} {changes : List ColumnChange}
    (hsource : alterSource schemaName table stmtSchema = source)
    (hnodup : (changes.flatMap ColumnChange.added).Nodup)
    (hfits : Fits (st.listed cfg source) st.table changes) {pull : PullState U V}
    (hstmt : processAlterTableQuery cfg st.pull schemaName table (changes.map ColumnChange.spec)
      stmtSchema = .ok pull) :
    Inv cfg source
      { st with table := changes.foldl ColumnChange.apply st.table, pull := pull } := by
  obtain ⟨known, schema, hknown, hschema, hcolumns, haligned, hmerged⟩ := h.lists
  set pending := st.pull.stream.schemaDeltas.flatMap TableSchemaDelta.addedColumns with hpending
  have hlisted : st.listed cfg source = schema.columns := by
    rw [Ordinals.listed, hschema]
    rfl
  rw [hlisted] at hfits
  have hmergedSub : (mergeColumns known.columns pending).Sublist schema.columns := by
    rw [hcolumns]
    exact mergeColumns_sublist known.columns pending
  have hlists : Lists schema.columns (mergeColumns known.columns pending) [] st.table := by
    refine ⟨?_, hmerged⟩
    rw [append_nil]
    exact haligned
  have hstatement : ∀ fds shifting,
      (changes.map ColumnChange.spec).foldlM (alterSpec cfg) ([], false) = .ok (fds, shifting) →
      (shifting = true → cfg.binlogRowMetadataSupported = true) →
      Lists schema.columns (mergeColumns known.columns pending) fds
        (changes.foldl ColumnChange.apply st.table) := by
    intro fds shifting hfold hplaced
    have hfalse : shifting = false := by
      cases shifting with
      | false => rfl
      | true =>
        rw [hplaced rfl] at hmetadata
        cases hmetadata
    subst hfalse
    refine hlists.statement hnames hmergedSub ?_ hnodup hfold
    rw [append_nil]
    exact hfits
  rcases processAlterTableQuery_cases hstmt with
    ⟨rfl, hunmapped | ⟨shifting, hfold, hplaced⟩⟩ | ⟨fds, shifting, current, hfold, hplaced,
      hcurrent, rfl⟩
  · rw [hsource] at hunmapped
    exact absurd hunmapped hmirrored
  · have hafter := hstatement [] shifting hfold hplaced
    refine ⟨h.own, known, schema, hknown, hschema, hcolumns, ?_, hafter.merged⟩
    have haligned' := hafter.listed
    rw [append_nil] at haligned'
    exact haligned'
  · have hafter := hstatement fds shifting hfold hplaced
    rw [hsource] at hcurrent ⊢
    obtain rfl := Option.some.inj (hschema.symm.trans hcurrent)
    have hdeltas : (st.pull.addColumns source (cfg.nameAndExclude source).name schema
        fds).stream.schemaDeltas.flatMap TableSchemaDelta.addedColumns = pending ++ fds := by
      rw [hpending]
      show (st.pull.stream.schemaDeltas ++ [_]).flatMap _ = _
      rw [flatMap_append, flatMap_singleton]
    refine ⟨fun delta hdelta => ?_, known, _, hknown, if_pos rfl, ?_, hafter.listed, ?_⟩
    · rcases mem_append.mp hdelta with hdelta | hdelta
      · exact h.own delta hdelta
      · rw [mem_singleton.mp hdelta]
    · rw [hdeltas, ← append_assoc, ← hcolumns]
    · rw [hdeltas, mergeColumns_append]
      exact hafter.merged

/-- **A step keeps the columns aligned.** -/
theorem Ordinals.Inv.step
    (hnames : ∀ col fd, cfg.fieldDescription col = .ok fd → fd.name = col.name)
    (hmetadata : cfg.binlogRowMetadataSupported = false)
    (hmirrored : (cfg.nameAndExclude source).name ≠ "") {a : OrdinalAction D}
    (h : st.Inv cfg source) (hfits : StatementFits cfg source st a)
    (hstep : ordinalStep cfg source st a = some st') : st'.Inv cfg source := by
  cases a with
  | alter schemaName table stmtSchema changes =>
    rw [ordinalStep] at hstep
    split at hstep
    · rename_i hguard
      obtain ⟨pull, hpull, rfl⟩ := Option.map_eq_some_iff.mp hstep
      have hstmt := toOption_eq_some hpull
      exact h.alter hnames hmetadata hmirrored hguard.1 hguard.2 hfits hstmt
    · cases hstep
  | rows timestamp type m rows skipped =>
    rw [ordinalStep] at hstep
    split at hstep
    · rename_i hm
      obtain ⟨pull, hpull, rfl⟩ := Option.map_eq_some_iff.mp hstep
      have hrows := toOption_eq_some hpull
      obtain ⟨hschemas, hdeltas⟩ := processRows_plain hm hrows
      constructor
      · rw [hdeltas]
        exact h.own
      · rw [hdeltas, hschemas]
        exact h.lists
    · cases hstep
  | nextBatch =>
    cases hstep
    obtain ⟨known, schema, hknown, hschema, hcolumns, haligned, hmerged⟩ := h.lists
    have hcatalog := applySchemaDeltas_eq hknown h.own
    refine ⟨fun delta hdelta => absurd hdelta not_mem_nil, _, _, hcatalog, hcatalog, ?_,
      hmerged, hmerged⟩
    exact (append_nil _).symm

/-- **Values are recorded under their own columns.**  The pull starts with the columns of the
table in order.  As long as each statement fits, a rows event finds at every place a
description that has a name of the column there. -/
theorem recorded_under_own_column
    (hnames : ∀ col fd, cfg.fieldDescription col = .ok fd → fd.name = col.name)
    (hmetadata : cfg.binlogRowMetadataSupported = false)
    (hmirrored : (cfg.nameAndExclude source).name ≠ "") {schema : TableSchema}
    (hcatalog : st.catalog (cfg.nameAndExclude source).name = some schema)
    (hschema : st.pull.schemas (cfg.nameAndExclude source).name = some schema)
    (hdeltas : st.pull.stream.schemaDeltas = [])
    (htable : st.table = schema.columns.map fun fd => ⟨[fd.name]⟩)
    {actions : List (OrdinalAction D)}
    (hfits : Along (ordinalStep cfg source) (StatementFits cfg source) st actions)
    (hrun : runs (ordinalStep cfg source) st actions = some st')
    {m : TableMap} (hm : m.columns = none) :
    ∃ known getFd, st'.pull.schemas (cfg.nameAndExclude source).name = some known ∧
      rowFields cfg st'.pull m (cfg.nameAndExclude source) known = .ok (st'.pull, getFd) ∧
      ∀ i col, st'.table[i]? = some col → ∃ fd, getFd i = some fd ∧ fd.name ∈ col.names := by
  have haligned : Aligned schema.columns st.table := by
    intro i col hcol
    rw [htable, getElem?_map] at hcol
    obtain ⟨fd, hfd, rfl⟩ := Option.map_eq_some_iff.mp hcol
    exact ⟨fd, hfd, mem_singleton_self _⟩
  have hstart : st.Inv cfg source := by
    constructor
    · rw [hdeltas]
      exact fun delta hdelta => absurd hdelta not_mem_nil
    · rw [hdeltas]
      exact ⟨schema, schema, hcatalog, hschema, (append_nil _).symm, haligned, haligned⟩
  have hend := runs_invariant (fun st => st.Inv cfg source)
    (fun _ _ _ h hfit hstep => h.step hnames hmetadata hmirrored hfit hstep) hstart hfits hrun
  obtain ⟨-, known, -, hknown, -, hafter, -⟩ := hend.lists
  refine ⟨known, fun idx => known.columns[idx]?, hknown, ?_, hafter⟩
  rw [rowFields, hm]

end Runs

/-! ### Two runs on orders -/

/-- The table of orders has one column, and all know it. -/
def ordersOrdinals : Ordinals Char ℕ where
  table := [⟨["id"]⟩]
  pull := { gset := none, pos := ⟨"b", 4⟩, schemas := ordersCfg.tableNameSchemaMapping }
  catalog := ordersCfg.tableNameSchemaMapping

/-- A column is added before another is described again, and the catalog takes both in. -/
theorem addThenModify_recorded :
    ∃ st, runs (ordinalStep ordersCfg "shop.orders") ordersOrdinals
        [.alter "" "orders" "shop" [.add [("qty", "int")] none],
         .alter "" "orders" "shop" [.modify 0 ("id", "bigint") none],
         .rows 1 .write ordersTable [[1, 9]] [], .nextBatch,
         .alter "" "orders" "shop" [.add [("note", "int")] none]] = some st ∧
      (st.table.map SourceColumn.names = [["id", "id"], ["qty"], ["note"]]) ∧
      ∃ known getFd, st.pull.schemas (ordersCfg.nameAndExclude "shop.orders").name = some known ∧
        rowFields ordersCfg st.pull ordersTable (ordersCfg.nameAndExclude "shop.orders") known =
          .ok (st.pull, getFd) ∧
        ∀ i col, st.table[i]? = some col → ∃ fd, getFd i = some fd ∧ fd.name ∈ col.names := by
  have hrun : (runs (ordinalStep ordersCfg "shop.orders") ordersOrdinals
      [.alter "" "orders" "shop" [.add [("qty", "int")] none],
       .alter "" "orders" "shop" [.modify 0 ("id", "bigint") none],
       .rows 1 .write ordersTable [[1, 9]] [], .nextBatch,
       .alter "" "orders" "shop" [.add [("note", "int")] none]]).map
        (fun st => st.table.map SourceColumn.names) =
      some [["id", "id"], ["qty"], ["note"]] := by decide +kernel
  obtain ⟨st, hst, htable⟩ := Option.map_eq_some_iff.mp hrun
  have hnames : ∀ col fd, ordersCfg.fieldDescription col = .ok fd → fd.name = col.name := by
    intro col fd h
    cases h
    rfl
  refine ⟨st, hst, htable, recorded_under_own_column hnames rfl (by decide) rfl rfl rfl rfl
    (along_of_check ?_) hst rfl⟩
  decide +kernel

/-- A column is described again before another is added: what is written to `qty` is recorded
as `id`. -/
theorem modifyThenAdd_records_elsewhere :
    ∃ st, runs (ordinalStep ordersCfg "shop.orders") ordersOrdinals
        [.alter "" "orders" "shop" [.modify 0 ("id", "bigint") none],
         .alter "" "orders" "shop" [.add [("qty", "int")] none],
         .rows 1 .write ordersTable [[1, 9]] []] = some st ∧
      st.table.map SourceColumn.names = [["id", "id"], ["qty"]] ∧
      (st.listed ordersCfg "shop.orders").map FieldDescription.name = ["id", "id", "qty"] ∧
      st.pull.stream.records.map (fun rec =>
        (rec.getItems.colToVal "id", rec.getItems.colToVal "qty")) = [(some (some 9), none)] := by
  have hrun : (runs (ordinalStep ordersCfg "shop.orders") ordersOrdinals
      [.alter "" "orders" "shop" [.modify 0 ("id", "bigint") none],
       .alter "" "orders" "shop" [.add [("qty", "int")] none],
       .rows 1 .write ordersTable [[1, 9]] []]).map
        (fun st => (st.table.map SourceColumn.names,
          (st.listed ordersCfg "shop.orders").map FieldDescription.name,
          st.pull.stream.records.map fun rec =>
            (rec.getItems.colToVal "id", rec.getItems.colToVal "qty"))) =
      some ([["id", "id"], ["qty"]], ["id", "id", "qty"], [(some (some 9), none)]) := by
    rfl
  obtain ⟨st, hst, hfields⟩ := Option.map_eq_some_iff.mp hrun
  obtain ⟨htable, hrest⟩ := Prod.mk.inj hfields
  obtain ⟨hlisted, hrecords⟩ := Prod.mk.inj hrest
  exact ⟨st, hst, htable, hlisted, hrecords⟩

end MySQL
