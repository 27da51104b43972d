/-
The walk over inherited tables (`getInheritedTables`).

A table can inherit from several others, so that it is found on several paths; the walk
keeps the object ids it has visited.  A child is recorded where it is found and followed
only if `pg_class` says that it has children of its own and it was not visited before.

* `Hierarchy` — an inheritance graph with the answers of the catalog;
* `getInheritedTables_walked` — what one call adds to the map and to the visited ids;
* `getInheritedTables_reachable` — from the root the walk returns exactly the tables that
  can be reached and have a block, so that reading each of them with `FROM ONLY` has every
  row once.

The recursion of the source has no bound; `depth` is the depth it is given here, and as
many levels as there are tables are enough.
-/
import PeerDB.Postgres.ChildTables
import PeerDB.Lib.Walk
import Mathlib.Data.Finset.Card

open Loop Walk

namespace QRep

open List

/-! ### The model -/

/-- `tableInfo`: a row of the query for the children of a table. -/
structure TableInfo where
  name : String
  blocks : Int64
  density : Float
  oid : UInt32
  hasSubclass : Bool

/-- What the query for the children of a table returns: rows, each of which can fail to be
read, and an error at the end. -/
structure ChildRows where
  rows : List (Except String TableInfo)
  err : Option String

/-- The answers of `pg_class` and `pg_inherits`. -/
structure Catalog where
  blockStats : UInt32 → Except String (Int64 × Float)
  childTables : UInt32 → Except String ChildRows

/-- The children of a table, read to the end before any of them is followed. -/
def Catalog.children (cat : Catalog) (parentOID : UInt32) (parentName : String) :
    Except Fault (List TableInfo) := do
  let rows ← (cat.childTables parentOID).mapError fun e =>
    .error ("failed to query child tables for " ++ parentName ++ ": " ++ e)
  let children ← rows.rows.mapM fun row =>
    row.mapError fun e => .error ("failed to scan child table: " ++ e)
  match rows.err with
  | some e => .error (.error e)
  | none => return children

def BlockStats.record (m : BlockStats) (name : String) (stats : TableBlockStats) : BlockStats :=
  if stats.blockCount > 0 then m.insert name stats else m

/-- One turn of the loop over the children. -/
def visitChild
    (visit : UInt32 → String → Finset UInt32 → Except Fault (BlockStats × Finset UInt32))
    (st : BlockStats × Finset UInt32) (child : TableInfo) :
    Except Fault (BlockStats × Finset UInt32) :=
  let blocksPerTable := st.1.record child.name ⟨child.density, child.blocks⟩
  if child.hasSubclass then
    if child.oid ∈ st.2 then .ok (blocksPerTable, st.2)
    else do
      let (childTables, visited) ← (visit child.oid child.name st.2).mapError
        (.wrap ("failed to get inherited tables of " ++ child.name))
      -- `maps.Copy`: the entries of the call replace those of the same name
      return (childTables ∪ blocksPerTable, visited)
  else .ok (blocksPerTable, st.2)

/-- `getInheritedTables`, which also returns the visited object ids. -/
def getInheritedTables (cat : Catalog) : ℕ → UInt32 → String → Finset UInt32 →
    Except Fault (BlockStats × Finset UInt32)
  | 0 => fun _ _ _ => .error .running
  | depth + 1 => fun parentOID parentName visited => do
    let visited := insert parentOID visited
    let (numBlocks, blockDensity) ← (cat.blockStats parentOID).mapError fun e =>
      .error ("failed to get block count for " ++ parentName ++ ": " ++ e)
    let blocksPerTable := BlockStats.record ∅ parentName ⟨blockDensity, numBlocks⟩
    let children ← cat.children parentOID parentName
    children.foldlM (visitChild (getInheritedTables cat depth)) (blocksPerTable, visited)

theorem visitChild_skip
    {visit : UInt32 → String → Finset UInt32 → Except Fault (BlockStats × Finset UInt32)}
    {st : BlockStats × Finset UInt32} {child : TableInfo}
    (hskip : child.hasSubclass = false ∨ child.oid ∈ st.2) :
    visitChild visit st child =
      .ok (st.1.record child.name ⟨child.density, child.blocks⟩, st.2) := by
  rw [visitChild]
  rcases hskip with hleaf | hseen
  · rw [hleaf]
    rfl
  · cases child.hasSubclass with
    | false => rfl
    | true =>
      show (if child.oid ∈ st.2 then _ else _) = _
      rw [if_pos hseen]

theorem visitChild_visit
    {visit : UInt32 → String → Finset UInt32 → Except Fault (BlockStats × Finset UInt32)}
    {st r : BlockStats × Finset UInt32} {child : TableInfo} (hsub : child.hasSubclass = true)
    (hnew : child.oid ∉ st.2) (hcall : visit child.oid child.name st.2 = .ok r) :
    visitChild visit st child =
      .ok (r.1 ∪ st.1.record child.name ⟨child.density, child.blocks⟩, r.2) := by
  rw [visitChild, hsub]
  show (if child.oid ∈ st.2 then _ else _) = _
  rw [if_neg hnew, hcall]
  rfl

/-! ### Inheritance graphs -/

/-- Tables that inherit from each other in any way, with different qualified names.  The
subclass flag can be set on a table without children, as Postgres does not clear it when
the last child is dropped. -/
structure Hierarchy where
  tables : Finset UInt32
  name : UInt32 → String
  stats : UInt32 → TableBlockStats
  hasSubclass : UInt32 → Bool
  children : UInt32 → List UInt32
  closed : ∀ t ∈ tables, ∀ c ∈ children t, c ∈ tables
  name_inj : ∀ s ∈ tables, ∀ t ∈ tables, name s = name t → s = t
  flagged : ∀ t ∈ tables, children t ≠ [] → hasSubclass t = true

namespace Hierarchy

variable (h : Hierarchy)

/-- The row of the catalog for a table. -/
def info (t : UInt32) : TableInfo :=
  { name := h.name t, blocks := (h.stats t).blockCount, density := (h.stats t).blockDensity,
    oid := t, hasSubclass := h.hasSubclass t }

/-- The catalog of a database with these tables. -/
def catalog : Catalog where
  blockStats t := .ok ((h.stats t).blockCount, (h.stats t).blockDensity)
  childTables t := .ok { rows := (h.children t).map fun c => .ok (h.info c), err := none }

theorem catalog_children (t : UInt32) (name : String) :
    h.catalog.children t name = .ok ((h.children t).map h.info) := by
  have hrows : ((h.children t).map fun c => (.ok (h.info c) : Except String TableInfo)).mapM
      (fun row => row.mapError fun e => Fault.error ("failed to scan child table: " ++ e)) =
      .ok ((h.children t).map h.info) := by
    rw [mapM_map]
    exact mapM_eq_ok fun c _ => rfl
  rw [Catalog.children]
  show (List.mapM (m := Except Fault) _ _ >>= _) = _
  rw [hrows]
  rfl

/-- The map has the tables of the set that have blocks, with their own block counts. -/
def Holds (m : BlockStats) (S : Finset UInt32) : Prop :=
  ∀ name stats, m.lookup name = some stats ↔
    ∃ t ∈ S, h.name t = name ∧ (h.stats t).blockCount > 0 ∧ stats = h.stats t

variable {h}

theorem holds_empty : h.Holds ∅ ∅ := by
  intro name stats
  rw [AList.lookup_empty]
  simp

theorem Holds.record {m : BlockStats} {S : Finset UInt32} (hm : h.Holds m S)
    (hS : S ⊆ h.tables) {t : UInt32} (ht : t ∈ h.tables) :
    h.Holds (m.record (h.name t) (h.stats t)) (insert t S) := by
  intro name stats
  rw [BlockStats.record]
  split_ifs with hblocks
  · rcases eq_or_ne name (h.name t) with rfl | hne
    · rw [AList.lookup_insert, Option.some.injEq]
      constructor
      · rintro rfl
        exact ⟨t, Finset.mem_insert_self t S, rfl, hblocks, rfl⟩
      · rintro ⟨s, hs, hname, -, rfl⟩
        have hs' : s ∈ h.tables := (Finset.insert_subset ht hS) hs
        rw [h.name_inj s hs' t ht hname]
    · rw [AList.lookup_insert_ne hne, hm name stats]
      refine exists_congr fun s => and_congr_left fun hs => ?_
      have hst : s ≠ t := by
        rintro rfl
        exact hne hs.1.symm
      rw [Finset.mem_insert, or_iff_right hst]
  · rw [hm name stats]
    refine exists_congr fun s => and_congr_left fun hs => ?_
    have hst : s ≠ t := by
      rintro rfl
      exact hblocks hs.2.1
    rw [Finset.mem_insert, or_iff_right hst]

theorem Holds.union {m m' : BlockStats} {S S' : Finset UInt32} (hm : h.Holds m S)
    (hm' : h.Holds m' S') (hS : S ⊆ h.tables) (hS' : S' ⊆ h.tables) :
    h.Holds (m' ∪ m) (S' ∪ S) := by
  intro name stats
  have hunion : (m' ∪ m).lookup name = some stats ↔
      m'.lookup name = some stats ∨ name ∉ m' ∧ m.lookup name = some stats :=
    AList.mem_lookup_union
  rw [hunion, hm' name stats, hm name stats]
  constructor
  · rintro (⟨t, ht, hrest⟩ | ⟨-, t, ht, hrest⟩)
    · exact ⟨t, Finset.mem_union_left _ ht, hrest⟩
    · exact ⟨t, Finset.mem_union_right _ ht, hrest⟩
  · rintro ⟨t, ht, rfl, hblocks, rfl⟩
    rcases Finset.mem_union.mp ht with ht | ht
    · exact .inl ⟨t, ht, rfl, hblocks, rfl⟩
    · by_cases hmem : h.name t ∈ m'
      · -- a table of this name in the other map is the same table
        obtain ⟨stats', hstats'⟩ := Option.isSome_iff_exists.mp (AList.lookup_isSome.mpr hmem)
        obtain ⟨t', ht', hname, -, -⟩ := (hm' _ _).mp hstats'
        rw [h.name_inj t' (hS' ht') t (hS ht) hname] at ht'
        exact .inl ⟨t, ht', rfl, hblocks, rfl⟩
      · exact .inr ⟨hmem, t, ht, rfl, hblocks, rfl⟩

end Hierarchy

/-! ### The walk -/

/-- A result does not change with a greater depth. -/
theorem getInheritedTables_mono {cat : Catalog} : ∀ {depth depth' : ℕ}, depth ≤ depth' →
    ∀ {oid : UInt32} {name : String} {visited : Finset UInt32} {r : BlockStats × Finset UInt32},
      getInheritedTables cat depth oid name visited = .ok r →
      getInheritedTables cat depth' oid name visited = .ok r := by
  intro depth
  induction depth with
  | zero =>
    intro depth' _ oid name visited r hrun
    cases hrun
  | succ depth ih =>
    intro depth' hle oid name visited r hrun
    obtain ⟨depth', rfl⟩ : ∃ d, depth' = d + 1 := ⟨depth' - 1, by omega⟩
    rw [getInheritedTables] at hrun ⊢
    obtain ⟨⟨numBlocks, density⟩, hstats, hrun⟩ := bind_eq_ok hrun
    obtain ⟨children, hchildren, hrun⟩ := bind_eq_ok hrun
    dsimp only
    rw [hstats]
    show (cat.children oid name >>= _) = _
    rw [hchildren]
    refine foldlM_ok_mono ?_ hrun
    intro st child st' hchild
    by_cases hskip : child.hasSubclass = false ∨ child.oid ∈ st.2
    · rw [visitChild_skip hskip] at hchild ⊢
      exact hchild
    · rw [not_or, Bool.not_eq_false] at hskip
      cases hcall : getInheritedTables cat depth child.oid child.name st.2 with
      | error e =>
        rw [visitChild, hskip.1, hcall] at hchild
        simp only [if_true, if_neg hskip.2] at hchild
        cases hchild
      | ok r =>
        rw [visitChild_visit hskip.1 hskip.2 hcall] at hchild
        rw [visitChild_visit hskip.1 hskip.2 (ih (by omega) hcall)]
        exact hchild

namespace Hierarchy

variable {h : Hierarchy}

/-- What a call for a table returns when these ids are visited before it: a map of tables
that can be reached from there, with everything that the walk has seen. -/
structure Visits (h : Hierarchy) (t : UInt32) (visited : Finset UInt32)
    (r : BlockStats × Finset UInt32) (S : Finset UInt32) : Prop where
  holds : h.Holds r.1 S
  tables : S ⊆ h.tables ∧ r.2 ⊆ h.tables
  walked : Walked h.children visited r.2 S
  mem : t ∈ r.2
  reaches : ∀ s ∈ S, Reaches h.children t s

/-- The loop over the children, for a call `visit` that keeps its promise. -/
theorem visitChildren_walked {V : Finset UInt32}
    {visit : UInt32 → String → Finset UInt32 → Except Fault (BlockStats × Finset UInt32)}
    (hvisit : ∀ c ∈ h.tables, ∀ V₁, V ⊆ V₁ → V₁ ⊆ h.tables → c ∉ V₁ →
      ∃ r S, visit c (h.name c) V₁ = .ok r ∧ h.Visits c V₁ r S) :
    ∀ {cs : List UInt32}, (∀ c ∈ cs, c ∈ h.tables) →
      ∀ {m : BlockStats} {V₁ S : Finset UInt32}, h.Holds m S → S ⊆ h.tables → V ⊆ V₁ →
        V₁ ⊆ h.tables →
      ∃ r S', (cs.map h.info).foldlM (visitChild visit) (m, V₁) = .ok r ∧
        h.Holds r.1 S' ∧ (S' ⊆ h.tables ∧ r.2 ⊆ h.tables) ∧ S ⊆ S' ∧
        Walked h.children V₁ r.2 S' ∧ (∀ c ∈ cs, Seen h.children r.2 S' c) ∧
        ∀ s ∈ S', s ∈ S ∨ ∃ c ∈ cs, Reaches h.children c s := by
  intro cs
  induction cs with
  | nil =>
    intro _ m V₁ S hm hS _ hV₁
    exact ⟨(m, V₁), S, rfl, hm, ⟨hS, hV₁⟩, Finset.Subset.refl S, .refl V₁ S, by simp,
      fun s hs => .inl hs⟩
  | cons c cs ih =>
    intro hcs m V₁ S hm hS hV hV₁
    have hc : c ∈ h.tables := hcs c mem_cons_self
    have hrest : ∀ c ∈ cs, c ∈ h.tables := fun d hd => hcs d (mem_cons_of_mem c hd)
    have hrecord := hm.record hS hc
    have hS₁ : insert c S ⊆ h.tables := Finset.insert_subset hc hS
    -- the turn for `c`
    obtain ⟨⟨m₂, V₂⟩, S₂, hturn, hm₂, ⟨hS₂, hV₂⟩, hsub, hwalked, hseen, hreach⟩ :
        ∃ r S₂, visitChild visit (m, V₁) (h.info c) = .ok r ∧ h.Holds r.1 S₂ ∧
          (S₂ ⊆ h.tables ∧ r.2 ⊆ h.tables) ∧ S ⊆ S₂ ∧ Walked h.children V₁ r.2 S₂ ∧
          Seen h.children r.2 S₂ c ∧ ∀ s ∈ S₂, s ∈ S ∨ Reaches h.children c s := by
      have hself : ∀ s ∈ insert c S, s ∈ S ∨ Reaches h.children c s := by
        intro s hs
        rcases Finset.mem_insert.mp hs with rfl | hs
        · exact .inr .refl
        · exact .inl hs
      by_cases hskip : h.hasSubclass c = false ∨ c ∈ V₁
      · refine ⟨_, insert c S, visitChild_skip hskip, hrecord, ⟨hS₁, hV₁⟩,
          Finset.subset_insert c S, .refl V₁ _, ⟨Finset.mem_insert_self c S, ?_⟩, hself⟩
        refine hskip.symm.imp_right fun hleaf => ?_
        -- a table without the flag has no children
        by_contra hsome
        rw [h.flagged c hc hsome] at hleaf
        cases hleaf
      · rw [not_or, Bool.not_eq_false] at hskip
        obtain ⟨r, S₂, hcall, hr⟩ := hvisit c hc V₁ hV hV₁ hskip.2
        refine ⟨_, S₂ ∪ insert c S, visitChild_visit hskip.1 hskip.2 hcall,
          hrecord.union hr.holds hS₁ hr.tables.1,
          ⟨Finset.union_subset hr.tables.1 hS₁, hr.tables.2⟩,
          (Finset.subset_insert c S).trans Finset.subset_union_right,
          hr.walked.mono Finset.subset_union_left,
          ⟨Finset.mem_union_right _ (Finset.mem_insert_self c S), .inl hr.mem⟩, ?_⟩
        intro s hs
        rcases Finset.mem_union.mp hs with hs | hs
        · exact .inr (hr.reaches s hs)
        · exact hself s hs
    obtain ⟨r, S', hrun, hr, htables, hsub', hwalked', hseen', hreach'⟩ :=
      ih hrest hm₂ hS₂ (hV.trans hwalked.subset) hV₂
    refine ⟨r, S', ?_, hr, htables, hsub.trans hsub', (hwalked.mono hsub').trans hwalked', ?_, ?_⟩
    · rw [map_cons, foldlM_cons, hturn]
      exact hrun
    · intro d hd
      rcases mem_cons.mp hd with rfl | hd
      · exact hseen.mono hwalked'.subset hsub'
      · exact hseen' d hd
    · intro s hs
      rcases hreach' s hs with hs | ⟨d, hd, hds⟩
      · rcases hreach s hs with hs | hcs'
        · exact .inl hs
        · exact .inr ⟨c, mem_cons_self, hcs'⟩
      · exact .inr ⟨d, mem_cons_of_mem c hd, hds⟩

/-- **One call walks what is left to walk from its table.**  Each call adds its table to
the visited ids, so that as many levels are enough as there are tables not visited. -/
theorem getInheritedTables_walked {visited : Finset UInt32} (hvisited : visited ⊆ h.tables)
    {t : UInt32} (ht : t ∈ h.tables) (hnew : t ∉ visited) :
    ∃ r S, getInheritedTables h.catalog (h.tables \ visited).card t (h.name t) visited = .ok r ∧
      h.Visits t visited r S := by
  induction hn : (h.tables \ visited).card using Nat.strong_induction_on
    generalizing visited t with
  | _ n ih =>
    have hV : insert t visited ⊆ h.tables := Finset.insert_subset ht hvisited
    have hless : (h.tables \ insert t visited).card < n := by
      rw [← hn]
      refine Finset.card_lt_card ⟨Finset.sdiff_subset_sdiff (Finset.Subset.refl _)
        (Finset.subset_insert t visited), fun hsub => ?_⟩
      have hmem := hsub (Finset.mem_sdiff.mpr ⟨ht, hnew⟩)
      exact (Finset.mem_sdiff.mp hmem).2 (Finset.mem_insert_self t visited)
    obtain ⟨depth, rfl⟩ : ∃ d, n = d + 1 := ⟨n - 1, by omega⟩
    -- the calls for the children have fewer tables left, and one level less
    have hcalls : ∀ c ∈ h.tables, ∀ V₁, insert t visited ⊆ V₁ → V₁ ⊆ h.tables → c ∉ V₁ →
        ∃ r S, getInheritedTables h.catalog depth c (h.name c) V₁ = .ok r ∧
          h.Visits c V₁ r S := by
      intro c hc V₁ hsub hV₁ hnew₁
      have hle : (h.tables \ V₁).card ≤ (h.tables \ insert t visited).card :=
        Finset.card_le_card (Finset.sdiff_subset_sdiff (Finset.Subset.refl _) hsub)
      obtain ⟨r, S, hrun, hr⟩ := ih _ (by omega) hV₁ hc hnew₁ rfl
      exact ⟨r, S, getInheritedTables_mono (by omega) hrun, hr⟩
    obtain ⟨r, S, hrun, hholds, htables, hsub, hwalked, hseen, hreach⟩ :=
      visitChildren_walked hcalls (h.closed t ht) (holds_empty.record (Finset.empty_subset _) ht)
        (Finset.insert_subset ht (Finset.empty_subset _)) (Finset.Subset.refl _) hV
    have hself : t ∈ S := hsub (Finset.mem_insert_self t ∅)
    refine ⟨r, S, ?_, hholds, htables, hwalked.node hself hseen,
      hwalked.subset (Finset.mem_insert_self t visited), ?_⟩
    · rw [getInheritedTables]
      show (h.catalog.children t (h.name t) >>= _) = _
      rw [catalog_children]
      exact hrun
    · intro s hs
      rcases hreach s hs with hs | ⟨c, hc, hcs⟩
      · rw [Finset.mem_insert, or_iff_left (Finset.notMem_empty s)] at hs
        rw [hs]
        exact .refl
      · exact .head hc hcs

/-! ### The rows of the hierarchy -/

/-- The rows that each table stores itself, and what `SELECT … FROM ONLY` finds under a
qualified name.  Rows lie in blocks, so that a table without blocks has none. -/
structure Rows (h : Hierarchy) (R : Type) where
  rows : UInt32 → List R
  fromOnly : String → List R
  fromOnly_name : ∀ t ∈ h.tables, fromOnly (h.name t) = rows t
  rows_empty : ∀ t ∈ h.tables, ¬ (h.stats t).blockCount > 0 → rows t = []

theorem Reaches.mem_tables {s t : UInt32} (hs : s ∈ h.tables) (hst : Reaches h.children s t) :
    t ∈ h.tables := by
  induction hst with
  | refl => exact hs
  | @tail b c _ hbc ih => exact h.closed b ih c hbc

section Reading

variable {root : UInt32} {m : BlockStats} {L : List UInt32}
  (hm : ∀ name stats, m.lookup name = some stats ↔
    ∃ t, Reaches h.children root t ∧ h.name t = name ∧ (h.stats t).blockCount > 0 ∧
      stats = h.stats t)
  (hroot : root ∈ h.tables) (hnodup : L.Nodup) (hL : ∀ t, t ∈ L ↔ Reaches h.children root t)
include hm hroot hnodup hL

/-- The names in the map are those of the tables with blocks, each once. -/
theorem keys_perm :
    m.keys.Perm ((L.filter fun t => (h.stats t).blockCount > 0).map h.name) := by
  have hmap : ((L.filter fun t => (h.stats t).blockCount > 0).map h.name).Nodup := by
    refine List.Nodup.map_on ?_ (hnodup.filter _)
    intro s hs t ht
    have hs' := Reaches.mem_tables hroot ((hL s).mp (mem_of_mem_filter hs))
    have ht' := Reaches.mem_tables hroot ((hL t).mp (mem_of_mem_filter ht))
    exact h.name_inj s hs' t ht'
  refine (perm_ext_iff_of_nodup m.keys_nodup hmap).mpr fun name => ?_
  rw [← AList.mem_keys, ← AList.lookup_isSome, Option.isSome_iff_exists, mem_map]
  constructor
  · rintro ⟨stats, hstats⟩
    obtain ⟨t, ht, hname, hblocks, -⟩ := (hm name stats).mp hstats
    exact ⟨t, mem_filter.mpr ⟨(hL t).mpr ht, decide_eq_true hblocks⟩, hname⟩
  · rintro ⟨t, ht, hname⟩
    obtain ⟨ht, hblocks⟩ := mem_filter.mp ht
    exact ⟨h.stats t, (hm name _).mpr ⟨t, (hL t).mp ht, hname, of_decide_eq_true hblocks, rfl⟩⟩

/-- Reading every table of the map with `FROM ONLY` has every row of the hierarchy once. -/
theorem fromOnly_perm {R : Type} (d : h.Rows R) :
    (m.keys.flatMap d.fromOnly).Perm (L.flatMap d.rows) := by
  have hmem : ∀ t ∈ L, t ∈ h.tables := fun t ht => Reaches.mem_tables hroot ((hL t).mp ht)
  have hskip :
      (L.filter fun t => (h.stats t).blockCount > 0).flatMap d.rows = L.flatMap d.rows := by
    clear hm hnodup hL
    induction L with
    | nil => rfl
    | cons t L ih =>
      have hrest := ih fun s hs => hmem s (mem_cons_of_mem t hs)
      by_cases hblocks : (h.stats t).blockCount > 0
      · rw [filter_cons_of_pos (by simpa using hblocks), flatMap_cons, flatMap_cons,
          hrest]
      · rw [filter_cons_of_neg (by simpa using hblocks), flatMap_cons, hrest,
          d.rows_empty t (hmem t mem_cons_self) hblocks, nil_append]
  refine ((keys_perm hm hroot hnodup hL).flatMap_right d.fromOnly).trans ?_
  rw [flatMap_map, ← hskip]
  refine List.Perm.of_eq (flatMap_congr fun t ht => ?_)
  exact d.fromOnly_name t (hmem t (mem_of_mem_filter ht))

end Reading

/-- **The walk over inherited tables is complete and ends.**  It returns the tables that
can be reached from the root and have a block, each with its own block count, whatever the
shape of the graph; reading each of them with `FROM ONLY` has every row once. -/
theorem getInheritedTables_reachable (h : Hierarchy) (root : UInt32) (hroot : root ∈ h.tables) :
    ∃ m visited, (∀ depth, h.tables.card ≤ depth →
        getInheritedTables h.catalog depth root (h.name root) ∅ = .ok (m, visited)) ∧
      (∀ name stats, m.lookup name = some stats ↔
        ∃ t, Reaches h.children root t ∧ h.name t = name ∧ (h.stats t).blockCount > 0 ∧
          stats = h.stats t) ∧
      ∀ (R : Type) (d : h.Rows R) (L : List UInt32), L.Nodup →
        (∀ t, t ∈ L ↔ Reaches h.children root t) →
        (m.keys.flatMap d.fromOnly).Perm (L.flatMap d.rows) := by
  obtain ⟨⟨m, visited⟩, S, hrun, hr⟩ := getInheritedTables_walked (Finset.empty_subset h.tables)
    hroot (Finset.notMem_empty root)
  rw [Finset.sdiff_empty] at hrun
  have hS : ∀ t, t ∈ S ↔ Reaches h.children root t :=
    fun t => ⟨hr.reaches t, fun ht => (hr.walked.seen_of_reaches hr.mem ht).1⟩
  have hm : ∀ name stats, m.lookup name = some stats ↔
      ∃ t, Reaches h.children root t ∧ h.name t = name ∧ (h.stats t).blockCount > 0 ∧
        stats = h.stats t := by
    intro name stats
    rw [hr.holds name stats]
    simp only [hS]
  exact ⟨m, visited, fun depth hdepth => getInheritedTables_mono hdepth hrun, hm,
    fun R d L hnodup hL => fromOnly_perm hm hroot hnodup hL d⟩

/-- A diamond: 1 is inherited by 2 and 3, and both of them by 4. -/
def diamond : Hierarchy where
  tables := {1, 2, 3, 4}
  name t := if t = 1 then "public.a" else if t = 2 then "public.b"
    else if t = 3 then "public.c" else "public.d"
  stats t := if t = 1 then ⟨0, 0⟩ else ⟨1.5, 8⟩
  hasSubclass t := decide (t ≠ 4)
  children t := if t = 1 then [2, 3] else if t = 2 then [4] else if t = 3 then [4] else []
  closed := by simp
  name_inj := by simp
  flagged := by simp

theorem diamond_reachable :
    ∃ m visited, getInheritedTables diamond.catalog 4 1 "public.a" ∅ = .ok (m, visited) ∧
      m.lookup "public.d" = some ⟨1.5, 8⟩ ∧ m.lookup "public.a" = none := by
  obtain ⟨m, visited, hrun, hm, -⟩ :=
    getInheritedTables_reachable diamond 1 (by decide)
  refine ⟨m, visited, hrun 4 (by decide), ?_, ?_⟩
  · refine (hm _ _).mpr ⟨4, ?_, rfl, by decide, rfl⟩
    exact .head (show (2 : UInt32) ∈ [2, 3] by decide) (.single (show (4 : UInt32) ∈ [4] by decide))
  · cases hlookup : m.lookup "public.a" with
    | none => rfl
    | some stats =>
      obtain ⟨t, -, hname, hblocks, -⟩ := (hm _ _).mp hlookup
      rcases eq_or_ne t 1 with rfl | hne
      · exact absurd hblocks (by decide)
      · dsimp only [diamond] at hname
        rw [if_neg hne] at hname
        split_ifs at hname <;> exact absurd hname (by decide)

end Hierarchy

end QRep
