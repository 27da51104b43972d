/-
Relation messages of partitions (`connectors/postgres/cdc.go`).

A partition of a mirrored table has a relation id and a column list of its own, and sends
its rows under that id.  The source keeps one relation message per mirrored table, under
the id of the table, and a map from partitions to their parents, which it extends when a
relation message comes for a relation it does not know.  Both go one level up, no further.

Two things follow.  The rows of a partition are decoded with the columns of whichever
partition was announced last (`decoded_with_latest_iff`), and fail if they do not fit these.
And the rows of a partition of a partition find no table, and are passed over
(`leaf_yields_iff`).

The catalog may grow while the source pulls: every message comes with the catalog of its
time.
-/
import Mathlib.Logic.Relation
import PeerDB.Postgres.Tuple

open Loop List

section Partition

variable {D V H : Type}

/-! ### Messages and catalogs -/

/-- The parents of relations, as `pg_inherits` has them. -/
abbrev Catalog := ℕ → Option ℕ

/-- Partitions are attached, and stay attached. -/
def Catalog.Extends (c c' : Catalog) : Prop := ∀ k x, c k = some x → c' k = some x

/-- A message, with the catalog that is there when it is processed. -/
structure SourceTurn (D V : Type) where
  catalog : Catalog
  msg : LogicalMsg D
  walStart : LSN := 0
  currentClientXlogPos : LSN := 0
  batch : CDCStream V := {}

/-- The source, reading from a catalog. -/
def CDCConfig.seeing (cfg : CDCConfig D V H) (c : Catalog) : CDCConfig D V H :=
  { cfg with inhParent := c }

/-- What a message does to the source. -/
def sourceStep (cfg : CDCConfig D V H) (p : SourceState) (t : SourceTurn D V) :
    Option SourceState :=
  (processMessage (cfg.seeing t.catalog) p t.batch t.walStart t.currentClientXlogPos
    t.msg).toOption.map Prod.fst

def SourceTurn.relation (t : SourceTurn D V) : Option RelationMessage :=
  match t.msg with
  | .relation msg => some msg
  | _ => none

/-- A source that starts with a catalog and gets messages while the catalog grows. -/
structure Pulled (cfg : CDCConfig D V H) (start : Catalog) (ts : List (SourceTurn D V))
    (p : SourceState) : Prop where
  grows : (start :: ts.map SourceTurn.catalog).Pairwise Catalog.Extends
  run : runs (sourceStep cfg) ((cfg.seeing start).newSource fun _ => none) ts = some p

/-! ### One message -/

section Message

variable {cfg : CDCConfig D V H}

theorem processRelationMessage_slots {p p' : SourceState} {lsn : LSN} {msg : RelationMessage}
    {rec? : Option (Record V)} (h : processRelationMessage cfg p lsn msg = .ok (p', rec?))
    (hmirrored : (cfg.srcTableIDNameMapping msg.relationID).isSome) :
    p'.relationMessageMapping =
      fun k => if k = msg.relationID then some msg else p.relationMessageMapping k := by
  unfold processRelationMessage at h
  split at h
  · rename_i hnone
    rw [hnone] at hmirrored
    cases hmirrored
  · split at h
    · cases h
    · split at h
      · cases h
      · obtain ⟨added, -, h⟩ := bind_eq_ok h
        simp only at h
        split at h
        · obtain ⟨_, -, h⟩ := bind_eq_ok h
          cases h
          rfl
        · cases h
          rfl

theorem processRelation_slots (hroot : cfg.publishViaPartitionRoot = false) {p p' : SourceState}
    {pos : LSN} {msg : RelationMessage} {rec? : Option (Record V)}
    (h : processRelation cfg p pos msg = .ok (p', rec?)) {relID : ℕ}
    (hrelID : (checkIfUnknownTableInherits cfg p.childToParentRelIDMapping msg.relationID).1 =
      relID) :
    p'.relationMessageMapping =
      if (cfg.srcTableIDNameMapping relID).isSome then
        fun k => if k = relID then some { msg with relationID := relID }
          else p.relationMessageMapping k
      else p.relationMessageMapping := by
  rw [processRelation] at h
  simp only [hrelID, hroot] at h
  cases hmirrored : cfg.srcTableIDNameMapping relID with
  | none =>
    simp only [hmirrored, Option.isNone_none, if_true] at h
    cases h
    rfl
  | some table =>
    simp only [hmirrored, Option.isNone_some, Bool.false_eq_true, if_false, and_false] at h
    exact processRelationMessage_slots h (Option.isSome_of_mem hmirrored)

theorem sourceStep_cases (hroot : cfg.publishViaPartitionRoot = false) {p p' : SourceState}
    {t : SourceTurn D V} (h : sourceStep cfg p t = some p') :
    (t.relation = none ∧ p'.relationMessageMapping = p.relationMessageMapping ∧
      p'.childToParentRelIDMapping = p.childToParentRelIDMapping) ∨
    ∃ msg relID, t.relation = some msg ∧
      (checkIfUnknownTableInherits (cfg.seeing t.catalog) p.childToParentRelIDMapping
        msg.relationID).1 = relID ∧
      p'.relationMessageMapping =
        (if (cfg.srcTableIDNameMapping relID).isSome then
          fun k => if k = relID then some { msg with relationID := relID }
            else p.relationMessageMapping k
        else p.relationMessageMapping) ∧
      p'.childToParentRelIDMapping =
        (checkIfUnknownTableInherits (cfg.seeing t.catalog) p.childToParentRelIDMapping
          msg.relationID).2.2 := by
  obtain ⟨⟨p₁, batch, rec?⟩, hok, rfl⟩ := Option.map_eq_some_iff.mp h
  have hmsg := toOption_eq_some hok
  rw [SourceTurn.relation]
  cases hcase : t.msg with
  | relation msg =>
    rw [hcase, processMessage] at hmsg
    obtain ⟨⟨p₂, rec₂⟩, hrelation, hmsg⟩ := bind_eq_ok hmsg
    obtain rfl := congrArg Prod.fst (Except.ok.inj hmsg)
    have hroot' : (cfg.seeing t.catalog).publishViaPartitionRoot = false := hroot
    exact Or.inr ⟨msg, _, rfl, rfl, processRelation_slots hroot' hrelation rfl,
      (processRelation_ok hrelation).2.1⟩
  | row change =>
    rw [hcase, processMessage] at hmsg
    obtain ⟨rec₂, -, hmsg⟩ := bind_eq_ok hmsg
    obtain rfl := congrArg Prod.fst (Except.ok.inj hmsg)
    exact Or.inl ⟨rfl, rfl, rfl⟩
  | begin _ | commit _ _ | message _ _ _ _ | unhandled =>
    rw [hcase] at hmsg
    obtain rfl := congrArg Prod.fst (Except.ok.inj hmsg)
    exact Or.inl ⟨rfl, rfl, rfl⟩
  | unparsable =>
    rw [hcase] at hmsg
    cases hmsg

theorem slot_of_slots {g relID : ℕ} {msg : RelationMessage}
    {slots slots' : ℕ → Option RelationMessage} (hg : (cfg.srcTableIDNameMapping g).isSome)
    (h : slots' =
      if (cfg.srcTableIDNameMapping relID).isSome then
        fun k => if k = relID then some { msg with relationID := relID } else slots k
      else slots) :
    slots' g = if relID = g then some { msg with relationID := relID } else slots g := by
  rw [h]
  by_cases hown : relID = g
  · subst hown
    rw [if_pos hg, if_pos rfl]
  · rw [if_neg hown]
    by_cases hmirrored : (cfg.srcTableIDNameMapping relID).isSome = true
    · rw [if_pos hmirrored, if_neg (Ne.symm hown)]
    · rw [if_neg hmirrored]

end Message

/-! ### The maps of the source -/

section Maps

variable {cfg : CDCConfig D V H} {start : Catalog}

/-- The partitions of mirrored tables when the source starts. -/
def CDCConfig.known (cfg : CDCConfig D V H) (start : Catalog) (r : ℕ) : Option ℕ :=
  (cfg.seeing start).getChildToParentRelIDMap r

theorem CDCConfig.known_some {r x : ℕ} (h : cfg.known start r = some x) :
    start r = some x ∧ (cfg.srcTableIDNameMapping x).isSome := by
  rw [known, getChildToParentRelIDMap, Option.filter_eq_some_iff] at h
  exact h

/-- The relation a relation message is resolved to: one level up. -/
def CDCConfig.resolve (cfg : CDCConfig D V H) (start c : Catalog) (r : ℕ) : ℕ :=
  match cfg.known start r with
  | some x => x
  | none => if (cfg.srcTableIDNameMapping r).isSome then r else (c r).getD r

/-- What the maps hold after the messages `pre`. -/
structure MapsInv (cfg : CDCConfig D V H) (start : Catalog) (pre : List (SourceTurn D V))
    (children : Catalog) (slots : ℕ → Option RelationMessage) : Prop where
  /-- the partitions known at the start stay -/
  base : ∀ k x, cfg.known start k = some x → children k = some x
  /-- the others were found in a catalog -/
  later : ∀ k x, children k = some x → cfg.known start k = some x ∨
    (cfg.srcTableIDNameMapping k = none ∧ ∃ t ∈ pre, t.catalog k = some x)
  /-- a relation that was announced as a partition is known as one -/
  announced : ∀ t ∈ pre, ∀ msg, t.relation = some msg →
    cfg.srcTableIDNameMapping msg.relationID = none → ∀ x, t.catalog msg.relationID = some x →
    children msg.relationID = some x
  /-- only mirrored tables have a slot -/
  slots : ∀ k rel, slots k = some rel → (cfg.srcTableIDNameMapping k).isSome

variable {pre : List (SourceTurn D V)} {t : SourceTurn D V} {p p' : SourceState}

theorem parentRelID_of_some {children : Catalog} {r x : ℕ} (h : children r = some x) :
    getParentRelIDIfPartitioned children r = x := by
  rw [getParentRelIDIfPartitioned, h, Option.getD_some]

theorem parentRelID_of_none {children : Catalog} {r : ℕ} (h : children r = none) :
    getParentRelIDIfPartitioned children r = r := by
  rw [getParentRelIDIfPartitioned, h, Option.getD_none]

/-- A relation that is announced for the first time gets the parent the catalog names. -/
theorem checkIfUnknownTableInherits_adds {c children : Catalog} {r x : ℕ}
    (hnew : children r = none) (hunmirrored : cfg.srcTableIDNameMapping r = none)
    (hx : c r = some x) :
    (checkIfUnknownTableInherits (cfg.seeing c) children r).2.2 r = some x := by
  have hinh : (cfg.seeing c).inhParent r = some x := hx
  have hmap : (cfg.seeing c).srcTableIDNameMapping r = none := hunmirrored
  rw [checkIfUnknownTableInherits]
  simp only [parentRelID_of_none hnew, hmap, hinh]
  exact if_pos trivial

/-- What a source knows of a relation is what the catalog says now. -/
theorem MapsInv.link {children : Catalog} {slots : ℕ → Option RelationMessage}
    (h : MapsInv cfg start pre children slots) (hstart : start.Extends t.catalog)
    (hpre : ∀ t' ∈ pre, t'.catalog.Extends t.catalog) {k x : ℕ} (hk : children k = some x) :
    t.catalog k = some x := by
  rcases h.later k x hk with hknown | ⟨-, t', ht', hlink⟩
  · exact hstart k x (CDCConfig.known_some hknown).1
  · exact hpre t' ht' k x hlink

theorem MapsInv.step (hroot : cfg.publishViaPartitionRoot = false)
    (h : MapsInv cfg start pre p.childToParentRelIDMapping p.relationMessageMapping)
    (hstart : start.Extends t.catalog) (hpre : ∀ t' ∈ pre, t'.catalog.Extends t.catalog)
    (hstep : sourceStep cfg p t = some p') :
    MapsInv cfg start (pre ++ [t]) p'.childToParentRelIDMapping p'.relationMessageMapping := by
  have hlater : ∀ k x, p.childToParentRelIDMapping k = some x → cfg.known start k = some x ∨
      (cfg.srcTableIDNameMapping k = none ∧ ∃ t' ∈ pre ++ [t], t'.catalog k = some x) := by
    intro k x hk
    rcases h.later k x hk with hknown | ⟨hunmirrored, t', ht', hlink⟩
    · exact Or.inl hknown
    · exact Or.inr ⟨hunmirrored, t', mem_append_left _ ht', hlink⟩
  rcases sourceStep_cases hroot hstep with ⟨hnone, hslots, hchildren⟩ |
    ⟨msg, relID, hmsg, hrelID, hslots, hchildren⟩
  · rw [hslots, hchildren]
    refine ⟨h.base, hlater, fun t' ht' msg hmsg => ?_, h.slots⟩
    rcases mem_append.mp ht' with ht' | ht'
    · exact h.announced t' ht' msg hmsg
    · rw [mem_singleton.mp ht', hnone] at hmsg
      cases hmsg
  · -- an entry is kept, or set to what the catalog says
    have hcases : ∀ k, p'.childToParentRelIDMapping k = p.childToParentRelIDMapping k ∨
        (cfg.srcTableIDNameMapping k = none ∧
          p'.childToParentRelIDMapping k = t.catalog k) := by
      intro k
      rw [hchildren]
      rcases checkIfUnknownTableInherits_children p.childToParentRelIDMapping msg.relationID k
        with hkept | ⟨hunmirrored, -, hset⟩
      · exact Or.inl hkept
      · exact Or.inr ⟨hunmirrored, hset⟩
    have hkeeps : ∀ k x, p.childToParentRelIDMapping k = some x →
        p'.childToParentRelIDMapping k = some x := by
      intro k x hk
      rcases hcases k with hkept | ⟨-, hset⟩
      · rw [hkept, hk]
      · rw [hset]
        exact h.link hstart hpre hk
    constructor
    · exact fun k x hk => hkeeps k x (h.base k x hk)
    · intro k x hk
      rcases hcases k with hkept | ⟨hunmirrored, hset⟩
      · exact hlater k x (hkept ▸ hk)
      · exact Or.inr ⟨hunmirrored, t, mem_append_right _ (mem_singleton_self t),
          hset ▸ hk⟩
    · intro t' ht' msg' hmsg' hunmirrored x hx
      rcases mem_append.mp ht' with ht' | ht'
      · exact hkeeps _ x (h.announced t' ht' msg' hmsg' hunmirrored x hx)
      · obtain rfl := mem_singleton.mp ht'
        obtain rfl := Option.some.inj (hmsg.symm.trans hmsg')
        cases hknown : p.childToParentRelIDMapping msg.relationID with
        | some y =>
          have hy := h.link hstart hpre hknown
          obtain rfl := Option.some.inj (hy.symm.trans hx)
          exact hkeeps _ y hknown
        | none =>
          rw [hchildren]
          exact checkIfUnknownTableInherits_adds hknown hunmirrored hx
    · intro k rel hk
      rw [hslots] at hk
      split_ifs at hk with hmirrored
      · by_cases hself : k = relID
        · rw [hself]
          exact hmirrored
        · simp only [if_neg hself] at hk
          exact h.slots k rel hk
      · exact h.slots k rel hk

/-- The maps over a whole run, with the catalogs it saw. -/
theorem Pulled.history (hroot : cfg.publishViaPartitionRoot = false)
    (Inv : List (SourceTurn D V) → SourceState → Prop)
    (h₀ : Inv [] ((cfg.seeing start).newSource fun _ => none))
    (hstep : ∀ pre t p p', Inv pre p →
      MapsInv cfg start pre p.childToParentRelIDMapping p.relationMessageMapping →
      start.Extends t.catalog → (∀ t' ∈ pre, t'.catalog.Extends t.catalog) →
      sourceStep cfg p t = some p' → Inv (pre ++ [t]) p')
    {ts : List (SourceTurn D V)} (h : Pulled cfg start ts p) :
    Inv ts p ∧ MapsInv cfg start ts p.childToParentRelIDMapping p.relationMessageMapping := by
  have hall := runs_history (fun pre p =>
    (start :: pre.map SourceTurn.catalog).Pairwise Catalog.Extends →
      Inv pre p ∧ MapsInv cfg start pre p.childToParentRelIDMapping p.relationMessageMapping)
    (fun _ => ⟨h₀, fun _ _ hk => hk, fun _ _ hk => Or.inl hk,
      fun t ht => absurd ht not_mem_nil, fun k rel hk => by cases hk⟩)
    (fun pre t p p' ih hs hgrows => ?_) h.run
  · exact hall h.grows
  · rw [map_append, ← cons_append, pairwise_append] at hgrows
    obtain ⟨hbefore, -, hnew⟩ := hgrows
    obtain ⟨hinv, hmaps⟩ := ih hbefore
    have hcatalog : t.catalog ∈ [t].map SourceTurn.catalog := mem_singleton_self _
    have hstart := hnew start mem_cons_self t.catalog hcatalog
    have hpre : ∀ t' ∈ pre, t'.catalog.Extends t.catalog := fun t' ht' =>
      hnew t'.catalog (mem_cons_of_mem _ (mem_map_of_mem ht')) t.catalog hcatalog
    exact ⟨hstep pre t p p' hinv hmaps hstart hpre hs, hmaps.step hroot hstart hpre hs⟩

/-- A relation is looked up in the map, and in the catalog if it is not mirrored. -/
theorem checkIfUnknownTableInherits_fst (c children : Catalog) (r : ℕ) :
    (checkIfUnknownTableInherits (cfg.seeing c) children r).1 =
      if (cfg.srcTableIDNameMapping (getParentRelIDIfPartitioned children r)).isSome then
        getParentRelIDIfPartitioned children r
      else (c (getParentRelIDIfPartitioned children r)).getD
        (getParentRelIDIfPartitioned children r) := by
  have hinh : (cfg.seeing c).inhParent = c := rfl
  have hmap : (cfg.seeing c).srcTableIDNameMapping = cfg.srcTableIDNameMapping := rfl
  rw [checkIfUnknownTableInherits]
  simp only [hinh, hmap]
  set relID := getParentRelIDIfPartitioned children r
  cases cfg.srcTableIDNameMapping relID with
  | some table => rfl
  | none =>
    cases c relID with
    | none | some => rfl

section Resolve

variable {children : Catalog} {slots : ℕ → Option RelationMessage}
  (h : MapsInv cfg start pre children slots)

include h

theorem MapsInv.resolve_some (hstart : start.Extends t.catalog)
    (hpre : ∀ t' ∈ pre, t'.catalog.Extends t.catalog) {r x : ℕ} (hr : children r = some x) :
    cfg.resolve start t.catalog r = x := by
  rw [CDCConfig.resolve]
  cases hknown : cfg.known start r with
  | some y =>
    have hy := h.base r y hknown
    rw [hr] at hy
    exact (Option.some.inj hy).symm
  | none =>
    rcases h.later r x hr with hsome | ⟨hunmirrored, -⟩
    · rw [hknown] at hsome
      cases hsome
    · rw [hunmirrored, h.link hstart hpre hr]
      rfl

theorem MapsInv.resolve_none {r : ℕ} (hr : children r = none) :
    cfg.resolve start t.catalog r =
      (checkIfUnknownTableInherits (cfg.seeing t.catalog) children r).1 := by
  have hknown : cfg.known start r = none := by
    by_contra hne
    obtain ⟨y, hy⟩ := Option.ne_none_iff_exists'.mp hne
    rw [h.base r y hy] at hr
    cases hr
  rw [checkIfUnknownTableInherits_fst, parentRelID_of_none hr, CDCConfig.resolve, hknown]

/-- A relation message is kept for the mirrored table one level up. -/
theorem MapsInv.kept (hstart : start.Extends t.catalog)
    (hpre : ∀ t' ∈ pre, t'.catalog.Extends t.catalog) {r g : ℕ}
    (hg : (cfg.srcTableIDNameMapping g).isSome) (hr : cfg.resolve start t.catalog r = g) :
    (checkIfUnknownTableInherits (cfg.seeing t.catalog) children r).1 = g := by
  cases hchild : children r with
  | none => rw [← h.resolve_none hchild, hr]
  | some x =>
    obtain rfl : x = g := (h.resolve_some hstart hpre hchild).symm.trans hr
    rw [checkIfUnknownTableInherits_fst, parentRelID_of_some hchild, if_pos hg]

/-- No other relation message is kept for it, if its partitions are not partitioned. -/
theorem MapsInv.kept_iff (hstart : start.Extends t.catalog)
    (hpre : ∀ t' ∈ pre, t'.catalog.Extends t.catalog) {r g : ℕ}
    (hg : (cfg.srcTableIDNameMapping g).isSome)
    (hflat : ∀ a x, t.catalog a = some x → t.catalog x ≠ some g) :
    (checkIfUnknownTableInherits (cfg.seeing t.catalog) children r).1 = g ↔
      cfg.resolve start t.catalog r = g := by
  refine ⟨fun hcheck => ?_, h.kept hstart hpre hg⟩
  cases hchild : children r with
  | none => rw [h.resolve_none hchild, hcheck]
  | some x =>
    rw [h.resolve_some hstart hpre hchild]
    rw [checkIfUnknownTableInherits_fst, parentRelID_of_some hchild] at hcheck
    split_ifs at hcheck
    · exact hcheck
    · cases hparent : t.catalog x with
      | none =>
        rw [hparent] at hcheck
        exact hcheck
      | some y =>
        rw [hparent] at hcheck
        obtain rfl : y = g := hcheck
        exact absurd hparent (hflat r x (h.link hstart hpre hchild))

end Resolve

end Maps

/-! ### The columns of a partition -/

section Columns

variable {cfg : CDCConfig D V H} {start : Catalog}

/-- The columns a turn announces for a mirrored table. -/
def SourceTurn.columnsFor (cfg : CDCConfig D V H) (start : Catalog) (g : ℕ) (t : SourceTurn D V) :
    Option (List RelationColumn) :=
  t.relation.bind fun msg =>
    if cfg.resolve start t.catalog msg.relationID = g then some msg.columns else none

/-- The columns announced last for a mirrored table, by any of its partitions. -/
def lastColumns (cfg : CDCConfig D V H) (start : Catalog) (g : ℕ) (ts : List (SourceTurn D V)) :
    Option (List RelationColumn) :=
  (ts.filterMap (SourceTurn.columnsFor cfg start g)).getLast?

variable {ts : List (SourceTurn D V)} {p : SourceState} {g : ℕ}

theorem Pulled.slot_columns (hroot : cfg.publishViaPartitionRoot = false)
    (h : Pulled cfg start ts p) (hg : (cfg.srcTableIDNameMapping g).isSome)
    (hflat : ∀ t ∈ ts, ∀ a x, t.catalog a = some x → t.catalog x ≠ some g) :
    (p.relationMessageMapping g).map RelationMessage.columns = lastColumns cfg start g ts := by
  refine (h.history hroot (fun pre p =>
    (∀ t ∈ pre, ∀ a x, t.catalog a = some x → t.catalog x ≠ some g) →
      (p.relationMessageMapping g).map RelationMessage.columns = lastColumns cfg start g pre)
    (fun _ => rfl) ?_).1 hflat
  intro pre t p p' ih hmaps hstart hpre hstep hflat
  have hbefore := ih fun t' ht' => hflat t' (mem_append_left _ ht')
  have hlast : lastColumns cfg start g (pre ++ [t]) =
      (t.columnsFor cfg start g).or (lastColumns cfg start g pre) := by
    rw [lastColumns, lastColumns, filterMap_append, List.getLast?_append]
    cases hcols : t.columnsFor cfg start g with
    | none | some => simp [hcols]
  rw [hlast]
  rcases sourceStep_cases hroot hstep with ⟨hnone, hslots, -⟩ |
    ⟨msg, relID, hmsg, hrelID, hslots, -⟩
  · rw [hslots, SourceTurn.columnsFor, hnone]
    exact hbefore
  · have hiff := hmaps.kept_iff hstart hpre (r := msg.relationID) hg
      (hflat t (mem_append_right _ (mem_singleton_self t)))
    rw [hrelID] at hiff
    rw [slot_of_slots hg hslots, SourceTurn.columnsFor, hmsg, Option.bind_some]
    by_cases hown : relID = g
    · rw [if_pos (hiff.mp hown), if_pos hown]
      rfl
    · rw [if_neg (mt hiff.mpr hown), if_neg hown]
      exact hbefore

/-- The rows of a relation that was announced go to the table it was announced for. -/
theorem Pulled.parent_eq (hroot : cfg.publishViaPartitionRoot = false)
    (h : Pulled cfg start ts p) (hg : (cfg.srcTableIDNameMapping g).isSome) {t : SourceTurn D V}
    (ht : t ∈ ts) {msg : RelationMessage} (hmsg : t.relation = some msg)
    (hresolve : cfg.resolve start t.catalog msg.relationID = g) :
    getParentRelIDIfPartitioned p.childToParentRelIDMapping msg.relationID = g := by
  have hmaps := (h.history hroot (fun _ _ => True) trivial fun _ _ _ _ _ _ _ _ _ => trivial).2
  rw [CDCConfig.resolve] at hresolve
  cases hknown : cfg.known start msg.relationID with
  | some x =>
    rw [hknown] at hresolve
    exact (parentRelID_of_some (hmaps.base _ x hknown)).trans hresolve
  | none =>
    rw [hknown] at hresolve
    cases hmirrored : cfg.srcTableIDNameMapping msg.relationID with
    | some name =>
      rw [hmirrored] at hresolve
      cases hchild : p.childToParentRelIDMapping msg.relationID with
      | none => exact (parentRelID_of_none hchild).trans hresolve
      | some x =>
        rcases hmaps.later _ x hchild with hsome | ⟨hunmirrored, -⟩
        · rw [hknown] at hsome
          cases hsome
        · rw [hmirrored] at hunmirrored
          cases hunmirrored
    | none =>
      rw [hmirrored] at hresolve
      cases hparent : t.catalog msg.relationID with
      | none =>
        rw [hparent] at hresolve
        obtain rfl : msg.relationID = g := hresolve
        rw [hmirrored] at hg
        cases hg
      | some x =>
        rw [hparent] at hresolve
        exact (parentRelID_of_some (hmaps.announced t ht msg hmsg hmirrored x hparent)).trans
          hresolve

/-- **The columns of a partition.**  A relation was announced by `msg`, as a mirrored table or
as a partition of one.  Its rows are decoded with the columns of `msg` exactly if the columns
announced last for the table are the same, and then each value is read under its own name: the
source knows the relation as it is, and an inserted row becomes a record with its values. -/
theorem decoded_with_latest_iff (hroot : cfg.publishViaPartitionRoot = false)
    (h : Pulled cfg start ts p) {t : SourceTurn D V} (ht : t ∈ ts) {msg : RelationMessage}
    (hmsg : t.relation = some msg)
    (hresolve : cfg.resolve start t.catalog msg.relationID = g) {tableName : String}
    (htable : cfg.srcTableIDNameMapping g = some tableName)
    (hflat : ∀ t ∈ ts, ∀ a x, t.catalog a = some x → t.catalog x ≠ some g) {schemaName : String}
    (hschema : getSourceSchemaForDestinationColumn cfg tableName = .ok schemaName) :
    (∃ rel, p.relationMessageMapping
        (getParentRelIDIfPartitioned p.childToParentRelIDMapping msg.relationID) = some rel ∧
      (rel.columns = msg.columns ↔ lastColumns cfg start g ts = some msg.columns)) ∧
    (lastColumns cfg start g ts = some msg.columns → ∀ tbl : SourceTable,
      tbl.columns = msg.columns → Announced cfg p tbl msg.relationID tableName ∧
        ∀ (lsn : LSN) (row : Row V) (tuple : TupleData D),
          tbl.Writes cfg.proc (fun _ => false) row tuple →
          ∃ items, processRowMessage cfg p lsn (.insert msg.relationID tuple) = .ok (some
              (.insert (baseRecord p.commitLock lsn) items tableName
                (cfg.nameAndExclude tableName).name)) ∧
            ∀ c, cfg.Wanted tbl tableName c → items.colToVal c = some (row c)) := by
  have hg : (cfg.srcTableIDNameMapping g).isSome := by
    rw [htable]
    rfl
  have hparent := h.parent_eq hroot hg ht hmsg hresolve
  have hslot := h.slot_columns hroot hg hflat
  have hsome : (lastColumns cfg start g ts).isSome := by
    rw [lastColumns, List.getLast?_isSome]
    refine ne_nil_of_mem (mem_filterMap.mpr ⟨t, ht, ?_⟩) (a := msg.columns)
    rw [SourceTurn.columnsFor, hmsg, Option.bind_some, if_pos hresolve]
  rw [← hslot, Option.isSome_map] at hsome
  obtain ⟨rel, hrel⟩ := Option.isSome_iff_exists.mp hsome
  rw [hparent]
  rw [hrel, Option.map_some] at hslot
  refine ⟨⟨rel, hrel, by rw [← hslot, Option.some.injEq]⟩, fun hlast tbl htbl => ?_⟩
  rw [← hslot, Option.some.injEq] at hlast
  have hannounced : Announced cfg p tbl msg.relationID tableName := by
    refine ⟨?_, ?_, schemaName, hschema⟩
    · rw [CDCConfig.mirroredTable, hparent, htable]
    · rw [hparent]
      exact ⟨rel, hrel, hlast.trans htbl.symm⟩
  refine ⟨hannounced, fun lsn row tuple hwritten => ?_⟩
  obtain ⟨items, hinsert, hitems, -⟩ := hannounced.processInsertMessage_eq lsn hwritten
  exact ⟨items, hinsert, hitems⟩

end Columns

end Partition

/-! ### A partitioned table of logs -/

def logsSchema : TableSchema where
  columns := [⟨"at", "int4", -1, true, "", none⟩, ⟨"level", "int4", -1, true, "", none⟩]
  primaryKeyColumns := ["at"]

/-- Relation 10 is the partitioned table. -/
def logsMirror : CDCConfig ℕ ℕ ℕ where
  proc :=
    { process := fun col tuple =>
        match tuple with
        | .null => .ok none
        | .text n => .ok (some n)
        | _ => .error s!"unknown column data type for column {col.name}"
      ofString := String.length
      originColumns := fun _ => [] }
  codec := ⟨fun _ => [], fun _ => 0⟩
  srcTableIDNameMapping relID := if relID = 10 then some "public.logs" else none
  tableNameMapping name := if name = "public.logs" then some { name := "logs" } else none
  tableNameSchemaMapping name := if name = "logs" then some logsSchema else none

/-- Relations 11 and 12 are partitions of 10, and 21 is a partition of 12. -/
def logsCatalog : Catalog := fun relID =>
  if relID = 11 ∨ relID = 12 then some 10 else if relID = 21 then some 12 else none

/-- The partitions of 10 alone. -/
def logsFlat : Catalog := fun relID => if relID = 11 ∨ relID = 12 then some 10 else none

/-- Relation 11 has the columns in the order of the table, relation 12 in the other. -/
def logsRelation (catalog : Catalog) (relID : ℕ) : SourceTurn ℕ ℕ where
  catalog := catalog
  msg := .relation ⟨relID, if relID = 12 then [{ name := "level" }, { name := "at" }]
    else [{ name := "at" }, { name := "level" }]⟩

theorem logsFlat_flat (a x : ℕ) (h : logsFlat a = some x) : logsFlat x ≠ some 10 := by
  rw [logsFlat] at h
  split at h <;> cases h
  decide

/-- Relation 11 is announced last: its rows are read under their names. -/
theorem lastAnnounced_decoded :
    ∃ p, Pulled logsMirror logsFlat [logsRelation logsFlat 12, logsRelation logsFlat 11] p ∧
      ∀ lsn (row : Row ℕ) tuple, SourceTable.Writes ⟨[{ name := "at" }, { name := "level" }], []⟩
          logsMirror.proc (fun _ => false) row tuple →
        ∃ items, processRowMessage logsMirror p lsn (.insert 11 tuple) =
            .ok (some (.insert (baseRecord none lsn) items "public.logs" "logs")) ∧
          ∀ c, logsMirror.Wanted ⟨[{ name := "at" }, { name := "level" }], []⟩ "public.logs" c →
            items.colToVal c = some (row c) := by
  have hpulled : Pulled logsMirror logsFlat
      [logsRelation logsFlat 12, logsRelation logsFlat 11] _ :=
    ⟨by simp [Catalog.Extends, logsRelation], rfl⟩
  refine ⟨_, hpulled, ((decoded_with_latest_iff rfl hpulled
    (mem_cons_of_mem _ mem_cons_self) rfl rfl rfl ?_ rfl).2 rfl _ rfl).2⟩
  intro t ht
  simp only [mem_cons, not_mem_nil, or_false] at ht
  rcases ht with rfl | rfl <;> exact logsFlat_flat

/-- Relation 12 is announced after 11: a row of 11 is read with the columns of 12. -/
theorem siblingAnnounced_swaps :
    ∃ p rec, Pulled logsMirror logsFlat [logsRelation logsFlat 11, logsRelation logsFlat 12] p ∧
      (logsRelation logsFlat 11).relation =
        some ⟨11, [{ name := "at" }, { name := "level" }]⟩ ∧
      processRowMessage logsMirror p 1 (.insert 11 [.text 3, .text 7]) = .ok (some rec) ∧
      rec.getItems.colToVal "at" = some (some 7) ∧
      rec.getItems.colToVal "level" = some (some 3) := by
  have hpulled : Pulled logsMirror logsFlat
      [logsRelation logsFlat 11, logsRelation logsFlat 12] _ :=
    ⟨by simp [Catalog.Extends, logsRelation], rfl⟩
  exact ⟨_, _, hpulled, rfl, rfl, rfl, rfl⟩

/-! ### Partitions of partitions -/

section Nested

variable {D V H : Type} {cfg : CDCConfig D V H} {start : Catalog} {ts : List (SourceTurn D V)}
  {p : SourceState}

/-- A message about a row of `tbl`, sent under a relation id. -/
inductive SourceTable.SentUnder (tbl : SourceTable) (proc : ReplProcessor D V) (relID : ℕ) :
    RowChange D → Prop where
  | insert {row : Row V} {tuple : TupleData D}
      (written : tbl.Writes proc (fun _ => false) row tuple) :
      SentUnder tbl proc relID (.insert relID tuple)
  | update {kind : OldTuple} {old new : Row V} {toasted : String → Bool}
      {oldTuple : Option (TupleData D)} {newTuple : TupleData D}
      (written : tbl.WritesUpdate proc kind toasted old new oldTuple newTuple) :
      SentUnder tbl proc relID (.update relID oldTuple newTuple)
  | delete {row : Row V} {tuple : TupleData D}
      (written : tbl.Writes proc (fun _ => false) row tuple) :
      SentUnder tbl proc relID (.delete relID tuple)

/-- Every row message that is written with the columns of a relation message gives a record of
the table. -/
def Yields (cfg : CDCConfig D V H) (p : SourceState) (msg : RelationMessage)
    (tableName : String) : Prop :=
  ∀ (tbl : SourceTable) (change : RowChange D), tbl.columns = msg.columns →
    tbl.SentUnder cfg.proc msg.relationID change → ∀ lsn,
      ∃ rec, processRowMessage cfg p lsn change = .ok (some rec) ∧
        rec.getSourceTableName = tableName

/-- Rows that are written with the columns `own` can be read with the columns `latest`: there
are enough of these, and each is left out or accepts whatever its place accepts. -/
def Fits (cfg : CDCConfig D V H) (exclude : List String) (own latest : List RelationColumn) :
    Prop :=
  own.length ≤ latest.length ∧ ∀ q ∈ latest.zip own, q.1.name ∈ exclude ∨
    ∀ data v, data ≠ .unchanged → cfg.proc.process q.2 data = .ok v →
      ∃ v', cfg.proc.process q.1 data = .ok v'

theorem Fits.refl (exclude : List String) (own : List RelationColumn) :
    Fits cfg exclude own own := by
  refine ⟨le_rfl, fun q hq => Or.inr fun data v _ hv => ⟨v, ?_⟩⟩
  obtain ⟨i, hi⟩ := mem_iff_getElem?.mp hq
  obtain ⟨hfst, hsnd⟩ := List.getElem?_zip_eq_some.mp hi
  rw [Option.some.inj (hfst.symm.trans hsnd)]
  exact hv

/-- A column is left out, unchanged, or read. -/
def Reads (cfg : CDCConfig D V H) (exclude : List String)
    (col : RelationColumn × TupleDataColumn D) : Prop :=
  col.1.name ∈ exclude ∨ col.2 = .unchanged ∨ ∃ v, cfg.proc.process col.1 col.2 = .ok v

theorem processColumn_isOk_iff {exclude : List String} (acc : Items V × List String)
    {col : RelationColumn × TupleDataColumn D} :
    (∃ acc', processColumn cfg exclude acc col = .ok acc') ↔ Reads cfg exclude col := by
  obtain ⟨col, data⟩ := col
  by_cases hexclude : col.name ∈ exclude
  · exact ⟨fun _ => Or.inl hexclude, fun _ => ⟨acc, if_pos hexclude⟩⟩
  · cases data with
    | unchanged => simp [processColumn, Reads, hexclude]
    | null | text _ | binary _ | other _ =>
      simp only [processColumn, Reads, hexclude, if_false, false_or, reduceCtorEq]
      constructor
      · rintro ⟨acc', hacc⟩
        obtain ⟨v, hv, -⟩ := bind_eq_ok hacc
        exact ⟨v, hv⟩
      · rintro ⟨v, hv⟩
        rw [hv]
        exact ⟨_, rfl⟩

theorem foldlM_processColumn_isOk_iff {exclude : List String} :
    ∀ {cols : List (RelationColumn × TupleDataColumn D)} (acc : Items V × List String),
      (∃ acc', cols.foldlM (processColumn cfg exclude) acc = .ok acc') ↔
        ∀ col ∈ cols, Reads cfg exclude col := by
  intro cols
  induction cols with
  | nil =>
    intro acc
    exact ⟨fun _ => by simp, fun _ => ⟨acc, rfl⟩⟩
  | cons col cols ih =>
    intro acc
    rw [forall_mem_cons, ← processColumn_isOk_iff acc]
    constructor
    · rintro ⟨acc', hacc⟩
      obtain ⟨acc₁, hcol, hacc⟩ := bind_eq_ok hacc
      exact ⟨⟨acc₁, hcol⟩, (ih acc₁).mp ⟨acc', hacc⟩⟩
    · rintro ⟨⟨acc₁, hcol⟩, hcols⟩
      rw [foldlM_cons, hcol]
      exact (ih acc₁).mpr hcols

/-- **When a tuple is decoded**: there are enough columns, and each reads its value. -/
theorem processTuple_isOk_iff {columns : TupleData D} {rel : RelationMessage}
    {exclude : List String} {schemaName : String} {base : BaseRecord} :
    (∃ out, processTuple cfg (some columns) rel exclude schemaName base = .ok out) ↔
      columns.length ≤ rel.columns.length ∧
        ∀ col ∈ rel.columns.zip columns, Reads cfg exclude col := by
  rw [← foldlM_processColumn_isOk_iff (Items.empty, [])]
  by_cases hlen : columns.length > rel.columns.length
  · simp [processTuple, hlen, Nat.not_le.mpr hlen]
  · simp only [processTuple, if_neg hlen, Nat.not_lt.mp hlen, true_and]
    constructor
    · rintro ⟨out, hout⟩
      obtain ⟨acc', hacc, -⟩ := bind_eq_ok hout
      exact ⟨acc', hacc⟩
    · rintro ⟨acc', hacc⟩
      rw [hacc]
      exact ⟨_, rfl⟩

theorem SourceTable.Writes.isOk {tbl : SourceTable} {toasted : String → Bool} {row : Row V}
    {tuple : TupleData D} (hw : tbl.Writes cfg.proc toasted row tuple) {rel : RelationMessage}
    {exclude : List String} (hfits : Fits cfg exclude tbl.columns rel.columns)
    (schemaName : String) (base : BaseRecord) :
    ∃ out, processTuple cfg (some tuple) rel exclude schemaName base = .ok out := by
  obtain ⟨f, rfl, hf⟩ := hw
  rw [processTuple_isOk_iff, length_map, zip_map_right]
  refine ⟨hfits.1, fun col hcol => ?_⟩
  obtain ⟨⟨latest, own⟩, hq, rfl⟩ := mem_map.mp hcol
  rcases hfits.2 _ hq with hexclude | haccepts
  · exact Or.inl hexclude
  · have hown := hf own (of_mem_zip hq).2
    split_ifs at hown
    · exact Or.inr (Or.inl hown)
    · exact Or.inr (Or.inr (haccepts _ _ hown.1 hown.2))

theorem SourceTable.WritesOld.isOk {tbl : SourceTable} {kind : OldTuple} {old : Row V}
    {oldTuple : Option (TupleData D)} (hw : tbl.WritesOld cfg.proc kind old oldTuple)
    {rel : RelationMessage} {exclude : List String}
    (hfits : Fits cfg exclude tbl.columns rel.columns) :
    ∃ out, processTuple cfg oldTuple rel exclude "" BaseRecord.zero = .ok out := by
  unfold WritesOld at hw
  split at hw
  · rw [hw]
    exact ⟨_, rfl⟩
  · obtain ⟨tuple, rfl, htuple⟩ := hw
    exact htuple.isOk hfits _ _

/-- What the source looks up for the rows of a relation. -/
structure Slot (cfg : CDCConfig D V H) (p : SourceState) (relID : ℕ) (tableName : String)
    (rel : RelationMessage) : Prop where
  table : cfg.srcTableIDNameMapping
    (getParentRelIDIfPartitioned p.childToParentRelIDMapping relID) = some tableName
  relation : p.relationMessageMapping
    (getParentRelIDIfPartitioned p.childToParentRelIDMapping relID) = some rel
  schemaName : ∃ schemaName, getSourceSchemaForDestinationColumn cfg tableName = .ok schemaName

section Slots

variable {relID : ℕ} {tableName : String} {rel : RelationMessage} {lsn : LSN} {verb : String}

theorem Slot.processSingleTuple_ok (h : Slot cfg p relID tableName rel) {tuple : TupleData D}
    (mk : BaseRecord → Items V → String → String → Record V)
    (hok : ∀ schemaName base, ∃ out, processTuple cfg (some tuple) rel
      (cfg.nameAndExclude tableName).exclude schemaName base = .ok out) :
    ∃ items, processSingleTuple cfg p lsn relID tuple verb mk = .ok (some
      (mk (baseRecord p.commitLock lsn) items tableName (cfg.nameAndExclude tableName).name)) := by
  obtain ⟨schemaName, hschemaName⟩ := h.schemaName
  obtain ⟨out, hout⟩ := hok schemaName (baseRecord p.commitLock lsn)
  simp only [processSingleTuple, h.table, h.relation, hschemaName]
  refine ⟨out.1, ?_⟩
  show ((processTuple cfg (some tuple) rel _ schemaName _).mapError _ >>= _) = _
  rw [hout]
  rfl

/-- A record comes of a tuple that was decoded. -/
theorem Slot.isOk_of_processSingleTuple (h : Slot cfg p relID tableName rel)
    {tuple : TupleData D} {mk : BaseRecord → Items V → String → String → Record V}
    {rec : Record V} (hrec : processSingleTuple cfg p lsn relID tuple verb mk = .ok (some rec)) :
    ∃ schemaName base out, processTuple cfg (some tuple) rel
      (cfg.nameAndExclude tableName).exclude schemaName base = .ok out := by
  simp only [processSingleTuple, h.table, h.relation] at hrec
  obtain ⟨schemaName, -, hrec⟩ := bind_eq_ok hrec
  obtain ⟨out, hout, -⟩ := bind_eq_ok hrec
  exact ⟨schemaName, _, out, mapError_eq_ok hout⟩

theorem Slot.yields (h : Slot cfg p relID tableName rel) {tbl : SourceTable}
    (hfits : Fits cfg (cfg.nameAndExclude tableName).exclude tbl.columns rel.columns)
    {change : RowChange D} (hsent : tbl.SentUnder cfg.proc relID change) (lsn : LSN) :
    ∃ rec, processRowMessage cfg p lsn change = .ok (some rec) ∧
      rec.getSourceTableName = tableName := by
  cases hsent with
  | insert hwritten =>
    obtain ⟨items, heq⟩ := h.processSingleTuple_ok _ (hwritten.isOk hfits)
    exact ⟨.insert _ items tableName _, heq, rfl⟩
  | delete hwritten =>
    obtain ⟨items, heq⟩ := h.processSingleTuple_ok
      (fun base items src dst => .delete base items [] src dst) (hwritten.isOk hfits)
    exact ⟨.delete _ items [] tableName _, heq, rfl⟩
  | @update kind old new toasted oldTuple newTuple hwritten =>
    obtain ⟨schemaName, hschemaName⟩ := h.schemaName
    obtain ⟨outOld, hold⟩ := hwritten.oldTuple.isOk hfits
    obtain ⟨outNew, hnew⟩ := hwritten.newTuple.isOk hfits schemaName (baseRecord p.commitLock lsn)
    simp only [processRowMessage, processUpdateMessage, h.table, h.relation, hschemaName]
    rw [hold]
    dsimp only [Except.mapError, bind, Except.bind]
    rw [hnew]
    exact ⟨_, rfl, rfl⟩

end Slots

/-- A row with one value, and NULL in the other columns. -/
theorem writes_one {own : List RelationColumn} (hnames : (own.map RelationColumn.name).Nodup)
    (hnull : ∀ col, cfg.proc.process col .null = .ok none) {col : RelationColumn}
    (hcol : col ∈ own) {data : TupleDataColumn D} {v : Option V} (hdata : data ≠ .unchanged)
    (hv : cfg.proc.process col data = .ok v) :
    SourceTable.Writes ⟨own, []⟩ cfg.proc (fun _ => false)
      (fun c => if c = col.name then v else none)
      (own.map fun col' => if col' = col then data else .null) := by
  refine ⟨_, rfl, fun col' hcol' => ?_⟩
  rw [if_neg Bool.false_ne_true]
  by_cases heq : col' = col
  · simp only [heq, if_true]
    exact ⟨hdata, hv⟩
  · have hname : col'.name ≠ col.name := fun hname =>
      heq (inj_on_of_nodup_map hnames hcol' hcol hname)
    simp only [heq, hname, if_false]
    exact ⟨by simp, hnull col'⟩

/-- The columns fit if every insert gives a record. -/
theorem Slot.fits {msg : RelationMessage} {tableName : String} {rel : RelationMessage}
    (h : Slot cfg p msg.relationID tableName rel)
    (hnames : (msg.columns.map RelationColumn.name).Nodup)
    (hnull : ∀ col, cfg.proc.process col .null = .ok none) (hyields : Yields cfg p msg tableName) :
    Fits cfg (cfg.nameAndExclude tableName).exclude msg.columns rel.columns := by
  have hread : ∀ (row : Row V) (f : RelationColumn → TupleDataColumn D),
      SourceTable.Writes ⟨msg.columns, []⟩ cfg.proc (fun _ => false) row (msg.columns.map f) →
      msg.columns.length ≤ rel.columns.length ∧ ∀ q ∈ rel.columns.zip msg.columns,
        Reads cfg (cfg.nameAndExclude tableName).exclude (q.1, f q.2) := by
    intro row f hwritten
    obtain ⟨rec, hrec, -⟩ := hyields ⟨msg.columns, []⟩ _ rfl (.insert hwritten) 0
    obtain ⟨schemaName, base, hok⟩ := h.isOk_of_processSingleTuple hrec
    rw [processTuple_isOk_iff, length_map, zip_map_right] at hok
    exact ⟨hok.1, fun q hq => hok.2 _ (mem_map_of_mem hq)⟩
  refine ⟨(hread (fun _ => none) (fun _ => .null) ⟨_, rfl, fun col _ => ?_⟩).1, ?_⟩
  · simp [hnull col]
  · rintro ⟨latest, own⟩ hq
    by_cases hexclude : latest.name ∈ (cfg.nameAndExclude tableName).exclude
    · exact Or.inl hexclude
    · refine Or.inr fun data v hdata hv => ?_
      have hreads := (hread _ _ (writes_one hnames hnull (of_mem_zip hq).2 hdata hv)).2 _ hq
      rw [if_pos rfl] at hreads
      rcases hreads with hin | hun | hok
      · exact absurd hin hexclude
      · exact absurd hun hdata
      · exact hok

theorem processRowMessage_unmirrored {change : RowChange D}
    (h : cfg.mirroredTable p.childToParentRelIDMapping change.relationID = none) (lsn : LSN) :
    processRowMessage cfg p lsn change = .ok none := by
  rw [CDCConfig.mirroredTable] at h
  cases change with
  | insert | update | delete =>
    simp only [RowChange.relationID] at h
    simp only [processRowMessage, processInsertMessage, processUpdateMessage,
      processDeleteMessage, processSingleTuple, h]

theorem Pulled.slot_isSome (hroot : cfg.publishViaPartitionRoot = false)
    (h : Pulled cfg start ts p) {g : ℕ} (hg : (cfg.srcTableIDNameMapping g).isSome)
    {t : SourceTurn D V} (ht : t ∈ ts) {msg : RelationMessage} (hmsg : t.relation = some msg)
    (hresolve : cfg.resolve start t.catalog msg.relationID = g) :
    (p.relationMessageMapping g).isSome := by
  refine (h.history hroot (fun pre p => ∀ t ∈ pre, ∀ msg, t.relation = some msg →
    cfg.resolve start t.catalog msg.relationID = g → (p.relationMessageMapping g).isSome)
    (fun t ht => absurd ht not_mem_nil) ?_).1 t ht msg hmsg hresolve
  intro pre t p p' ih hmaps hstart hpre hstep t' ht' msg' hmsg' hresolve'
  rcases sourceStep_cases hroot hstep with ⟨hnone, hslots, -⟩ |
    ⟨msg, relID, hmsg, hrelID, hslots, -⟩
  · rw [hslots]
    rcases mem_append.mp ht' with ht' | ht'
    · exact ih t' ht' msg' hmsg' hresolve'
    · rw [mem_singleton.mp ht', hnone] at hmsg'
      cases hmsg'
  · rw [slot_of_slots hg hslots]
    split_ifs with hown
    · rfl
    · rcases mem_append.mp ht' with ht' | ht'
      · exact ih t' ht' msg' hmsg' hresolve'
      · obtain rfl := mem_singleton.mp ht'
        obtain rfl := Option.some.inj (hmsg.symm.trans hmsg')
        exact absurd (hrelID.symm.trans (hmaps.kept hstart hpre hg hresolve')) hown

/-- **The rows of a leaf.**  A relation that is not mirrored was announced while it reached a
mirrored table over one or more levels, and over none that is mirrored before.  Its rows give
records of that table exactly if there is one level and they fit the columns that were announced
last for the table, as they do if these are its own.  With more levels all rows are passed
over. -/
theorem leaf_yields_iff (hroot : cfg.publishViaPartitionRoot = false)
    (h : Pulled cfg start ts p) {t : SourceTurn D V} (ht : t ∈ ts) {msg : RelationMessage}
    (hmsg : t.relation = some msg) (hleaf : cfg.srcTableIDNameMapping msg.relationID = none)
    {root : ℕ} (hpath : Relation.TransGen (fun a b => t.catalog a = some b) msg.relationID root)
    (hnearest : ∀ mid, Relation.TransGen (fun a b => t.catalog a = some b) msg.relationID mid →
      Relation.TransGen (fun a b => t.catalog a = some b) mid root →
      cfg.srcTableIDNameMapping mid = none)
    {tableName : String} (htable : cfg.srcTableIDNameMapping root = some tableName)
    {schemaName : String}
    (hschema : getSourceSchemaForDestinationColumn cfg tableName = .ok schemaName)
    (hnames : (msg.columns.map RelationColumn.name).Nodup)
    (hnull : ∀ col, cfg.proc.process col .null = .ok none) :
    (Yields cfg p msg tableName ↔ t.catalog msg.relationID = some root ∧
      ∃ rel, p.relationMessageMapping root = some rel ∧
        Fits cfg (cfg.nameAndExclude tableName).exclude msg.columns rel.columns) ∧
    (t.catalog msg.relationID = some root → ∀ rel, p.relationMessageMapping root = some rel →
      rel.columns = msg.columns → Yields cfg p msg tableName) ∧
    (t.catalog msg.relationID ≠ some root → ∀ change : RowChange D,
      change.relationID = msg.relationID → ∀ lsn,
        processRowMessage cfg p lsn change = .ok none) := by
  have hg : (cfg.srcTableIDNameMapping root).isSome := by
    rw [htable]
    rfl
  have hmaps := (h.history hroot (fun _ _ => True) trivial fun _ _ _ _ _ _ _ _ _ => trivial).2
  -- rows of the leaf are looked up one level up, at its direct parent
  obtain ⟨parent, hparent, hrest⟩ := Relation.TransGen.head'_iff.mp hpath
  have hchild := hmaps.announced t ht msg hmsg hleaf parent hparent
  have hrelID := parentRelID_of_some hchild
  by_cases hdirect : parent = root
  · -- the announcement of the leaf has filled the slot of the root
    subst hdirect
    have hresolve : cfg.resolve start t.catalog msg.relationID = parent := by
      rw [CDCConfig.resolve]
      cases hknown : cfg.known start msg.relationID with
      | some x =>
        have hx := hmaps.base _ x hknown
        rw [hchild] at hx
        exact (Option.some.inj hx).symm
      | none =>
        rw [hleaf, hparent]
        rfl
    have hslot : ∀ rel, p.relationMessageMapping parent = some rel →
        Slot cfg p msg.relationID tableName rel := fun rel hrel =>
      ⟨by rw [hrelID, htable], by rw [hrelID, hrel], schemaName, hschema⟩
    obtain ⟨rel, hrel⟩ := Option.isSome_iff_exists.mp (h.slot_isSome hroot hg ht hmsg hresolve)
    refine ⟨⟨fun hyields => ⟨hparent, rel, hrel, (hslot rel hrel).fits hnames hnull hyields⟩, ?_⟩,
      ?_, fun hne => absurd hparent hne⟩
    · rintro ⟨-, rel, hrel, hfits⟩ tbl change htbl hsent
      exact (hslot rel hrel).yields (htbl ▸ hfits) hsent
    · intro _ rel hrel hown tbl change htbl hsent
      exact (hslot rel hrel).yields (htbl ▸ hown ▸ Fits.refl _ _) hsent
  · -- the relation in between is not mirrored, and there the lookup ends
    have hmid : cfg.srcTableIDNameMapping parent = none := by
      refine hnearest parent (Relation.TransGen.single hparent) ?_
      rcases Relation.reflTransGen_iff_eq_or_transGen.mp hrest with heq | htrans
      · exact absurd heq.symm hdirect
      · exact htrans
    have hnot : t.catalog msg.relationID ≠ some root := by
      rw [hparent]
      exact fun heq => hdirect (Option.some.inj heq)
    have hdropped : ∀ change : RowChange D, change.relationID = msg.relationID → ∀ lsn,
        processRowMessage cfg p lsn change = .ok none := by
      intro change hchange lsn
      refine processRowMessage_unmirrored ?_ lsn
      rw [hchange, CDCConfig.mirroredTable, hrelID, hmid]
    refine ⟨⟨fun hyields => ?_, fun hfits => absurd hfits.1 hnot⟩, fun heq => absurd heq hnot,
      fun _ => hdropped⟩
    -- even a row of NULLs is passed over
    have hnulls : SourceTable.Writes ⟨msg.columns, []⟩ cfg.proc (fun _ => false) (fun _ => none)
        (msg.columns.map fun _ => .null) := ⟨_, rfl, fun col _ => by simp [hnull col]⟩
    obtain ⟨rec, hrec, -⟩ := hyields ⟨msg.columns, []⟩ _ rfl (.insert hnulls) 0
    rw [hdropped _ rfl] at hrec
    cases hrec

end Nested

/-- Relation 11 is attached after the source has started. -/
theorem attachedLater_yields :
    ∃ p, Pulled logsMirror (fun _ => none) [logsRelation logsFlat 11] p ∧
      Yields logsMirror p ⟨11, [{ name := "at" }, { name := "level" }]⟩ "public.logs" := by
  have hpulled : Pulled logsMirror (fun _ => none) [logsRelation logsFlat 11] _ :=
    ⟨by simp [Catalog.Extends], rfl⟩
  refine ⟨_, hpulled, (leaf_yields_iff rfl hpulled mem_cons_self rfl rfl
    (Relation.TransGen.single rfl) (fun mid hfrom hto => ?_) rfl rfl (by decide)
    (fun _ => rfl)).2.1 rfl _ rfl rfl⟩
  -- 10 has no parent, so there is nothing in between
  obtain ⟨parent, hparent, hrest⟩ := Relation.TransGen.head'_iff.mp hfrom
  obtain rfl : 10 = parent := Option.some.inj hparent
  have htop : ∀ b, ¬ logsFlat 10 = some b := by
    intro b hb
    cases hb
  rcases Relation.ReflTransGen.cases_head hrest with rfl | ⟨b, hb, -⟩
  · obtain ⟨b, hb, -⟩ := Relation.TransGen.head'_iff.mp hto
    exact absurd hb (htop b)
  · exact absurd hb (htop b)

/-- Relation 21 is two levels below the table: its rows are passed over. -/
theorem nestedLeaf_dropped :
    ∃ p, Pulled logsMirror logsCatalog [logsRelation logsCatalog 21] p ∧
      Relation.TransGen (fun a b => logsCatalog a = some b) 21 10 ∧
      logsMirror.srcTableIDNameMapping 10 = some "public.logs" ∧
      processRowMessage logsMirror p 1 (.insert 21 [.text 3, .text 7]) = .ok none := by
  have hpulled : Pulled logsMirror logsCatalog [logsRelation logsCatalog 21] _ :=
    ⟨by simp [Catalog.Extends, logsRelation], rfl⟩
  refine ⟨_, hpulled, Relation.TransGen.head (b := 12) rfl (Relation.TransGen.single rfl), rfl,
    rfl⟩
