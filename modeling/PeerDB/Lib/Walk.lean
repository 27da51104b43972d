/-
Depth-first walks over a graph with a shared set of visited nodes.

A walk keeps two sets: the nodes it has visited, whose edges it has followed, and the
nodes it has recorded.  A node without edges may be recorded without a visit.

* `Walked V V' S` — between the visited sets `V` and `V'` a walk followed all edges of the
  nodes it added, and recorded `S`.  Walks follow each other (`Walked.trans`), and a node is
  walked once its edges are (`Walked.node`);
* `Walked.seen_of_reaches` — a walk that starts without visited nodes has recorded whatever
  can be reached from a node that it visited.
-/
import Mathlib.Data.Finset.Basic
import Mathlib.Logic.Relation

namespace Walk

variable {α : Type*}

section

variable (next : α → List α)

/-- There is a path. -/
def Reaches : α → α → Prop := Relation.ReflTransGen fun a b => b ∈ next a

/-- The node is recorded, and visited unless there is nothing to follow. -/
def Seen (visited recorded : Finset α) (a : α) : Prop :=
  a ∈ recorded ∧ (a ∈ visited ∨ next a = [])

/-- Every node that was added to the visited ones is seen, and so is every node that an
edge leads to from there. -/
structure Walked (V V' S : Finset α) : Prop where
  subset : V ⊆ V'
  seen : ∀ a ∈ V', a ∉ V → Seen next V' S a ∧ ∀ b ∈ next a, Seen next V' S b

end

variable {next : α → List α} {V V₁ V₂ S S₁ S₂ : Finset α} {a b : α}

theorem Seen.mono (h : Seen next V₁ S₁ a) (hV : V₁ ⊆ V₂) (hS : S₁ ⊆ S₂) : Seen next V₂ S₂ a :=
  ⟨hS h.1, h.2.imp_left fun ha => hV ha⟩

theorem Walked.refl (V S : Finset α) : Walked next V V S :=
  ⟨Finset.Subset.refl V, fun _ ha hna => absurd ha hna⟩

theorem Walked.mono (h : Walked next V V₁ S₁) (hS : S₁ ⊆ S₂) : Walked next V V₁ S₂ := by
  refine ⟨h.subset, fun a ha hna => ?_⟩
  obtain ⟨hseen, hnext⟩ := h.seen a ha hna
  exact ⟨hseen.mono (Finset.Subset.refl _) hS,
    fun b hb => (hnext b hb).mono (Finset.Subset.refl _) hS⟩

/-- Two walks, one after the other. -/
theorem Walked.trans (h₁ : Walked next V V₁ S) (h₂ : Walked next V₁ V₂ S) : Walked next V V₂ S := by
  refine ⟨h₁.subset.trans h₂.subset, fun a ha hna => ?_⟩
  by_cases ha₁ : a ∈ V₁
  · obtain ⟨hseen, hnext⟩ := h₁.seen a ha₁ hna
    exact ⟨hseen.mono h₂.subset (Finset.Subset.refl _),
      fun b hb => (hnext b hb).mono h₂.subset (Finset.Subset.refl _)⟩
  · exact h₂.seen a ha ha₁

theorem Walked.node [DecidableEq α] (h : Walked next (insert a V) V₁ S) (ha : a ∈ S)
    (hnext : ∀ b ∈ next a, Seen next V₁ S b) : Walked next V V₁ S := by
  refine ⟨(Finset.subset_insert a V).trans h.subset, fun b hb hnb => ?_⟩
  rcases eq_or_ne b a with rfl | hne
  · exact ⟨⟨ha, .inl hb⟩, hnext⟩
  · refine h.seen b hb fun hmem => ?_
    rcases Finset.mem_insert.mp hmem with heq | hV
    · exact hne heq
    · exact hnb hV

/-- **A walk from nothing records everything that can be reached.** -/
theorem Walked.seen_of_reaches (h : Walked next ∅ V S) (ha : a ∈ V) (hab : Reaches next a b) :
    Seen next V S b := by
  induction hab with
  | refl => exact (h.seen a ha (Finset.notMem_empty a)).1
  | @tail b c _ hbc ih =>
    rcases ih.2 with hb | hnone
    · exact (h.seen b hb (Finset.notMem_empty b)).2 c hbc
    · -- the node has no edge to follow
      rw [hnone] at hbc
      cases hbc

end Walk
