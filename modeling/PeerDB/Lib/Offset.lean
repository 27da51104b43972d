/-
Offsets of a log that is streamed in commit order.

Every entry of the log has a position of its own (`lsn`) and the position at which
its transaction commits (`commit`), which is larger.  The entries come in the order
of their commits.  A consumer that restarts from an offset is sent the entries whose
commit is larger than the offset; so an offset is safe if every entry with a commit
up to it has been dealt with.  `CommitOrdered.before` is the one fact needed about
the order: the entries that an entry's own position would declare done all came
before it.

`casMax` is one round of the compare-and-swap loop that raises a shared cell to a
value.
-/
import Mathlib.Data.List.Pairwise

namespace Offset

section CommitOrder

variable {α : Type*} {lsn commit : α → ℕ}

/-- The entries come in the order of their commits, each in front of its own. -/
structure CommitOrdered (lsn commit : α → ℕ) (l : List α) : Prop where
  sorted : l.Pairwise fun a b => commit a ≤ commit b
  below : ∀ a ∈ l, lsn a < commit a

theorem CommitOrdered.left {l l' : List α} (h : CommitOrdered lsn commit (l ++ l')) :
    CommitOrdered lsn commit l :=
  ⟨(List.pairwise_append.mp h.sorted).1, fun a ha => h.below a (List.mem_append_left l' ha)⟩

theorem CommitOrdered.sublist {l l' : List α} (h : CommitOrdered lsn commit l')
    (hsub : l.Sublist l') : CommitOrdered lsn commit l :=
  ⟨h.sorted.sublist hsub, fun a ha => h.below a (hsub.subset ha)⟩

/-- An entry with a commit up to the position of `y` came before `y`. -/
theorem CommitOrdered.before {pre post : List α} {x y : α}
    (h : CommitOrdered lsn commit (pre ++ y :: post)) (hx : x ∈ pre ++ y :: post)
    (hc : commit x ≤ lsn y) : x ∈ pre := by
  have hy : lsn y < commit y := h.below y (by simp)
  rcases List.mem_append.mp hx with hpre | hrest
  · exact hpre
  · exfalso
    rcases List.mem_cons.mp hrest with rfl | hpost
    · omega
    · have hle : commit y ≤ commit x :=
        List.rel_of_pairwise_cons (List.pairwise_append.mp h.sorted).2.1 hpost
      omega

/-- What comes after an entry commits behind the entry's own position. -/
theorem CommitOrdered.after {l l' : List α} {x y : α}
    (h : CommitOrdered lsn commit (l ++ l')) (hy : y ∈ l) (hx : x ∈ l') : lsn y < commit x := by
  have hlt : lsn y < commit y := h.below y (List.mem_append_left l' hy)
  have hle : commit y ≤ commit x := (List.pairwise_append.mp h.sorted).2.2 y hy x hx
  omega

/-- The same by positions in the log. -/
theorem CommitOrdered.lt {l : List α} {i j : ℕ} {x y : α} (h : CommitOrdered lsn commit l)
    (hx : l[j]? = some x) (hy : l[i]? = some y) (hc : commit x ≤ lsn y) : j < i := by
  by_contra hle
  have hlt : lsn y < commit y := h.below y (List.mem_of_getElem? hy)
  obtain ⟨hj, rfl⟩ := List.getElem?_eq_some_iff.mp hx
  obtain ⟨hi, rfl⟩ := List.getElem?_eq_some_iff.mp hy
  rcases Nat.lt_or_ge i j with hij | hji
  · have hcommit := List.pairwise_iff_getElem.mp h.sorted i j hi hj hij
    omega
  · obtain rfl : i = j := by omega
    omega

end CommitOrder

/-! ### Raising a shared cell -/

/-- One round of `for old < v && !cas(cell, old, v) { old = load(cell) }`: the new
value of the cell, and the value to try with if the loop goes on. -/
def casMax (cell v old : ℕ) : ℕ × Option ℕ :=
  if old < v then
    if cell = old then (v, none) else (cell, some cell)
  else (cell, none)

theorem casMax_fst (cell v old : ℕ) :
    (casMax cell v old).1 = cell ∨ (casMax cell v old).1 = v := by
  rw [casMax]
  by_cases hlt : old < v
  · rw [if_pos hlt]
    by_cases hcell : cell = old
    · rw [if_pos hcell]
      exact Or.inr rfl
    · rw [if_neg hcell]
      exact Or.inl rfl
  · rw [if_neg hlt]
    exact Or.inl rfl

end Offset
