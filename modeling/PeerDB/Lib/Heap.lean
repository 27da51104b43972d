/-
Binary heaps in an array, as Go's `container/heap` keeps them.

`less` says which of two entries comes first.  `up` and `down` move an entry by swaps
towards its place, and `init`, `push` and `pop` are made of them.  No operation loses or
doubles an entry: `init_perm`, `push_perm`, `pop_perm`, whatever `less` is.
-/
import Mathlib.Data.List.Induction
import Mathlib.Data.List.Basic

namespace Heap

variable {α : Type*} (less : α → α → Bool)

/-- The comparison of two positions. -/
def lessAt (h : Array α) (i j : ℕ) : Bool :=
  match h[i]?, h[j]? with
  | some a, some b => less a b
  | _, _ => false

/-- Move the entry at `j` up while it comes before its parent. -/
def up (h : Array α) (j : ℕ) : Array α :=
  let i := (j - 1) / 2
  if i = j ∨ lessAt less h j i = false then h
  else up (h.swapIfInBounds i j) i
termination_by j
decreasing_by omega

/-- The child of `i` that comes first, of those below `n`. -/
def child (h : Array α) (i n : ℕ) : ℕ :=
  let j₁ := 2 * i + 1
  let j₂ := j₁ + 1
  if j₂ < n ∧ lessAt less h j₂ j₁ = true then j₂ else j₁

theorem lt_child (h : Array α) (i n : ℕ) : i < child less h i n := by
  rw [child]
  split_ifs <;> omega

/-- Move the entry at `i` down while one of its children below `n` comes before it. -/
def down (h : Array α) (i n : ℕ) : Array α :=
  if 2 * i + 1 ≥ n then h
  else if lessAt less h (child less h i n) i = false then h
  else down (h.swapIfInBounds i (child less h i n)) (child less h i n) n
termination_by n - i
decreasing_by
  have := lt_child less h i n
  omega

def init (h : Array α) : Array α :=
  (List.range (h.size / 2)).reverse.foldl (fun g i => down less g i h.size) h

def push (h : Array α) (x : α) : Array α := up less (h.push x) h.size

/-- `heap.Pop`; there is nothing to pop from an empty heap. -/
def pop (h : Array α) : Option (α × Array α) :=
  let n := h.size - 1
  let g := down less (h.swapIfInBounds 0 n) 0 n
  g.back?.map fun item => (item, g.pop)

theorem swapIfInBounds_perm (h : Array α) (i j : ℕ) : (h.swapIfInBounds i j).Perm h := by
  rw [Array.swapIfInBounds_def]
  split_ifs
  · exact Array.swap_perm _ _
  · exact .rfl
  · exact .rfl

theorem up_perm (h : Array α) (j : ℕ) : (up less h j).Perm h := by
  fun_induction up with
  | case1 h j i hstop => exact .rfl
  | case2 h j i hmove ih => exact ih.trans (swapIfInBounds_perm h i j)

theorem down_perm (h : Array α) (i n : ℕ) : (down less h i n).Perm h := by
  fun_induction down with
  | case1 h i hleaf => exact .rfl
  | case2 h i hinner hstop => exact .rfl
  | case3 h i hinner hmove ih => exact ih.trans (swapIfInBounds_perm h i _)

theorem init_perm (h : Array α) : (init less h).Perm h := by
  rw [init]
  generalize h.size = n
  generalize (List.range (n / 2)).reverse = is
  induction is using List.reverseRecOn with
  | nil => exact .rfl
  | append_singleton is i ih =>
    rw [List.foldl_concat]
    exact (down_perm less _ i n).trans ih

theorem push_perm (h : Array α) (x : α) : (push less h x).toList.Perm (x :: h.toList) := by
  have hup := Array.perm_iff_toList_perm.mp (up_perm less (h.push x) h.size)
  rw [Array.toList_push] at hup
  exact hup.trans (List.perm_append_singleton x h.toList)

variable {less}

theorem pop_perm {h g : Array α} {x : α} (hpop : pop less h = some (x, g)) :
    h.toList.Perm (x :: g.toList) := by
  rw [pop, Option.map_eq_some_iff] at hpop
  obtain ⟨y, hback, heq⟩ := hpop
  obtain ⟨rfl, rfl⟩ := Prod.mk.inj heq
  have hperm := Array.perm_iff_toList_perm.mp
    ((down_perm less (h.swapIfInBounds 0 (h.size - 1)) 0 (h.size - 1)).trans
      (swapIfInBounds_perm h 0 (h.size - 1)))
  generalize down less (h.swapIfInBounds 0 (h.size - 1)) 0 (h.size - 1) = d at hback hperm ⊢
  -- the popped entry is the last one of the array
  have hlast : d.toList.getLast? = some y := by rwa [Array.getLast?_toList]
  obtain ⟨l, hl⟩ := List.getLast?_eq_some_iff.mp hlast
  refine hperm.symm.trans ?_
  rw [Array.toList_pop, hl, List.dropLast_concat]
  exact List.perm_append_singleton y l

theorem exists_pop {h : Array α} (hpos : 0 < h.size) : ∃ x g, pop less h = some (x, g) := by
  have hsize : (down less (h.swapIfInBounds 0 (h.size - 1)) 0 (h.size - 1)).size = h.size :=
    ((down_perm less (h.swapIfInBounds 0 (h.size - 1)) 0 (h.size - 1)).trans
      (swapIfInBounds_perm h 0 (h.size - 1))).size_eq
  rw [pop]
  generalize down less (h.swapIfInBounds 0 (h.size - 1)) 0 (h.size - 1) = d at hsize ⊢
  obtain ⟨x, hx⟩ : ∃ x, d.back? = some x := by
    rw [Array.back?_eq_getElem?]
    exact ⟨_, Array.getElem?_eq_getElem (by omega)⟩
  exact ⟨x, d.pop, by rw [hx]; rfl⟩

end Heap
