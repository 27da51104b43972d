/-
Reading an ordered log from a saved position.

Entries have positions, and the log is in their order.  A reader has some entries
pending and is done with others.  Nothing is lost as long as every entry is pending or
done (`Reading`).  Then a position in front of all pending entries has only done entries
up to it (`Reading.covers`), and a reader that is opened again at such a position, or
at any place in front of it, has lost nothing either (`Covers.reading`).  What such a
reader gives out has no gaps, and is in order up to repetitions (`Gapless`).
-/
import Mathlib.Order.Lattice
import Mathlib.Data.List.Pairwise

namespace Replay

variable {α κ : Type*} [LinearOrder κ] {pos : α → κ} {log pending rest : List α} {a x : α}
  {t : κ} {Done Done' : α → Prop}

/-- Every entry up to a position is done. -/
def Covers (pos : α → κ) (log : List α) (Done : α → Prop) (t : κ) : Prop :=
  ∀ a ∈ log, pos a ≤ t → Done a

/-- Every entry is pending or done, and the pending ones are in order. -/
structure Reading (pos : α → κ) (log : List α) (Done : α → Prop) (pending : List α) : Prop where
  unread : ∀ a ∈ log, a ∈ pending ∨ Done a
  sorted : pending.Pairwise fun a b => pos a < pos b

theorem Reading.mono (h : Reading pos log Done pending) (hdone : ∀ a, Done a → Done' a) :
    Reading pos log Done' pending :=
  ⟨fun a ha => (h.unread a ha).imp id (hdone a), h.sorted⟩

/-- A position in front of all pending entries. -/
theorem Reading.covers (h : Reading pos log Done pending) (ht : ∀ a ∈ pending, t < pos a) :
    Covers pos log Done t := by
  intro a ha hle
  rcases h.unread a ha with hpending | hdone
  · exact absurd hle (not_le.mpr (ht a hpending))
  · exact hdone

/-- A reader is opened where it cannot miss what comes after the position. -/
theorem Covers.reading (h : Covers pos log Done t)
    (hsorted : pending.Pairwise fun a b => pos a < pos b)
    (hlate : ∀ a ∈ log, t < pos a → a ∈ pending ∨ Done a) : Reading pos log Done pending := by
  refine ⟨fun a ha => ?_, hsorted⟩
  rcases le_or_gt (pos a) t with hle | hlt
  · exact Or.inr (h a ha hle)
  · exact hlate a ha hlt

/-- What comes in front of the next entry is done. -/
theorem Reading.before (h : Reading pos log Done (a :: rest)) (hx : x ∈ log)
    (hlt : pos x < pos a) : Done x := by
  rcases h.unread x hx with hpending | hdone
  · rcases List.mem_cons.mp hpending with rfl | hrest
    · exact absurd hlt (lt_irrefl _)
    · exact absurd hlt (lt_asymm (List.rel_of_pairwise_cons h.sorted hrest))
  · exact hdone

theorem Reading.next (h : Reading pos log Done (a :: rest)) (ha : Done a) :
    Reading pos log Done rest := by
  refine ⟨fun x hx => ?_, h.sorted.of_cons⟩
  rcases h.unread x hx with hpending | hdone
  · rcases List.mem_cons.mp hpending with rfl | hrest
    · exact Or.inr ha
    · exact Or.inl hrest
  · exact Or.inr hdone

/-! ### What was read, in order -/

/-- Whatever is read, the wanted entries in front of it were read before. -/
def Gapless (pos : α → κ) (log : List α) (Wanted : α → Prop) (out : List α) : Prop :=
  ∀ pre x post, out = pre ++ x :: post → ∀ a ∈ log, Wanted a → pos a < pos x → a ∈ pre

theorem Gapless.snoc {Wanted : α → Prop} {out : List α} (h : Gapless pos log Wanted out)
    (hx : ∀ a ∈ log, Wanted a → pos a < pos x → a ∈ out) :
    Gapless pos log Wanted (out ++ [x]) := by
  intro pre y post hsplit
  rcases List.append_eq_append_iff.mp hsplit with ⟨mid, hpre, hmid⟩ | ⟨mid, hout, hmid⟩
  · -- y is x itself, and everything was there before
    cases mid with
    | nil =>
      obtain ⟨rfl, -⟩ := List.cons.inj hmid
      rw [hpre, List.append_nil]
      exact hx
    | cons z mid =>
      have hlen := congrArg List.length (List.cons.inj hmid).2
      simp at hlen
  · cases mid with
    | nil =>
      obtain ⟨rfl, -⟩ := List.cons.inj hmid
      rw [List.append_nil] at hout
      rw [← hout]
      exact hx
    | cons z mid =>
      obtain ⟨rfl, -⟩ := List.cons.inj hmid
      exact h pre y mid hout

end Replay
