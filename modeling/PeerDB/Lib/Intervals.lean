/-
Ranges of a linear order, as lists of pairs of ends.

* `cut` adds a range to ranges that are kept apart: a range inside the last one is
  dropped, and one that overlaps it starts right after it.  `cuts_foldl` — over any
  list of ranges in the order of their starts, what is kept is apart (`Apart`) and has
  exactly the values of the list;
* `Joined a b` — a list of ranges from `a` to `b`, each of which starts where the one
  before it ends.  Read as closed ranges they cover `[a, b]` (`Joined.covers`); read as
  half-open ranges, the last one closed, they have every value of `[a, b]` exactly once
  (`Joined.count_lastClosed`).
-/
import Mathlib.Order.SuccPred.Basic
import Mathlib.Data.List.Chain
import Mathlib.Data.List.Induction

namespace Intervals

open List

variable {α : Type*} [LinearOrder α]

/-! ### Closed ranges -/

/-- The value lies in the range, both ends included. -/
def Contains (r : α × α) (x : α) : Prop := r.1 ≤ x ∧ x ≤ r.2

instance (r : α × α) (x : α) : Decidable (Contains r x) :=
  inferInstanceAs (Decidable (_ ∧ _))

/-- The value lies in one of the ranges. -/
def Covers (rs : List (α × α)) (x : α) : Prop := ∃ r ∈ rs, Contains r x

instance (rs : List (α × α)) (x : α) : Decidable (Covers rs x) :=
  inferInstanceAs (Decidable (∃ r ∈ rs, Contains r x))

theorem not_covers_nil (x : α) : ¬ Covers [] x := by
  rintro ⟨r, hr, -⟩
  cases hr

variable {r last : α × α} {rs kept : List (α × α)}

theorem covers_cons {x : α} :
    Covers (r :: rs) x ↔ Contains r x ∨ Covers rs x := by
  rw [Covers, exists_mem_cons_iff, ← Covers]

theorem covers_singleton {x : α} : Covers [r] x ↔ Contains r x := by
  rw [covers_cons, or_iff_left (not_covers_nil x)]

theorem covers_concat (rs : List (α × α)) (r : α × α) (x : α) :
    Covers (rs ++ [r]) x ↔ Covers rs x ∨ Contains r x := by
  induction rs with
  | nil => rw [nil_append, covers_singleton, or_iff_right (not_covers_nil x)]
  | cons s rs ih => rw [cons_append, covers_cons, covers_cons, ih, or_assoc]

/-- Non-empty ranges in increasing order, with no value in two of them. -/
structure Apart (rs : List (α × α)) : Prop where
  le : ∀ r ∈ rs, r.1 ≤ r.2
  lt : rs.Pairwise fun r s => r.2 < s.1

theorem apart_nil : Apart ([] : List (α × α)) := ⟨by simp, List.Pairwise.nil⟩

/-- The last of such ranges has the greatest end. -/
theorem Apart.le_last (h : Apart (rs ++ [last])) :
    ∀ r ∈ rs ++ [last], r.2 ≤ last.2 := by
  intro r hr
  rcases mem_append.mp hr with hr | hr
  · have hlt : r.2 < last.1 := (pairwise_append.mp h.lt).2.2 r hr last mem_cons_self
    exact hlt.le.trans (h.le last mem_concat_self)
  · rw [mem_singleton.mp hr]

/-- A range after the last end can be added. -/
theorem Apart.concat (h : Apart rs) (hle : r.1 ≤ r.2) (hafter : ∀ s ∈ rs, s.2 < r.1) :
    Apart (rs ++ [r]) := by
  constructor
  · intro s hs
    rcases mem_append.mp hs with hs | hs
    · exact h.le s hs
    · rwa [mem_singleton.mp hs]
  · refine pairwise_append.mpr ⟨h.lt, pairwise_singleton _ _, ?_⟩
    intro s hs t ht
    rw [mem_singleton.mp ht]
    exact hafter s hs

theorem Apart.tail (h : Apart (r :: rs)) : Apart rs :=
  ⟨fun s hs => h.le s (mem_cons_of_mem r hs), (pairwise_cons.mp h.lt).2⟩

/-- A value is in one of the ranges, and only one, or in none. -/
theorem Apart.count (h : Apart rs) (x : α) :
    (rs.countP fun r => decide (Contains r x)) = if Covers rs x then 1 else 0 := by
  induction rs with
  | nil => rw [if_neg (not_covers_nil x)]; rfl
  | cons r rs ih =>
    rw [countP_cons, ih h.tail]
    simp only [decide_eq_true_eq, covers_cons]
    by_cases hr : Contains r x
    · -- the ranges after `r` start after its end
      have hrest : ¬ Covers rs x := by
        rintro ⟨s, hs, hx⟩
        exact absurd (hr.2.trans_lt ((pairwise_cons.mp h.lt).1 s hs)) (not_lt.mpr hx.1)
      rw [if_neg hrest, if_pos hr, if_pos (.inl hr)]
    · simp only [hr, if_false, Nat.add_zero, false_or]

/-! ### Cutting overlapping ranges apart -/

/-- Add a range to the ranges that are kept: not at all if it lies inside the last one,
and without the values it shares with it otherwise. -/
def cut [SuccOrder α] (kept : List (α × α)) (r : α × α) : List (α × α) :=
  match kept.getLast? with
  | none => kept ++ [r]
  | some last =>
    if last.2 < r.1 then kept ++ [r]
    else if last.2 < r.2 then kept ++ [(Order.succ last.2, r.2)]
    else kept

/-- The ranges that are kept for `rs`: apart, with the same values, and with ends that
are ends of `rs`. -/
structure Cuts (rs kept : List (α × α)) : Prop where
  apart : Apart kept
  covers : ∀ x, Covers kept x ↔ Covers rs x
  ends : ∀ r ∈ kept, ∃ p ∈ rs, p.2 = r.2

theorem cuts_nil : Cuts ([] : List (α × α)) [] := ⟨apart_nil, fun _ => Iff.rfl, by simp⟩

theorem Cuts.ends_concat {r s : α × α} (h : Cuts rs kept) (hend : s.2 = r.2) :
    ∀ t ∈ kept ++ [s], ∃ p ∈ rs ++ [r], p.2 = t.2 := by
  intro t ht
  rcases mem_append.mp ht with ht | ht
  · obtain ⟨p, hp, heq⟩ := h.ends t ht
    exact ⟨p, mem_append_left _ hp, heq⟩
  · rw [mem_singleton.mp ht]
    exact ⟨r, mem_concat_self, hend.symm⟩

/-- A range after everything that is kept is kept as it is. -/
theorem Cuts.concat (h : Cuts rs kept) (hle : r.1 ≤ r.2) (hafter : ∀ s ∈ kept, s.2 < r.1) :
    Cuts (rs ++ [r]) (kept ++ [r]) where
  apart := h.apart.concat hle hafter
  covers x := by rw [covers_concat, covers_concat, h.covers]
  ends := h.ends_concat rfl

/-- Values between the start of a new range and the last end are kept already: they lie
in the range that the last end comes from, which does not start later. -/
theorem Cuts.covers_of_le (h : Cuts rs kept) (hstart : ∀ p ∈ rs, p.1 ≤ r.1) (hlast : last ∈ kept)
    {x : α} (hlo : r.1 ≤ x) (hhi : x ≤ last.2) : Covers kept x := by
  obtain ⟨p, hp, heq⟩ := h.ends last hlast
  exact (h.covers x).mpr ⟨p, hp, (hstart p hp).trans hlo, heq ▸ hhi⟩

theorem Cuts.step [SuccOrder α] (h : Cuts rs kept) (hle : r.1 ≤ r.2)
    (hstart : ∀ p ∈ rs, p.1 ≤ r.1) :
    Cuts (rs ++ [r]) (cut kept r) := by
  induction kept using List.reverseRecOn with
  | nil => exact h.concat hle (by simp)
  | append_singleton kept last _ =>
    have hmem : last ∈ kept ++ [last] := mem_concat_self
    rw [cut, getLast?_concat]
    dsimp only
    split_ifs with hbefore hover
    · exact h.concat hle fun s hs => (h.apart.le_last s hs).trans_lt hbefore
    · -- the two overlap: the new range starts right after the last end
      have hnext : last.2 < Order.succ last.2 :=
        Order.lt_succ_of_not_isMax fun hmax => absurd hover (not_lt.mpr (hmax hover.le))
      refine ⟨h.apart.concat (Order.succ_le_of_lt hover)
        fun s hs => (h.apart.le_last s hs).trans_lt hnext, ?_, h.ends_concat rfl⟩
      intro x
      rw [covers_concat (kept ++ [last]), covers_concat rs, ← h.covers]
      constructor
      · rintro (hx | hx)
        · exact .inl hx
        · exact .inr ⟨(not_lt.mp hbefore).trans (hnext.le.trans hx.1), hx.2⟩
      · rintro (hx | hx)
        · exact .inl hx
        · rcases le_or_gt x last.2 with hlow | hhigh
          · exact .inl (h.covers_of_le hstart hmem hx.1 hlow)
          · exact .inr ⟨Order.succ_le_of_lt hhigh, hx.2⟩
    · refine ⟨h.apart, ?_, fun s hs => ?_⟩
      · intro x
        rw [covers_concat rs, ← h.covers]
        refine ⟨.inl, ?_⟩
        rintro (hx | hx)
        · exact hx
        · exact h.covers_of_le hstart hmem hx.1 (hx.2.trans (not_lt.mp hover))
      · obtain ⟨p, hp, heq⟩ := h.ends s hs
        exact ⟨p, mem_append_left _ hp, heq⟩

/-- **Ranges in the order of their starts are cut apart exactly.** -/
theorem cuts_foldl [SuccOrder α] (hle : ∀ r ∈ rs, r.1 ≤ r.2)
    (hsorted : rs.Pairwise fun r s => r.1 ≤ s.1) : Cuts rs (rs.foldl cut []) := by
  induction rs using List.reverseRecOn with
  | nil => exact cuts_nil
  | append_singleton rs r ih =>
    obtain ⟨hbefore, -, hlast⟩ := pairwise_append.mp hsorted
    rw [foldl_concat]
    exact (ih (fun s hs => hle s (mem_append_left _ hs)) hbefore).step
      (hle r mem_concat_self) fun p hp => hlast p hp r mem_cons_self

/-! ### Ranges joined at their ends -/

/-- Ranges from `a` to `b`, each of which starts where the one before it ends. -/
inductive Joined {α : Type*} : α → α → List (α × α) → Prop
  | last (a b : α) : Joined a b [(a, b)]
  | cons {c b : α} {rs : List (α × α)} (a : α) : Joined c b rs → Joined a b ((a, c) :: rs)

namespace Joined

section Shape

variable {α β : Type*} {a b : α} {rs : List (α × α)}

theorem ne_nil (h : Joined a b rs) : rs ≠ [] := by
  cases h <;> exact cons_ne_nil _ _

theorem head? (h : Joined a b rs) : rs.head?.map Prod.fst = some a := by
  cases h <;> rfl

theorem getLast? (h : Joined a b rs) : rs.getLast?.map Prod.snd = some b := by
  induction h with
  | last a b => rfl
  | cons a h ih =>
    obtain ⟨r, rs, rfl⟩ := exists_cons_of_ne_nil h.ne_nil
    exact ih

theorem isChain (h : Joined a b rs) : rs.IsChain fun r s => r.2 = s.1 := by
  induction h with
  | last a b => exact isChain_singleton _
  | cons a h ih =>
    cases h with
    | last c b => exact isChain_pair.mpr rfl
    | cons c h => exact isChain_cons_cons.mpr ⟨rfl, ih⟩

theorem map (f : α → β) (h : Joined a b rs) :
    Joined (f a) (f b) (rs.map fun r => (f r.1, f r.2)) := by
  induction h with
  | last a b => exact .last _ _
  | cons a h ih => exact .cons _ ih

/-- A range can be split in two. -/
theorem split {l r : List (α × α)} {s e : α} (h : Joined a b (l ++ (s, e) :: r)) (k : α) :
    Joined a b (l ++ (s, k) :: (k, e) :: r) := by
  induction l generalizing a with
  | nil =>
    cases h with
    | last => exact .cons _ (.last _ _)
    | cons _ h => exact .cons _ (.cons _ h)
  | cons p l ih =>
    rcases hlast : l ++ (s, e) :: r with - | ⟨q, rest⟩
    · simp at hlast
    · rw [cons_append, hlast] at h
      cases h with
      | cons _ h =>
        rw [← hlast] at h
        exact .cons _ (ih h)

end Shape

variable {a b : α} {rs : List (α × α)}

/-- No range ends before it starts, so the ends are in order. -/
theorem le (h : Joined a b rs) (hle : ∀ r ∈ rs, r.1 ≤ r.2) : a ≤ b := by
  induction h with
  | last a b => exact hle _ mem_cons_self
  | cons a h ih =>
    exact (hle _ mem_cons_self).trans (ih fun r hr => hle r (mem_cons_of_mem _ hr))

theorem start_le (h : Joined a b rs) (hle : ∀ r ∈ rs, r.1 ≤ r.2) : ∀ r ∈ rs, a ≤ r.1 := by
  induction h with
  | last a b =>
    intro r hr
    rw [mem_singleton.mp hr]
  | cons a h ih =>
    intro r hr
    rcases mem_cons.mp hr with rfl | hr
    · exact le_rfl
    · exact (hle _ mem_cons_self).trans (ih (fun s hs => hle s (mem_cons_of_mem _ hs)) r hr)

theorem sorted (h : Joined a b rs) (hle : ∀ r ∈ rs, r.1 ≤ r.2) :
    rs.Pairwise fun r s => r.1 ≤ s.1 := by
  induction h with
  | last a b => exact pairwise_singleton _ _
  | @cons c b rs a h ih =>
    have hrest : ∀ r ∈ rs, r.1 ≤ r.2 := fun r hr => hle r (mem_cons_of_mem _ hr)
    refine pairwise_cons.mpr ⟨fun s hs => ?_, ih hrest⟩
    exact (hle _ mem_cons_self).trans (h.start_le hrest s hs)

/-- As closed ranges they cover the values between the two ends. -/
theorem covers (h : Joined a b rs) (hle : ∀ r ∈ rs, r.1 ≤ r.2) (x : α) :
    Covers rs x ↔ a ≤ x ∧ x ≤ b := by
  induction h with
  | last a b => exact covers_singleton
  | @cons c b rs a h ih =>
    have hrest : ∀ r ∈ rs, r.1 ≤ r.2 := fun r hr => hle r (mem_cons_of_mem _ hr)
    have hac : a ≤ c := hle (a, c) mem_cons_self
    have hcb : c ≤ b := h.le hrest
    rw [covers_cons, ih hrest]
    constructor
    · rintro (hx | hx)
      · exact ⟨hx.1, hx.2.trans hcb⟩
      · exact ⟨hac.trans hx.1, hx.2⟩
    · rintro ⟨hlo, hhi⟩
      rcases le_total x c with hx | hx
      · exact .inl ⟨hlo, hx⟩
      · exact .inr ⟨hx, hhi⟩

end Joined

/-! ### Half-open ranges with a closed end -/

/-- The value lies in the range, whose end belongs to it only if `closed`. -/
def Within (closed : Bool) (r : α × α) (x : α) : Prop :=
  r.1 ≤ x ∧ (x < r.2 ∨ closed = true ∧ x = r.2)

instance (closed : Bool) (r : α × α) (x : α) : Decidable (Within closed r x) :=
  inferInstanceAs (Decidable (_ ∧ (_ ∨ _ ∧ _)))

theorem within_true {x : α} : Within true r x ↔ r.1 ≤ x ∧ x ≤ r.2 := by
  rw [Within, eq_self, true_and, ← le_iff_lt_or_eq]

theorem within_false {x : α} : Within false r x ↔ r.1 ≤ x ∧ x < r.2 := by
  simp [Within]

/-- The ranges with a flag at the last one. -/
def lastClosed {β : Type*} (rs : List β) : List (β × Bool) :=
  rs.mapIdx fun i r => (r, i == rs.length - 1)

theorem lastClosed_singleton {β : Type*} (r : β) : lastClosed [r] = [(r, true)] := rfl

theorem lastClosed_cons {β : Type*} (r : β) {rs : List β} (hne : rs ≠ []) :
    lastClosed (r :: rs) = (r, false) :: lastClosed rs := by
  have hpos : 0 < rs.length := length_pos_iff.mpr hne
  rw [lastClosed, mapIdx_cons]
  congr 1
  · have : ((0 : ℕ) == (r :: rs).length - 1) = false := by
      simp only [length_cons, beq_eq_false_iff_ne]
      omega
    rw [this]
  · rw [lastClosed]
    congr 1
    funext i s
    congr 1
    rw [length_cons, Nat.add_sub_cancel, Bool.eq_iff_iff, beq_iff_eq, beq_iff_eq]
    omega

theorem lastClosed_concat {β : Type*} (rs : List β) (r : β) :
    lastClosed (rs ++ [r]) = (rs.map fun s => (s, false)) ++ [(r, true)] := by
  induction rs with
  | nil => rfl
  | cons s rs ih =>
    rw [cons_append, lastClosed_cons _ (by simp), ih]
    rfl

/-- What is built from the entries and the flag. -/
theorem mapIdx_last {β γ : Type*} (f : β → Bool → γ) (rs : List β) :
    (rs.mapIdx fun i r => f r (i == rs.length - 1)) = (lastClosed rs).map fun p => f p.1 p.2 := by
  refine ext_getElem? fun i => ?_
  simp only [lastClosed, getElem?_mapIdx, getElem?_map, Option.map_map]
  rfl

theorem lastClosed_map {β γ : Type*} (f : β → γ) (rs : List β) :
    lastClosed (rs.map f) = (lastClosed rs).map fun p => (f p.1, p.2) := by
  refine ext_getElem? fun i => ?_
  simp only [lastClosed, getElem?_mapIdx, getElem?_map, length_map, Option.map_map]
  rfl

namespace Joined

variable {a b : α} {rs : List (α × α)}

/-- **Every value between the two ends lies in exactly one range**, if all ends but the
last are left to the range that starts there. -/
theorem count_lastClosed (h : Joined a b rs) (hle : ∀ r ∈ rs, r.1 ≤ r.2) (x : α) :
    ((lastClosed rs).countP fun p => decide (Within p.2 p.1 x)) =
      if a ≤ x ∧ x ≤ b then 1 else 0 := by
  induction h with
  | last a b =>
    rw [lastClosed_singleton, countP_singleton]
    simp only [decide_eq_true_eq, within_true]
  | @cons c b rs a h ih =>
    have hrest : ∀ r ∈ rs, r.1 ≤ r.2 := fun r hr => hle r (mem_cons_of_mem _ hr)
    have hac : a ≤ c := hle (a, c) mem_cons_self
    have hcb : c ≤ b := h.le hrest
    rw [lastClosed_cons _ h.ne_nil, countP_cons, ih hrest]
    simp only [decide_eq_true_eq, within_false]
    rcases lt_or_ge x c with hx | hx
    · rw [if_neg fun hc => absurd hx (not_lt.mpr hc.1), Nat.zero_add]
      simp only [hx, hx.le.trans hcb, and_true]
    · simp only [hx, not_lt.mpr hx, and_false, if_false, Nat.add_zero, hac.trans hx, true_and]

end Joined

/-! ### Slices between boundaries -/

/-- A value between the first and the last boundary lies in one of the slices. -/
theorem exists_slice {f : ℕ → α} {x : α} (hlo : f 0 ≤ x) :
    ∀ {n : ℕ}, x < f n → ∃ i < n, f i ≤ x ∧ x < f (i + 1) := by
  intro n
  induction n with
  | zero =>
    intro hhi
    exact absurd hlo (not_le.mpr hhi)
  | succ n ih =>
    intro hhi
    rcases lt_or_ge x (f n) with hbelow | habove
    · obtain ⟨i, hi, hx⟩ := ih hbelow
      exact ⟨i, Nat.lt_succ_of_lt hi, hx⟩
    · exact ⟨n, Nat.lt_succ_self n, habove, hhi⟩

end Intervals
