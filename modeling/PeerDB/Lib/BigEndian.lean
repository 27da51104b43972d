/-
Numbers in big-endian digits.

`value` reads a list of digits, the most significant one first.  Lists are compared
digit by digit, as `memcmp` does; among lists of one length that is the order of the
values (`value_mono`, `value_lt_iff`), and it survives a cut at any length (`take_mono`).
`digits` writes a number with a fixed number of digits (`value_digits`, `digits_value`).
The order also survives a strictly monotone change of the digits (`map_lt_map`).
-/
import Mathlib.Algebra.Order.Ring.Nat
import Mathlib.Data.List.Lex
import Mathlib.Order.Fin.Basic
import Mathlib.Tactic.Tauto

namespace BigEndian

variable {b : ℕ}

/-- Bytes are digits. -/
instance neZero_byte : NeZero 256 := ⟨by decide⟩

def value : List (Fin b) → ℕ
  | [] => 0
  | d :: ds => d * b ^ ds.length + value ds

theorem value_lt : ∀ ds : List (Fin b), value ds < b ^ ds.length
  | [] => Nat.one_pos
  | d :: ds => by
    have hrest := value_lt ds
    have hd : (d + 1 : ℕ) * b ^ ds.length ≤ b * b ^ ds.length :=
      Nat.mul_le_mul_right _ d.isLt
    rw [value, List.length_cons, pow_succ']
    rw [add_mul, one_mul] at hd
    omega

theorem value_lt_of_lt : ∀ {ds es : List (Fin b)}, ds.length = es.length → ds < es →
    value ds < value es
  | _, _, hlen, .nil => by cases hlen
  | _, _, hlen, .cons h => by
    have hlen' := Nat.succ.inj hlen
    have hrest := value_lt_of_lt hlen' h
    rw [value, value, hlen']
    omega
  | d :: ds, e :: es, hlen, .rel h => by
    have hlen' := Nat.succ.inj hlen
    have hrest := value_lt ds
    -- the first digits differ, and what follows is less than one of them
    have hde : (d + 1 : ℕ) * b ^ ds.length ≤ e * b ^ ds.length :=
      Nat.mul_le_mul_right _ h
    rw [add_mul, one_mul] at hde
    rw [value, value, ← hlen']
    omega

theorem value_mono {ds es : List (Fin b)} (hlen : ds.length = es.length) (h : ds ≤ es) :
    value ds ≤ value es := by
  rcases lt_or_eq_of_le h with hlt | rfl
  · exact (value_lt_of_lt hlen hlt).le
  · exact le_rfl

/-- And the other way round. -/
theorem value_lt_iff {ds es : List (Fin b)} (hlen : ds.length = es.length) :
    value ds < value es ↔ ds < es := by
  refine ⟨fun h => ?_, value_lt_of_lt hlen⟩
  by_contra hge
  exact absurd h (not_lt.mpr (value_mono hlen.symm (not_lt.mp hge)))

theorem value_inj {ds es : List (Fin b)} (hlen : ds.length = es.length)
    (h : value ds = value es) : ds = es := by
  rcases lt_trichotomy ds es with hlt | heq | hgt
  · exact absurd h (value_lt_of_lt hlen hlt).ne
  · exact heq
  · exact absurd h (value_lt_of_lt hlen.symm hgt).ne'

/-! ### Writing numbers -/

/-- The last digits of `n`, exactly `width` of them. -/
def digits (b : ℕ) [NeZero b] : ℕ → ℕ → List (Fin b)
  | 0, _ => []
  | width + 1, n => Fin.ofNat b (n / b ^ width) :: digits b width (n % b ^ width)

section Digits

variable [NeZero b]

theorem length_digits : ∀ width n : ℕ, (digits b width n).length = width
  | 0, _ => rfl
  | width + 1, n => by rw [digits, List.length_cons, length_digits width]

theorem value_digits : ∀ {width n : ℕ}, n < b ^ width → value (digits b width n) = n
  | 0, n, h => by
    rw [pow_zero, Nat.lt_one_iff] at h
    rw [h]
    rfl
  | width + 1, n, h => by
    have hpos : 0 < b ^ width := Nat.pow_pos (Nat.pos_of_neZero b)
    have hdigit : n / b ^ width < b := Nat.div_lt_of_lt_mul (by rwa [← pow_succ])
    rw [digits, value, length_digits, value_digits (Nat.mod_lt n hpos), Fin.val_ofNat,
      Nat.mod_eq_of_lt hdigit, mul_comm, Nat.div_add_mod]

theorem digits_value (ds : List (Fin b)) : digits b ds.length (value ds) = ds :=
  value_inj (length_digits _ _) (value_digits (value_lt ds))

end Digits

/-! ### Order -/

theorem map_lt_map {α β : Type*} [LinearOrder α] [LinearOrder β] {f : α → β} (hf : StrictMono f) :
    ∀ {ds es : List α}, ds < es → ds.map f < es.map f
  | _, _, .nil => List.Lex.nil
  | _, _, .cons h => List.Lex.cons (map_lt_map hf h)
  | _, _, .rel h => List.Lex.rel (hf h)

/-- Behind beginnings of one length, the rest decides if they are equal. -/
theorem append_lt_append_iff {α : Type*} [LinearOrder α] {ds es : List α} :
    ∀ {p q : List α}, p.length = q.length →
      (p ++ ds < q ++ es ↔ p < q ∨ p = q ∧ ds < es)
  | [], [], _ => by simp
  | a :: p, b :: q, hlen => by
    rw [List.cons_append, List.cons_append, List.cons_lt_cons_iff, List.cons_lt_cons_iff,
      append_lt_append_iff (Nat.succ.inj hlen), List.cons.injEq]
    tauto

theorem take_le_of_lt {α : Type*} [LinearOrder α] :
    ∀ {ds es : List α} (n : ℕ), ds < es → ds.take n ≤ es.take n
  | _, _, 0, _ => le_rfl
  | _, _, _ + 1, .nil => le_of_lt List.Lex.nil
  | _, _, n + 1, .cons h => List.cons_le_cons _ (take_le_of_lt n h)
  | _, _, _ + 1, .rel h => le_of_lt (List.Lex.rel h)

/-- What is in order stays in order when it is cut. -/
theorem take_mono {α : Type*} [LinearOrder α] {ds es : List α} (n : ℕ) (h : ds ≤ es) :
    ds.take n ≤ es.take n := by
  rcases lt_or_eq_of_le h with hlt | rfl
  · exact take_le_of_lt n hlt
  · exact le_rfl

end BigEndian
