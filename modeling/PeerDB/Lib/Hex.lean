/-
Hexadecimal numbers of bounded width, and splitting a text at its last
separator.

`hex width n` writes `n` in lower case without leading zeros; `parseHex` reads
digits of either case.  What was written within its width reads back
(`parseHex_hex`), also behind a text that ends in a separator
(`splitLast_append`).
-/
import Mathlib.Data.List.Basic
import Mathlib.Tactic.IntervalCases

namespace Hex

/-- The digits of `n`, at most `width` of them. -/
def hex : ℕ → ℕ → List Char
  | 0, _ => []
  | width + 1, n =>
    if n < 16 then [Nat.digitChar n] else hex width (n / 16) ++ [Nat.digitChar (n % 16)]

/-- The value of a digit of either case. -/
def digitValue (c : Char) : Option ℕ :=
  if '0' ≤ c ∧ c ≤ '9' then some (c.toNat - '0'.toNat)
  else if 'a' ≤ c ∧ c ≤ 'f' then some (c.toNat - 'a'.toNat + 10)
  else if 'A' ≤ c ∧ c ≤ 'F' then some (c.toNat - 'A'.toNat + 10)
  else none

def readDigit (acc : Option ℕ) (c : Char) : Option ℕ :=
  acc.bind fun v => (digitValue c).map fun d => 16 * v + d

/-- The value of a nonempty text of digits. -/
def parseHex (cs : List Char) : Option ℕ :=
  if cs = [] then none else cs.foldl readDigit (some 0)

theorem digitValue_digitChar {d : ℕ} (h : d < 16) : digitValue (Nat.digitChar d) = some d := by
  interval_cases d <;> rfl

theorem foldl_readDigit_hex : ∀ (width n : ℕ), n < 16 ^ width →
    (hex width n).foldl readDigit (some 0) = some n
  | 0, n, h => by
    have hn : n = 0 := by simpa using h
    rw [hn]
    rfl
  | width + 1, n, h => by
    unfold hex
    by_cases hsmall : n < 16
    · rw [if_pos hsmall]
      simp [readDigit, digitValue_digitChar hsmall]
    · rw [if_neg hsmall, List.foldl_append]
      have hdiv : n / 16 < 16 ^ width := by
        rw [pow_succ] at h
        exact Nat.div_lt_of_lt_mul (by rw [mul_comm]; exact h)
      rw [foldl_readDigit_hex width (n / 16) hdiv]
      have hmod : n % 16 < 16 := Nat.mod_lt n (by omega)
      simp only [List.foldl_cons, List.foldl_nil, readDigit, Option.bind_some,
        digitValue_digitChar hmod, Option.map_some, Option.some.injEq]
      omega

theorem hex_ne_nil {width n : ℕ} : hex (width + 1) n ≠ [] := by
  unfold hex
  split <;> simp

/-- **Round trip.** -/
theorem parseHex_hex {width n : ℕ} (h : n < 16 ^ (width + 1)) :
    parseHex (hex (width + 1) n) = some n := by
  unfold parseHex
  rw [if_neg hex_ne_nil]
  exact foldl_readDigit_hex (width + 1) n h

theorem digitChar_ne {d : ℕ} {c : Char} (h : d < 16) (hc : digitValue c = none) :
    Nat.digitChar d ≠ c := by
  intro heq
  rw [← heq, digitValue_digitChar h] at hc
  cases hc

theorem hex_avoids {c : Char} (hc : digitValue c = none) : ∀ (width n : ℕ), c ∉ hex width n
  | 0, n => List.not_mem_nil
  | width + 1, n => by
    unfold hex
    by_cases hsmall : n < 16
    · rw [if_pos hsmall, List.mem_singleton]
      exact (digitChar_ne hsmall hc).symm
    · rw [if_neg hsmall, List.mem_append, List.mem_singleton]
      rintro (hmem | heq)
      · exact hex_avoids hc width (n / 16) hmem
      · exact (digitChar_ne (Nat.mod_lt n (by omega)) hc).symm heq

/-- What stands before and after the last `sep`. -/
def splitLast (sep : Char) (cs : List Char) : Option (List Char × List Char) :=
  match cs.reverse.dropWhile (· != sep) with
  | [] => none
  | _ :: before => some (before.reverse, (cs.reverse.takeWhile (· != sep)).reverse)

theorem splitLast_append {sep : Char} (before after : List Char) (h : sep ∉ after) :
    splitLast sep (before ++ sep :: after) = some (before, after) := by
  have hall : ∀ c ∈ after.reverse, (c != sep) = true := by
    intro c hc
    rw [bne_iff_ne]
    rintro rfl
    exact h (List.mem_reverse.mp hc)
  have hrev : (before ++ sep :: after).reverse = after.reverse ++ sep :: before.reverse := by simp
  unfold splitLast
  rw [hrev, List.dropWhile_append_of_pos hall, List.takeWhile_append_of_pos hall]
  simp

end Hex
