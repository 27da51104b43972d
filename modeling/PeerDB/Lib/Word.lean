/-
64-bit machine integers: operations that do not wrap, and what a signed and an
unsigned word have in common.

`Int64` and `UInt64` wrap around.  The lemmas here give the exact result of an operation
whenever it fits the type.  `Word64` is a type constraint `int64 | uint64`: a word has
the same bits as an unsigned one, the difference of two words in order is the difference
of their values even if it is taken without sign, and a word moved up by less than the
room above it does not wrap.

Of a counter of which only the low 32 bits are kept, the difference of two values that
are less than half the range apart is still exact (`UInt32.toInt_sub_ofNat`).
-/
import Mathlib.Algebra.Order.Ring.Int

/-! ### Signed operations that fit -/

namespace Int64

theorem toInt_eq_of_fits {x : ℤ} (hlo : -2 ^ 63 ≤ x) (hhi : x < 2 ^ 63) :
    x.bmod (2 ^ 64) = x := by
  apply Int.bmod_eq_of_le <;> omega

theorem toInt_add_of_fits {a b : Int64} (hlo : -2 ^ 63 ≤ a.toInt + b.toInt)
    (hhi : a.toInt + b.toInt < 2 ^ 63) : (a + b).toInt = a.toInt + b.toInt := by
  rw [toInt_add, toInt_eq_of_fits hlo hhi]

theorem toInt_sub_of_fits {a b : Int64} (hlo : -2 ^ 63 ≤ a.toInt - b.toInt)
    (hhi : a.toInt - b.toInt < 2 ^ 63) : (a - b).toInt = a.toInt - b.toInt := by
  rw [toInt_sub, toInt_eq_of_fits hlo hhi]

theorem toInt_mul_of_fits {a b : Int64} (hlo : -2 ^ 63 ≤ a.toInt * b.toInt)
    (hhi : a.toInt * b.toInt < 2 ^ 63) : (a * b).toInt = a.toInt * b.toInt := by
  rw [toInt_mul, toInt_eq_of_fits hlo hhi]

/-- Division of a non-negative word by a positive one. -/
theorem toInt_div_of_nonneg {a b : Int64} (ha : 0 ≤ a.toInt) (hb : 0 < b.toInt) :
    (a / b).toInt = a.toInt / b.toInt := by
  have hquot := Int.tdiv_eq_ediv_of_nonneg ha (b := b.toInt)
  have hle : a.toInt / b.toInt ≤ a.toInt := Int.ediv_le_self b.toInt ha
  have hpos : 0 ≤ a.toInt / b.toInt := Int.ediv_nonneg ha hb.le
  have hlt := a.toInt_lt
  rw [toInt_div, hquot, toInt_eq_of_fits (by omega) (by omega)]

/-- A negative word divided by a positive one is not positive. -/
theorem toInt_div_nonpos {a b : Int64} (ha : a.toInt < 0) (hb : 0 < b.toInt) :
    (a / b).toInt ≤ 0 := by
  have hneg : a.toInt.tdiv b.toInt = -(-a.toInt / b.toInt) := by
    rw [← Int.tdiv_eq_ediv_of_nonneg (by omega), Int.neg_tdiv, Int.neg_neg]
  have hle : -a.toInt / b.toInt ≤ -a.toInt := Int.ediv_le_self b.toInt (by omega)
  have hpos : 0 ≤ -a.toInt / b.toInt := Int.ediv_nonneg (by omega) hb.le
  have hlo := a.le_toInt
  rw [toInt_div, toInt_eq_of_fits (by omega) (by omega)]
  omega

/-- A sum of non-negative words is exact if it fits. -/
theorem toInt_foldl_add {ι : Type*} {f : ι → Int64} {l : List ι} {a : Int64}
    (hf : ∀ i ∈ l, 0 ≤ (f i).toInt) (ha : 0 ≤ a.toInt)
    (hsum : a.toInt + ((l.map fun i => (f i).toInt.toNat).sum : ℕ) < 2 ^ 63) :
    (l.foldl (fun total i => total + f i) a).toInt =
      a.toInt + ((l.map fun i => (f i).toInt.toNat).sum : ℕ) := by
  induction l generalizing a with
  | nil => simp
  | cons i l ih =>
    have hi := hf i List.mem_cons_self
    rw [List.map_cons, List.sum_cons] at hsum ⊢
    have hadd : (a + f i).toInt = a.toInt + (f i).toInt :=
      toInt_add_of_fits (by omega) (by omega)
    rw [List.foldl_cons, ih (fun j hj => hf j (List.mem_cons_of_mem i hj)) (by omega) (by omega)]
    omega

/-- The bits of a signed word, read without sign. -/
theorem toNat_toUInt64_eq (a : Int64) : (a.toUInt64.toNat : ℤ) = a.toInt % 2 ^ 64 := by
  have hmod : a.toInt % 2 ^ 64 = (a.toUInt64.toNat : ℤ) % 2 ^ 64 := by
    rw [← a.toInt_toBitVec, BitVec.toInt_eq_toNat_bmod, a.toNat_toBitVec]
    exact Int.bmod_emod ..
  have hlt := a.toUInt64.toNat_lt
  omega

/-- A small non-negative word keeps its value in 32 bits. -/
theorem toNat_toUInt32_of_lt {a : Int64} (hlo : 0 ≤ a.toInt) (hhi : a.toInt < 2 ^ 32) :
    a.toUInt64.toUInt32.toNat = a.toInt.toNat := by
  have hbits := a.toNat_toUInt64_eq
  rw [UInt64.toNat_toUInt32]
  omega

theorem toInt_min (a b : Int64) : (min a b).toInt = min a.toInt b.toInt := by
  rw [show min a b = if a ≤ b then a else b from rfl]
  split_ifs with hle
  · exact (min_eq_left (le_iff_toInt_le.mp hle)).symm
  · rw [le_iff_toInt_le] at hle
    exact (min_eq_right (by omega)).symm

theorem toInt_max (a b : Int64) : (max a b).toInt = max a.toInt b.toInt := by
  rw [show max a b = if a ≤ b then b else a from rfl]
  split_ifs with hle
  · exact (max_eq_right (le_iff_toInt_le.mp hle)).symm
  · rw [le_iff_toInt_le] at hle
    exact (max_eq_left (by omega)).symm

/-- The low half of a word, whether it is cut off with a mask or by the type. -/
theorem and_low_toUInt32 (n : ℕ) :
    (ofNat n &&& 0xffffffff).toUInt64.toUInt32 = UInt32.ofNat n := by
  apply UInt32.toNat_inj.mp
  have hmask : (0xffffffff : Int64).toUInt64.toNat = 2 ^ 32 - 1 := by decide
  rw [UInt64.toNat_toUInt32, toUInt64_and, UInt64.toNat_and, hmask,
    Nat.and_two_pow_sub_one_eq_mod, toUInt64_ofNat', UInt64.toNat_ofNat', UInt32.toNat_ofNat']
  omega

end Int64

/-- The signed difference of two counters, taken from their low 32 bits. -/
theorem UInt32.toInt_sub_ofNat {n x : ℕ} (hx : x ≤ n) (hlt : n - x < 2 ^ 31) :
    (UInt32.ofNat n - UInt32.ofNat x).toInt32.toInt = n - x := by
  have hbits : (UInt32.ofNat n - UInt32.ofNat x).toNat = n - x := by
    rw [UInt32.toNat_sub, UInt32.toNat_ofNat', UInt32.toNat_ofNat']
    omega
  rw [← Int32.toInt_toBitVec, UInt32.toBitVec_toInt32, BitVec.toInt_eq_toNat_of_lt]
  all_goals
    rw [UInt32.toNat_toBitVec, hbits]
    omega

/-! ### Signed and unsigned words -/

/-- A 64-bit integer type, with the conversions to and from unsigned words that keep the
bits. -/
class Word64 (T : Type) where
  toUInt64 : T → UInt64
  ofUInt64 : UInt64 → T
  /-- The integer the word stands for. -/
  val : T → ℤ
  val_inj : ∀ {a b : T}, val a = val b → a = b
  /-- The bits are those of the value. -/
  toNat_toUInt64 : ∀ a : T, ((toUInt64 a).toNat : ℤ) = val a % 2 ^ 64
  /-- Every value between those of two words belongs to a word, with its bits. -/
  val_ofUInt64 : ∀ {a b : T} {x : ℤ} {u : UInt64}, val a ≤ x → x ≤ val b →
    (u.toNat : ℤ) = x % 2 ^ 64 → val (ofUInt64 u) = x
  val_lt : ∀ a b : T, val a < val b + 2 ^ 64

namespace Word64

variable {T : Type} [Word64 T]

/-- The unsigned difference of two words is the difference of their values. -/
theorem toNat_sub {a b : T} (hle : val a ≤ val b) :
    ((toUInt64 b - toUInt64 a).toNat : ℤ) = val b - val a := by
  have ha := toNat_toUInt64 a
  have hb := toNat_toUInt64 b
  have hlt := val_lt b a
  have hbound := (toUInt64 a).toNat_lt
  rw [UInt64.toNat_sub]
  omega

/-- Moving a word up does not wrap as long as the value stays at or below a word. -/
theorem val_add {a b : T} {s : UInt64} (hle : val a + s.toNat ≤ val b) :
    val (ofUInt64 (toUInt64 a + s) : T) = val a + s.toNat := by
  have hlo : val a ≤ val a + (s.toNat : ℤ) := by omega
  refine val_ofUInt64 hlo hle ?_
  have ha := toNat_toUInt64 a
  rw [UInt64.toNat_add]
  omega

instance : Word64 UInt64 where
  toUInt64 := id
  ofUInt64 := id
  val a := a.toNat
  val_inj h := UInt64.toNat_inj.mp (by exact_mod_cast h)
  toNat_toUInt64 a := by
    have := a.toNat_lt
    simp only [id]
    omega
  val_ofUInt64 := by
    intro a b x u hlo hhi hu
    have := b.toNat_lt
    simp only [id]
    omega
  val_lt a b := by
    have := a.toNat_lt
    omega

instance : Word64 Int64 where
  toUInt64 := Int64.toUInt64
  ofUInt64 := UInt64.toInt64
  val := Int64.toInt
  val_inj := Int64.toInt_inj.mp
  toNat_toUInt64 := Int64.toNat_toUInt64_eq
  val_ofUInt64 := by
    intro a b x u hlo hhi hu
    have ha := a.le_toInt
    have hb := b.toInt_lt
    have hsigned : u.toInt64.toInt = (u.toNat : ℤ).bmod (2 ^ 64) := by
      rw [← Int64.toInt_toBitVec, UInt64.toBitVec_toInt64, BitVec.toInt_eq_toNat_bmod,
        UInt64.toNat_toBitVec]
    have hmod : (x % 2 ^ 64).bmod (2 ^ 64) = x.bmod (2 ^ 64) := Int.emod_bmod ..
    rw [hsigned, hu, hmod, Int64.toInt_eq_of_fits (by omega) (by omega)]
  val_lt a b := by
    have ha := a.toInt_lt
    have hb := b.le_toInt
    omega

end Word64
