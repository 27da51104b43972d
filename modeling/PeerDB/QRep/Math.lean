/-
Division that rounds up, and the number of partitions (`shared/math.go`), in 64 bits and
without a bound.

`DivCeil` adds before it divides: `divCeil_exact` if the sum fits, and `divCeil_wraps` if
it does not.  `bigIntDivCeil_reaches` — as many steps of the rounded-up width as there are
parts reach the end.

`AdjustNumPartitions` keeps two significant figures of the partition size.  Its loop rounds up
at each step; nested ceilings are one (`Shrunk.step`), so `adjustNumPartitions_band` — at most
1000 partitions, and at least 901 of them, or 501.
-/
import PeerDB.Lib.Word

namespace QRep

/-- `DivCeil`, in 64 bits. -/
def divCeil (x y : Int64) : Int64 := (x + y - 1) / y

/-- The sum that `DivCeil` divides, if it fits. -/
theorem divCeil_exact {x y : Int64} (hx : 0 ≤ x.toInt) (hy : 1 ≤ y.toInt)
    (hfits : x.toInt + y.toInt ≤ 2 ^ 63) :
    (divCeil x y).toInt = (x.toInt + y.toInt - 1) / y.toInt := by
  have hsum : (x + y - 1).toInt = x.toInt + y.toInt - 1 := by
    rw [Int64.toInt_sub, Int64.toInt_add, Int.bmod_sub_bmod,
      show (1 : Int64).toInt = 1 from rfl, Int64.toInt_eq_of_fits (by omega) (by omega)]
  rw [divCeil, Int64.toInt_div_of_nonneg (by omega) (by omega), hsum]

/-- If it does not fit it is negative, and so is the quotient. -/
theorem divCeil_wraps {x y : Int64} (hy : 1 ≤ y.toInt) (hwraps : 2 ^ 63 < x.toInt + y.toInt) :
    (divCeil x y).toInt ≤ 0 := by
  have hx := x.toInt_lt
  have hy' := y.toInt_lt
  have hsum : (x + y - 1).toInt = x.toInt + y.toInt - 1 - 2 ^ 64 := by
    rw [Int64.toInt_sub, Int64.toInt_add, Int.bmod_sub_bmod,
      show (1 : Int64).toInt = 1 from rfl, ← Int.sub_bmod_right,
      Int64.toInt_eq_of_fits (by omega) (by omega)]
    rfl
  rw [divCeil]
  exact Int64.toInt_div_nonpos (by omega) (by omega)

/-- What is rounded up, and that it is rounded up to the next multiple only. -/
theorem divCeil_bounds {x y : Int64} (hx : 1 ≤ x.toInt) (hy : 1 ≤ y.toInt)
    (hfits : x.toInt + y.toInt ≤ 2 ^ 63) :
    1 ≤ (divCeil x y).toInt ∧ x.toInt ≤ (divCeil x y).toInt * y.toInt ∧
      ((divCeil x y).toInt - 1) * y.toInt < x.toInt := by
  rw [divCeil_exact (by omega) hy hfits]
  have hdiv := Int.mul_ediv_add_emod (x.toInt + y.toInt - 1) y.toInt
  have hlt := Int.emod_lt_of_pos (x.toInt + y.toInt - 1) (by omega : 0 < y.toInt)
  have hnonneg := Int.emod_nonneg (x.toInt + y.toInt - 1) (by omega : y.toInt ≠ 0)
  rw [Int.mul_comm] at hdiv
  refine ⟨(Int.le_ediv_iff_mul_le (by omega)).mpr (by omega), by omega, ?_⟩
  rw [Int.sub_mul]
  omega

/-! ### Partition counts -/

/-- No operation of `DivCeil` overflows. -/
def divCeilFits (x y : Int64) : Bool :=
  (x + y).toInt == x.toInt + y.toInt && (x + y - 1).toInt == x.toInt + y.toInt - 1

theorem divCeilFits_of_le {x y : Int64} (hx : 1 ≤ x.toInt) (hy : 1 ≤ y.toInt)
    (hfits : x.toInt + y.toInt < 2 ^ 63) : divCeilFits x y = true := by
  have hsum := Int64.toInt_add_of_fits (a := x) (b := y) (by omega) hfits
  have hone : (1 : Int64).toInt = 1 := rfl
  simp only [divCeilFits, Bool.and_eq_true, beq_iff_eq]
  refine ⟨hsum, ?_⟩
  rw [Int64.toInt_sub_of_fits (by omega) (by omega), hsum, hone]

theorem divCeil_ten_lt {leading : Int64} (h : 100 ≤ leading.toInt) :
    (divCeil leading 10).toInt < leading.toInt := by
  have hten : (10 : Int64).toInt = 10 := rfl
  by_cases hfits : leading.toInt + 10 ≤ 2 ^ 63
  · rw [divCeil_exact (by omega) (by omega) (by omega), hten]
    omega
  · have := divCeil_wraps (x := leading) (y := 10) (by omega) (by omega)
    omega

/-- The loop of `AdjustNumPartitions`: two significant figures, rounded up at each step, and
the power of ten that was taken away. -/
def shrink (leading scale : Int64) : Int64 × Int64 :=
  if 100 ≤ leading.toInt then shrink (divCeil leading 10) (scale * 10) else (leading, scale)
termination_by leading.toInt.toNat
decreasing_by
  have := divCeil_ten_lt ‹_›
  omega

/-- No operation of the loop overflows. -/
def shrinkFits (leading scale : Int64) : Bool :=
  if 100 ≤ leading.toInt then
    divCeilFits leading 10 && (scale * 10).toInt == scale.toInt * 10 &&
      shrinkFits (divCeil leading 10) (scale * 10)
  else true
termination_by leading.toInt.toNat
decreasing_by
  have := divCeil_ten_lt ‹_›
  omega

structure AdjustedPartitions where
  adjustedNumPartitions : Int64
  adjustedNumRowsPerPartition : Int64

def adjustNumPartitions (totalRows desiredRowsPerPartition : Int64) : AdjustedPartitions :=
  let desiredPartitions := divCeil totalRows desiredRowsPerPartition
  if desiredPartitions.toInt ≤ 1000 then ⟨desiredPartitions, desiredRowsPerPartition⟩
  else
    let (leading, scale) := shrink (divCeil totalRows 1000) 1
    ⟨divCeil totalRows (leading * scale), leading * scale⟩

/-- No operation of `AdjustNumPartitions` overflows. -/
def adjustNumPartitionsFits (totalRows desiredRowsPerPartition : Int64) : Bool :=
  divCeilFits totalRows desiredRowsPerPartition &&
    ((divCeil totalRows desiredRowsPerPartition).toInt ≤ 1000 ||
      let (leading, scale) := shrink (divCeil totalRows 1000) 1
      divCeilFits totalRows 1000 && shrinkFits (divCeil totalRows 1000) 1 &&
        (leading * scale).toInt == leading.toInt * scale.toInt &&
          divCeilFits totalRows (leading * scale))

/-- Between two steps of the loop: `leading` is `totalRows` over `1000 * scale`, rounded up, and
has two figures once something was taken away. -/
structure Shrunk (totalRows : ℤ) (leading scale : Int64) : Prop where
  one_le : 1 ≤ leading.toInt
  scale_pos : 1 ≤ scale.toInt
  rounded : totalRows ≤ 1000 * (leading.toInt * scale.toInt)
  up : 1000 * ((leading.toInt - 1) * scale.toInt) < totalRows
  two_figures : scale.toInt = 1 ∨ 10 ≤ leading.toInt

namespace Shrunk

variable {totalRows : ℤ} {leading scale : Int64}

theorem small (h : Shrunk totalRows leading scale) (hrows : totalRows ≤ 9 * 10 ^ 18) :
    leading.toInt * scale.toInt ≤ 10 ^ 16 ∧ leading.toInt ≤ 10 ^ 16 ∧
      scale.toInt ≤ 10 ^ 15 := by
  obtain ⟨hone, hscale, -, hup, htwo⟩ := h
  have hle : (leading.toInt - 1) * 1 ≤ (leading.toInt - 1) * scale.toInt :=
    Int.mul_le_mul_of_nonneg_left hscale (by omega)
  simp only [Int.sub_mul, Int.one_mul, Int.mul_one] at hup hle
  rcases htwo with hfirst | hfigures
  · rw [hfirst] at hup ⊢
    omega
  · have := Int.mul_le_mul_of_nonneg_right hfigures (by omega : 0 ≤ scale.toInt)
    omega

/-- One step: nested ceilings are one ceiling. -/
theorem step (h : Shrunk totalRows leading scale) (hrows : totalRows ≤ 9 * 10 ^ 18)
    (hmore : 100 ≤ leading.toInt) :
    (divCeilFits leading 10 = true ∧ (scale * 10).toInt = scale.toInt * 10) ∧
      Shrunk totalRows (divCeil leading 10) (scale * 10) := by
  obtain ⟨-, hsmall, hscale⟩ := h.small hrows
  obtain ⟨hone, hscale', hrounded, hup, -⟩ := h
  have hten : (10 : Int64).toInt = 10 := rfl
  have hmul : (scale * 10).toInt = scale.toInt * 10 :=
    Int64.toInt_mul_of_fits (by rw [hten]; omega) (by rw [hten]; omega)
  obtain ⟨hpos, hle, hlt⟩ := divCeil_bounds (x := leading) (y := 10) hone (by omega) (by omega)
  rw [hten] at hle hlt
  refine ⟨⟨divCeilFits_of_le hone (by omega) (by omega), hmul⟩, hpos, by omega, ?_, ?_, by omega⟩
  all_goals rw [hmul]
  · have := Int.mul_le_mul_of_nonneg_right hle (by omega : 0 ≤ scale.toInt)
    rw [Int.mul_assoc, Int.mul_comm 10] at this
    omega
  · have := Int.mul_le_mul_of_nonneg_right (by omega :
      ((divCeil leading 10).toInt - 1) * 10 ≤ leading.toInt - 1) (by omega : 0 ≤ scale.toInt)
    rw [Int.mul_assoc, Int.mul_comm 10] at this
    omega

/-- The whole loop. -/
theorem run (h : Shrunk totalRows leading scale) (hrows : totalRows ≤ 9 * 10 ^ 18) :
    shrinkFits leading scale = true ∧
      Shrunk totalRows (shrink leading scale).1 (shrink leading scale).2 := by
  fun_induction shrink leading scale with
  | case1 leading scale hmore ih =>
    obtain ⟨⟨hdiv, hmul⟩, hnext⟩ := h.step hrows hmore
    rw [shrinkFits, if_pos hmore, hdiv, hmul, (ih hnext).1]
    exact ⟨by simp, (ih hnext).2⟩
  | case2 leading scale hless =>
    rw [shrinkFits, if_neg hless]
    exact ⟨rfl, h⟩

end Shrunk

/-- **The partition count stays in its band.**  Nothing overflows, the partitions hold all rows
and none is empty, there are at most 1000, and if the size had to be adjusted at least 901, or
501 for less than 9001 rows. -/
theorem adjustNumPartitions_band {totalRows desired : Int64} (hrows : 1 ≤ totalRows.toInt)
    (hrows' : totalRows.toInt ≤ 9 * 10 ^ 18) (hdesired : 1 ≤ desired.toInt)
    (hdesired' : desired.toInt < 2 ^ 32) :
    adjustNumPartitionsFits totalRows desired = true ∧
      let count := (adjustNumPartitions totalRows desired).adjustedNumPartitions.toInt
      let rows := (adjustNumPartitions totalRows desired).adjustedNumRowsPerPartition.toInt
      totalRows.toInt ≤ count * rows ∧ (count - 1) * rows < totalRows.toInt ∧ count ≤ 1000 ∧
        ((totalRows.toInt + desired.toInt - 1) / desired.toInt > 1000 →
          if 9001 ≤ totalRows.toInt then 901 ≤ count else 501 ≤ count) := by
  have hbounds := divCeil_bounds hrows hdesired (by omega)
  have hexact := divCeil_exact (by omega) hdesired (by omega : totalRows.toInt + desired.toInt ≤ _)
  have hfits := divCeilFits_of_le hrows hdesired (by omega)
  by_cases hfew : (divCeil totalRows desired).toInt ≤ 1000
  · simp only [adjustNumPartitions, adjustNumPartitionsFits, if_pos hfew, hfits]
    exact ⟨by simp [hfew], hbounds.2.1, hbounds.2.2, hfew, fun h => by omega⟩
  have hthousand : (1000 : Int64).toInt = 1000 := rfl
  obtain ⟨hpos, hle, hlt⟩ := divCeil_bounds hrows (by omega : 1 ≤ (1000 : Int64).toInt) (by omega)
  rw [hthousand] at hle hlt
  have hstart : Shrunk totalRows.toInt (divCeil totalRows 1000) 1 :=
    ⟨hpos, le_rfl, by simp; omega, by simp; omega, .inl rfl⟩
  -- more partitions than 1000 are more rows than 1000
  have hmany : 1000 * 1 ≤ ((divCeil totalRows desired).toInt - 1) * desired.toInt :=
    Int.mul_le_mul (by omega) hdesired (by omega) (by omega)
  obtain ⟨hloop, hend⟩ := hstart.run hrows'
  simp only [adjustNumPartitions, adjustNumPartitionsFits, if_neg hfew, hfits, hloop,
    divCeilFits_of_le hrows (by omega : 1 ≤ (1000 : Int64).toInt) (by omega)]
  generalize (shrink (divCeil totalRows 1000) 1).1 = leading at hend ⊢
  generalize (shrink (divCeil totalRows 1000) 1).2 = scale at hend ⊢
  obtain ⟨hsmall, -, -⟩ := hend.small hrows'
  obtain ⟨hone, hscale, hrounded, hup, htwo⟩ := hend
  have hmul : (leading * scale).toInt = leading.toInt * scale.toInt :=
    Int64.toInt_mul_of_fits (by omega) (by omega)
  obtain ⟨hcount, hcover, hnone⟩ :=
    divCeil_bounds hrows (y := leading * scale) (by omega) (by omega)
  rw [hmul] at hcover hnone ⊢
  generalize (divCeil totalRows (leading * scale)).toInt = count at *
  refine ⟨by simp [divCeilFits_of_le hrows (y := leading * scale) (by omega) (by omega)], hcover,
    hnone, ?_, fun _ => ?_⟩
  · by_contra hmore
    have := Int.mul_le_mul_of_nonneg_right (by omega : 1000 ≤ count - 1)
      (by omega : 0 ≤ leading.toInt * scale.toInt)
    omega
  -- `1000 * (rows - scale) < count * rows`, and `rows` is at least ten times `scale`, or two
  rw [Int.sub_mul, Int.one_mul] at hup
  have hatMost (bound : ℤ) (hbound : count ≤ bound) :
      1000 * (leading.toInt * scale.toInt - scale.toInt) <
        bound * (leading.toInt * scale.toInt) := by
    have := Int.mul_le_mul_of_nonneg_right hbound (by omega : 0 ≤ leading.toInt * scale.toInt)
    omega
  by_cases hfigures : 10 ≤ leading.toInt
  · have := Int.mul_le_mul_of_nonneg_right hfigures (by omega : 0 ≤ scale.toInt)
    have := hatMost 900
    split_ifs <;> omega
  · have hfirst := htwo.resolve_right hfigures
    have hrow : leading.toInt * scale.toInt = leading.toInt := by rw [hfirst, Int.mul_one]
    have := hatMost 500
    split_ifs <;> omega

theorem adjustNumPartitions_band_million :
    adjustNumPartitionsFits 1000001 10 = true ∧
      (adjustNumPartitions 1000001 10).adjustedNumPartitions.toInt ≤ 1000 ∧
      901 ≤ (adjustNumPartitions 1000001 10).adjustedNumPartitions.toInt := by
  have hband := adjustNumPartitions_band (by decide : 1 ≤ (1000001 : Int64).toInt) (by decide)
    (by decide : 1 ≤ (10 : Int64).toInt) (by decide)
  exact ⟨hband.1, hband.2.2.2.1, hband.2.2.2.2 (by decide)⟩

def bigIntDivCeil (x y : ℤ) : ℤ := (x + (y - 1)) / y

/-- The step is rounded up: as many steps as partitions reach the end. -/
theorem bigIntDivCeil_reaches {d n : ℤ} (hd : 0 ≤ d) (hn : 1 ≤ n) :
    0 ≤ bigIntDivCeil d n ∧ d ≤ n * bigIntDivCeil d n := by
  have hdiv := Int.mul_ediv_add_emod (d + (n - 1)) n
  have hmod := Int.emod_lt_of_pos (d + (n - 1)) (by omega : 0 < n)
  refine ⟨Int.ediv_nonneg (by omega) (by omega), ?_⟩
  rw [bigIntDivCeil]
  omega

end QRep
