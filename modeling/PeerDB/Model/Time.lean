/-
Go's `time.Time` and `timestamppb.Timestamp`.

A time is a number of seconds since January 1 of year 1 (the field `ext` of a time
without a monotonic clock reading) and a number of nanoseconds below one second.
Seconds are 64-bit and wrap around, except in `addSec`, which stops at the ends.

Database timestamps are in whole microseconds.  `Time.micros` counts them, without a
bound; `micros_add` and `micros_unixMicro` say when the machine arithmetic follows it.
-/
import PeerDB.Lib.Word

/-- `cmp.Compare` for types without a NaN. -/
def cmpCompare {α : Type*} [LT α] [DecidableLT α] (a b : α) : Ordering :=
  if a < b then .lt else if b < a then .gt else .eq

namespace GoTime

structure Time where
  sec : Int64
  nsec : ℕ
  nsec_lt : nsec < 1000000000
deriving DecidableEq

/-- A time with these nanoseconds, of which only the part below one second is kept. -/
def ofParts (sec : Int64) (nsec : ℤ) : Time :=
  ⟨sec, nsec.toNat % 1000000000, Nat.mod_lt _ (by decide)⟩

/-- Seconds from January 1 of year 1 to January 1 of 1970. -/
def unixToInternal : Int64 := 62135596800

/-- `time.Unix`: the nanoseconds may be any number and are carried into the seconds. -/
def unix (sec nsec : Int64) : Time :=
  let carried :=
    if nsec < 0 ∨ 1000000000 ≤ nsec then
      let n := nsec / 1000000000
      let rest := nsec - n * 1000000000
      if rest < 0 then (sec + n - 1, rest + 1000000000) else (sec + n, rest)
    else (sec, nsec)
  ofParts (carried.1 + unixToInternal) carried.2.toInt

def unixMicro (usec : Int64) : Time :=
  unix (usec / 1000000) (usec % 1000000 * 1000)

namespace Time

def unix (t : Time) : Int64 := t.sec - unixToInternal

def unixMicro (t : Time) : Int64 := t.unix * 1000000 + Int64.ofNat t.nsec / 1000

/-- `Time.addSec`: a sum that overflows stops at the last second. -/
def addSec (t : Time) (d : Int64) : Time :=
  let sum := t.sec + d
  if decide (t.sec < sum) = decide (0 < d) then { t with sec := sum }
  else if 0 < d then { t with sec := 9223372036854775807 }
  else { t with sec := -9223372036854775807 }

/-- `Time.Add` of a duration in nanoseconds. -/
def add (t : Time) (d : Int64) : Time :=
  let nsec : ℤ := t.nsec + (d % 1000000000).toInt
  let dsec := d / 1000000000
  let carried :=
    if 1000000000 ≤ nsec then (dsec + 1, nsec - 1000000000)
    else if nsec < 0 then (dsec - 1, nsec + 1000000000)
    else (dsec, nsec)
  addSec (ofParts t.sec carried.2) carried.1

def compare (t u : Time) : Ordering :=
  if t.sec = u.sec then cmpCompare t.nsec u.nsec else cmpCompare t.sec u.sec

end Time

/-- `timestamppb.Timestamp`, with the nanoseconds of a time. -/
structure Timestamp where
  seconds : Int64
  nanos : ℕ
  nanos_lt : nanos < 1000000000
deriving DecidableEq

def Timestamp.new (t : Time) : Timestamp := ⟨t.unix, t.nsec, t.nsec_lt⟩

def Timestamp.asTime (ts : Timestamp) : Time := unix ts.seconds (Int64.ofNat ts.nanos)

/-! ### Timestamps keep the time -/

theorem toInt_ofNat_nsec {n : ℕ} (h : n < 1000000000) : (Int64.ofNat n).toInt = n :=
  Int64.toInt_ofNat_of_lt (by omega)

/-- Nanoseconds of one second are not carried. -/
theorem unix_of_lt (sec : Int64) {n : ℕ} (h : n < 1000000000) :
    unix sec (Int64.ofNat n) = ⟨sec + unixToInternal, n, h⟩ := by
  have hval := toInt_ofNat_nsec h
  have hsmall : ¬ (Int64.ofNat n < 0 ∨ 1000000000 ≤ Int64.ofNat n) := by
    rw [Int64.lt_iff_toInt_lt, Int64.le_iff_toInt_le, hval]
    rw [show (0 : Int64).toInt = 0 from rfl, show (1000000000 : Int64).toInt = 1000000000 from rfl]
    omega
  rw [unix, if_neg hsmall]
  simp only [ofParts, hval, Int.toNat_natCast, Nat.mod_eq_of_lt h]

@[simp] theorem Timestamp.asTime_new (t : Time) : (Timestamp.new t).asTime = t := by
  rw [Timestamp.asTime, Timestamp.new, unix_of_lt _ t.nsec_lt, Time.unix, Int64.sub_add_cancel]

/-! ### Whole microseconds -/

namespace Time

/-- Whole microseconds since January 1 of year 1. -/
def micros (t : Time) : ℤ := t.sec.toInt * 1000000 + t.nsec / 1000

/-- A time without a fraction of a microsecond. -/
def WholeMicros (t : Time) : Prop := t.nsec % 1000 = 0

instance (t : Time) : Decidable t.WholeMicros := inferInstanceAs (Decidable (_ = _))

theorem compare_eq_micros {t u : Time} (ht : t.WholeMicros) (hu : u.WholeMicros) :
    t.compare u = cmpCompare t.micros u.micros := by
  have htl := t.nsec_lt
  have hul := u.nsec_lt
  rw [WholeMicros] at ht hu
  rw [compare, cmpCompare, cmpCompare, cmpCompare, micros, micros]
  simp only [Int64.lt_iff_toInt_lt, ← Int64.toInt_inj]
  by_cases hsec : t.sec.toInt = u.sec.toInt
  · rw [if_pos hsec, hsec]
    congr 1
    · exact propext (by omega)
    · congr 1
      exact propext (by omega)
  · rw [if_neg hsec]
    congr 1
    · exact propext (by omega)
    · congr 1
      exact propext (by omega)

theorem addSec_of_fits {t : Time} {d : Int64} (hd : 0 ≤ d.toInt)
    (hfits : t.sec.toInt + d.toInt < 2 ^ 63) :
    (t.addSec d).nsec = t.nsec ∧ (t.addSec d).sec.toInt = t.sec.toInt + d.toInt := by
  have hlo := t.sec.le_toInt
  have hsum : (t.sec + d).toInt = t.sec.toInt + d.toInt :=
    Int64.toInt_add_of_fits (by omega) hfits
  have hpos : (t.sec < t.sec + d) = (0 < d) := by
    rw [Int64.lt_iff_toInt_lt, Int64.lt_iff_toInt_lt, hsum, show (0 : Int64).toInt = 0 from rfl]
    exact propext (by omega)
  rw [addSec, if_pos (by simp only [hpos])]
  exact ⟨rfl, hsum⟩

theorem micros_addSec_ofParts (sec d : Int64) {nsec : ℤ} (hn : 0 ≤ nsec) (hn' : nsec < 1000000000)
    (hd : 0 ≤ d.toInt) (hfits : sec.toInt + d.toInt < 2 ^ 63) :
    ((ofParts sec nsec).addSec d).nsec = nsec.toNat ∧
      ((ofParts sec nsec).addSec d).micros = (sec.toInt + d.toInt) * 1000000 + nsec / 1000 := by
  obtain ⟨hnsec, hsec⟩ := addSec_of_fits (t := ofParts sec nsec) hd hfits
  have hkept : (ofParts sec nsec).nsec = nsec.toNat := Nat.mod_eq_of_lt (by omega)
  refine ⟨hnsec.trans hkept, ?_⟩
  rw [micros, hsec, hnsec, hkept, show (ofParts sec nsec).sec = sec from rfl,
    Int.toNat_of_nonneg hn]

/-- One microsecond more is one microsecond more if some time is later. -/
theorem micros_add {t u : Time} (ht : t.WholeMicros) (hlater : t.micros < u.micros) :
    (t.add 1000).WholeMicros ∧ (t.add 1000).micros = t.micros + 1 := by
  have hlt := t.nsec_lt
  have hu := u.nsec_lt
  have hmax := u.sec.toInt_lt
  have hd : ((1000 : Int64) % 1000000000).toInt = 1000 := rfl
  have hq : (1000 : Int64) / 1000000000 = 0 := rfl
  have hone : ((0 : Int64) + 1).toInt = 1 := rfl
  have hzero : (0 : Int64).toInt = 0 := rfl
  rw [micros, micros] at hlater
  rw [WholeMicros] at ht
  rw [WholeMicros, show t.micros = t.sec.toInt * 1000000 + t.nsec / 1000 from rfl, add]
  simp only [hd, hq]
  by_cases hcarry : (1000000000 : ℤ) ≤ t.nsec + 1000
  · -- the last microsecond of a second: the carry fits because `u` is in a later second
    rw [if_pos hcarry]
    have hlow : (0 : ℤ) ≤ t.nsec + 1000 - 1000000000 := by omega
    obtain ⟨hn, hm⟩ := micros_addSec_ofParts t.sec (0 + 1) hlow (by omega) (by omega) (by omega)
    rw [hn, hm]
    omega
  · rw [if_neg hcarry, if_neg (by omega)]
    have hlow : (0 : ℤ) ≤ t.nsec + 1000 := by omega
    obtain ⟨hn, hm⟩ := micros_addSec_ofParts t.sec 0 hlow (by omega) (by omega) (by omega)
    rw [hn, hm]
    omega

end Time

/-! ### Microseconds since 1970 -/

/-- Less than a second of nanoseconds, of either sign, borrows at most one second. -/
theorem unix_of_abs_lt (sec : Int64) {nsec : Int64} (hlo : -1000000000 < nsec.toInt)
    (hhi : nsec.toInt < 1000000000) :
    unix sec nsec =
      if nsec.toInt < 0 then ofParts (sec - 1 + unixToInternal) (nsec.toInt + 1000000000)
      else ofParts (sec + unixToInternal) nsec.toInt := by
  have hzero : (0 : Int64).toInt = 0 := rfl
  have hsecond : (1000000000 : Int64).toInt = 1000000000 := rfl
  rw [unix]
  by_cases hneg : nsec.toInt < 0
  · have hquot : nsec / 1000000000 = 0 := by
      have habs : (nsec.toInt.tdiv 1000000000).natAbs = nsec.toInt.natAbs / 1000000000 :=
        Int.natAbs_tdiv ..
      rw [← Int64.toInt_inj, Int64.toInt_div, hsecond, hzero, Int64.toInt_eq_of_fits] <;> omega
    have hcarry : nsec < 0 ∨ 1000000000 ≤ nsec := .inl (Int64.lt_iff_toInt_lt.mpr hneg)
    have hrest : nsec - 0 * 1000000000 = nsec := by rw [Int64.zero_mul, Int64.sub_zero]
    have hfits : (nsec + 1000000000).toInt = nsec.toInt + 1000000000 := by
      rw [Int64.toInt_add_of_fits (by omega) (by omega), hsecond]
    rw [if_pos hcarry, if_pos hneg]
    simp only [hquot, hrest]
    rw [if_pos (Int64.lt_iff_toInt_lt.mpr hneg), Int64.add_zero, hfits]
  · have hcarry : ¬ (nsec < 0 ∨ 1000000000 ≤ nsec) := by
      rw [Int64.lt_iff_toInt_lt, Int64.le_iff_toInt_le]
      omega
    rw [if_neg hcarry, if_neg hneg]

/-- A number of microseconds since 1970 is split into whole seconds and the rest. -/
theorem unixMicro_parts (m : Int64) :
    (unixMicro m).unix.toInt = m.toInt / 1000000 ∧
      (unixMicro m).nsec = (m.toInt % 1000000 * 1000).toNat := by
  have hlo := m.le_toInt
  have hhi := m.toInt_lt
  have hone : (1 : Int64).toInt = 1 := rfl
  have hmillion : (1000000 : Int64).toInt = 1000000 := rfl
  have hdiv := Int.mul_tdiv_add_tmod m.toInt 1000000
  have hless := Int.tmod_lt_of_pos m.toInt (b := 1000000) (by decide)
  have hmore := Int.lt_tmod_of_pos m.toInt (b := 1000000) (by decide)
  have hsec : (m / 1000000).toInt = m.toInt.tdiv 1000000 := by
    rw [Int64.toInt_div, hmillion, Int64.toInt_eq_of_fits] <;> omega
  have hmod : (m % 1000000).toInt = m.toInt.tmod 1000000 := by rw [Int64.toInt_mod, hmillion]
  have hnsec : (m % 1000000 * 1000).toInt = m.toInt.tmod 1000000 * 1000 := by
    rw [Int64.toInt_mul, hmod, show (1000 : Int64).toInt = 1000 from rfl,
      Int64.toInt_eq_of_fits] <;> omega
  rw [unixMicro, unix_of_abs_lt _ (by omega) (by omega), hnsec]
  split_ifs with hneg
  · have hborrow : (m / 1000000 - 1).toInt = m.toInt.tdiv 1000000 - 1 := by
      rw [Int64.toInt_sub_of_fits (by omega) (by omega), hsec, hone]
    refine ⟨?_, ?_⟩
    · rw [Time.unix, ofParts, Int64.add_sub_cancel, hborrow]
      omega
    · rw [ofParts]
      dsimp only
      omega
  · refine ⟨?_, ?_⟩
    · rw [Time.unix, ofParts, Int64.add_sub_cancel, hsec]
      omega
    · rw [ofParts]
      dsimp only
      omega

/-- The microseconds of `time.UnixMicro`. -/
theorem micros_unixMicro (m : Int64) : (unixMicro m).WholeMicros ∧
    (unixMicro m).micros = m.toInt + 62135596800000000 := by
  have hlo := m.le_toInt
  have hhi := m.toInt_lt
  obtain ⟨hsec, hnsec⟩ := unixMicro_parts m
  have hoffset : unixToInternal.toInt = 62135596800 := rfl
  have hinternal : (unixMicro m).sec.toInt = m.toInt / 1000000 + 62135596800 := by
    rw [← Int64.sub_add_cancel (unixMicro m).sec unixToInternal, ← Time.unix,
      Int64.toInt_add_of_fits (by omega) (by omega), hsec, hoffset]
  rw [Time.WholeMicros, Time.micros, hinternal, hnsec]
  omega

/-- `Time.UnixMicro` is the inverse: the product may wrap below, but the sum is back in
range. -/
theorem unixMicro_unixMicro (m : Int64) : (unixMicro m).unixMicro = m := by
  have hlo := m.le_toInt
  have hhi := m.toInt_lt
  obtain ⟨hsec, hnsec⟩ := unixMicro_parts m
  have hrest : (Int64.ofNat (unixMicro m).nsec / 1000).toInt = m.toInt % 1000000 := by
    have hval := toInt_ofNat_nsec (unixMicro m).nsec_lt
    rw [Int64.toInt_div_of_nonneg (by omega) (by decide), hval, hnsec,
      show (1000 : Int64).toInt = 1000 from rfl]
    omega
  rw [← Int64.toInt_inj, Time.unixMicro, Int64.toInt_add, Int64.toInt_mul, hsec, hrest,
    show (1000000 : Int64).toInt = 1000000 from rfl, Int.bmod_add_bmod,
    Int.ediv_mul_add_emod, Int64.toInt_eq_of_fits hlo hhi]

end GoTime
