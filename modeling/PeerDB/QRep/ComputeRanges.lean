/-
Uniform splitting of a range (`ComputeRanges`, `AddPartitionsWithRange`).

The span of the range and the positions inside it are computed in unsigned words, also
for signed types, and the step is rounded up.  `computeRanges_joined` — for every number
of partitions the loop leaves after at most that many turns, with ranges that start
where the one before ends, from the first value to the last.

`AddPartitionsWithRange` hands these ranges to `AddPartition` as closed ranges.  Two
neighbours share one value, which the second of them loses there, so that
`addPartitionsWithRange_once` has every value of the range in exactly one partition.

The loop of the source has no bound; `turns` is the number of turns it is given here.
-/
import PeerDB.QRep.Partition

open Loop Intervals GoTime

namespace QRep

variable {T : Type} [Word64 T]

/-! ### The ranges -/

/-- The loop of `ComputeRanges`. -/
def rangesLoop (maxVal : T) (step : UInt64) :
    ℕ → T → List (T × T) → Except Fault (List (T × T))
  | 0, _, _ => .error .running
  | turns + 1, start, ranges =>
    let remaining := Word64.toUInt64 maxVal - Word64.toUInt64 start
    if remaining ≤ step then .ok (ranges ++ [(start, maxVal)])
    else
      let stop : T := Word64.ofUInt64 (Word64.toUInt64 start + step)
      rangesLoop maxVal step turns stop (ranges ++ [(start, stop)])

/-- `ComputeRanges`.  The division panics without partitions, and the allocation of the
result with a negative number of them; that it also panics beyond the memory there is, is
left out. -/
def computeRanges (turns : ℕ) (minVal maxVal : T) (numPartitions : Int64) :
    Except Fault (List (T × T)) :=
  let n := numPartitions.toUInt64
  if n = 0 then .error (.panic "runtime error: integer divide by zero")
  else
    let span := Word64.toUInt64 maxVal - Word64.toUInt64 minVal
    let step := if span % n ≠ 0 then span / n + 1 else span / n
    if numPartitions < 0 then .error (.panic "runtime error: makeslice: cap out of range")
    else rangesLoop maxVal step turns minVal []

/-- Ranges from `a` to `b`, each of which starts where the one before it ends, and none
of which is empty if `a` is before `b`. -/
structure Splits (a b : T) (ranges : List (T × T)) : Prop where
  joined : Joined a b ranges
  le : ∀ r ∈ ranges, Word64.val r.1 ≤ Word64.val r.2
  lt : Word64.val a < Word64.val b → ∀ r ∈ ranges, Word64.val r.1 < Word64.val r.2

theorem Splits.single {a b : T} (hle : Word64.val a ≤ Word64.val b) : Splits a b [(a, b)] := by
  refine ⟨.last a b, ?_, ?_⟩
  · intro r hr
    rwa [List.mem_singleton.mp hr]
  · intro hlt r hr
    rwa [List.mem_singleton.mp hr]

theorem Splits.cons {a b c : T} {ranges : List (T × T)} (h : Splits c b ranges)
    (hac : Word64.val a < Word64.val c) (hcb : Word64.val c < Word64.val b) :
    Splits a b ((a, c) :: ranges) := by
  refine ⟨.cons a h.joined, ?_, ?_⟩
  · intro r hr
    rcases List.mem_cons.mp hr with rfl | hr
    · exact hac.le
    · exact h.le r hr
  · intro _ r hr
    rcases List.mem_cons.mp hr with rfl | hr
    · exact hac
    · exact h.lt hcb r hr

/-- If `m` steps reach the end, the loop leaves after at most `m` turns. -/
theorem rangesLoop_splits {maxVal : T} {step : UInt64} :
    ∀ {m turns : ℕ} {start : T} (acc : List (T × T)), m ≤ turns → 1 ≤ m →
      Word64.val start ≤ Word64.val maxVal →
      Word64.val maxVal - Word64.val start ≤ m * step.toNat →
      ∃ ranges, rangesLoop maxVal step turns start acc = .ok (acc ++ ranges) ∧
        Splits start maxVal ranges ∧ ranges.length ≤ m := by
  intro m
  induction m with
  | zero =>
    intro turns start acc _ hpos
    omega
  | succ m ih =>
    intro turns start acc hturns _ hle hreach
    obtain ⟨turns, rfl⟩ : ∃ t, turns = t + 1 := ⟨turns - 1, by omega⟩
    have hspan := Word64.toNat_sub hle
    rw [rangesLoop]
    by_cases hlast : Word64.toUInt64 maxVal - Word64.toUInt64 start ≤ step
    · exact ⟨[(start, maxVal)], if_pos hlast, .single hle, by simp⟩
    · -- more than one step is left, so the step is positive and does not wrap
      rw [UInt64.le_iff_toNat_le] at hlast
      have hroom : Word64.val start + step.toNat ≤ Word64.val maxVal := by omega
      have hnext := Word64.val_add hroom
      have hm : 1 ≤ m := by
        rcases Nat.eq_zero_or_pos m with rfl | hm
        · rw [Nat.zero_add, Nat.cast_one, one_mul] at hreach
          omega
        · exact hm
      have hstep : 0 < step.toNat := by
        rcases Nat.eq_zero_or_pos step.toNat with hzero | hpos
        · rw [hzero, Nat.cast_zero, mul_zero] at hreach
          omega
        · exact hpos
      have hrest : Word64.val maxVal - (Word64.val start + step.toNat) ≤ m * step.toNat := by
        rw [Nat.cast_add, Nat.cast_one, add_mul, one_mul] at hreach
        omega
      obtain ⟨ranges, hrun, hsplits, hlen⟩ := @ih turns
        (Word64.ofUInt64 (Word64.toUInt64 start + step))
        (acc ++ [(start, Word64.ofUInt64 (Word64.toUInt64 start + step))])
        (by omega) hm (by rw [hnext]; exact hroom) (by rw [hnext]; exact hrest)
      refine ⟨_ :: ranges, ?_, hsplits.cons (by omega) (by omega), by simp; omega⟩
      rw [if_neg (by rwa [UInt64.le_iff_toNat_le]), hrun, List.append_assoc]
      rfl

/-- The step rounded up: as many steps as partitions reach the end. -/
theorem span_le_step (span : UInt64) {n : UInt64} (hn : 0 < n.toNat) :
    span.toNat ≤ n.toNat * (if span % n ≠ 0 then span / n + 1 else span / n).toNat := by
  have hspan := span.toNat_lt
  have hdiv := Nat.div_add_mod span.toNat n.toNat
  have hmod := Nat.mod_lt span.toNat hn
  have hrem : (span % n ≠ 0) = (span.toNat % n.toNat ≠ 0) := by
    rw [ne_eq, ← UInt64.toNat_inj, UInt64.toNat_mod]
    rfl
  split_ifs with hne
  · -- a remainder leaves room: with a divisor of 1 there is none
    rw [hrem] at hne
    have htwo : 2 ≤ n.toNat := by
      by_contra hone
      rw [show n.toNat = 1 by omega, Nat.mod_one] at hne
      exact hne rfl
    have hhalf : span.toNat / n.toNat ≤ span.toNat / 2 := Nat.div_le_div_left htwo (by decide)
    have hsucc : (span / n + 1).toNat = span.toNat / n.toNat + 1 := by
      rw [UInt64.toNat_add, UInt64.toNat_div, show (1 : UInt64).toNat = 1 from rfl,
        Nat.mod_eq_of_lt (by omega)]
    rw [hsucc, Nat.mul_succ]
    omega
  · rw [hrem, not_not] at hne
    rw [UInt64.toNat_div]
    omega

/-- A positive number of partitions, as an unsigned word. -/
theorem toUInt64_of_pos {n : Int64} (hn : 1 ≤ n.toInt) : (n.toUInt64.toNat : ℤ) = n.toInt := by
  have hbits := Int64.toNat_toUInt64_eq n
  have hlt := n.toInt_lt
  omega

/-- **Uniform ranges**: at least one and at most the number of partitions. -/
theorem computeRanges_splits {a b : T} {n : Int64} {turns : ℕ} (hle : Word64.val a ≤ Word64.val b)
    (hn : 1 ≤ n.toInt) (hturns : n.toInt ≤ turns) :
    ∃ ranges, computeRanges turns a b n = .ok ranges ∧ Splits a b ranges ∧
      1 ≤ ranges.length ∧ (ranges.length : ℤ) ≤ n.toInt := by
  have hbits := toUInt64_of_pos hn
  have hzero : n.toUInt64 ≠ 0 := by
    rw [ne_eq, ← UInt64.toNat_inj, show (0 : UInt64).toNat = 0 from rfl]
    omega
  have hneg : ¬ n < 0 := by
    rw [Int64.lt_iff_toInt_lt, show (0 : Int64).toInt = 0 from rfl]
    omega
  have hspan := Word64.toNat_sub hle
  have hreach := span_le_step (Word64.toUInt64 b - Word64.toUInt64 a) (n := n.toUInt64) (by omega)
  obtain ⟨ranges, hrun, hsplits, hlen⟩ := rangesLoop_splits []
    (show n.toUInt64.toNat ≤ turns by omega) (by omega) hle
    (by rw [← hspan]; exact_mod_cast hreach)
  refine ⟨ranges, ?_, hsplits, ?_, by omega⟩
  · simp only [computeRanges, if_neg hzero, if_neg hneg]
    exact hrun
  · exact List.length_pos_iff.mpr hsplits.joined.ne_nil

/-! ### Partitions of a range -/

def PartitionHelper.addPartitionsWithRange (p : PartitionHelper) (turns : ℕ)
    (start stop : Option Value) (numPartitions : Int64) : Except Fault PartitionHelper := do
  match ← PartitionHelper.getPartitionForStartAndEnd start stop with
  | none => return p
  | some partition =>
    match partition.range with
    | some (.intRange s e) =>
      let ranges ← computeRanges turns s e numPartitions
      p.addPartitions (ranges.map fun r => (.int64 r.1, .int64 r.2))
    | some (.uintRange s e) =>
      let ranges ← computeRanges turns s e numPartitions
      p.addPartitions (ranges.map fun r => (.uint64 r.1, .uint64 r.2))
    | some (.timestampRange s e) =>
      let tstart := s.asTime.unixMicro
      let tend := e.asTime.unixMicro
      let ranges ← computeRanges turns tstart tend numPartitions
      p.addPartitions (ranges.map fun r => (.time (unixMicro r.1), .time (unixMicro r.2)))
    | _ => return p

/-- The helper has partitions of one kind that contain every number from `lo` to `hi`
exactly once, and no other. -/
def PartitionHelper.HasOnce (k : Kind) (p : PartitionHelper) (lo hi : ℤ) : Prop :=
  ∃ ranges : List PartitionRange, p.partitions = ranges.map QRepPartition.ofRange ∧
    (∀ r ∈ ranges, r.Of k) ∧ ∀ x : ℤ,
      ((ranges.map PartitionRange.bounds).countP fun r => decide (Contains r x)) =
        if lo ≤ x ∧ x ≤ hi then 1 else 0

/-- Ranges of words become partitions with every value once, whatever value a word
stands for. -/
theorem addPartitions_once {a b : T} {n : Int64} {turns : ℕ} (hle : Word64.val a ≤ Word64.val b)
    (hn : 1 ≤ n.toInt) (hturns : n.toInt ≤ turns) {k : Kind} {f : T → Value}
    (hkind : ∀ t, (f t).Of k) {c : ℤ} (hrank : ∀ t, (f t).rank = Word64.val t + c) :
    ∃ p, (computeRanges turns a b n >>= fun ranges =>
        PartitionHelper.new.addPartitions (ranges.map fun r => (f r.1, f r.2))) = .ok p ∧
      p.HasOnce k (f a).rank (f b).rank := by
  obtain ⟨ranges, hranges, h, -⟩ := computeRanges_splits hle hn hturns
  rw [hranges]
  have hbounds : PartitionHelper.pairBounds (ranges.map fun r => (f r.1, f r.2)) =
      ranges.map fun r => ((f r.1).rank, (f r.2).rank) := by
    rw [PartitionHelper.pairBounds, List.map_map]
    rfl
  have hjoined := h.joined.map fun t => (f t).rank
  have hle : ∀ r ∈ ranges.map fun r => ((f r.1).rank, (f r.2).rank), r.1 ≤ r.2 := by
    intro r hr
    obtain ⟨s, hs, rfl⟩ := List.mem_map.mp hr
    rw [hrank, hrank]
    exact add_le_add_left (h.le s hs) c
  have hkinds : ∀ q ∈ ranges.map fun r => (f r.1, f r.2), q.1.Of k ∧ q.2.Of k := by
    intro q hq
    obtain ⟨r, -, rfl⟩ := List.mem_map.mp hq
    exact ⟨hkind r.1, hkind r.2⟩
  have hsorted := hjoined.sorted hle
  rw [List.forall_mem_map] at hle
  rw [List.pairwise_map] at hsorted
  obtain ⟨p, parts, hp, hholds, hcuts⟩ := PartitionHelper.addPartitions_cuts hkinds
    (List.forall_mem_map.mpr hle) (List.pairwise_map.mpr hsorted)
  refine ⟨p, hp, parts, hholds.partitions, hholds.kind, ?_⟩
  intro x
  rw [hcuts.apart.count x]
  simp only [hcuts.covers x, hbounds, hjoined.covers (List.forall_mem_map.mpr hle) x]

section Kinds

variable {n : Int64} {turns : ℕ}

theorem addPartitionsWithRange_int {a b : Int64} (hle : a.toInt ≤ b.toInt) (hn : 1 ≤ n.toInt)
    (hturns : n.toInt ≤ turns) :
    ∃ p, PartitionHelper.new.addPartitionsWithRange turns (some (.int64 a)) (some (.int64 b)) n =
      .ok p ∧ p.HasOnce .int a.toInt b.toInt :=
  addPartitions_once hle hn hturns (f := .int64) (fun _ => rfl) (c := 0)
    fun t => (add_zero t.toInt).symm

theorem addPartitionsWithRange_uint {a b : UInt64} (hle : a.toNat ≤ b.toNat) (hn : 1 ≤ n.toInt)
    (hturns : n.toInt ≤ turns) :
    ∃ p, PartitionHelper.new.addPartitionsWithRange turns (some (.uint64 a)) (some (.uint64 b)) n =
      .ok p ∧ p.HasOnce .uint a.toNat b.toNat :=
  addPartitions_once (Int.ofNat_le.mpr hle) hn hturns (f := .uint64) (fun _ => rfl) (c := 0)
    fun t => (add_zero (t.toNat : ℤ)).symm

/-- Timestamps are split as microseconds since 1970 and counted from year 1. -/
theorem addPartitionsWithRange_time {a b : Int64} (hle : a.toInt ≤ b.toInt) (hn : 1 ≤ n.toInt)
    (hturns : n.toInt ≤ turns) :
    ∃ p, PartitionHelper.new.addPartitionsWithRange turns (some (.time (unixMicro a)))
        (some (.time (unixMicro b))) n = .ok p ∧
      p.HasOnce .timestamp (unixMicro a).micros (unixMicro b).micros := by
  obtain ⟨p, hp, honce⟩ := addPartitions_once hle hn hturns (f := fun m => .time (unixMicro m))
    (fun m => ⟨rfl, (micros_unixMicro m).1⟩) fun m => (micros_unixMicro m).2
  refine ⟨p, ?_, honce⟩
  rw [PartitionHelper.addPartitionsWithRange]
  show (computeRanges turns (Timestamp.new (unixMicro a)).asTime.unixMicro
    (Timestamp.new (unixMicro b)).asTime.unixMicro n >>= _) = _
  rw [Timestamp.asTime_new, Timestamp.asTime_new, unixMicro_unixMicro, unixMicro_unixMicro]
  exact hp

end Kinds

end QRep
