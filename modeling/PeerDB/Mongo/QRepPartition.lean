/-
Partitions of numeric document ids (`numericPartitions`, `toRangeFilter`).

MongoDB orders all numbers by value, so between two integer ids there may be ids that are
not integers.  A partition therefore has its start and not its end, except for the last
one, which has both.

* `numericPartitions_once` — every rational number between the least and the greatest id
  is selected by exactly one partition;
* `uniform_split_exact` — this and the closed partitions of `AddPartitionsWithRange`, for
  every range of both 64-bit types.
-/
import PeerDB.QRep.ComputeRanges
import Mathlib.Algebra.Order.Field.Rat
import Mathlib.Data.Rat.Cast.Order

open Intervals GoTime

namespace QRep

/-! ### Partitions and their filters -/

def numericPartitions (turns : ℕ) (minVal maxVal numPartitions : Int64) :
    Except Fault (List QRepPartition) := do
  if maxVal ≤ minVal then
    return fullTablePartition
  else
    let ranges ← computeRanges turns minVal maxVal numPartitions
    return ranges.mapIdx fun i r => createNumericPartition r.1 r.2 (i == ranges.length - 1)

/-- The operator for the end of a range. -/
inductive EndOp
  | lt
  | lte
deriving DecidableEq

/-- A filter on one column, `$gte` the start and `$lt` or `$lte` the end. -/
structure RangeFilter where
  column : String
  start : Int64
  endOp : EndOp
  stop : Int64
deriving DecidableEq

/-- `toRangeFilter`, for numeric ranges. -/
def toRangeFilter (watermarkColumn : String) : PartitionRange → Except String RangeFilter
  | .numericRange start stop endInclusive =>
    .ok ⟨watermarkColumn, start, if endInclusive then .lte else .lt, stop⟩
  | _ => .error "unsupported partition range type"

/-- The filter that a partition is read with; a full-table partition has none. -/
def partitionFilter (watermarkColumn : String) (p : QRepPartition) :
    Except String (Option RangeFilter) :=
  if p.fullTablePartition then .ok none
  else
    match p.range with
    | none => .error "runtime error: invalid memory address or nil pointer dereference"
    | some r =>
      ((toRangeFilter watermarkColumn r).mapError
        fun msg => "failed to convert partition range to filter: " ++ msg).map some

/-- The filter matches a document whose column has this number. -/
def RangeFilter.Matches (f : RangeFilter) (x : ℚ) : Prop :=
  (f.start.toInt : ℚ) ≤ x ∧
    match f.endOp with
    | .lt => x < (f.stop.toInt : ℚ)
    | .lte => x ≤ (f.stop.toInt : ℚ)

instance (f : RangeFilter) (x : ℚ) : Decidable (f.Matches x) := by
  unfold RangeFilter.Matches
  cases f.endOp <;> infer_instance

/-- A document with this number is read for the partition. -/
def QRepPartition.Selects (watermarkColumn : String) (p : QRepPartition) (x : ℚ) : Prop :=
  match partitionFilter watermarkColumn p with
  | .ok none => True
  | .ok (some f) => f.Matches x
  | .error _ => False

instance (watermarkColumn : String) (p : QRepPartition) (x : ℚ) :
    Decidable (p.Selects watermarkColumn x) := by
  unfold QRepPartition.Selects
  split <;> infer_instance

theorem createNumericPartition_selects {column : String} {s e : Int64} {closed : Bool} {x : ℚ} :
    (createNumericPartition s e closed).Selects column x ↔
      Within closed ((s.toInt : ℚ), (e.toInt : ℚ)) x := by
  cases closed
  · rw [within_false]
    rfl
  · rw [within_true]
    rfl

/-! ### Every number once -/

theorem numericPartitions_once {a b n : Int64} {turns : ℕ} (column : String)
    (hle : a.toInt ≤ b.toInt) (hn : 1 ≤ n.toInt) (hturns : n.toInt ≤ turns) :
    ∃ parts, numericPartitions turns a b n = .ok parts ∧
      ∀ x : ℚ, (a.toInt : ℚ) ≤ x → x ≤ (b.toInt : ℚ) →
        (parts.countP fun p => decide (p.Selects column x)) = 1 := by
  by_cases heq : b ≤ a
  · -- one number: the whole table
    refine ⟨fullTablePartition, ?_, fun x _ _ => rfl⟩
    rw [numericPartitions, if_pos heq]
    rfl
  · obtain ⟨ranges, hranges, hsplits, -⟩ := computeRanges_splits (a := a) (b := b) hle hn hturns
    refine ⟨ranges.mapIdx fun i r => createNumericPartition r.1 r.2 (i == ranges.length - 1),
      ?_, ?_⟩
    · rw [numericPartitions, if_neg heq, hranges]
      rfl
    · intro x hlo hhi
      have hjoined := hsplits.joined.map fun t : Int64 => (t.toInt : ℚ)
      have hranges_le : ∀ r ∈ ranges.map fun r => ((r.1.toInt : ℚ), (r.2.toInt : ℚ)), r.1 ≤ r.2 :=
        List.forall_mem_map.mpr fun r hr => Int.cast_le.mpr (hsplits.le r hr)
      have hcount := hjoined.count_lastClosed hranges_le x
      rw [if_pos ⟨hlo, hhi⟩, lastClosed_map, List.countP_map] at hcount
      rw [mapIdx_last fun (r : Int64 × Int64) closed => createNumericPartition r.1 r.2 closed,
        List.countP_map]
      refine Eq.trans ?_ hcount
      refine List.countP_congr fun p _ => ?_
      simp only [Function.comp_apply, decide_eq_true_eq, createNumericPartition_selects]

/-- What `ComputeRanges` returns: at least one and at most `n` ranges from `lo` to `hi`,
each of which starts where the one before it ends, and none empty unless `lo = hi`. -/
structure UniformRanges {T : Type} [Word64 T] (lo hi : T) (n : ℤ) (ranges : List (T × T)) :
    Prop where
  atLeast : 1 ≤ ranges.length
  atMost : (ranges.length : ℤ) ≤ n
  first : ranges.head?.map Prod.fst = some lo
  last : ranges.getLast?.map Prod.snd = some hi
  contiguous : ranges.IsChain fun r s => r.2 = s.1
  nonempty : Word64.val lo < Word64.val hi → ∀ r ∈ ranges, Word64.val r.1 < Word64.val r.2

theorem computeRanges_uniform {T : Type} [Word64 T] {a b : T} {n : Int64} {turns : ℕ}
    (hle : Word64.val a ≤ Word64.val b) (hn : 1 ≤ n.toInt) (hturns : n.toInt ≤ turns) :
    ∃ ranges, computeRanges turns a b n = .ok ranges ∧ UniformRanges a b n.toInt ranges := by
  obtain ⟨ranges, hranges, hsplits, hsome, hmost⟩ := computeRanges_splits hle hn hturns
  exact ⟨ranges, hranges, hsome, hmost, hsplits.joined.head?, hsplits.joined.getLast?,
    hsplits.joined.isChain, hsplits.lt⟩

/-- **Uniform splitting is an exact partition**: for every range of `int64` and of
`uint64` and every positive number of partitions, `ComputeRanges` leaves its loop within
that many turns with contiguous ranges from the first value to the last; the partitions
of `AddPartitionsWithRange` contain every value of the range exactly once, also for
timestamps given in microseconds; and the partitions of `numericPartitions` select every
rational number of the range exactly once. -/
theorem uniform_split_exact (n : Int64) (hn : 1 ≤ n.toInt) (turns : ℕ) (hturns : n.toInt ≤ turns) :
    (∀ a b : Int64, a ≤ b →
      (∃ ranges, computeRanges turns a b n = .ok ranges ∧ UniformRanges a b n.toInt ranges) ∧
      (∃ p, PartitionHelper.new.addPartitionsWithRange turns (some (.int64 a)) (some (.int64 b)) n =
        .ok p ∧ p.HasOnce .int a.toInt b.toInt) ∧
      (∃ p, PartitionHelper.new.addPartitionsWithRange turns (some (.time (unixMicro a)))
          (some (.time (unixMicro b))) n = .ok p ∧
        p.HasOnce .timestamp (unixMicro a).micros (unixMicro b).micros) ∧
      ∀ column, ∃ parts, numericPartitions turns a b n = .ok parts ∧
        ∀ x : ℚ, (a.toInt : ℚ) ≤ x → x ≤ (b.toInt : ℚ) →
          (parts.countP fun p => decide (p.Selects column x)) = 1) ∧
    ∀ a b : UInt64, a ≤ b →
      (∃ ranges, computeRanges turns a b n = .ok ranges ∧ UniformRanges a b n.toInt ranges) ∧
      ∃ p, PartitionHelper.new.addPartitionsWithRange turns (some (.uint64 a))
        (some (.uint64 b)) n = .ok p ∧ p.HasOnce .uint a.toNat b.toNat := by
  constructor
  · intro a b hle
    rw [Int64.le_iff_toInt_le] at hle
    exact ⟨computeRanges_uniform hle hn hturns, addPartitionsWithRange_int hle hn hturns,
      addPartitionsWithRange_time hle hn hturns,
      fun column => numericPartitions_once column hle hn hturns⟩
  · intro a b hle
    rw [UInt64.le_iff_toNat_le] at hle
    exact ⟨computeRanges_uniform (Int.ofNat_le.mpr hle) hn hturns,
      addPartitionsWithRange_uint hle hn hturns⟩

/-- The full domain of `int64` in three partitions. -/
theorem uniform_split_fullDomain :
    ∃ p, PartitionHelper.new.addPartitionsWithRange 3 (some (.int64 (-9223372036854775808)))
        (some (.int64 9223372036854775807)) 3 = .ok p ∧
      p.HasOnce .int (-9223372036854775808) 9223372036854775807 :=
  ((uniform_split_exact 3 (by decide) 3 (by decide)).1 (-9223372036854775808) 9223372036854775807
    (by decide)).2.1

end QRep
