/-
Partitions of a Postgres table by its blocks (`connectors/postgres/qrep_partition.go`).

Partition `i` of `n` has the blocks from `i * total / n` up to
`(i + 1) * total / n`, which is empty if there are fewer blocks than partitions, and of
these the tuple ids after the one that the last run ended with.

* `blockBound_exact` — the products and conversions do not wrap;
* `ctidSlice_bounds` — one partition, as numbers of tuple ids;
* `ctidPartitionsForTable_exact` — the partitions are apart and have exactly the tuple
  ids of the table that are still to be read.
-/
import Mathlib.Data.Int.ConditionallyCompleteOrder
import PeerDB.QRep.ComputeRanges

open Loop Intervals

namespace QRep

/-- `PartitionParams`, without the names that only the queries use. -/
structure PartitionParams where
  lastRangeEnd : Option Value
  numPartitions : Int64
  addNullPartition : Bool

/-! ### Blocks -/

def tidCmp (a b : TID) : Ordering :=
  match cmpCompare a.blockNumber b.blockNumber with
  | .eq => cmpCompare a.offsetNumber b.offsetNumber
  | c => c

def tidInc (t : TID) : TID :=
  if t.offsetNumber < 65535 then ⟨t.blockNumber, t.offsetNumber + 1, true⟩
  else ⟨t.blockNumber + 1, 0, true⟩

/-- The first block of a partition, converted to 32 bits. -/
def blockBound (totalBlocks numPartitions partitionIndex : Int64) : UInt32 :=
  (partitionIndex * totalBlocks / numPartitions).toUInt64.toUInt32

/-- `tidRangeForPartition`: nothing if the partition has no block. -/
def tidRangeForPartition (totalBlocks numPartitions partitionIndex : Int64) :
    Option (TID × TID) :=
  let blockStart := blockBound totalBlocks numPartitions partitionIndex
  let nextPartitionBlockStart := blockBound totalBlocks numPartitions (partitionIndex + 1)
  if nextPartitionBlockStart ≤ blockStart then none
  else some (⟨blockStart, 0, true⟩, ⟨nextPartitionBlockStart - 1, 65535, true⟩)

/-- Where the last run stopped; not valid without a tuple id. -/
def resumeFrom (lastRangeEnd : Option Value) : TID :=
  match lastRangeEnd with
  | some (.tid lastTID) => tidInc lastTID
  | _ => ⟨0, 0, false⟩

/-- One turn of the loop, up to the call of `AddPartition`: the tuple ids of a partition
from the resume point on. -/
def ctidSlice (totalBlocks numPartitions : Int64) (resume : TID) (partitionIndex : Int64) :
    Option (TID × TID) :=
  match tidRangeForPartition totalBlocks numPartitions partitionIndex with
  | none => none
  | some (start, stop) =>
    if resume.valid then
      if tidCmp stop resume = .lt then none
      else some (if tidCmp start resume = .lt then resume else start, stop)
    else some (start, stop)

/-- A tuple id marked as valid. -/
def TID.asValid (t : TID) : Value := .tid { t with valid := true }

/-- `ctidPartitionsForTable`, for the result of `getTableBlockCount`. -/
def ctidPartitionsForTable (getTableBlockCount : Except String Int64) (pp : PartitionParams) :
    Except Fault (List QRepPartition) := do
  let totalBlocks ← getTableBlockCount.mapError .error
  if totalBlocks = 0 then
    return []
  let resume := resumeFrom pp.lastRangeEnd
  let p ← (List.range pp.numPartitions.toInt.toNat).foldlM (fun p i =>
    match ctidSlice totalBlocks pp.numPartitions resume (Int64.ofNat i) with
    | none => .ok p
    | some (start, stop) =>
      (p.addPartition (some start.asValid) (some stop.asValid)).mapError
        (.wrap "failed to add TID partition")) PartitionHelper.new
  return p.partitions

/-! ### Tuple ids as numbers -/

theorem TID.rank_nonneg (t : TID) : 0 ≤ t.rank := by
  rw [TID.rank]
  omega

theorem TID.rank_lt_iff (t : TID) (m : ℕ) : t.rank < m * 65536 ↔ t.blockNumber.toNat < m := by
  have hoff := t.offsetNumber.toNat_lt
  rw [TID.rank]
  omega

theorem tidCmp_lt_iff (a b : TID) : tidCmp a b = .lt ↔ a.rank < b.rank := by
  have ha := a.offsetNumber.toNat_lt
  have hb := b.offsetNumber.toNat_lt
  rw [tidCmp, TID.rank, TID.rank, cmpCompare, cmpCompare]
  simp only [UInt32.lt_iff_toNat_lt, UInt16.lt_iff_toNat_lt]
  split_ifs <;> simp <;> omega

/-- The tuple id after the last one does not wrap below the last block. -/
theorem tidInc_exact {t : TID} (ht : t.blockNumber.toNat < 2 ^ 32 - 1) :
    (tidInc t).valid = true ∧ (tidInc t).rank = t.rank + 1 := by
  have hoff := t.offsetNumber.toNat_lt
  rw [tidInc]
  split_ifs with hlt
  · rw [UInt16.lt_iff_toNat_lt, show (65535 : UInt16).toNat = 65535 from rfl] at hlt
    have hsum : (t.offsetNumber + 1).toNat = t.offsetNumber.toNat + 1 := by
      rw [UInt16.toNat_add, show (1 : UInt16).toNat = 1 from rfl, Nat.mod_eq_of_lt (by omega)]
    refine ⟨rfl, ?_⟩
    simp only [TID.rank, hsum]
    omega
  · rw [UInt16.lt_iff_toNat_lt, show (65535 : UInt16).toNat = 65535 from rfl] at hlt
    have hsum : (t.blockNumber + 1).toNat = t.blockNumber.toNat + 1 := by
      rw [UInt32.toNat_add, show (1 : UInt32).toNat = 1 from rfl, Nat.mod_eq_of_lt (by omega)]
    refine ⟨rfl, ?_⟩
    simp only [TID.rank, hsum, show (0 : UInt16).toNat = 0 from rfl]
    omega

/-! ### One partition -/

section Blocks

variable {total n : Int64}

/-- The first block of partition `i`, without a bound on the numbers. -/
def firstBlock (total n : Int64) (i : ℕ) : ℕ := i * total.toInt.toNat / n.toInt.toNat

/-- The number of its first tuple id. -/
def firstRank (total n : Int64) (i : ℕ) : ℤ := firstBlock total n i * 65536

theorem firstRank_mono : Monotone (firstRank total n) := by
  intro i j hij
  have hblocks : firstBlock total n i ≤ firstBlock total n j :=
    Nat.div_le_div_right (Nat.mul_le_mul_right _ hij)
  rw [firstRank, firstRank]
  omega

/-- The arithmetic of block numbers in 64 bits is exact for tables of fewer than `2^32`
blocks and fewer than `2^31` partitions, and the result fits 32 bits. -/
theorem blockBound_exact (htotal : 1 ≤ total.toInt) (htotal' : total.toInt < 2 ^ 32)
    (hn : 1 ≤ n.toInt) (hn' : n.toInt < 2 ^ 31) {i : ℕ} (hi : (i : ℤ) ≤ n.toInt) :
    (Int64.ofNat i).toInt = i ∧ (Int64.ofNat i * total).toInt = i * total.toInt ∧
      ((blockBound total n (Int64.ofNat i)).toNat : ℤ) = i * total.toInt / n.toInt := by
  have hidx : (Int64.ofNat i).toInt = i := Int64.toInt_ofNat_of_lt (by omega)
  have hprod : (i : ℤ) * total.toInt < 2 ^ 63 := by
    calc (i : ℤ) * total.toInt ≤ (2 ^ 31 - 1) * (2 ^ 32 - 1) :=
          Int.mul_le_mul (by omega) (by omega) (by omega) (by omega)
      _ < 2 ^ 63 := by decide
  have hpos : 0 ≤ (i : ℤ) * total.toInt := Int.mul_nonneg (by omega) (by omega)
  have hmul : (Int64.ofNat i * total).toInt = i * total.toInt := by
    rw [Int64.toInt_mul_of_fits] <;> rw [hidx] <;> omega
  have hdiv : (Int64.ofNat i * total / n).toInt = i * total.toInt / n.toInt := by
    rw [Int64.toInt_div_of_nonneg (by omega) (by omega), hmul]
  -- the quotient is a number of blocks of the table
  have hle : (i : ℤ) * total.toInt / n.toInt ≤ total.toInt := by
    apply Int.ediv_le_of_le_mul (by omega)
    rw [mul_comm total.toInt]
    exact Int.mul_le_mul_of_nonneg_right hi (by omega)
  have hge : 0 ≤ (i : ℤ) * total.toInt / n.toInt := Int.ediv_nonneg hpos (by omega)
  have hbits := Int64.toNat_toUInt64_eq (Int64.ofNat i * total / n)
  rw [hdiv] at hbits
  refine ⟨hidx, hmul, ?_⟩
  rw [blockBound, UInt64.toNat_toUInt32]
  omega

theorem blockBound_eq (htotal : 1 ≤ total.toInt) (htotal' : total.toInt < 2 ^ 32)
    (hn : 1 ≤ n.toInt) (hn' : n.toInt < 2 ^ 31) {i : ℕ} (hi : (i : ℤ) ≤ n.toInt) :
    (blockBound total n (Int64.ofNat i)).toNat = firstBlock total n i := by
  obtain ⟨-, -, hbound⟩ := blockBound_exact htotal htotal' hn hn' hi
  have hnat : ((firstBlock total n i : ℕ) : ℤ) = i * total.toInt / n.toInt := by
    rw [firstBlock, Int.natCast_ediv, Int.natCast_mul, Int.toNat_of_nonneg (by omega),
      Int.toNat_of_nonneg (by omega)]
  omega

theorem firstBlock_zero : firstBlock total n 0 = 0 := by
  rw [firstBlock, Nat.zero_mul, Nat.zero_div]

theorem firstBlock_last (hn : 1 ≤ n.toInt) :
    firstBlock total n n.toInt.toNat = total.toInt.toNat := by
  rw [firstBlock, Nat.mul_div_cancel_left _ (by omega)]

theorem int64_ofNat_succ (i : ℕ) : Int64.ofNat i + 1 = Int64.ofNat (i + 1) := by
  rw [Int64.ofNat_add]
  rfl

/-- The tuple ids of partition `i`. -/
theorem tidRangeForPartition_bounds (htotal : 1 ≤ total.toInt) (htotal' : total.toInt < 2 ^ 32)
    (hn : 1 ≤ n.toInt) (hn' : n.toInt < 2 ^ 31) {i : ℕ} (hi : (i : ℤ) < n.toInt) :
    match tidRangeForPartition total n (Int64.ofNat i) with
    | none => firstRank total n (i + 1) ≤ firstRank total n i
    | some (start, stop) => start.rank = firstRank total n i ∧
        stop.rank = firstRank total n (i + 1) - 1 ∧ start.rank ≤ stop.rank := by
  have hstart := blockBound_eq htotal htotal' hn hn' hi.le
  have hnext := blockBound_eq htotal htotal' hn hn' (i := i + 1) (by omega)
  rw [tidRangeForPartition, int64_ofNat_succ]
  simp only [UInt32.le_iff_toNat_le, hstart, hnext]
  split_ifs with hempty
  · simp only [firstRank]
    omega
  · have hpred : (blockBound total n (Int64.ofNat (i + 1)) - 1).toNat =
        firstBlock total n (i + 1) - 1 := by
      have hone : (1 : UInt32).toNat = 1 := rfl
      rw [UInt32.toNat_sub_of_le _ _ (by rw [UInt32.le_iff_toNat_le]; omega), hnext, hone]
    simp only [TID.rank, firstRank, hstart, hpred, show (0 : UInt16).toNat = 0 from rfl,
      show (65535 : UInt16).toNat = 65535 from rfl]
    omega

/-- The number of the first tuple id to read. -/
def resumeRank (resume : TID) : ℤ := if resume.valid then resume.rank else 0

/-- What is left of partition `i` from the resume point on. -/
theorem ctidSlice_bounds (htotal : 1 ≤ total.toInt) (htotal' : total.toInt < 2 ^ 32)
    (hn : 1 ≤ n.toInt) (hn' : n.toInt < 2 ^ 31) (resume : TID) {i : ℕ} (hi : (i : ℤ) < n.toInt) :
    match ctidSlice total n resume (Int64.ofNat i) with
    | none => ∀ x, resumeRank resume ≤ x → firstRank total n i ≤ x → ¬ x < firstRank total n (i + 1)
    | some (start, stop) => start.rank = max (firstRank total n i) (resumeRank resume) ∧
        stop.rank = firstRank total n (i + 1) - 1 ∧ start.rank ≤ stop.rank := by
  have hrange := tidRangeForPartition_bounds htotal htotal' hn hn' hi
  have hnonneg : 0 ≤ firstRank total n i := by
    rw [firstRank]
    omega
  rw [ctidSlice, resumeRank]
  cases htid : tidRangeForPartition total n (Int64.ofNat i) with
  | none =>
    rw [htid] at hrange
    intro x _ hlo hhi
    exact absurd (hlo.trans_lt hhi) (not_lt.mpr hrange)
  | some range =>
    obtain ⟨start, stop⟩ := range
    rw [htid] at hrange
    obtain ⟨hstart, hstop, hle⟩ := hrange
    dsimp only
    cases hvalid : resume.valid with
    | false =>
      simp only [Bool.false_eq_true, if_false]
      exact ⟨by rw [max_eq_left hnonneg, hstart], hstop, hle⟩
    | true =>
      simp only [if_true, tidCmp_lt_iff]
      split_ifs with hbefore hclip
      · intro x hx _ hhi
        omega
      · exact ⟨by omega, hstop, by omega⟩
      · exact ⟨by omega, hstop, hle⟩

/-! ### All partitions -/

/-- The calls of `AddPartition` that the loop makes. -/
def ctidPairs (total n : Int64) (resume : TID) : List (Value × Value) :=
  ((List.range n.toInt.toNat).filterMap fun i => ctidSlice total n resume (Int64.ofNat i)).map
    fun q => (q.1.asValid, q.2.asValid)

theorem mem_ctidPairs {resume : TID} {q : Value × Value} (hq : q ∈ ctidPairs total n resume) :
    ∃ i : ℕ, (i : ℤ) < n.toInt ∧ ∃ r, ctidSlice total n resume (Int64.ofNat i) = some r ∧
      q = (r.1.asValid, r.2.asValid) := by
  obtain ⟨r, hr, rfl⟩ := List.mem_map.mp hq
  obtain ⟨i, hi, hslice⟩ := List.mem_filterMap.mp hr
  exact ⟨i, by have := List.mem_range.mp hi; omega, r, hslice, rfl⟩

section Bounds

variable (htotal : 1 ≤ total.toInt) (htotal' : total.toInt < 2 ^ 32) (hn : 1 ≤ n.toInt)
  (hn' : n.toInt < 2 ^ 31)
include htotal htotal' hn hn'

theorem ctidSlice_some {resume : TID} {i : ℕ} (hi : (i : ℤ) < n.toInt) {r : TID × TID}
    (hslice : ctidSlice total n resume (Int64.ofNat i) = some r) :
    r.1.rank = max (firstRank total n i) (resumeRank resume) ∧
      r.2.rank = firstRank total n (i + 1) - 1 ∧ r.1.rank ≤ r.2.rank := by
  have hbounds := ctidSlice_bounds htotal htotal' hn hn' resume hi
  rw [hslice] at hbounds
  exact hbounds

theorem ctidPairs_sorted (resume : TID) :
    (ctidPairs total n resume).Pairwise fun q q' => q.1.rank ≤ q'.1.rank := by
  rw [ctidPairs, List.pairwise_map, List.pairwise_filterMap]
  refine List.pairwise_lt_range.imp_of_mem ?_
  intro i j hi hj hij r hr s hs
  have hi' : (i : ℤ) < n.toInt := by have := List.mem_range.mp hi; omega
  have hj' : (j : ℤ) < n.toInt := by have := List.mem_range.mp hj; omega
  obtain ⟨-, hstop, hle⟩ := ctidSlice_some htotal htotal' hn hn' hi' hr
  obtain ⟨hstart, -, -⟩ := ctidSlice_some htotal htotal' hn hn' hj' hs
  -- the first of the two ends before the second of them starts
  have hmono : firstRank total n (i + 1) ≤ firstRank total n j := firstRank_mono hij
  show r.1.rank ≤ s.1.rank
  omega

theorem ctidPairs_covers (resume : TID) (hresume : 0 ≤ resumeRank resume) (x : ℤ) :
    Covers (PartitionHelper.pairBounds (ctidPairs total n resume)) x ↔
      resumeRank resume ≤ x ∧ x < total.toInt * 65536 := by
  have hfirst : firstRank total n 0 = 0 := by rw [firstRank, firstBlock_zero]; rfl
  have hlast : firstRank total n n.toInt.toNat = total.toInt * 65536 := by
    rw [firstRank, firstBlock_last hn, Int.toNat_of_nonneg (by omega)]
  constructor
  · rintro ⟨b, hb, hx⟩
    obtain ⟨q, hq, rfl⟩ := List.mem_map.mp hb
    obtain ⟨i, hi, r, hslice, rfl⟩ := mem_ctidPairs hq
    obtain ⟨hstart, hstop, -⟩ := ctidSlice_some htotal htotal' hn hn' hi hslice
    have hmono : firstRank total n (i + 1) ≤ firstRank total n n.toInt.toNat :=
      firstRank_mono (by omega)
    have hlo : r.1.rank ≤ x := hx.1
    have hhi : x ≤ r.2.rank := hx.2
    omega
  · rintro ⟨hlo, hhi⟩
    obtain ⟨i, hi, hfrom, hto⟩ := exists_slice (f := firstRank total n) (x := x)
      (by omega) (n := n.toInt.toNat) (by omega)
    have hi' : (i : ℤ) < n.toInt := by omega
    have hbounds := ctidSlice_bounds htotal htotal' hn hn' resume hi'
    cases hslice : ctidSlice total n resume (Int64.ofNat i) with
    | none =>
      rw [hslice] at hbounds
      exact absurd hto (hbounds x hlo hfrom)
    | some r =>
      rw [hslice] at hbounds
      obtain ⟨hstart, hstop, -⟩ := hbounds
      refine ⟨(r.1.rank, r.2.rank), ?_, ?_⟩
      · refine List.mem_map.mpr ⟨(r.1.asValid, r.2.asValid), ?_, rfl⟩
        exact List.mem_map.mpr ⟨r, List.mem_filterMap.mpr ⟨i, List.mem_range.mpr hi, hslice⟩, rfl⟩
      · exact ⟨by rw [hstart]; omega, by rw [hstop]; omega⟩

end Bounds

/-- The tuple ids from the resume point on are those after the last one. -/
theorem resumeFrom_rank {last : Option TID}
    (hlast : ∀ t ∈ last, t.blockNumber.toNat < 2 ^ 32 - 1) :
    0 ≤ resumeRank (resumeFrom (last.map .tid)) ∧ ∀ t : TID,
      resumeRank (resumeFrom (last.map .tid)) ≤ t.rank ↔ ∀ l ∈ last, tidCmp l t = .lt := by
  cases last with
  | none =>
    refine ⟨le_rfl, fun t => ⟨?_, fun _ => t.rank_nonneg⟩⟩
    intro _ l hl
    cases hl
  | some l =>
    obtain ⟨hvalid, hinc⟩ := tidInc_exact (hlast l rfl)
    have hrank : resumeRank (resumeFrom ((some l).map .tid)) = l.rank + 1 := by
      rw [← hinc]
      exact if_pos hvalid
    have hnonneg := l.rank_nonneg
    rw [hrank]
    refine ⟨by omega, fun t => ⟨?_, ?_⟩⟩
    · intro hle m hm
      obtain rfl := Option.mem_some_iff.mp hm
      exact (tidCmp_lt_iff _ t).mpr (by omega)
    · intro hlt
      have := (tidCmp_lt_iff l t).mp (hlt l rfl)
      omega

/-- The loop makes the calls for the slices that are not skipped. -/
theorem foldlM_slices {ι : Type} (g : ι → Option (TID × TID)) (w : Fault → Fault) (is : List ι) :
    ∀ p : PartitionHelper, is.foldlM (fun p i =>
        match g i with
        | none => .ok p
        | some (start, stop) =>
          (p.addPartition (some start.asValid) (some stop.asValid)).mapError w) p =
      (p.addPartitions ((is.filterMap g).map fun q => (q.1.asValid, q.2.asValid))).mapError w := by
  intro p
  have hbody : (fun (p : PartitionHelper) i =>
      match g i with
      | none => .ok p
      | some (start, stop) =>
        (p.addPartition (some start.asValid) (some stop.asValid)).mapError w) =
      fun p i => Except.mapError w (match g i with
        | some q => p.addPartition (some q.1.asValid) (some q.2.asValid)
        | none => pure p) := by
    funext p i
    cases g i <;> rfl
  rw [hbody, foldlM_mapError, PartitionHelper.addPartitions, List.foldlM_map,
    List.foldlM_filterMap]
  congr 2
  funext p i
  cases g i <;> rfl

/-- **Block partitioning is exact and resumable**: for every table of fewer than `2^32`
blocks, fewer than `2^31` partitions and every tuple id to resume after, the partitions
are apart and contain exactly the tuple ids of the table after that one; no product,
conversion or increment wraps around. -/
theorem ctidPartitionsForTable_exact (total n : Int64) (last : Option TID) (addNull : Bool)
    (htotal : 1 ≤ total.toInt) (htotal' : total.toInt < 2 ^ 32) (hn : 1 ≤ n.toInt)
    (hn' : n.toInt < 2 ^ 31) (hlast : ∀ t ∈ last, t.blockNumber.toNat < 2 ^ 32 - 1) :
    (∃ ranges : List PartitionRange,
      ctidPartitionsForTable (.ok total) ⟨last.map .tid, n, addNull⟩ =
        .ok (ranges.map QRepPartition.ofRange) ∧
      (∀ r ∈ ranges, r.Of .tid) ∧ Apart (ranges.map PartitionRange.bounds) ∧
      ∀ t : TID, Covers (ranges.map PartitionRange.bounds) t.rank ↔
        (t.blockNumber.toNat : ℤ) < total.toInt ∧ ∀ l ∈ last, tidCmp l t = .lt) ∧
    (∀ i : ℕ, (i : ℤ) < n.toInt →
      (Int64.ofNat i * total).toInt = i * total.toInt ∧
      ((Int64.ofNat i + 1) * total).toInt = (i + 1) * total.toInt ∧
      ((blockBound total n (Int64.ofNat i)).toNat : ℤ) = i * total.toInt / n.toInt ∧
      ((blockBound total n (Int64.ofNat i + 1)).toNat : ℤ) = (i + 1) * total.toInt / n.toInt) ∧
    ∀ l ∈ last, (tidInc l).rank = l.rank + 1 := by
  refine ⟨?_, ?_, fun l hl => (tidInc_exact (hlast l hl)).2⟩
  · obtain ⟨hnonneg, hafter⟩ := resumeFrom_rank hlast
    obtain ⟨p, ranges, hp, hholds, hcuts⟩ := PartitionHelper.addPartitions_cuts (k := .tid)
      (fun q hq => by obtain ⟨i, -, r, -, rfl⟩ := mem_ctidPairs hq; exact ⟨rfl, rfl⟩)
      (fun q hq => by
        obtain ⟨i, hi, r, hslice, rfl⟩ := mem_ctidPairs hq
        exact (ctidSlice_some htotal htotal' hn hn' hi hslice).2.2)
      (ctidPairs_sorted htotal htotal' hn hn' (resumeFrom (last.map .tid)))
    refine ⟨ranges, ?_, hholds.kind, hcuts.apart, ?_⟩
    · have hzero : total ≠ 0 := by
        rintro rfl
        exact absurd htotal (by decide)
      have hloop := foldlM_slices (fun i => ctidSlice total n (resumeFrom (last.map .tid))
        (Int64.ofNat i)) (.wrap "failed to add TID partition") (List.range n.toInt.toNat)
        PartitionHelper.new
      rw [← ctidPairs, hp] at hloop
      simp only [ctidPartitionsForTable, Except.mapError, bind, Except.bind, if_neg hzero, pure,
        Except.pure] at hloop ⊢
      rw [hloop]
      exact congrArg Except.ok hholds.partitions
    · intro t
      rw [hcuts.covers, ctidPairs_covers htotal htotal' hn hn' _ hnonneg, hafter, and_comm]
      refine and_congr_left' ?_
      have hblock := t.rank_lt_iff total.toInt.toNat
      omega
  · intro i hi
    obtain ⟨-, hmul, hbound⟩ := blockBound_exact htotal htotal' hn hn' hi.le
    obtain ⟨-, hmul', hbound'⟩ := blockBound_exact htotal htotal' hn hn' (i := i + 1) (by omega)
    rw [int64_ofNat_succ]
    exact ⟨hmul, by exact_mod_cast hmul', hbound, by exact_mod_cast hbound'⟩

/-- Three blocks in five partitions, resumed inside the second block. -/
theorem ctidPartitionsForTable_resumed :
    ∃ ranges : List PartitionRange,
      ctidPartitionsForTable (.ok 3) ⟨some (.tid ⟨1, 65535, true⟩), 5, false⟩ =
        .ok (ranges.map QRepPartition.ofRange) ∧
      Apart (ranges.map PartitionRange.bounds) ∧
      Covers (ranges.map PartitionRange.bounds) (TID.rank ⟨2, 0, true⟩) ∧
      ¬ Covers (ranges.map PartitionRange.bounds) (TID.rank ⟨1, 65535, true⟩) := by
  obtain ⟨ranges, hrun, -, hapart, hcovers⟩ := (ctidPartitionsForTable_exact 3 5
    (some ⟨1, 65535, true⟩) false (by decide) (by decide) (by decide) (by decide)
    (by decide)).1
  exact ⟨ranges, hrun, hapart, (hcovers _).mpr (by decide), mt (hcovers _).mp (by decide)⟩

end Blocks

end QRep
