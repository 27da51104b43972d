/-
Partitions of a collection by its `_id`s: ObjectIDs and strings (`objectIDPartitions`,
`stringPartitions`).

ObjectIDs are numbers of 96 bits.  Their range is split in uniform steps into closed
ranges, the last of which is cut at the greatest id.  Strings are split at quantiles of a
sample; the sample is sorted in the order of the database, which need not be the order of
the bytes, and the boundaries are only compared for equality.

* `objectIDLoop_splits` — the loop over the ObjectIDs;
* `pickBoundaries_exact` — the indices of the quantiles are inside the sample and
  strictly increasing;
* `idPartitions_exact` — both kinds of partitions have every id once.
-/
import PeerDB.QRep.StringPartition
import PeerDB.QRep.Math
import PeerDB.Mongo.Bson
import Mathlib.Data.Nat.Size
import Mathlib.Data.List.GetD

open Intervals BigEndian Mongo

namespace QRep

open List

/-- A `protos.QRepPartition` of any kind that is made here. -/
inductive IdPartition (S : Type)
  | whole (p : QRepPartition)
  | objectId (partitionId : PartitionId) (start stop : List Char)
  | string (p : StringPartition S)
deriving DecidableEq

/-! ### ObjectIDs -/

/-- `SetBytes` of the bytes. -/
def objectIDValue (oid : ObjectID) : ℕ := BigEndian.value (oid.bytes.map UInt8.toFin)

/-- `FillBytes` into 12 bytes. -/
def objectIDFill (n : ℕ) : ObjectID where
  bytes := (digits 256 12 n).map UInt8.ofFin
  length_eq := by rw [List.length_map, length_digits]

def bigIntToObjectID (n : ℤ) : Except String ObjectID :=
  if n.natAbs.size > 96 then .error "big.Int value exceeds 96 bits (ObjectID size)"
  else .ok (objectIDFill n.natAbs)

/-- A partition of ObjectIDs, which are written in hexadecimal. -/
def createObjectIdPartition (S : Type) (start stop : ObjectID) : IdPartition S :=
  .objectId .uuid (Encoding.hexEncode start.bytes) (Encoding.hexEncode stop.bytes)

/-- The loop, from the start of the next partition. -/
def objectIDLoop (S : Type) (maxInt step : ℤ) : ℕ → ℤ → Except Fault (List (IdPartition S))
  | 0, _ => .error .running
  | turns + 1, start =>
    if start ≤ maxInt then do
      let stop := start + step - 1
      let stop := if stop > maxInt then maxInt else stop
      let startObjectID ← (bigIntToObjectID start).mapError .error
      let endObjectID ← (bigIntToObjectID stop).mapError .error
      let partitions ← objectIDLoop S maxInt step turns (start + step)
      return createObjectIdPartition S startObjectID endObjectID :: partitions
    else .ok []

/-- `objectIDPartitions`.  Of the panics of `make` only the one for a negative size is kept. -/
def objectIDPartitions (S : Type) (turns : ℕ) (minID maxID : ObjectID) (numPartitions : Int64) :
    Except Fault (List (IdPartition S)) :=
  let minInt : ℤ := objectIDValue minID
  let maxInt : ℤ := objectIDValue maxID
  let intRange := maxInt - minInt
  if intRange ≤ 0 then .ok (fullTablePartition.map .whole)
  else if numPartitions.toInt = 0 then .error (.panic "division by zero")
  else
    let step := bigIntDivCeil intRange numPartitions.toInt
    if numPartitions < 0 then .error (.panic "runtime error: makeslice: cap out of range")
    else objectIDLoop S maxInt step turns minInt

/-! ### Strings -/

section Strings

variable {S : Type} [DecidableEq S]

/-- The sampled values that differ from both ends, each once and in order.  The values
that were `seen` are those in `interior`. -/
def interiorOf (minVal maxVal : S) (samples : List S) : List S :=
  samples.foldl (fun interior s =>
    if s = minVal ∨ s = maxVal then interior
    else if s ∈ interior then interior
    else interior ++ [s]) []

/-- The position of the `i`-th quantile. -/
def quantileIndex (len numPartitions i : Int64) : Int64 :=
  let idx := i * len / numPartitions
  if idx ≥ len then len - 1 else idx

/-- Evenly spaced boundaries, at most one less than there are partitions. -/
def pickBoundaries (interior : List S) (numPartitions : Int64) : Except Fault (List S) :=
  let desiredBoundaries := numPartitions - 1
  if Int64.ofNat interior.length ≤ desiredBoundaries then .ok interior
  else if desiredBoundaries < 0 then .error (.panic "runtime error: makeslice: cap out of range")
  else (List.range desiredBoundaries.toInt.toNat).mapM fun j =>
    let idx := quantileIndex (Int64.ofNat interior.length) numPartitions (Int64.ofNat (j + 1))
    match if idx < 0 then none else interior[idx.toInt.toNat]? with
    | some s => .ok s
    | none => .error (.panic "runtime error: index out of range")

def computeStringBoundaries (minVal maxVal : S) (samples : List S) (numPartitions : Int64) :
    Except Fault (List (S × S)) := do
  let picked ← pickBoundaries (interiorOf minVal maxVal samples) numPartitions
  return List.zip (minVal :: picked) (picked ++ [maxVal])

/-- The partitions for the ranges: only the last one is inclusive. -/
def stringRangePartitions (ranges : List (S × S)) : List (StringPartition S) :=
  ranges.mapIdx fun i r => createStringPartition r.1 r.2 (i == ranges.length - 1)

end Strings

/-- `stringPartitions`, for the result of `sampleStringIDs`.  The ends are compared byte by
byte. -/
def stringPartitions (minVal maxVal : ByteString)
    (sampleStringIDs : Except String (List ByteString)) (numPartitions : Int64) :
    Except Fault (List (IdPartition ByteString)) := do
  if minVal ≥ maxVal then
    return fullTablePartition.map .whole
  let samples ← sampleStringIDs.mapError .error
  let ranges ← computeStringBoundaries minVal maxVal samples numPartitions
  if ranges.length < 2 then
    return fullTablePartition.map .whole
  return (stringRangePartitions ranges).map .string

/-! ### ObjectIDs are numbers -/

theorem objectIDValue_lt (oid : ObjectID) : objectIDValue oid < 2 ^ 96 := by
  have hlt := value_lt (oid.bytes.map UInt8.toFin)
  rwa [length_map, oid.length_eq] at hlt

theorem objectIDValue_fill {n : ℕ} (hn : n < 2 ^ 96) : objectIDValue (objectIDFill n) = n := by
  rw [objectIDValue, objectIDFill, map_map]
  show BigEndian.value (List.map id _) = n
  rw [map_id]
  exact value_digits hn

theorem objectIDFill_value (oid : ObjectID) : objectIDFill (objectIDValue oid) = oid := by
  obtain ⟨bytes, hlen⟩ := oid
  have hdigits := digits_value (bytes.map UInt8.toFin)
  rw [length_map, hlen] at hdigits
  rw [objectIDFill, ObjectID.mk.injEq, objectIDValue]
  show (digits UInt8.size 12 _).map UInt8.ofFin = bytes
  rw [hdigits, map_map]
  exact map_id bytes

theorem bigIntToObjectID_exact {n : ℕ} (hn : n < 2 ^ 96) :
    bigIntToObjectID n = .ok (objectIDFill n) := by
  have hsize : ¬ n.size > 96 := by
    rw [not_lt, Nat.size_le]
    exact hn
  rw [bigIntToObjectID, Int.natAbs_natCast, if_neg hsize]

/-! ### The ranges of ObjectIDs -/

/-- Ranges of numbers as partitions. -/
def idPartitionsOf (S : Type) (rs : List (ℕ × ℕ)) : List (IdPartition S) :=
  rs.map fun r => createObjectIdPartition S (objectIDFill r.1) (objectIDFill r.2)

/-- Closed ranges of numbers from `a` to `b`, each of which starts right after the one
before it. -/
structure Consecutive (a b : ℕ) (rs : List (ℕ × ℕ)) : Prop where
  first : rs.head?.map Prod.fst = some a
  last : rs.getLast?.map Prod.snd = some b
  next : rs.IsChain fun r s => r.2 + 1 = s.1
  apart : Apart rs
  covers : ∀ x, Covers rs x ↔ a ≤ x ∧ x ≤ b

theorem Consecutive.single {a b : ℕ} (hab : a ≤ b) : Consecutive a b [(a, b)] where
  first := rfl
  last := rfl
  next := isChain_singleton _
  apart := ⟨by simpa using hab, pairwise_singleton _ _⟩
  covers _ := covers_singleton

theorem Consecutive.cons {a b c : ℕ} {rs : List (ℕ × ℕ)} (h : Consecutive (c + 1) b rs)
    (hac : a ≤ c) (hcb : c < b) : Consecutive a b ((a, c) :: rs) where
  first := rfl
  last := by
    obtain ⟨r, rs, rfl⟩ : ∃ r rs', rs = r :: rs' := by
      cases rs with
      | nil => cases h.first
      | cons r rs => exact ⟨r, rs, rfl⟩
    exact h.last
  next := by
    cases rs with
    | nil => exact isChain_singleton _
    | cons r rs =>
      have hstart : r.1 = c + 1 := Option.some.inj h.first
      exact isChain_cons_cons.mpr ⟨hstart.symm, h.next⟩
  apart := by
    refine ⟨forall_mem_cons.mpr ⟨hac, h.apart.le⟩, pairwise_cons.mpr ⟨?_, h.apart.lt⟩⟩
    intro s hs
    have hstart := ((h.covers s.1).mp ⟨s, hs, le_rfl, h.apart.le s hs⟩).1
    exact hstart
  covers x := by
    rw [covers_cons, h.covers x, Contains]
    dsimp only
    omega

/-- One turn: a range up to the next start, cut at the end. -/
theorem objectIDLoop_turn (S : Type) {a b step turns : ℕ} {partitions : List (IdPartition S)}
    (hb : b < 2 ^ 96) (hstep : 1 ≤ step) (hab : a ≤ b)
    (hrest : objectIDLoop S b step turns ((a + step : ℕ) : ℤ) = .ok partitions) :
    objectIDLoop S b step (turns + 1) a = .ok (createObjectIdPartition S (objectIDFill a)
      (objectIDFill (min (a + step - 1) b)) :: partitions) := by
  have hstop : (if (a : ℤ) + step - 1 > b then (b : ℤ) else a + step - 1) =
      ((min (a + step - 1) b : ℕ) : ℤ) := by
    split_ifs with hover <;> omega
  rw [Nat.cast_add] at hrest
  rw [objectIDLoop, if_pos (by omega)]
  dsimp only
  rw [hstop, bigIntToObjectID_exact (hab.trans_lt hb),
    bigIntToObjectID_exact ((min_le_right _ _).trans_lt hb)]
  show (objectIDLoop S b step turns _ >>= _) = _
  rw [hrest]
  rfl

/-- If `m` steps go beyond the end, the loop leaves after at most `m` partitions. -/
theorem objectIDLoop_splits (S : Type) {b step : ℕ} (hb : b < 2 ^ 96) (hstep : 1 ≤ step) :
    ∀ {m a : ℕ}, a ≤ b → b - a < m * step →
      ∃ rs : List (ℕ × ℕ), (∀ turns, m + 1 ≤ turns →
          objectIDLoop S b step turns a = .ok (idPartitionsOf S rs)) ∧
        Consecutive a b rs ∧ (∀ r ∈ rs, r.2 ≤ b) ∧ rs.length ≤ m := by
  intro m
  induction m with
  | zero =>
    intro a _ hreach
    omega
  | succ m ih =>
    intro a hab hreach
    rcases le_or_gt b (a + step - 1) with hlast | hmore
    · -- the last range is cut at the end
      refine ⟨[(a, b)], ?_, .single hab, by simp, by simp⟩
      intro turns hturns
      obtain ⟨turns, rfl⟩ : ∃ t, turns = t + 2 := ⟨turns - 2, by omega⟩
      have hdone : objectIDLoop S b step (turns + 1) ((a + step : ℕ) : ℤ) = .ok [] := by
        rw [objectIDLoop, if_neg (by omega)]
      rw [objectIDLoop_turn S hb hstep hab hdone, min_eq_right hlast]
      rfl
    · have hrest : b - (a + step) < m * step := by
        rw [Nat.add_mul, one_mul] at hreach
        omega
      obtain ⟨rs, hrun, hcons, hbound, hlen⟩ := ih (show a + step ≤ b by omega) hrest
      rw [show a + step = a + step - 1 + 1 by omega] at hcons
      refine ⟨(a, a + step - 1) :: rs, ?_, hcons.cons (by omega) hmore, ?_, ?_⟩
      · intro turns hturns
        obtain ⟨turns, rfl⟩ : ∃ t, turns = t + 1 := ⟨turns - 1, by omega⟩
        rw [objectIDLoop_turn S hb hstep hab (hrun turns (by omega)), min_eq_left hmore.le]
        rfl
      · exact forall_mem_cons.mpr ⟨hmore.le, hbound⟩
      · rw [length_cons]
        omega

theorem objectIDPartitions_consecutive (S : Type) {minID maxID : ObjectID}
    (hlt : objectIDValue minID < objectIDValue maxID) {numPartitions : Int64}
    (hn : 1 ≤ numPartitions.toInt) :
    ∃ rs : List (ℕ × ℕ), (∀ turns : ℕ, numPartitions.toInt + 2 ≤ turns →
        objectIDPartitions S turns minID maxID numPartitions = .ok (idPartitionsOf S rs)) ∧
      Consecutive (objectIDValue minID) (objectIDValue maxID) rs ∧
      (∀ r ∈ rs, r.2 < 2 ^ 96) ∧ (rs.length : ℤ) ≤ numPartitions.toInt + 1 := by
  have hb := objectIDValue_lt maxID
  obtain ⟨hstep, hreach⟩ := bigIntDivCeil_reaches
    (d := (objectIDValue maxID : ℤ) - objectIDValue minID) (by omega) hn
  obtain ⟨step, hstep⟩ := Int.eq_ofNat_of_zero_le hstep
  obtain ⟨m, hm⟩ := Int.eq_ofNat_of_zero_le (by omega : 0 ≤ numPartitions.toInt)
  rw [hstep, hm, ← Nat.cast_mul] at hreach
  have hpos : 1 ≤ step := by
    rcases Nat.eq_zero_or_pos step with rfl | hpos
    · rw [Nat.mul_zero] at hreach
      omega
    · exact hpos
  obtain ⟨rs, hrun, hcons, hbound, hlen⟩ := objectIDLoop_splits S hb hpos hlt.le
    (show objectIDValue maxID - objectIDValue minID < (m + 1) * step by
      rw [Nat.add_mul, one_mul]; omega)
  refine ⟨rs, ?_, hcons, fun r hr => (hbound r hr).trans_lt hb, by omega⟩
  intro turns hturns
  have hrange : ¬ (objectIDValue maxID : ℤ) - objectIDValue minID ≤ 0 := by omega
  have hneg : ¬ numPartitions < 0 := by
    rw [Int64.lt_iff_toInt_lt, show (0 : Int64).toInt = 0 from rfl]
    omega
  rw [objectIDPartitions]
  dsimp only
  rw [if_neg hrange, if_neg (by omega), if_neg hneg, hstep]
  exact hrun turns (by omega)

/-! ### Boundaries between strings -/

section Boundaries

variable {S : Type} [LinearOrder S] {lo hi : S}

/-- The values of a sorted sample that are kept are strictly increasing and strictly
between the ends. -/
theorem interiorOf_sorted {samples : List S} (hsorted : samples.Pairwise (· ≤ ·))
    (hrange : ∀ s ∈ samples, lo ≤ s ∧ s ≤ hi) :
    (interiorOf lo hi samples).Pairwise (· < ·) ∧
      (∀ s ∈ interiorOf lo hi samples, lo < s ∧ s < hi ∧ s ∈ samples) ∧
      (interiorOf lo hi samples).length ≤ samples.length := by
  induction samples using List.reverseRecOn with
  | nil => exact ⟨List.Pairwise.nil, by simp [interiorOf], by simp [interiorOf]⟩
  | append_singleton samples s ih =>
    obtain ⟨hbefore, -, hlast⟩ := pairwise_append.mp hsorted
    obtain ⟨hpair, hmem, hlen⟩ := ih hbefore fun t ht => hrange t (mem_append_left _ ht)
    obtain ⟨hlo, hhi⟩ := hrange s mem_concat_self
    have hold : ∀ t ∈ interiorOf lo hi samples, lo < t ∧ t < hi ∧ t ∈ samples ++ [s] :=
      fun t ht => ⟨(hmem t ht).1, (hmem t ht).2.1, mem_append_left _ (hmem t ht).2.2⟩
    rw [interiorOf, foldl_concat, ← interiorOf, length_append]
    split_ifs with hend hseen
    · exact ⟨hpair, hold, hlen.trans (Nat.le_add_right _ _)⟩
    · exact ⟨hpair, hold, hlen.trans (Nat.le_add_right _ _)⟩
    · rw [not_or] at hend
      refine ⟨pairwise_append.mpr ⟨hpair, pairwise_singleton _ _, ?_⟩, ?_, ?_⟩
      · intro t ht u hu
        rw [mem_singleton.mp hu]
        refine lt_of_le_of_ne (hlast t (hmem t ht).2.2 s mem_cons_self) ?_
        rintro rfl
        exact hseen ht
      · intro t ht
        rcases mem_append.mp ht with ht | ht
        · exact hold t ht
        · rw [mem_singleton.mp ht]
          exact ⟨lt_of_le_of_ne hlo (Ne.symm hend.1), lt_of_le_of_ne hhi hend.2,
            mem_concat_self⟩
      · rw [length_append]
        exact Nat.add_le_add_right hlen 1

/-- The product does not wrap, and the index is inside without the correction. -/
theorem quantileIndex_exact {len : ℕ} (i : ℕ) {numPartitions : Int64}
    (hi : (i : ℤ) < numPartitions.toInt)
    (hmore : numPartitions.toInt ≤ len) (hlen : len < 2 ^ 31) :
    (quantileIndex (Int64.ofNat len) numPartitions (Int64.ofNat i)).toInt =
      i * len / numPartitions.toInt := by
  have hleni : (Int64.ofNat len).toInt = len := Int64.toInt_ofNat_of_lt (by omega)
  have hii : (Int64.ofNat i).toInt = i := Int64.toInt_ofNat_of_lt (by omega)
  have hprod : (i : ℤ) * len < 2 ^ 63 := by
    calc (i : ℤ) * len ≤ 2 ^ 31 * 2 ^ 31 :=
          Int.mul_le_mul (by omega) (by omega) (by omega) (by omega)
      _ < 2 ^ 63 := by decide
  have hpos : 0 ≤ (i : ℤ) * len := Int.mul_nonneg (by omega) (by omega)
  have hmul : (Int64.ofNat i * Int64.ofNat len).toInt = i * len := by
    rw [Int64.toInt_mul_of_fits] <;> rw [hii, hleni] <;> omega
  have hdiv : (Int64.ofNat i * Int64.ofNat len / numPartitions).toInt =
      i * len / numPartitions.toInt := by
    rw [Int64.toInt_div_of_nonneg (by omega) (by omega), hmul]
  have hinside : (i : ℤ) * len / numPartitions.toInt < len := by
    apply Int.ediv_lt_of_lt_mul (by omega)
    rw [mul_comm (len : ℤ)]
    exact Int.mul_lt_mul_of_pos_right hi (by omega)
  rw [quantileIndex, if_neg, hdiv]
  rw [ge_iff_le, Int64.le_iff_toInt_le, hdiv, hleni]
  omega

/-- **The boundaries are picked in order.**  There are fewer of them than partitions. -/
theorem pickBoundaries_exact {interior : List S} (hlen : interior.length < 2 ^ 31)
    {numPartitions : Int64} (hn : 1 ≤ numPartitions.toInt) (hpair : interior.Pairwise (· < ·)) :
    ∃ picked, pickBoundaries interior numPartitions = .ok picked ∧ picked.Pairwise (· < ·) ∧
      (∀ s ∈ picked, s ∈ interior) ∧ picked.length + 1 ≤ numPartitions.toInt := by
  have hlimit := numPartitions.toInt_lt
  have hdesired : (numPartitions - 1).toInt = numPartitions.toInt - 1 := by
    rw [Int64.toInt_sub_of_fits] <;> rw [show (1 : Int64).toInt = 1 from rfl] <;> omega
  have hlength : (Int64.ofNat interior.length).toInt = interior.length :=
    Int64.toInt_ofNat_of_lt (by omega)
  rw [pickBoundaries]
  dsimp only
  split_ifs with hfew hneg
  · rw [Int64.le_iff_toInt_le, hdesired, hlength] at hfew
    exact ⟨interior, rfl, hpair, fun s hs => hs, by omega⟩
  · rw [Int64.lt_iff_toInt_lt, hdesired, show (0 : Int64).toInt = 0 from rfl] at hneg
    omega
  · rw [Int64.le_iff_toInt_le, hdesired, hlength] at hfew
    obtain ⟨n, hn'⟩ := Int.eq_ofNat_of_zero_le (by omega : 0 ≤ numPartitions.toInt)
    rw [hdesired, hn']
    -- the index of a quantile, as a number
    have hidx : ∀ j, j + 1 < n → (j + 1) * interior.length / n < interior.length := by
      intro j hj
      refine Nat.div_lt_of_lt_mul ?_
      exact Nat.mul_lt_mul_of_pos_right hj (by omega)
    obtain ⟨d, hd⟩ : ∃ d, d ∈ interior := exists_mem_of_length_pos (by omega)
    refine ⟨(List.range ((n : ℤ) - 1).toNat).map fun j =>
      interior.getD ((j + 1) * interior.length / n) d, ?_, ?_, ?_, ?_⟩
    · refine Loop.mapM_eq_ok fun j hj => ?_
      have hj : j + 1 < n := by have := mem_range.mp hj; omega
      have hexact :=
        quantileIndex_exact (j + 1) (show ((j + 1 : ℕ) : ℤ) < numPartitions.toInt by omega)
        (by omega) hlen
      rw [hn', ← Nat.cast_mul, ← Int.natCast_ediv] at hexact
      have hsign : ¬ quantileIndex (Int64.ofNat interior.length) numPartitions
          (Int64.ofNat (j + 1)) < 0 := by
        rw [Int64.lt_iff_toInt_lt, hexact]
        exact Int.not_lt.mpr (Int.natCast_nonneg _)
      rw [if_neg hsign, hexact, Int.toNat_natCast, getElem?_eq_getElem (hidx j hj),
        getD_eq_getElem _ _ (hidx j hj)]
    · rw [pairwise_map]
      refine pairwise_lt_range.imp_of_mem ?_
      intro i j hi hj hij
      have hi : i + 1 < n := by have := mem_range.mp hi; omega
      have hj : j + 1 < n := by have := mem_range.mp hj; omega
      rw [getD_eq_getElem _ _ (hidx i hi), getD_eq_getElem _ _ (hidx j hj)]
      refine pairwise_iff_getElem.mp hpair _ _ _ _ ?_
      -- consecutive quantiles are at least a whole index apart
      calc (i + 1) * interior.length / n < ((i + 1) * interior.length + n) / n := by
            rw [Nat.add_div_right _ (by omega)]
            omega
        _ ≤ (j + 1) * interior.length / n := by
            refine Nat.div_le_div_right ?_
            calc (i + 1) * interior.length + n ≤ (i + 1 + 1) * interior.length := by
                  rw [Nat.add_mul (i + 1), one_mul]
                  omega
              _ ≤ (j + 1) * interior.length := Nat.mul_le_mul_right _ (by omega)
    · intro s hs
      obtain ⟨j, hj, rfl⟩ := mem_map.mp hs
      rw [getD_eq_getElem _ _ (hidx j (by have := mem_range.mp hj; omega))]
      exact getElem_mem _
    · rw [length_map, length_range]
      omega

omit [LinearOrder S] in
/-- Ranges between neighbouring boundaries. -/
theorem joined_zip (hi : S) : ∀ (lo : S) (picked : List S),
    Joined lo hi (List.zip (lo :: picked) (picked ++ [hi])) := by
  intro lo picked
  induction picked generalizing lo with
  | nil => exact .last lo hi
  | cons p picked ih => exact .cons lo (ih p)

theorem zip_lt : ∀ {picked : List S} {lo : S}, picked.Pairwise (· < ·) →
    (∀ s ∈ picked, lo < s ∧ s < hi) → lo < hi →
    ∀ r ∈ List.zip (lo :: picked) (picked ++ [hi]), r.1 < r.2 := by
  intro picked
  induction picked with
  | nil =>
    intro lo _ _ hlt r hr
    rw [mem_singleton.mp hr]
    exact hlt
  | cons p picked ih =>
    intro lo hpair hbetween hlt
    obtain ⟨hafter, hrest⟩ := pairwise_cons.mp hpair
    refine forall_mem_cons.mpr ⟨(hbetween p mem_cons_self).1, ?_⟩
    exact ih hrest (fun s hs => ⟨hafter s hs, (hbetween s (mem_cons_of_mem p hs)).2⟩)
      (hbetween p mem_cons_self).2

end Boundaries

/-- **Strings between the ends are selected once.**  The sample is sorted in some linear
order and lies between the ends; the caller asks for at most 100000 values. -/
theorem computeStringBoundaries_cover {S : Type} [LinearOrder S] {lo hi : S} {samples : List S}
    (hlohi : lo ≤ hi) (hsorted : samples.Pairwise (· ≤ ·))
    (hrange : ∀ s ∈ samples, lo ≤ s ∧ s ≤ hi) (hlen : samples.length < 2 ^ 31)
    {numPartitions : Int64} (hn : 1 ≤ numPartitions.toInt) :
    ∃ ranges, computeStringBoundaries lo hi samples numPartitions = .ok ranges ∧
      ranges.length ≤ numPartitions.toInt ∧ StringCover lo hi (stringRangePartitions ranges) := by
  obtain ⟨hpair, hmem, hfewer⟩ := interiorOf_sorted hsorted hrange
  obtain ⟨picked, hpick, hpicked, hsub, hcount⟩ :=
    pickBoundaries_exact (hfewer.trans_lt hlen) hn hpair
  have hbetween : ∀ s ∈ picked, lo < s ∧ s < hi :=
    fun s hs => ⟨(hmem s (hsub s hs)).1, (hmem s (hsub s hs)).2.1⟩
  refine ⟨List.zip (lo :: picked) (picked ++ [hi]), ?_, ?_, ?_⟩
  · rw [computeStringBoundaries, hpick]
    rfl
  · rw [length_zip, length_cons, length_append, length_singleton, min_self]
    exact_mod_cast hcount
  · have hlt := fun h => zip_lt hpicked hbetween h
    rw [stringRangePartitions,
      mapIdx_last fun (r : S × S) closed => createStringPartition r.1 r.2 closed]
    refine covers_of_joined (joined_zip hi lo picked) ?_ hlt
    rcases hlohi.lt_or_eq with h | rfl
    · exact fun r hr => (hlt h r hr).le
    · -- one value: nothing is strictly between the ends
      have hnone : picked = [] :=
        eq_nil_iff_forall_not_mem.mpr fun s hs =>
          absurd ((hbetween s hs).1.trans (hbetween s hs).2) (lt_irrefl _)
      rw [hnone]
      intro r hr
      rw [mem_singleton.mp hr]

/-- In the order of the bytes, which is the one of collections without a collation, the
partitions are one for the whole collection or a cover. -/
theorem stringPartitions_cover {minVal maxVal : ByteString} {samples : List ByteString}
    (hsorted : samples.Pairwise (· ≤ ·)) (hrange : ∀ s ∈ samples, minVal ≤ s ∧ s ≤ maxVal)
    (hlen : samples.length < 2 ^ 31) {numPartitions : Int64} (hn : 1 ≤ numPartitions.toInt) :
    stringPartitions minVal maxVal (.ok samples) numPartitions =
        .ok (fullTablePartition.map .whole) ∨
      ∃ parts, stringPartitions minVal maxVal (.ok samples) numPartitions =
          .ok (parts.map .string) ∧ StringCover minVal maxVal parts := by
  by_cases hempty : minVal ≥ maxVal
  · refine .inl ?_
    rw [stringPartitions, if_pos hempty]
    rfl
  · obtain ⟨ranges, hranges, -, hcover⟩ :=
      computeStringBoundaries_cover (not_le.mp hempty).le hsorted hrange hlen hn
    have hrun : stringPartitions minVal maxVal (.ok samples) numPartitions =
        if ranges.length < 2 then .ok (fullTablePartition.map .whole)
        else .ok ((stringRangePartitions ranges).map .string) := by
      rw [stringPartitions, if_neg hempty]
      show (computeStringBoundaries minVal maxVal samples numPartitions >>= _) = _
      -- equality of byte strings is decided in one way only
      have hranges' : computeStringBoundaries minVal maxVal samples numPartitions = .ok ranges := by
        convert hranges
      rw [hranges']
      rfl
    rw [hrun]
    split_ifs
    · exact .inl rfl
    · exact .inr ⟨stringRangePartitions ranges, rfl, hcover⟩

/-- **Partitions by `_id` have every id once.**  ObjectIDs: consecutive closed ranges of
96-bit numbers from the least to the greatest id, one more than asked for at most, and no
conversion fails.  Strings: at most as many ranges as asked for, joined at their ends and
strictly increasing, the last one closed. -/
theorem idPartitions_exact {numPartitions : Int64} (hn : 1 ≤ numPartitions.toInt) :
    (∀ (S : Type) (minID maxID : ObjectID), objectIDValue minID < objectIDValue maxID →
      ∃ ids : List (ObjectID × ObjectID), (∀ turns : ℕ, numPartitions.toInt + 2 ≤ turns →
          objectIDPartitions S turns minID maxID numPartitions =
            .ok (ids.map fun r => createObjectIdPartition S r.1 r.2)) ∧
        ids.head?.map Prod.fst = some minID ∧ ids.getLast?.map Prod.snd = some maxID ∧
        (ids.IsChain fun r s => objectIDValue r.2 + 1 = objectIDValue s.1) ∧
        (∀ x, (ids.countP fun r => decide (objectIDValue r.1 ≤ x ∧ x ≤ objectIDValue r.2)) =
          if objectIDValue minID ≤ x ∧ x ≤ objectIDValue maxID then 1 else 0) ∧
        (ids.length : ℤ) ≤ numPartitions.toInt + 1) ∧
    ∀ (S : Type) [LinearOrder S] (lo hi : S) (samples : List S), lo ≤ hi →
      samples.Pairwise (· ≤ ·) → (∀ s ∈ samples, lo ≤ s ∧ s ≤ hi) → samples.length < 2 ^ 31 →
      ∃ ranges, computeStringBoundaries lo hi samples numPartitions = .ok ranges ∧
        ranges.length ≤ numPartitions.toInt ∧
        StringCover lo hi (stringRangePartitions ranges) := by
  constructor
  · intro S minID maxID hlt
    obtain ⟨rs, hrun, hcons, hbound, hlen⟩ := objectIDPartitions_consecutive S hlt hn
    obtain ⟨ids, hids⟩ : ∃ ids, rs.map (fun r => (objectIDFill r.1, objectIDFill r.2)) = ids :=
      ⟨_, rfl⟩
    -- the ids have the values of the ranges
    have hvalues : ids.map (fun r => (objectIDValue r.1, objectIDValue r.2)) = rs := by
      rw [← hids, map_map]
      refine Eq.trans (map_congr_left fun r hr => ?_) (map_id rs)
      have hr₂ := hbound r hr
      have hr₁ := (hcons.apart.le r hr).trans_lt hr₂
      show (objectIDValue (objectIDFill r.1), objectIDValue (objectIDFill r.2)) = r
      rw [objectIDValue_fill hr₁, objectIDValue_fill hr₂]
    refine ⟨ids, ?_, ?_, ?_, ?_, ?_, ?_⟩
    · intro turns hturns
      rw [hrun turns hturns, idPartitionsOf, ← hids, map_map]
      rfl
    · have hfirst := congrArg (Option.map objectIDFill) hcons.first
      rw [Option.map_some, objectIDFill_value] at hfirst
      rw [← hids, head?_map, Option.map_map, ← hfirst, Option.map_map]
      rfl
    · have hlast := congrArg (Option.map objectIDFill) hcons.last
      rw [Option.map_some, objectIDFill_value] at hlast
      rw [← hids, getLast?_map, Option.map_map, ← hlast, Option.map_map]
      rfl
    · have hchain := hcons.next
      rw [← hvalues, isChain_map] at hchain
      exact hchain
    · intro x
      have hcount := hcons.apart.count x
      rw [← hvalues, countP_map] at hcount
      refine Eq.trans hcount ?_
      rw [hvalues]
      simp only [hcons.covers x]
    · rw [← hids, length_map]
      exact hlen
  · intro S _ lo hi samples hlohi hsorted hrange hlen
    exact computeStringBoundaries_cover hlohi hsorted hrange hlen hn

theorem idPartitions_three :
    (∃ ids : List (ObjectID × ObjectID),
      objectIDPartitions ByteString 5 (objectIDFill 5) (objectIDFill 9) 3 =
        .ok (ids.map fun r => createObjectIdPartition ByteString r.1 r.2) ∧
      ids.length ≤ (4 : ℤ)) ∧
    ∃ ranges : List (ℕ × ℕ), computeStringBoundaries 1 9 [1, 2, 2, 5, 7, 8, 9] 3 = .ok ranges ∧
      StringCover 1 9 (stringRangePartitions ranges) := by
  obtain ⟨hids, hstrings⟩ := idPartitions_exact (show 1 ≤ (3 : Int64).toInt by decide)
  obtain ⟨ids, hrun, -, -, -, -, hlen⟩ := hids ByteString (objectIDFill 5) (objectIDFill 9)
    (by rw [objectIDValue_fill (by decide), objectIDValue_fill (by decide)]; decide)
  obtain ⟨ranges, hranges, -, hcover⟩ :=
    hstrings ℕ 1 9 [1, 2, 2, 5, 7, 8, 9] (by decide) (by decide) (by decide) (by decide)
  exact ⟨⟨ids, hrun 5 (by decide), hlen⟩, ranges, hranges, hcover⟩

end QRep
