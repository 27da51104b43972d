/-
Partitions of a watermark column (`connectors/utils/partition.go`).

`AddPartition` takes the ranges of a column one after the other, in the order of their
starts, and keeps them apart: a range inside the previous one is skipped, and one that
overlaps it starts one unit later than the previous end.  One unit is 1 for integers, a
microsecond for timestamps, and the next offset or the first offset of the next block
for tuple ids.

Values of one kind are numbered by `Value.rank`, and the helper is followed on these
numbers:

* `addPartition_cut` — `AddPartition` does to the partitions what `Intervals.cut` does
  to the numbers;
* `addPartition_exact_cover` — so the partitions of a sorted sequence of ranges are
  apart, have exactly the values of the ranges, and no start wraps around.

Partition ids are random and nothing here reads them.
-/
import PeerDB.Lib.Intervals
import PeerDB.Lib.Loop
import PeerDB.Model.Time
import Mathlib.Data.Int.SuccPred

open Loop Intervals GoTime

namespace QRep

open List

/-! ### Values and ranges -/

/-- How a function fails to give a result: with an error, with a panic, or not within
the number of turns it was given. -/
inductive Fault
  | error (msg : String)
  | panic (msg : String)
  | running
deriving DecidableEq, Repr

/-- `fmt.Errorf("…: %w", err)`: only errors are wrapped. -/
def Fault.wrap (text : String) : Fault → Fault
  | .error msg => .error (text ++ ": " ++ msg)
  | f => f

structure TID where
  blockNumber : UInt32
  offsetNumber : UInt16
  valid : Bool
deriving DecidableEq

/-- `protos.TID`. -/
structure ProtoTID where
  blockNumber : UInt32
  offsetNumber : UInt32
deriving DecidableEq

/-- A value of type `any` that is not nil. -/
inductive Value
  | int64 (v : Int64)
  | uint64 (v : UInt64)
  | int32 (v : Int32)
  | uint32 (v : UInt32)
  | int16 (v : Int16)
  | uint16 (v : UInt16)
  | int8 (v : Int8)
  | uint8 (v : UInt8)
  | time (v : Time)
  | tid (v : TID)
  | other (type : String)
deriving DecidableEq

/-- The type of the value, as `%T` prints it. -/
def Value.typeName : Value → String
  | .int64 _ => "int64"
  | .uint64 _ => "uint64"
  | .int32 _ => "int32"
  | .uint32 _ => "uint32"
  | .int16 _ => "int16"
  | .uint16 _ => "uint16"
  | .int8 _ => "int8"
  | .uint8 _ => "uint8"
  | .time _ => "time.Time"
  | .tid _ => "pgtype.TID"
  | .other type => type

inductive PartitionRange
  | intRange (start stop : Int64)
  | uintRange (start stop : UInt64)
  | timestampRange (start stop : Timestamp)
  | tidRange (start stop : ProtoTID)
  | numericRange (start stop : Int64) (endInclusive : Bool)
  | nullRange
deriving DecidableEq

/-- An id that is fixed, or one that `uuid.NewString` made. -/
inductive PartitionId
  | uuid
  | named (id : String)
deriving DecidableEq

structure QRepPartition where
  partitionId : PartitionId
  range : Option PartitionRange
  fullTablePartition : Bool
deriving DecidableEq

def fullTablePartitionID : String := "full-table-partition-id"

def fullTablePartition : List QRepPartition :=
  [{ partitionId := .named fullTablePartitionID, range := none, fullTablePartition := true }]

/-- A partition with a random id and this range. -/
def QRepPartition.ofRange (r : PartitionRange) : QRepPartition :=
  { partitionId := .uuid, range := some r, fullTablePartition := false }

def createIntPartition (start stop : Int64) : QRepPartition :=
  .ofRange (.intRange start stop)

def createUIntPartition (start stop : UInt64) : QRepPartition :=
  .ofRange (.uintRange start stop)

def createTimePartition (start stop : Time) : QRepPartition :=
  .ofRange (.timestampRange (Timestamp.new start) (Timestamp.new stop))

/-- The tuple id as a message, without the validity flag. -/
def TID.toProto (t : TID) : ProtoTID := ⟨t.blockNumber, t.offsetNumber.toUInt32⟩

def createTIDPartition (start stop : TID) : QRepPartition :=
  .ofRange (.tidRange start.toProto stop.toProto)

def createNumericPartition (start stop : Int64) (endInclusive : Bool) : QRepPartition :=
  .ofRange (.numericRange start stop endInclusive)

/-! ### Tuple ids -/

def ProtoTID.compare (a b : ProtoTID) : Ordering :=
  match cmpCompare a.blockNumber b.blockNumber with
  | .eq => cmpCompare a.offsetNumber b.offsetNumber
  | c => c

/-- The tuple id after this one. -/
def ProtoTID.next (t : ProtoTID) : ProtoTID :=
  if t.offsetNumber < 0xFFFF then ⟨t.blockNumber, t.offsetNumber + 1⟩
  else ⟨t.blockNumber + 1, 0⟩

/-- The tuple id of a message, with the offset cut to 16 bits. -/
def ProtoTID.toTID (t : ProtoTID) : TID := ⟨t.blockNumber, t.offsetNumber.toUInt16, false⟩

/-! ### The helper -/

structure PartitionHelper where
  prevStart : Option Value
  prevEnd : Option Value
  partitions : List QRepPartition
deriving DecidableEq

namespace PartitionHelper

/-- `NewPartitionHelper`. -/
def new : PartitionHelper := ⟨none, none, []⟩

/-- A type assertion without a second result. -/
def assertType (want : String) (v : Value) : Fault :=
  .panic ("interface conversion: interface \x7b\x7d is " ++ v.typeName ++ ", not " ++ want)

/-- `getPartitionForStartAndEnd`: the type of the start decides, and the end must have
the same one. -/
def getPartitionForStartAndEnd (start stop : Option Value) :
    Except Fault (Option QRepPartition) :=
  match start, stop with
  | none, _ => .ok none
  | some _, none => .ok none
  | some (.int64 v), some (.int64 w) => .ok (some (createIntPartition v w))
  | some (.uint64 v), some (.uint64 w) => .ok (some (createUIntPartition v w))
  | some (.int32 v), some (.int32 w) => .ok (some (createIntPartition v.toInt64 w.toInt64))
  | some (.uint32 v), some (.uint32 w) => .ok (some (createUIntPartition v.toUInt64 w.toUInt64))
  | some (.int16 v), some (.int16 w) => .ok (some (createIntPartition v.toInt64 w.toInt64))
  | some (.uint16 v), some (.uint16 w) => .ok (some (createUIntPartition v.toUInt64 w.toUInt64))
  | some (.int8 v), some (.int8 w) => .ok (some (createIntPartition v.toInt64 w.toInt64))
  | some (.uint8 v), some (.uint8 w) => .ok (some (createUIntPartition v.toUInt64 w.toUInt64))
  | some (.time v), some (.time w) => .ok (some (createTimePartition v w))
  | some (.tid v), some (.tid w) => .ok (some (createTIDPartition v w))
  | some (.other type), some _ => .error (.error ("unsupported type: " ++ type))
  | some v, some w => .error (assertType v.typeName w)

inductive RangeType
  | partitionEnd
  | partitionStart

/-- The end of the range that is compared. -/
def RangeType.pick {α : Type*} (t : RangeType) (start stop : α) : α :=
  match t with
  | .partitionEnd => stop
  | .partitionStart => start

/-- `comparePartitionRanges`.  Ranges of different types, and ranges that are not there,
compare as equal. -/
def comparePartitionRanges (previous : Option PartitionRange) (pt : RangeType)
    (current : Option PartitionRange) (ct : RangeType) : Ordering :=
  match previous, current with
  | some (.intRange ps pe), some (.intRange cs ce) => cmpCompare (pt.pick ps pe) (ct.pick cs ce)
  | some (.uintRange ps pe), some (.uintRange cs ce) => cmpCompare (pt.pick ps pe) (ct.pick cs ce)
  | some (.timestampRange ps pe), some (.timestampRange cs ce) =>
    (pt.pick ps pe).asTime.compare (ct.pick cs ce).asTime
  | some (.tidRange ps pe), some (.tidRange cs ce) =>
    (pt.pick ps pe).compare (ct.pick cs ce)
  | _, _ => .eq

/-- `adjustStartValueOfPartition`: what becomes of the current range. -/
def adjustStartValueOfPartition (prev current : Option PartitionRange) :
    Option PartitionRange :=
  match prev, current with
  | some (.intRange _ pe), some (.intRange _ ce) => some (.intRange (pe + 1) ce)
  | some (.uintRange _ pe), some (.uintRange _ ce) => some (.uintRange (pe + 1) ce)
  | some (.timestampRange _ pe), some (.timestampRange _ ce) =>
    some (.timestampRange (Timestamp.new (pe.asTime.add 1000)) ce)
  | some (.tidRange _ pe), some (.tidRange _ ce) => some (.tidRange pe.next ce)
  | _, current => current

/-- The ends of a range as values, for the types the helper can compare. -/
def rangeEnds : PartitionRange → Except String (Value × Value)
  | .intRange s e => .ok (.int64 s, .int64 e)
  | .uintRange s e => .ok (.uint64 s, .uint64 e)
  | .timestampRange s e => .ok (.time s.asTime, .time e.asTime)
  | .tidRange s e => .ok (.tid s.toTID, .tid e.toTID)
  | .numericRange _ _ _ => .error "*protos.PartitionRange_NumericRange"
  | .nullRange => .error "*protos.PartitionRange_NullRange"

def updatePartitionHelper (p : PartitionHelper) (partition : QRepPartition) :
    Except Fault PartitionHelper :=
  match partition.range with
  | none => .error (.panic "runtime error: invalid memory address or nil pointer dereference")
  | some r =>
    match rangeEnds r with
    | .ok (s, e) =>
      .ok { prevStart := some s, prevEnd := some e, partitions := p.partitions ++ [partition] }
    | .error type => .error (.error ("unsupported partition range type: " ++ type))

def addPartition (p : PartitionHelper) (start stop : Option Value) :
    Except Fault PartitionHelper := do
  let current ← (getPartitionForStartAndEnd start stop).mapError
    (.wrap "error getting current partition from start and end")
  match current with
  | none => return p
  | some current =>
    let prev ← (getPartitionForStartAndEnd p.prevStart p.prevEnd).mapError
      (.wrap "error getting previous partition from prevStart and prevEnd")
    let update := fun q =>
      (p.updatePartitionHelper q).mapError (.wrap "error adjusting start value")
    match prev with
    | none => update current
    | some prev =>
      if comparePartitionRanges prev.range .partitionEnd current.range .partitionStart = .lt then
        update current
      else if comparePartitionRanges prev.range .partitionEnd current.range .partitionEnd = .lt then
        update { current with range := adjustStartValueOfPartition prev.range current.range }
      else
        return p

/-- Calls of `AddPartition`, one after the other, up to the first that fails. -/
def addPartitions (p : PartitionHelper) (pairs : List (Value × Value)) :
    Except Fault PartitionHelper :=
  pairs.foldlM (fun p q => p.addPartition (some q.1) (some q.2)) p

end PartitionHelper

/-! ### Values of one kind as numbers -/

/-- The column types whose ranges are kept apart. -/
inductive Kind
  | int
  | uint
  | timestamp
  | tid

/-- The value has this kind; timestamps are whole microseconds. -/
def Value.Of (k : Kind) : Value → Prop
  | .int64 _ => k = .int
  | .uint64 _ => k = .uint
  | .time t => k = .timestamp ∧ t.WholeMicros
  | .tid _ => k = .tid
  | _ => False

/-- The number of a tuple id: there are 65536 offsets in a block. -/
def ProtoTID.rank (t : ProtoTID) : ℤ := t.blockNumber.toNat * 65536 + t.offsetNumber.toNat

def TID.rank (t : TID) : ℤ := t.blockNumber.toNat * 65536 + t.offsetNumber.toNat

/-- The number of a value among those of its kind, in their order and without gaps. -/
def Value.rank : Value → ℤ
  | .int64 v => v.toInt
  | .uint64 v => v.toNat
  | .time t => t.micros
  | .tid t => t.rank
  | _ => 0

/-- The range has this kind; offsets of tuple ids are those of a block. -/
def PartitionRange.Of (k : Kind) : PartitionRange → Prop
  | .intRange _ _ => k = .int
  | .uintRange _ _ => k = .uint
  | .timestampRange s e => k = .timestamp ∧ s.asTime.WholeMicros ∧ e.asTime.WholeMicros
  | .tidRange s e => k = .tid ∧ s.offsetNumber.toNat < 65536 ∧ e.offsetNumber.toNat < 65536
  | _ => False

/-- The numbers of the first and the last value of the range. -/
def PartitionRange.bounds : PartitionRange → ℤ × ℤ
  | .intRange s e => (s.toInt, e.toInt)
  | .uintRange s e => (s.toNat, e.toNat)
  | .timestampRange s e => (s.asTime.micros, e.asTime.micros)
  | .tidRange s e => (s.rank, e.rank)
  | _ => (0, 0)

theorem cmpCompare_eq {α : Type*} [LT α] [DecidableLT α] {f : α → ℤ}
    (hf : ∀ {a b : α}, a < b ↔ f a < f b) (a b : α) : cmpCompare a b = cmpCompare (f a) (f b) := by
  simp only [cmpCompare, hf]

theorem cmpCompare_eq_lt {a b : ℤ} : cmpCompare a b = .lt ↔ a < b := by
  rw [cmpCompare]
  split_ifs with h h' <;> simp [h]

theorem cmpCompare_eq_gt {a b : ℤ} : cmpCompare a b = .gt ↔ b < a := by
  rw [cmpCompare]
  split_ifs with h h'
  · simp [h.le]
  · simp [h']
  · simp [h']

theorem cmpCompare_self (a : ℤ) : cmpCompare a a = .eq := by
  rw [cmpCompare, if_neg (lt_irrefl a), if_neg (lt_irrefl a)]

theorem TID.rank_toProto (t : TID) : t.toProto.rank = t.rank := by
  rw [TID.toProto, ProtoTID.rank, TID.rank, UInt16.toNat_toUInt32]

theorem TID.offset_toProto (t : TID) : t.toProto.offsetNumber.toNat < 65536 := by
  have hlt := t.offsetNumber.toNat_lt
  rw [TID.toProto, UInt16.toNat_toUInt32]
  omega

theorem ProtoTID.rank_toTID {t : ProtoTID} (h : t.offsetNumber.toNat < 65536) :
    t.toTID.rank = t.rank := by
  rw [ProtoTID.toTID, ProtoTID.rank, TID.rank, UInt32.toNat_toUInt16, Nat.mod_eq_of_lt h]

theorem ProtoTID.compare_eq_rank {a b : ProtoTID} (ha : a.offsetNumber.toNat < 65536)
    (hb : b.offsetNumber.toNat < 65536) : a.compare b = cmpCompare a.rank b.rank := by
  have hfield : ∀ x y : UInt32, cmpCompare x y = cmpCompare (x.toNat : ℤ) (y.toNat : ℤ) :=
    cmpCompare_eq (by intro x y; rw [UInt32.lt_iff_toNat_lt, Nat.cast_lt])
  rw [ProtoTID.compare, hfield, hfield, ProtoTID.rank, ProtoTID.rank]
  rcases lt_trichotomy (a.blockNumber.toNat : ℤ) b.blockNumber.toNat with hlt | heq | hgt
  · rw [cmpCompare_eq_lt.mpr hlt]
    exact (cmpCompare_eq_lt.mpr (by omega)).symm
  · rw [heq, cmpCompare_self]
    simp only [cmpCompare, add_lt_add_iff_left]
  · rw [cmpCompare_eq_gt.mpr hgt]
    exact (cmpCompare_eq_gt.mpr (by omega)).symm

/-- Carrying an offset into the next block does not wrap if some tuple id is greater. -/
theorem ProtoTID.rank_next {t u : ProtoTID} (ht : t.offsetNumber.toNat < 65536)
    (hu : u.offsetNumber.toNat < 65536) (hlt : t.rank < u.rank) :
    t.next.offsetNumber.toNat < 65536 ∧ t.next.rank = t.rank + 1 := by
  have hblock := u.blockNumber.toNat_lt
  rw [ProtoTID.rank, ProtoTID.rank] at hlt
  rw [ProtoTID.next]
  have hmax : (0xFFFF : UInt32).toNat = 65535 := rfl
  have hone : (1 : UInt32).toNat = 1 := rfl
  split_ifs with hoff
  · rw [UInt32.lt_iff_toNat_lt] at hoff
    have hsum := UInt32.toNat_add t.offsetNumber 1
    simp only [ProtoTID.rank]
    omega
  · rw [UInt32.lt_iff_toNat_lt] at hoff
    have hsum := UInt32.toNat_add t.blockNumber 1
    have hzero : (0 : UInt32).toNat = 0 := rfl
    simp only [ProtoTID.rank]
    omega

namespace PartitionHelper

variable {k : Kind}

/-- The range of two values of one kind. -/
theorem getPartitionForStartAndEnd_of {a b : Value} (ha : a.Of k) (hb : b.Of k) :
    ∃ r : PartitionRange, getPartitionForStartAndEnd (some a) (some b) =
      .ok (some (.ofRange r)) ∧ r.Of k ∧ r.bounds = (a.rank, b.rank) := by
  cases k <;> cases a <;> simp only [Value.Of, reduceCtorEq, false_and] at ha <;>
    cases b <;> simp only [Value.Of, reduceCtorEq, false_and] at hb
  · exact ⟨_, rfl, rfl, rfl⟩
  · exact ⟨_, rfl, rfl, rfl⟩
  · rename_i t u
    refine ⟨_, rfl, ⟨rfl, ?_, ?_⟩, ?_⟩
    · rw [Timestamp.asTime_new]; exact ha.2
    · rw [Timestamp.asTime_new]; exact hb.2
    · simp only [PartitionRange.bounds, Timestamp.asTime_new, Value.rank]
  · rename_i t u
    refine ⟨_, rfl, ⟨rfl, ?_, ?_⟩, ?_⟩
    · exact TID.offset_toProto t
    · exact TID.offset_toProto u
    · simp only [PartitionRange.bounds, TID.rank_toProto, Value.rank]

/-- A comparison that agrees with numbers agrees on whichever ends are picked. -/
theorem compare_pick {α : Type*} {c : α → α → Ordering} {f : α → ℤ} {P : α → Prop}
    (hcmp : ∀ {x y : α}, P x → P y → c x y = cmpCompare (f x) (f y)) (pt ct : RangeType)
    {ps pe cs ce : α} (hps : P ps) (hpe : P pe) (hcs : P cs) (hce : P ce) :
    c (pt.pick ps pe) (ct.pick cs ce) =
      cmpCompare (pt.pick (f ps) (f pe)) (ct.pick (f cs) (f ce)) := by
  cases pt <;> cases ct
  · exact hcmp hpe hce
  · exact hcmp hpe hcs
  · exact hcmp hps hce
  · exact hcmp hps hcs

variable {r s : PartitionRange}

theorem comparePartitionRanges_of (hr : r.Of k) (hs : s.Of k) (pt ct : RangeType) :
    comparePartitionRanges (some r) pt (some s) ct =
      cmpCompare (pt.pick r.bounds.1 r.bounds.2) (ct.pick s.bounds.1 s.bounds.2) := by
  cases k <;> cases r <;> simp only [PartitionRange.Of, reduceCtorEq, false_and] at hr <;>
    cases s <;> simp only [PartitionRange.Of, reduceCtorEq, false_and] at hs
  · exact compare_pick (c := cmpCompare) (P := fun _ => True)
      (fun {x y} _ _ => cmpCompare_eq Int64.lt_iff_toInt_lt x y) pt ct hr hr hs hs
  · have huint : ∀ {x y : UInt64}, x < y ↔ (x.toNat : ℤ) < (y.toNat : ℤ) := by
      intro x y
      rw [UInt64.lt_iff_toNat_lt, Nat.cast_lt]
    exact compare_pick (c := cmpCompare) (P := fun _ => True)
      (fun {x y} _ _ => cmpCompare_eq huint x y) pt ct hr hr hs hs
  · exact compare_pick (c := fun x y => x.asTime.compare y.asTime)
      (P := fun ts : Timestamp => ts.asTime.WholeMicros) Time.compare_eq_micros
      pt ct hr.2.1 hr.2.2 hs.2.1 hs.2.2
  · exact compare_pick (P := fun t : ProtoTID => t.offsetNumber.toNat < 65536)
      ProtoTID.compare_eq_rank pt ct hr.2.1 hr.2.2 hs.2.1 hs.2.2

/-- The start is adjusted to the number after the previous end, without wrapping around,
if the range ends later. -/
theorem adjustStartValueOfPartition_of (hr : r.Of k) (hs : s.Of k) (hlt : r.bounds.2 < s.bounds.2) :
    ∃ s' : PartitionRange, adjustStartValueOfPartition (some r) (some s) = some s' ∧ s'.Of k ∧
      s'.bounds = (r.bounds.2 + 1, s.bounds.2) := by
  cases k <;> cases r <;> simp only [PartitionRange.Of, reduceCtorEq, false_and] at hr <;>
    cases s <;> simp only [PartitionRange.Of, reduceCtorEq, false_and] at hs <;>
    simp only [PartitionRange.bounds] at hlt
  · rename_i _ pe _ ce
    have hlo := pe.le_toInt
    have hhi := ce.toInt_lt
    have hone : (1 : Int64).toInt = 1 := rfl
    refine ⟨_, rfl, rfl, ?_⟩
    simp only [PartitionRange.bounds]
    rw [Int64.toInt_add_of_fits (by omega) (by omega), hone]
  · rename_i _ pe _ ce
    have hhi := ce.toNat_lt
    have hsum : (pe + 1).toNat = pe.toNat + 1 := by
      rw [UInt64.toNat_add, show (1 : UInt64).toNat = 1 from rfl]
      omega
    refine ⟨_, rfl, rfl, ?_⟩
    simp only [PartitionRange.bounds, hsum, Nat.cast_add, Nat.cast_one]
  · obtain ⟨hwhole, hnext⟩ := Time.micros_add hr.2.2 hlt
    refine ⟨_, rfl, ⟨rfl, ?_, hs.2.2⟩, ?_⟩
    · rw [Timestamp.asTime_new]; exact hwhole
    · simp only [PartitionRange.bounds, Timestamp.asTime_new, hnext]
  · obtain ⟨hoff, hnext⟩ := ProtoTID.rank_next hr.2.2 hs.2.2 hlt
    refine ⟨_, rfl, ⟨rfl, hoff, hs.2.2⟩, ?_⟩
    simp only [PartitionRange.bounds, hnext]

/-- The values that the helper remembers of a range have its numbers. -/
theorem rangeEnds_of (hr : r.Of k) : ∃ a b : Value,
    rangeEnds r = .ok (a, b) ∧ a.Of k ∧ b.Of k ∧ (a.rank, b.rank) = r.bounds := by
  cases k <;> cases r <;> simp only [PartitionRange.Of, reduceCtorEq, false_and] at hr
  · exact ⟨_, _, rfl, rfl, rfl, rfl⟩
  · exact ⟨_, _, rfl, rfl, rfl, rfl⟩
  · exact ⟨_, _, rfl, ⟨rfl, hr.2.1⟩, ⟨rfl, hr.2.2⟩, rfl⟩
  · refine ⟨_, _, rfl, rfl, rfl, ?_⟩
    simp only [Value.rank, PartitionRange.bounds, ProtoTID.rank_toTID hr.2.1,
      ProtoTID.rank_toTID hr.2.2]

/-! ### One call -/

/-- The helper holds these ranges of one kind, and remembers the ends of the last. -/
structure Holds (k : Kind) (p : PartitionHelper) (ranges : List PartitionRange) : Prop where
  partitions : p.partitions = ranges.map QRepPartition.ofRange
  kind : ∀ r ∈ ranges, r.Of k
  prev : match ranges.getLast? with
    | none => p.prevStart = none
    | some r => ∃ a b : Value, p.prevStart = some a ∧ p.prevEnd = some b ∧ a.Of k ∧ b.Of k ∧
      (a.rank, b.rank) = r.bounds

theorem Holds.new (k : Kind) : Holds k new [] := ⟨rfl, by simp, rfl⟩

variable {ranges : List PartitionRange}

theorem Holds.update {p : PartitionHelper} (h : Holds k p ranges) (hr : r.Of k) :
    ∃ p', p.updatePartitionHelper (.ofRange r) = .ok p' ∧ Holds k p' (ranges ++ [r]) := by
  obtain ⟨a, b, hends, ha, hb, hrank⟩ := rangeEnds_of hr
  refine ⟨⟨some a, some b, p.partitions ++ [.ofRange r]⟩, ?_, ?_, ?_, ?_⟩
  · simp only [updatePartitionHelper, QRepPartition.ofRange, hends]
  · rw [h.partitions, map_append, map_cons, map_nil]
  · intro s hs
    rcases mem_append.mp hs with hs | hs
    · exact h.kind s hs
    · rw [mem_singleton.mp hs]
      exact hr
  · rw [getLast?_concat]
    exact ⟨a, b, rfl, rfl, ha, hb, hrank⟩

/-- **`AddPartition` cuts ranges apart** as `Intervals.cut` does with their numbers. -/
theorem addPartition_cut {p : PartitionHelper} {a b : Value} (h : Holds k p ranges) (ha : a.Of k)
    (hb : b.Of k) :
    ∃ p' added, p.addPartition (some a) (some b) = .ok p' ∧ Holds k p' (ranges ++ added) ∧
      (ranges ++ added).map PartitionRange.bounds =
        cut (ranges.map PartitionRange.bounds) (a.rank, b.rank) := by
  obtain ⟨cur, hcur, hkind, hbounds⟩ := getPartitionForStartAndEnd_of ha hb
  have hprev := h.prev
  rw [addPartition, hcur, cut, getLast?_map]
  cases hlast : ranges.getLast? with
  | none =>
    rw [hlast] at hprev
    obtain ⟨p', hp', hholds⟩ := h.update hkind
    refine ⟨p', [cur], ?_, hholds, ?_⟩
    · simp only [hprev, getPartitionForStartAndEnd, hp', Except.mapError, bind, Except.bind]
    · rw [map_append, map_cons, map_nil, hbounds]
      rfl
  | some last =>
    rw [hlast] at hprev
    obtain ⟨c, d, hc, hd, hkc, hkd, hcd⟩ := hprev
    obtain ⟨prev, hget, hkprev, hpb⟩ := getPartitionForStartAndEnd_of hkc hkd
    rw [hcd] at hpb
    have hstart := comparePartitionRanges_of hkprev hkind .partitionEnd .partitionStart
    have hend := comparePartitionRanges_of hkprev hkind .partitionEnd .partitionEnd
    rw [hpb, hbounds] at hstart hend
    simp only [RangeType.pick] at hstart hend
    simp only [hc, hd, hget, Except.mapError, bind, Except.bind, QRepPartition.ofRange, hstart,
      hend, cmpCompare_eq_lt, Option.map_some]
    split_ifs with hbefore hover
    · obtain ⟨p', hp', hholds⟩ := h.update hkind
      refine ⟨p', [cur], ?_, hholds, ?_⟩
      · rw [QRepPartition.ofRange] at hp'
        rw [hp']
      · rw [map_append, map_cons, map_nil, hbounds]
    · -- the new range overlaps the last one and ends later
      obtain ⟨adj, hadj, hkadj, hab⟩ := adjustStartValueOfPartition_of hkprev hkind
        (by rw [hpb, hbounds]; exact hover)
      obtain ⟨p', hp', hholds⟩ := h.update hkadj
      refine ⟨p', [adj], ?_, hholds, ?_⟩
      · rw [QRepPartition.ofRange] at hp'
        rw [hadj, hp']
      · rw [map_append, map_cons, map_nil, hab, hpb, hbounds,
          Order.succ_eq_add_one]
    · exact ⟨p, [], rfl, by rwa [append_nil], by rw [append_nil]⟩

/-! ### Whole sequences of calls -/

/-- The ranges of the calls, as numbers. -/
def pairBounds (pairs : List (Value × Value)) : List (ℤ × ℤ) :=
  pairs.map fun q => (q.1.rank, q.2.rank)

theorem addPartitions_cut {pairs : List (Value × Value)} :
    ∀ {p : PartitionHelper} {ranges : List PartitionRange}, Holds k p ranges →
      (∀ q ∈ pairs, q.1.Of k ∧ q.2.Of k) →
      ∃ p' ranges', p.addPartitions pairs = .ok p' ∧ Holds k p' ranges' ∧
        ranges'.map PartitionRange.bounds =
          (pairBounds pairs).foldl cut (ranges.map PartitionRange.bounds) := by
  induction pairs with
  | nil =>
    intro p ranges h _
    exact ⟨p, ranges, rfl, h, rfl⟩
  | cons q pairs ih =>
    intro p ranges h hkind
    obtain ⟨hq, hq'⟩ := hkind q mem_cons_self
    obtain ⟨p₁, added, hp₁, h₁, hcut⟩ := addPartition_cut h hq hq'
    obtain ⟨p', ranges', hp', h', hrest⟩ :=
      ih h₁ fun r hr => hkind r (mem_cons_of_mem q hr)
    refine ⟨p', ranges', ?_, h', ?_⟩
    · rw [addPartitions, foldlM_cons, hp₁]
      exact hp'
    · rw [hrest, hcut]
      rfl

/-- What the helper holds after the calls, if the ranges come in the order of their
starts. -/
theorem addPartitions_cuts {pairs : List (Value × Value)}
    (hkind : ∀ q ∈ pairs, q.1.Of k ∧ q.2.Of k) (hle : ∀ q ∈ pairs, q.1.rank ≤ q.2.rank)
    (hsorted : pairs.Pairwise fun q q' => q.1.rank ≤ q'.1.rank) :
    ∃ p ranges, new.addPartitions pairs = .ok p ∧ Holds k p ranges ∧
      Cuts (pairBounds pairs) (ranges.map PartitionRange.bounds) := by
  obtain ⟨p, ranges, hp, hholds, hcut⟩ := addPartitions_cut (Holds.new k) hkind
  refine ⟨p, ranges, hp, hholds, ?_⟩
  rw [hcut]
  refine cuts_foldl ?_ (pairwise_map.mpr hsorted)
  intro r hr
  obtain ⟨q, hq, rfl⟩ := mem_map.mp hr
  exact hle q hq

/-- A range that overlaps the previous one and ends later is added from the value after
the previous end on. -/
theorem Holds.addPartition_overlap {p : PartitionHelper} {a b prev : Value} (h : Holds k p ranges)
    (ha : a.Of k) (hb : b.Of k) (hprev : p.prevEnd = some prev) (hne : p.prevStart ≠ none)
    (hstart : a.rank ≤ prev.rank) (hend : prev.rank < b.rank) :
    ∃ p' r, p.addPartition (some a) (some b) = .ok p' ∧
      p'.partitions = p.partitions ++ [.ofRange r] ∧ r.Of k ∧
      r.bounds = (prev.rank + 1, b.rank) := by
  obtain ⟨p', added, hp', hholds, hcut⟩ := addPartition_cut h ha hb
  have hlast := h.prev
  rw [cut, getLast?_map, map_append] at hcut
  cases hrange : ranges.getLast? with
  | none =>
    rw [hrange] at hlast
    exact absurd hlast hne
  | some last =>
    rw [hrange] at hlast hcut
    obtain ⟨c, d, -, hd, -, -, hcd⟩ := hlast
    obtain rfl := Option.some.inj (hprev.symm.trans hd)
    rw [Option.map_some] at hcut
    dsimp only at hcut
    rw [← hcd, if_neg (not_lt.mpr hstart), if_pos hend, append_cancel_left_eq] at hcut
    obtain ⟨r, rest, rfl, hr, hrest⟩ := map_eq_cons_iff.mp hcut
    obtain rfl := map_eq_nil_iff.mp hrest
    refine ⟨p', r, hp', ?_, hholds.kind r mem_concat_self, ?_⟩
    · rw [hholds.partitions, h.partitions, map_append]
      rfl
    · rw [hr, Order.succ_eq_add_one]

/-- **`AddPartition` gives a disjoint exact cover**: for ranges of one kind in the order
of their starts, all calls succeed, the partitions are non-empty, increasing and
disjoint, and they have exactly the values of the ranges; a start that is adjusted
becomes the value after the previous end, without wrapping around. -/
theorem addPartition_exact_cover (k : Kind) (pairs : List (Value × Value))
    (hkind : ∀ q ∈ pairs, q.1.Of k ∧ q.2.Of k) (hle : ∀ q ∈ pairs, q.1.rank ≤ q.2.rank)
    (hsorted : pairs.Pairwise fun q q' => q.1.rank ≤ q'.1.rank) :
    (∃ (p : PartitionHelper) (ranges : List PartitionRange), new.addPartitions pairs = .ok p ∧
      p.partitions = ranges.map QRepPartition.ofRange ∧ (∀ r ∈ ranges, r.Of k) ∧
      Apart (ranges.map PartitionRange.bounds) ∧
      ∀ x, Covers (ranges.map PartitionRange.bounds) x ↔ Covers (pairBounds pairs) x) ∧
    ∀ pre q post p s prev, pairs = pre ++ q :: post → new.addPartitions pre = .ok p →
      p.prevStart = some s → p.prevEnd = some prev →
      q.1.rank ≤ prev.rank → prev.rank < q.2.rank →
      ∃ p' r, p.addPartition (some q.1) (some q.2) = .ok p' ∧
        p'.partitions = p.partitions ++ [.ofRange r] ∧ r.Of k ∧
        r.bounds = (prev.rank + 1, q.2.rank) := by
  constructor
  · obtain ⟨p, ranges, hp, hholds, hcuts⟩ := addPartitions_cuts hkind hle hsorted
    exact ⟨p, ranges, hp, hholds.partitions, hholds.kind, hcuts.apart, hcuts.covers⟩
  · rintro pre q post p s prev rfl hpre hs hprev hstart hend
    obtain ⟨hq, hq'⟩ := hkind q (mem_append_right pre mem_cons_self)
    obtain ⟨p₁, ranges, hp₁, hholds, -⟩ := addPartitions_cut (Holds.new k)
      fun r hr => hkind r (mem_append_left (q :: post) hr)
    obtain rfl := Except.ok.inj (hpre.symm.trans hp₁)
    exact hholds.addPartition_overlap hq hq' hprev (by rw [hs]; exact Option.some_ne_none s)
      hstart hend

/-- Ranges up to the greatest integer, one of them twice and one inside another. -/
theorem addPartition_exact_cover_max :
    ∃ (p : PartitionHelper) (ranges : List PartitionRange), new.addPartitions
        [(.int64 1, .int64 9223372036854775806), (.int64 5, .int64 7),
          (.int64 6, .int64 9223372036854775807), (.int64 6, .int64 9223372036854775807)] = .ok p ∧
      p.partitions = ranges.map QRepPartition.ofRange ∧
      Apart (ranges.map PartitionRange.bounds) ∧
      Covers (ranges.map PartitionRange.bounds) 9223372036854775807 := by
  obtain ⟨p, ranges, hp, hparts, -, hapart, hcover⟩ := (addPartition_exact_cover .int
    [(.int64 1, .int64 9223372036854775806), (.int64 5, .int64 7),
      (.int64 6, .int64 9223372036854775807), (.int64 6, .int64 9223372036854775807)]
    (by simp [Value.Of]) (by decide) (by decide)).1
  exact ⟨p, ranges, hp, hparts, hapart, (hcover _).mpr (by decide)⟩

end PartitionHelper

end QRep
