/-
Partitions by block over the child tables of a partitioned or inherited table
(`ctidPartitionsForChildTables`).

The tables are walked in the order of their names, and each partition is filled with
blocks before the next is started, so that a partition can have blocks of several tables
and a table can be split between partitions.  Where the walk stands is a `Cursor`, and
what is left to take from there is `Cursor.pending`.

* `fillPartition_takes` — one partition takes the next blocks, as many as it has room
  for;
* `fillPartitions_chunks` — all partitions together take every block once and in order,
  and all but the last are full;
* `ctidPartitionsForChildTables_exact` — so they are an exact cover of all blocks, no
  more partitions than asked for and none of them larger than the rounded-up share, as
  long as the sum that `DivCeil` computes fits in 64 bits.

The loops of the source have no bound; `turns` is the number of turns they are given.
-/
import PeerDB.Postgres.QRepPartition
import PeerDB.QRep.Math
import Mathlib.Data.List.AList
import Mathlib.Data.List.Sort
import Mathlib.Algebra.Order.BigOperators.Group.List
import Mathlib.Algebra.Ring.Nat

open Loop

namespace QRep

open List

/-! ### The model -/

structure TableBlockStats where
  blockDensity : Float
  blockCount : Int64

/-- `map[string]tableBlockStats`. -/
abbrev BlockStats := AList fun _ : String => TableBlockStats

/-- `protos.ChildTableRange`; both ends belong to it. -/
structure ChildTableRange where
  table : String
  start : UInt32
  stop : UInt32
deriving DecidableEq

/-- A `protos.QRepPartition` with ranges of child tables. -/
structure ChildTablePartition where
  partitionId : PartitionId
  childTableRanges : List ChildTableRange
deriving DecidableEq

namespace BlockStats

def blockCount (m : BlockStats) (table : String) : Int64 :=
  ((m.lookup table).map TableBlockStats.blockCount).getD 0

def totalBlocks (m : BlockStats) : Int64 :=
  m.entries.foldl (fun total e => total + e.2.blockCount) 0

def sortedTables (m : BlockStats) : List String :=
  m.keys.insertionSort (· ≤ ·)

end BlockStats

/-- The tables from `childIdx` on, and the first block to take of the first of them. -/
structure Cursor where
  tables : List String
  blockOffset : Int64

/-- One turn of the inner loop at a table with this many blocks: a range, what remains to
fill, and where the walk stands. -/
def takeBlocks (blocks : Int64) (tableName : String) (rest : List String)
    (remaining blockOffset : Int64) : ChildTableRange × Int64 × Cursor :=
  let remainingBlocks := blocks - blockOffset
  let consume := min remaining remainingBlocks
  let blockStart := blockOffset.toUInt64.toUInt32
  let blockEnd := (blockOffset + consume).toUInt64.toUInt32
  let range : ChildTableRange := { table := tableName, start := blockStart, stop := blockEnd - 1 }
  if blockOffset + consume ≥ blocks then (range, remaining - consume, ⟨rest, 0⟩)
  else (range, remaining - consume, ⟨tableName :: rest, blockOffset + consume⟩)

/-- The inner loop: the ranges of one partition. -/
def fillPartition (m : BlockStats) : ℕ → Int64 → Cursor →
    Except Fault (List ChildTableRange × Cursor)
  | 0, _, _ => .error .running
  | turns + 1, remaining, c =>
    match c.tables with
    | [] => .ok ([], c)
    | tableName :: rest =>
      if remaining > 0 then do
        let (range, remaining, c) :=
          takeBlocks (m.blockCount tableName) tableName rest remaining c.blockOffset
        let (ranges, c) ← fillPartition m turns remaining c
        return (range :: ranges, c)
      else .ok ([], c)

/-- The outer loop. -/
def fillPartitions (m : BlockStats) (blocksPerPartition : Int64) (turns : ℕ) : ℕ → Cursor →
    Except Fault (List ChildTablePartition)
  | 0, _ => .error .running
  | outer + 1, c =>
    match c.tables with
    | [] => .ok []
    | _ :: _ => do
      let (ranges, c) ← fillPartition m turns blocksPerPartition c
      let partitions ← fillPartitions m blocksPerPartition turns outer c
      return if ranges.length > 0 then ⟨.uuid, ranges⟩ :: partitions else partitions

def ctidPartitionsForChildTables (turns : ℕ) (pp : PartitionParams) (m : BlockStats) :
    Except Fault (List ChildTablePartition) :=
  if m.totalBlocks = 0 then .ok []
  else if pp.numPartitions = 0 then .error (.panic "runtime error: integer divide by zero")
  else
    let blocksPerPartition := max 1 (divCeil m.totalBlocks pp.numPartitions)
    fillPartitions m blocksPerPartition turns turns ⟨m.sortedTables, 0⟩

/-! ### Blocks -/

def blocksFrom (table : String) (first count : ℕ) : List (String × ℕ) :=
  (List.range' first count).map fun b => (table, b)

theorem length_blocksFrom (table : String) (first count : ℕ) :
    (blocksFrom table first count).length = count := by
  rw [blocksFrom, length_map, length_range']

theorem blocksFrom_append (table : String) (first k l : ℕ) :
    blocksFrom table first k ++ blocksFrom table (first + k) l =
      blocksFrom table first (k + l) := by
  rw [blocksFrom, blocksFrom, blocksFrom, ← map_append]
  congr 1
  have happend := @List.range'_append first k l 1
  rwa [one_mul] at happend

theorem mem_blocksFrom {table t : String} {first count b : ℕ} :
    (t, b) ∈ blocksFrom table first count ↔ t = table ∧ first ≤ b ∧ b < first + count := by
  rw [blocksFrom, mem_map]
  constructor
  · rintro ⟨b', hb', heq⟩
    cases heq
    exact ⟨rfl, mem_range'_1.mp hb'⟩
  · rintro ⟨rfl, hb⟩
    exact ⟨b, mem_range'_1.mpr hb, rfl⟩

theorem nodup_blocksFrom (table : String) (first count : ℕ) :
    (blocksFrom table first count).Nodup :=
  List.Nodup.map (fun _ _ h => (Prod.mk.inj h).2) nodup_range'

namespace ChildTableRange

def Contains (r : ChildTableRange) (table : String) (block : ℕ) : Prop :=
  r.table = table ∧ r.start.toNat ≤ block ∧ block ≤ r.stop.toNat

instance (r : ChildTableRange) (table : String) (block : ℕ) : Decidable (r.Contains table block) :=
  inferInstanceAs (Decidable (_ ∧ _ ∧ _))

def blocks (r : ChildTableRange) : List (String × ℕ) :=
  blocksFrom r.table r.start.toNat (r.stop.toNat + 1 - r.start.toNat)

theorem mem_blocks {r : ChildTableRange} {table : String} {block : ℕ} :
    (table, block) ∈ r.blocks ↔ r.Contains table block := by
  rw [blocks, mem_blocksFrom, Contains]
  refine and_congr eq_comm ?_
  omega

theorem count_blocks (r : ChildTableRange) (table : String) (block : ℕ) :
    r.blocks.count (table, block) = if r.Contains table block then 1 else 0 := by
  split_ifs with hr
  · exact count_eq_one_of_mem (nodup_blocksFrom _ _ _) (mem_blocks.mpr hr)
  · exact count_eq_zero.mpr (mt mem_blocks.mp hr)

end ChildTableRange

def ChildTablePartition.blocks (p : ChildTablePartition) : List (String × ℕ) :=
  p.childTableRanges.flatMap ChildTableRange.blocks

/-- How many of the ranges a block lies in. -/
theorem countP_contains (ranges : List ChildTableRange) (table : String) (block : ℕ) :
    (ranges.countP fun r => decide (r.Contains table block)) =
      (ranges.flatMap ChildTableRange.blocks).count (table, block) := by
  induction ranges with
  | nil => rfl
  | cons r ranges ih =>
    rw [countP_cons, flatMap_cons, count_append, ih, r.count_blocks, add_comm]
    simp only [decide_eq_true_eq]

namespace BlockStats

def blocks (m : BlockStats) (table : String) : ℕ := (m.blockCount table).toInt.toNat

def allBlocks (m : BlockStats) (tables : List String) : List (String × ℕ) :=
  tables.flatMap fun table => blocksFrom table 0 (m.blocks table)

/-- Every table has blocks, and their numbers have 32 bits. -/
def Sized (m : BlockStats) : Prop :=
  ∀ e ∈ m.entries, 1 ≤ e.2.blockCount.toInt ∧ e.2.blockCount.toInt < 2 ^ 32

/-- The number of blocks of all tables, without a bound. -/
def total (m : BlockStats) : ℕ := (m.entries.map fun e => e.2.blockCount.toInt.toNat).sum

theorem blockCount_of_mem {m : BlockStats} {e : Sigma fun _ : String => TableBlockStats}
    (he : e ∈ m.entries) : m.blockCount e.1 = e.2.blockCount := by
  have hlookup : m.lookup e.1 = some e.2 := AList.mem_lookup_iff.mpr he
  rw [blockCount, hlookup]
  rfl

end BlockStats

namespace Cursor

variable (m : BlockStats)

/-- The blocks that are still to be taken. -/
def pending (c : Cursor) : List (String × ℕ) :=
  match c.tables with
  | [] => []
  | table :: rest =>
    blocksFrom table c.blockOffset.toInt.toNat (m.blocks table - c.blockOffset.toInt.toNat) ++
      m.allBlocks rest

/-- The tables have blocks, and the first block to take is one of its table. -/
structure Valid (c : Cursor) : Prop where
  sized : ∀ table ∈ c.tables, 1 ≤ m.blocks table ∧ m.blocks table < 2 ^ 32
  offset : 0 ≤ c.blockOffset.toInt
  inside : ∀ table ∈ c.tables.head?, c.blockOffset.toInt.toNat < m.blocks table

theorem pending_start (tables : List String) : pending m ⟨tables, 0⟩ = m.allBlocks tables := by
  cases tables with
  | nil | cons => rfl

variable {m}

theorem Valid.start {tables : List String}
    (hsized : ∀ table ∈ tables, 1 ≤ m.blocks table ∧ m.blocks table < 2 ^ 32) :
    Valid m ⟨tables, 0⟩ := by
  refine ⟨hsized, Int.le_refl 0, ?_⟩
  intro table htable
  exact (hsized table (mem_of_head? htable)).1

/-- Something is left as long as there is a table. -/
theorem Valid.pending_ne_nil {c : Cursor} (hc : c.Valid m) (hne : c.tables ≠ []) :
    c.pending m ≠ [] := by
  obtain ⟨tables, blockOffset⟩ := c
  obtain ⟨table, rest, rfl⟩ := exists_cons_of_ne_nil hne
  have hinside := hc.inside table rfl
  rw [← length_pos_iff, pending, length_append, length_blocksFrom]
  omega

end Cursor

/-! ### One turn -/

variable {blockOffset remaining per : Int64}

/-- What one turn takes: blocks from the offset on, up to the end of the table or as many
as remain to be filled. -/
theorem takeBlocks_takes (blocks : Int64) (tableName : String) (rest : List String)
    (hblocks : blocks.toInt < 2 ^ 32) (hoffset : 0 ≤ blockOffset.toInt)
    (hinside : blockOffset.toInt < blocks.toInt) (hremaining : 0 < remaining.toInt) :
    ∃ range left next k, takeBlocks blocks tableName rest remaining blockOffset =
        (range, left, next) ∧
      range.blocks = blocksFrom tableName blockOffset.toInt.toNat k ∧
      left.toInt = remaining.toInt - k ∧ 1 ≤ k ∧
      ((blockOffset.toInt + k = blocks.toInt ∧ k ≤ remaining.toInt ∧ next = ⟨rest, 0⟩) ∨
        (blockOffset.toInt + k < blocks.toInt ∧ k = remaining.toInt ∧
          next.tables = tableName :: rest ∧ next.blockOffset.toInt = blockOffset.toInt + k)) := by
  have hroom : (blocks - blockOffset).toInt = blocks.toInt - blockOffset.toInt :=
    Int64.toInt_sub_of_fits (by omega) (by omega)
  have hlt := remaining.toInt_lt
  have hmin := Int64.toInt_min remaining (blocks - blockOffset)
  rw [takeBlocks]
  generalize min remaining (blocks - blockOffset) = consume at hmin ⊢
  have hend : (blockOffset + consume).toInt = blockOffset.toInt + consume.toInt :=
    Int64.toInt_add_of_fits (by omega) (by omega)
  have hleft : (remaining - consume).toInt = remaining.toInt - consume.toInt :=
    Int64.toInt_sub_of_fits (by omega) (by omega)
  -- both ends fit in 32 bits, and the end is positive, so that one can be subtracted
  have hrange : ChildTableRange.blocks
      ⟨tableName, blockOffset.toUInt64.toUInt32, (blockOffset + consume).toUInt64.toUInt32 - 1⟩ =
      blocksFrom tableName blockOffset.toInt.toNat consume.toInt.toNat := by
    have hstart := Int64.toNat_toUInt32_of_lt hoffset (by omega)
    have hstop := Int64.toNat_toUInt32_of_lt (a := blockOffset + consume) (by omega) (by omega)
    have hone : (1 : UInt32).toNat = 1 := rfl
    have hpred : ((blockOffset + consume).toUInt64.toUInt32 - 1).toNat =
        (blockOffset + consume).toInt.toNat - 1 := by
      rw [UInt32.toNat_sub_of_le _ _ (by rw [UInt32.le_iff_toNat_le]; omega), hstop, hone]
    rw [ChildTableRange.blocks, hstart, hpred]
    congr 1
    omega
  split_ifs with hdone
  · rw [ge_iff_le, Int64.le_iff_toInt_le] at hdone
    exact ⟨_, _, _, consume.toInt.toNat, rfl, hrange, by omega, by omega,
      .inl ⟨by omega, by omega, rfl⟩⟩
  · rw [ge_iff_le, Int64.le_iff_toInt_le] at hdone
    refine ⟨_, _, _, consume.toInt.toNat, rfl, hrange, by omega, by omega,
      .inr ⟨by omega, by omega, rfl, ?_⟩⟩
    show (blockOffset + consume).toInt = _
    omega

/-! ### One partition -/

variable {m : BlockStats}

theorem fillPartition_done {turns : ℕ} {c : Cursor} (hturns : 1 ≤ turns)
    (hdone : remaining.toInt ≤ 0 ∨ c.tables = []) :
    fillPartition m turns remaining c = .ok ([], c) := by
  obtain ⟨turns, rfl⟩ : ∃ t, turns = t + 1 := ⟨turns - 1, by omega⟩
  rw [fillPartition]
  cases htables : c.tables with
  | nil => rfl
  | cons tableName rest =>
    have hfull : ¬ remaining > 0 := by
      rw [gt_iff_lt, Int64.lt_iff_toInt_lt, show (0 : Int64).toInt = 0 from rfl]
      rw [htables] at hdone
      simpa using hdone
    dsimp only
    rw [if_neg hfull]

/-- What one turn does to the cursor: it takes the first blocks that are pending, and ends
either the table or the partition. -/
theorem takeBlocks_cursor {tableName : String} {rest : List String}
    (hc : Cursor.Valid m ⟨tableName :: rest, blockOffset⟩) (hpos : 0 < remaining.toInt) :
    ∃ range left next, takeBlocks (m.blockCount tableName) tableName rest remaining blockOffset =
        (range, left, next) ∧
      Cursor.pending m ⟨tableName :: rest, blockOffset⟩ = range.blocks ++ next.pending m ∧
      range.blocks ≠ [] ∧ remaining.toInt.toNat = range.blocks.length + left.toInt.toNat ∧
      0 ≤ left.toInt ∧ next.Valid m ∧
      (next = ⟨rest, 0⟩ ∨ left.toInt = 0 ∧ next.tables = tableName :: rest) := by
  have hblocks := hc.sized tableName mem_cons_self
  have hinside : blockOffset.toInt.toNat < m.blocks tableName := hc.inside tableName rfl
  have hoffset : 0 ≤ blockOffset.toInt := hc.offset
  rw [BlockStats.blocks] at hblocks hinside
  obtain ⟨range, left, next, k, htake, hrange, hleft, hk, hnext⟩ :=
    takeBlocks_takes (m.blockCount tableName) tableName rest (by omega) hoffset (by omega) hpos
  have hlength : range.blocks.length = k := by rw [hrange, length_blocksFrom]
  have hsome : range.blocks ≠ [] := by
    rw [← length_pos_iff, hlength]
    exact hk
  rcases hnext with ⟨hend, hle, rfl⟩ | ⟨hend, hfull, htables, hoff⟩
  · -- the table is used up
    refine ⟨range, left, _, htake, ?_, hsome, by omega, by omega,
      .start fun t ht => hc.sized t (mem_cons_of_mem _ ht), .inl rfl⟩
    rw [Cursor.pending_start, hrange]
    show blocksFrom _ _ (_ - _) ++ _ = _
    rw [show m.blocks tableName - blockOffset.toInt.toNat = k by
      rw [BlockStats.blocks]; omega]
  · -- the partition is full
    obtain ⟨tables, offset⟩ := next
    subst htables
    dsimp only at hoff
    refine ⟨range, left, _, htake, ?_, hsome, by omega, by omega, ⟨hc.sized, ?_, ?_⟩,
      .inr ⟨by omega, rfl⟩⟩
    · rw [hrange, Cursor.pending, Cursor.pending, ← append_assoc]
      dsimp only
      rw [show offset.toInt.toNat = blockOffset.toInt.toNat + k by omega, blocksFrom_append,
        show k + (m.blocks tableName - (blockOffset.toInt.toNat + k)) =
          m.blocks tableName - blockOffset.toInt.toNat by rw [BlockStats.blocks]; omega]
    · dsimp only
      omega
    · intro t ht
      obtain rfl : tableName = t := Option.some.inj ht
      rw [BlockStats.blocks]
      dsimp only
      omega

/-- A partition with these ranges takes the next `n` blocks from `c` on and leaves the cursor
at `next`. -/
structure Filled (m : BlockStats) (n : ℕ) (c : Cursor) (ranges : List ChildTableRange)
    (next : Cursor) : Prop where
  blocks : ranges.flatMap ChildTableRange.blocks = (c.pending m).take n
  pending : next.pending m = (c.pending m).drop n
  nonempty : ∀ r ∈ ranges, r.blocks ≠ []
  valid : next.Valid m
  suffix : next.tables <:+ c.tables

theorem Filled.none {c : Cursor} (hc : c.Valid m) : Filled m 0 c [] c where
  blocks := rfl
  pending := rfl
  nonempty := by simp
  valid := hc
  suffix := suffix_rfl

theorem Filled.cons {n : ℕ} {c mid next : Cursor} {range : ChildTableRange}
    {ranges : List ChildTableRange} (h : Filled m n mid ranges next)
    (hsplit : c.pending m = range.blocks ++ mid.pending m) (hsome : range.blocks ≠ [])
    (hsuffix : mid.tables <:+ c.tables) :
    Filled m (range.blocks.length + n) c (range :: ranges) next where
  blocks := by rw [flatMap_cons, h.blocks, hsplit, take_length_add_append]
  pending := by rw [h.pending, hsplit, drop_length_add_append]
  nonempty := by
    intro r hr
    rcases mem_cons.mp hr with rfl | hr
    · exact hsome
    · exact h.nonempty r hr
  valid := h.valid
  suffix := h.suffix.trans hsuffix

/-- **One partition takes the next blocks**, as many as it has room for, whatever tables
they belong to. -/
theorem fillPartition_takes {c : Cursor} (hc : c.Valid m) (hremaining : 0 ≤ remaining.toInt) :
    ∃ ranges next, (∀ turns, c.tables.length + 2 ≤ turns →
        fillPartition m turns remaining c = .ok (ranges, next)) ∧
      Filled m remaining.toInt.toNat c ranges next := by
  obtain ⟨tables, blockOffset⟩ := c
  -- along the tables: a turn ends either the table or the partition
  induction tables generalizing remaining blockOffset with
  | nil =>
    refine ⟨[], ⟨[], blockOffset⟩, ?_, ?_, ?_, by simp, hc, suffix_rfl⟩
    · intro turns hturns
      exact fillPartition_done (by omega) (.inr rfl)
    · rw [Cursor.pending, take_nil]
      rfl
    · rw [Cursor.pending, drop_nil]
  | cons tableName rest ih =>
    rcases hremaining.eq_or_lt with hzero | hpos
    · refine ⟨[], ⟨tableName :: rest, blockOffset⟩, ?_, ?_⟩
      · intro turns hturns
        exact fillPartition_done (by omega) (.inl (by omega))
      · rw [← hzero]
        exact .none hc
    · obtain ⟨range, left, mid, htake, hsplit, hsome, hroom, hleft, hvalid, hmid⟩ :=
        takeBlocks_cursor hc hpos
      obtain ⟨ranges, next, hrun, hfilled, hsuffix⟩ :
          ∃ ranges next, (∀ turns, rest.length + 2 ≤ turns →
              fillPartition m turns left mid = .ok (ranges, next)) ∧
            Filled m left.toInt.toNat mid ranges next ∧ mid.tables <:+ tableName :: rest := by
        rcases hmid with rfl | ⟨hzero, htables⟩
        · obtain ⟨ranges, next, hrun, hfilled⟩ := @ih left hleft 0 hvalid
          exact ⟨ranges, next, hrun, hfilled, suffix_cons _ _⟩
        · refine ⟨[], mid, fun turns hturns => ?_, ?_, ?_⟩
          · exact fillPartition_done (by omega) (.inl (by omega))
          · rw [hzero]
            exact .none hvalid
          · simp [htables]
      refine ⟨range :: ranges, next, ?_, ?_⟩
      · intro turns hturns
        obtain ⟨turns, rfl⟩ : ∃ t, turns = t + 1 := ⟨turns - 1, by omega⟩
        have hopen : remaining > 0 := Int64.lt_iff_toInt_lt.mpr hpos
        rw [fillPartition]
        dsimp only
        rw [if_pos hopen, htake]
        dsimp only
        rw [hrun turns (by rw [length_cons] at hturns; omega)]
        rfl
      · rw [hroom]
        exact hfilled.cons hsplit hsome hsuffix

/-! ### All partitions -/

/-- **The partitions take every block once and in order.**  All of them are full but the
last, which is why there are not more than needed. -/
theorem fillPartitions_chunks (hper : 1 ≤ per.toInt) :
    ∀ {c : Cursor}, c.Valid m →
    ∃ partitions, (∀ turns outer, c.tables.length + 2 ≤ turns → (c.pending m).length + 1 ≤ outer →
        fillPartitions m per turns outer c = .ok partitions) ∧
      partitions.flatMap ChildTablePartition.blocks = c.pending m ∧
      (∀ p ∈ partitions, 1 ≤ p.blocks.length ∧ p.blocks.length ≤ per.toInt.toNat ∧
        ∀ r ∈ p.childTableRanges, r.blocks ≠ []) ∧
      partitions.length * per.toInt.toNat < (c.pending m).length + per.toInt.toNat := by
  intro c
  induction hn : (c.pending m).length using Nat.strong_induction_on generalizing c with
  | _ n ih =>
    intro hc
    rcases eq_or_ne c.tables [] with hnil | hne
    · have hpending : c.pending m = [] := by rw [Cursor.pending, hnil]
      refine ⟨[], ?_, hpending.symm, by simp, by rw [length_nil, Nat.zero_mul]; omega⟩
      intro turns outer _ houter
      obtain ⟨outer, rfl⟩ : ∃ t, outer = t + 1 := ⟨outer - 1, by omega⟩
      rw [fillPartitions, hnil]
    · have hpos : 0 < (c.pending m).length := length_pos_iff.mpr (hc.pending_ne_nil hne)
      obtain ⟨ranges, next, hrun, hranges, hpending, hfilled, hvalid, hsuffix⟩ :=
        fillPartition_takes hc (show 0 ≤ per.toInt by omega)
      have hlen : (next.pending m).length = n - per.toInt.toNat := by
        rw [hpending, length_drop, hn]
      obtain ⟨partitions, hrest, hblocks, hsizes, hcount⟩ := ih _ (by omega) hlen hvalid
      have hfewer := hsuffix.length_le
      have htaken : (ranges.flatMap ChildTableRange.blocks).length = min per.toInt.toNat n := by
        rw [hranges, length_take, hn]
      have hsome : ranges.length > 0 := by
        rw [gt_iff_lt, length_pos_iff]
        rintro rfl
        rw [flatMap_nil, length_nil] at htaken
        omega
      refine ⟨⟨.uuid, ranges⟩ :: partitions, ?_, ?_, ?_, ?_⟩
      · intro turns outer hturns houter
        obtain ⟨outer, rfl⟩ : ∃ t, outer = t + 1 := ⟨outer - 1, by omega⟩
        obtain ⟨tableName, rest, htables⟩ := exists_cons_of_ne_nil hne
        rw [fillPartitions, htables]
        dsimp only
        rw [hrun turns hturns]
        show (fillPartitions m per turns outer next >>= _) = _
        rw [hrest turns outer (by omega) (by omega)]
        show Except.ok _ = _
        rw [if_pos hsome]
      · rw [flatMap_cons, hblocks, hpending]
        show ranges.flatMap ChildTableRange.blocks ++ _ = _
        rw [hranges, take_append_drop]
      · intro p hp
        rcases mem_cons.mp hp with rfl | hp
        · rw [ChildTablePartition.blocks, htaken]
          exact ⟨by omega, by omega, hfilled⟩
        · exact hsizes p hp
      · rw [length_cons, Nat.add_mul, one_mul]
        rcases le_or_gt per.toInt.toNat n with hfull | hlast
        · omega
        · -- the last partition leaves nothing for another one
          have hnone : partitions.length < 1 := by
            refine Nat.lt_of_mul_lt_mul_right (a := per.toInt.toNat) ?_
            omega
          rw [Nat.lt_one_iff.mp hnone, Nat.zero_mul]
          omega

/-! ### The whole map -/

namespace BlockStats

variable {m : BlockStats}

theorem perm_sortedTables (m : BlockStats) : m.sortedTables.Perm m.keys :=
  perm_insertionSort _ _

theorem mem_sortedTables {table : String} :
    table ∈ m.sortedTables ↔ ∃ e ∈ m.entries, e.1 = table := by
  rw [m.perm_sortedTables.mem_iff, AList.keys, List.keys, mem_map]

theorem blocks_of_mem {e : Sigma fun _ : String => TableBlockStats} (he : e ∈ m.entries) :
    m.blocks e.1 = e.2.blockCount.toInt.toNat := by
  rw [blocks, blockCount_of_mem he]

theorem Sized.tables (hm : m.Sized) :
    ∀ table ∈ m.sortedTables, 1 ≤ m.blocks table ∧ m.blocks table < 2 ^ 32 := by
  intro table htable
  obtain ⟨e, he, rfl⟩ := mem_sortedTables.mp htable
  obtain ⟨hpos, hlt⟩ := hm e he
  rw [blocks_of_mem he]
  omega

theorem length_allBlocks (tables : List String) :
    (m.allBlocks tables).length = (tables.map m.blocks).sum := by
  rw [allBlocks, length_flatMap]
  simp only [length_blocksFrom]

theorem length_allBlocks_sortedTables (m : BlockStats) :
    (m.allBlocks m.sortedTables).length = m.total := by
  rw [length_allBlocks, (m.perm_sortedTables.map m.blocks).sum_eq, total, AList.keys, List.keys,
    map_map]
  congr 1
  exact map_congr_left fun e he => blocks_of_mem he

theorem mem_allBlocks {tables : List String} {table : String} {b : ℕ} :
    (table, b) ∈ m.allBlocks tables ↔ table ∈ tables ∧ b < m.blocks table := by
  rw [allBlocks, mem_flatMap]
  constructor
  · rintro ⟨t, ht, hb⟩
    obtain ⟨rfl, -, hlt⟩ := mem_blocksFrom.mp hb
    exact ⟨ht, by omega⟩
  · rintro ⟨ht, hlt⟩
    exact ⟨table, ht, mem_blocksFrom.mpr ⟨rfl, Nat.zero_le b, by omega⟩⟩

theorem nodup_allBlocks {tables : List String} (hnodup : tables.Nodup) :
    (m.allBlocks tables).Nodup := by
  rw [allBlocks, nodup_flatMap]
  refine ⟨fun t _ => nodup_blocksFrom t 0 _, hnodup.imp ?_⟩
  intro s t hne p hs ht
  obtain ⟨rfl, -⟩ := mem_blocksFrom.mp (show (p.1, p.2) ∈ _ from hs)
  obtain ⟨heq, -⟩ := mem_blocksFrom.mp (show (p.1, p.2) ∈ _ from ht)
  exact hne heq

theorem length_sortedTables_le (hm : m.Sized) : m.sortedTables.length ≤ m.total := by
  rw [← length_allBlocks_sortedTables, length_allBlocks, ← length_map (f := m.blocks)]
  refine length_le_sum_of_one_le _ ?_
  intro b hb
  obtain ⟨table, htable, rfl⟩ := mem_map.mp hb
  exact (hm.tables table htable).1

theorem totalBlocks_exact (hm : m.Sized) (hfits : m.total < 2 ^ 63) :
    m.totalBlocks.toInt = m.total := by
  have hzero : (0 : Int64).toInt = 0 := rfl
  have hsum := Int64.toInt_foldl_add (f := fun e : Sigma fun _ : String => TableBlockStats =>
    e.2.blockCount) (l := m.entries) (a := 0) (fun e he => by have := (hm e he).1; omega)
    hzero.ge (by rw [hzero, ← total]; omega)
  rw [totalBlocks, hsum, hzero, Int.zero_add, total]

end BlockStats

/-- The partitions for any map, by the number of blocks that the source computes for one
of them. -/
theorem ctidPartitionsForChildTables_chunks (hm : m.Sized) (pp : PartitionParams)
    (hn : 1 ≤ pp.numPartitions.toInt) (htotal : m.totalBlocks ≠ 0)
    (hper : max 1 (divCeil m.totalBlocks pp.numPartitions) = per) :
    ∃ partitions, (∀ turns, m.total + 2 ≤ turns →
        ctidPartitionsForChildTables turns pp m = .ok partitions) ∧
      partitions.flatMap ChildTablePartition.blocks = m.allBlocks m.sortedTables ∧
      (∀ p ∈ partitions, 1 ≤ p.blocks.length ∧ p.blocks.length ≤ per.toInt.toNat ∧
        ∀ r ∈ p.childTableRanges, r.blocks ≠ []) ∧
      partitions.length * per.toInt.toNat < m.total + per.toInt.toNat := by
  have hpos : 1 ≤ per.toInt := by
    rw [← hper, Int64.toInt_max]
    exact le_max_left _ _
  have hcursor : Cursor.Valid m ⟨m.sortedTables, 0⟩ := .start hm.tables
  have htables := BlockStats.length_sortedTables_le hm
  have hnz : pp.numPartitions ≠ 0 := by
    intro hzero
    rw [hzero] at hn
    exact absurd hn (by decide)
  obtain ⟨partitions, hrun, hblocks, hsizes, hcount⟩ := fillPartitions_chunks hpos hcursor
  rw [Cursor.pending_start] at hblocks hcount hrun
  rw [BlockStats.length_allBlocks_sortedTables] at hcount hrun
  refine ⟨partitions, ?_, hblocks, hsizes, hcount⟩
  intro turns hturns
  rw [ctidPartitionsForChildTables, if_neg htotal, if_neg hnz, hper]
  exact hrun turns turns (by dsimp only; omega) (by omega)

/-! ### The size of a partition -/

/-- The number of blocks for a partition is the rounded-up share.  A sum that does not fit
does no harm with at least as many partitions as blocks. -/
theorem blocksPerPartition_exact {x y : Int64} (hx : 1 ≤ x.toInt) (hy : 1 ≤ y.toInt)
    (hfits : x.toInt + y.toInt ≤ 2 ^ 63 ∨ x.toInt ≤ y.toInt) :
    (max 1 (divCeil x y)).toInt = (x.toInt + y.toInt - 1) / y.toInt := by
  have hone : 1 ≤ (x.toInt + y.toInt - 1) / y.toInt :=
    Int.le_ediv_of_mul_le (by omega) (by omega)
  rw [Int64.toInt_max, show (1 : Int64).toInt = 1 from rfl]
  rcases le_or_gt (x.toInt + y.toInt) (2 ^ 63) with hsum | hsum
  · rw [divCeil_exact (by omega) hy hsum]
    omega
  · have hle : x.toInt ≤ y.toInt := by omega
    have hlt : (x.toInt + y.toInt - 1) / y.toInt < 2 := Int.ediv_lt_of_lt_mul (by omega) (by omega)
    have hneg := divCeil_wraps hy hsum
    omega

/-- Partitions of the rounded-up size: not more than `n` of them. -/
theorem count_le_of_ceil {n : ℤ} (hn : 1 ≤ n) {total count per : ℕ}
    (hper : (per : ℤ) = (total + n - 1) / n) (hcount : count * per < total + per) :
    (count : ℤ) ≤ n := by
  by_contra hmore
  have hceil : (total : ℤ) ≤ n * per := by
    have hdiv := Int.mul_ediv_add_emod (total + n - 1) n
    have hmod := Int.emod_lt_of_pos (total + n - 1) (by omega : 0 < n)
    rw [hper]
    omega
  have hmul : (n + 1) * per ≤ count * per :=
    mul_le_mul_of_nonneg_right (by omega) (Int.natCast_nonneg per)
  have hcount' : (count : ℤ) * per < total + per := by exact_mod_cast hcount
  rw [add_mul, one_mul] at hmul
  omega

/-! ### The cover -/

section Cover

variable {m : BlockStats} {partitions : List ChildTablePartition}
  (hblocks : partitions.flatMap ChildTablePartition.blocks = m.allBlocks m.sortedTables)
include hblocks

/-- If the blocks of the partitions are those of the tables, every block lies in one
range. -/
theorem countP_contains_eq_one {e : Sigma fun _ : String => TableBlockStats} (he : e ∈ m.entries)
    {b : ℕ} (hb : b < e.2.blockCount.toInt) :
    ((partitions.flatMap fun p => p.childTableRanges).countP fun r =>
      decide (r.Contains e.1 b)) = 1 := by
  have hnodup : m.sortedTables.Nodup := m.perm_sortedTables.nodup_iff.mpr m.keys_nodup
  rw [countP_contains, flatMap_assoc]
  show (partitions.flatMap ChildTablePartition.blocks).count (e.1, b) = 1
  rw [hblocks]
  refine count_eq_one_of_mem (BlockStats.nodup_allBlocks hnodup)
    (BlockStats.mem_allBlocks.mpr ⟨BlockStats.mem_sortedTables.mpr ⟨e, he, rfl⟩, ?_⟩)
  rw [BlockStats.blocks_of_mem he]
  omega

theorem range_inside {p : ChildTablePartition} (hp : p ∈ partitions) {r : ChildTableRange}
    (hr : r ∈ p.childTableRanges) (hsome : r.blocks ≠ []) :
    ∃ stats, m.lookup r.table = some stats ∧
      ∀ b, r.Contains r.table b → b < stats.blockCount.toInt := by
  have hmem : ∀ q ∈ r.blocks, q ∈ m.allBlocks m.sortedTables := by
    intro q hq
    rw [← hblocks]
    exact mem_flatMap.mpr ⟨p, hp, mem_flatMap.mpr ⟨r, hr, hq⟩⟩
  obtain ⟨⟨table, b₀⟩, hq⟩ := exists_mem_of_ne_nil _ hsome
  obtain ⟨rfl, -⟩ := ChildTableRange.mem_blocks.mp hq
  obtain ⟨e, he, htable⟩ :=
    BlockStats.mem_sortedTables.mp (BlockStats.mem_allBlocks.mp (hmem _ hq)).1
  refine ⟨e.2, htable ▸ AList.mem_lookup_iff.mpr he, ?_⟩
  intro b hb
  have hlt := (BlockStats.mem_allBlocks.mp (hmem _ (ChildTableRange.mem_blocks.mpr hb))).2
  rw [← htable, BlockStats.blocks_of_mem he] at hlt
  omega

end Cover

/-- **Child tables are an exact cover.**  Every block of every table lies in one range and
no range goes beyond its table; a partition has at least one block and at most the
rounded-up share, and there are not more partitions than asked for. -/
theorem ctidPartitionsForChildTables_exact {m : BlockStats} (hm : m.Sized) (pp : PartitionParams)
    (hn : 1 ≤ pp.numPartitions.toInt)
    (hfits : m.total + pp.numPartitions.toInt ≤ 2 ^ 63 ∨ m.total ≤ pp.numPartitions.toInt) :
    ∃ partitions, (∀ turns, m.total + 2 ≤ turns →
        ctidPartitionsForChildTables turns pp m = .ok partitions) ∧
      (∀ e ∈ m.entries, ∀ b : ℕ, b < e.2.blockCount.toInt →
        ((partitions.flatMap fun p => p.childTableRanges).countP fun r =>
          decide (r.Contains e.1 b)) = 1) ∧
      (∀ p ∈ partitions, ∀ r ∈ p.childTableRanges, ∃ stats, m.lookup r.table = some stats ∧
        ∀ b, r.Contains r.table b → b < stats.blockCount.toInt) ∧
      (∀ p ∈ partitions, 1 ≤ p.blocks.length ∧
        (p.blocks.length : ℤ) ≤ (m.total + pp.numPartitions.toInt - 1) / pp.numPartitions.toInt) ∧
      partitions.length ≤ pp.numPartitions.toInt := by
  have hlimit := pp.numPartitions.toInt_lt
  have htotal := BlockStats.totalBlocks_exact hm (by omega)
  rcases Nat.eq_zero_or_pos m.total with hzero | hpos
  · -- no blocks, and so no tables: the source returns before the division
    have hnone : m.entries = [] := by
      refine eq_nil_iff_forall_not_mem.mpr fun e he => ?_
      have hle := single_le_sum (fun _ _ => Nat.zero_le _) _
        (mem_map_of_mem (f := fun e : Sigma fun _ : String => TableBlockStats =>
          e.2.blockCount.toInt.toNat) he)
      rw [← BlockStats.total, hzero] at hle
      have := (hm e he).1
      omega
    refine ⟨[], ?_, by simp [hnone], by simp, by simp, by simp; omega⟩
    intro turns _
    rw [ctidPartitionsForChildTables, if_pos]
    apply Int64.toInt_inj.mp
    rw [htotal, hzero]
    rfl
  · have hne : m.totalBlocks ≠ 0 := by
      intro heq
      rw [heq, show (0 : Int64).toInt = 0 from rfl] at htotal
      omega
    have hper := blocksPerPartition_exact (x := m.totalBlocks) (by omega) hn (by rwa [htotal])
    rw [htotal] at hper
    have hnonneg : 0 ≤ (m.total + pp.numPartitions.toInt - 1) / pp.numPartitions.toInt :=
      Int.ediv_nonneg (by omega) (by omega)
    obtain ⟨partitions, hrun, hblocks, hsizes, hcount⟩ :=
      ctidPartitionsForChildTables_chunks hm pp hn hne rfl
    refine ⟨partitions, hrun, fun e he b hb => countP_contains_eq_one hblocks he hb,
      fun p hp r hr => range_inside hblocks hp hr ((hsizes p hp).2.2 r hr), ?_,
      count_le_of_ceil hn (by rw [← hper]; omega) hcount⟩
    intro p hp
    obtain ⟨hlo, hhi, -⟩ := hsizes p hp
    exact ⟨hlo, by omega⟩

/-- Three tables with 30, 20 and 10 blocks. -/
def threeTables : BlockStats :=
  ⟨[⟨"public.t1", ⟨1.5, 30⟩⟩, ⟨"public.t2", ⟨0, 20⟩⟩, ⟨"public.t3", ⟨2, 10⟩⟩], by
    rw [List.NodupKeys]; decide⟩

theorem threeTables_partitions :
    ∃ partitions, ctidPartitionsForChildTables 62 ⟨none, 3, false⟩ threeTables = .ok partitions ∧
      (∀ p ∈ partitions, 1 ≤ p.blocks.length ∧ (p.blocks.length : ℤ) ≤ 20) ∧
      partitions.length ≤ (3 : ℤ) := by
  have hsized : threeTables.Sized := by
    rw [BlockStats.Sized, ← forall_iff_forall_mem]
    exact ⟨by decide, by decide, by decide⟩
  obtain ⟨partitions, hrun, -, -, hsizes, hcount⟩ :=
    ctidPartitionsForChildTables_exact hsized ⟨none, 3, false⟩ (by decide) (.inl (by decide))
  exact ⟨partitions, hrun 62 (by decide), hsizes, hcount⟩

/-- That many tables of the greatest size. -/
def wideTables (k : ℕ) : BlockStats :=
  ⟨(List.range k).map fun i => ⟨String.ofList (List.replicate i 'a'), ⟨0, 4294967295⟩⟩, by
    rw [List.NodupKeys, List.keys, map_map]
    refine List.Nodup.map ?_ nodup_range
    intro i j hij
    have hlists := String.ofList_injective hij
    simpa using congrArg List.length hlists⟩

theorem wideTables_sized (k : ℕ) : (wideTables k).Sized := by
  intro e he
  obtain ⟨i, -, rfl⟩ := mem_map.mp he
  show 1 ≤ (4294967295 : Int64).toInt ∧ (4294967295 : Int64).toInt < 2 ^ 32
  decide

theorem wideTables_total (k : ℕ) : (wideTables k).total = k * 4294967295 := by
  rw [BlockStats.total, wideTables, map_map]
  show ((List.range k).map fun _ => 4294967295).sum = _
  rw [map_const', sum_replicate, length_range, nsmul_eq_mul, Nat.cast_id]

/-- With `2^31` tables of `2^32 - 1` blocks the sum that is divided by `2^32` partitions
wraps around, every partition gets one block, and there are more partitions than asked
for. -/
theorem wideTables_too_many :
    (wideTables (2 ^ 31)).Sized ∧
    ∃ partitions, (∀ turns, (wideTables (2 ^ 31)).total + 2 ≤ turns →
        ctidPartitionsForChildTables turns ⟨none, 4294967296, false⟩ (wideTables (2 ^ 31)) =
          .ok partitions) ∧
      (4294967296 : Int64).toInt < partitions.length := by
  have hsized := wideTables_sized (2 ^ 31)
  have hsum := wideTables_total (2 ^ 31)
  generalize wideTables (2 ^ 31) = m at hsized hsum ⊢
  have hn : (4294967296 : Int64).toInt = 4294967296 := by decide
  have htotal := BlockStats.totalBlocks_exact hsized (by omega)
  have hne : m.totalBlocks ≠ 0 := by
    intro heq
    rw [heq, show (0 : Int64).toInt = 0 from rfl] at htotal
    omega
  have hwraps := divCeil_wraps (x := m.totalBlocks) (y := 4294967296) (by omega) (by omega)
  have hper : (max 1 (divCeil m.totalBlocks 4294967296)).toInt = 1 := by
    rw [Int64.toInt_max, show (1 : Int64).toInt = 1 from rfl]
    omega
  obtain ⟨partitions, hrun, hblocks, hsizes, -⟩ :=
    ctidPartitionsForChildTables_chunks hsized ⟨none, 4294967296, false⟩ (by decide) hne rfl
  refine ⟨hsized, partitions, hrun, ?_⟩
  -- no partition has more than one block
  have hlength := congrArg List.length hblocks
  rw [BlockStats.length_allBlocks_sortedTables, length_flatMap] at hlength
  have hle : (partitions.map fun p => p.blocks.length).sum ≤
      (partitions.map fun p => p.blocks.length).length • 1 := by
    refine sum_le_card_nsmul _ _ ?_
    intro b hb
    obtain ⟨p, hp, rfl⟩ := mem_map.mp hb
    have hone := (hsizes p hp).2.1
    rwa [hper] at hone
  rw [length_map, nsmul_eq_mul, Nat.cast_id, mul_one] at hle
  omega

end QRep
