/-
Partitions of a string column (`CreateStringPartition`).

A partition has the strings from its start on, up to its end or, if the end is marked as
inclusive, with its end.  `covers_of_joined` — ranges that start where the one before
ends, with the last end inclusive, have every string between the first and the last value
once.
-/
import PeerDB.QRep.Partition
import PeerDB.Lib.BigEndian

open Intervals

namespace QRep

/-- A Go string, byte by byte. -/
abbrev ByteString := List (Fin 256)

/-- A `protos.QRepPartition` with a `StringPartitionRange`. -/
structure StringPartition (S : Type) where
  partitionId : PartitionId
  start : S
  stop : S
  endInclusive : Bool
deriving DecidableEq

section

variable {S : Type}

def createStringPartition (start stop : S) (endInclusive : Bool) : StringPartition S :=
  { partitionId := .uuid, start, stop, endInclusive }

variable [LinearOrder S]

/-- `start <= x AND x < end`, or `x <= end` for an inclusive end. -/
def StringPartition.Selects (p : StringPartition S) (x : S) : Prop :=
  Within p.endInclusive (p.start, p.stop) x

instance StringPartition.decidableSelects (p : StringPartition S) (x : S) :
    Decidable (p.Selects x) :=
  inferInstanceAs (Decidable (Within _ _ _))

/-- The partitions lead from `lo` to `hi` without a gap, in strictly increasing order, and
only the last end is inclusive, so that every string in between is selected once. -/
structure StringCover (lo hi : S) (parts : List (StringPartition S)) : Prop where
  first : parts.head?.map StringPartition.start = some lo
  last : parts.getLast?.map StringPartition.stop = some hi
  contiguous : parts.IsChain fun p q => p.stop = q.start
  increasing : lo < hi → ∀ p ∈ parts, p.start < p.stop
  inclusive : ∃ init p, parts = init ++ [p] ∧ p.endInclusive = true ∧
    ∀ q ∈ init, q.endInclusive = false
  once : ∀ x, lo ≤ x → x ≤ hi → (parts.countP fun p => decide (p.Selects x)) = 1

theorem covers_of_joined {lo hi : S} {rs : List (S × S)} (hjoined : Joined lo hi rs)
    (hle : ∀ r ∈ rs, r.1 ≤ r.2) (hlt : lo < hi → ∀ r ∈ rs, r.1 < r.2) :
    StringCover lo hi ((lastClosed rs).map fun p => createStringPartition p.1.1 p.1.2 p.2) := by
  have hranges : ((lastClosed rs).map fun p => createStringPartition p.1.1 p.1.2 p.2).map
      (fun p => (p.start, p.stop)) = rs := by
    rw [List.map_map]
    refine Eq.trans ?_ (List.map_id rs)
    refine List.ext_getElem? fun i => ?_
    simp only [lastClosed, List.getElem?_map, List.getElem?_mapIdx, Option.map_map]
    rfl
  constructor
  · have hhead := hjoined.head?
    rw [← hranges, List.head?_map, Option.map_map] at hhead
    exact hhead
  · have hlast := hjoined.getLast?
    rw [← hranges, List.getLast?_map, Option.map_map] at hlast
    exact hlast
  · have hchain := hjoined.isChain
    rw [← hranges, List.isChain_map] at hchain
    exact hchain
  · intro hlohi p hp
    have hmem : (p.start, p.stop) ∈ rs := by
      rw [← hranges]
      exact List.mem_map_of_mem hp
    exact hlt hlohi _ hmem
  · obtain ⟨init, r, rfl⟩ : ∃ init r, rs = init ++ [r] :=
      ⟨_, _, (List.dropLast_append_getLast hjoined.ne_nil).symm⟩
    rw [lastClosed_concat, List.map_append]
    refine ⟨_, _, rfl, rfl, ?_⟩
    intro q hq
    obtain ⟨p, hp, rfl⟩ := List.mem_map.mp hq
    obtain ⟨s, -, rfl⟩ := List.mem_map.mp hp
    rfl
  · intro x hlo hhi
    have hcount := hjoined.count_lastClosed hle x
    rw [if_pos ⟨hlo, hhi⟩] at hcount
    rw [List.countP_map]
    exact hcount

end

end QRep
