/-
Partitions of an arbitrary string column (`buildAdaptiveStringPartitions`).

The range of the column is split again and again at keys that the database returns, the
partition with the greatest estimate first; the partitions that can still be split are in
a heap, and those that cannot are set aside.  The database compares strings in the
collation of the column, a total preorder, while the program compares bytes.

* `Pieces` — the ranges of the heap and of those set aside, put in order: joined at their
  ends, and all ends but the last strictly before the greatest value;
* `adaptiveLoop_pieces` — every turn keeps this, whatever the estimates and the keys;
* `buildAdaptiveStringPartitions_cover` — so every string is in the range of exactly one
  partition, and only the one that ends at the greatest value is inclusive.

The database may answer differently at each turn, so there is a prober for each.  The loop
of the source has no bound; `turns` is the number of turns it is given here.
-/
import PeerDB.QRep.StringPartition
import PeerDB.Lib.Heap
import Mathlib.Data.List.Sort
import Mathlib.Order.Antisymmetrization

open Intervals

namespace QRep

open List

/-! ### Midpoints -/

def runeStart (b : Fin 256) : Bool := !(128 ≤ b && b ≤ 191)

/-- The length of the longest common beginning. -/
def sharedLength : ByteString → ByteString → ℕ
  | a :: s₁, b :: s₂ => if a = b then sharedLength s₁ s₂ + 1 else 0
  | _, _ => 0

def backOff (s : ByteString) : ℕ → ℕ
  | 0 => 0
  | i + 1 =>
    match s[i + 1]? with
    | some c => if runeStart c then i + 1 else backOff s i
    | none => i + 1

instance neZero_base95 : NeZero 95 := ⟨by decide⟩

/-- The digit of a byte, clamped to printable ASCII. -/
def base95Digit (ch : Fin 256) : ℕ :=
  if ch < 32 then 0 else if ch > 126 then 94 else ch - 32

/-- The first 8 bytes as a number in base 95, less than `95^8` and so of 64 bits. -/
def stringToBase95Integer (s : ByteString) : ℕ :=
  (List.range 8).foldl (fun res i => res * 95 + (s[i]?.map base95Digit).getD 0) 0

def base95IntegerToString (n : ℕ) : ByteString :=
  (BigEndian.digits 95 8 n).map fun d => Fin.ofNat 256 (32 + d)

/-- `strings.TrimRight(s, " ")`. -/
def trimRight (s : ByteString) : ByteString := (s.reverse.dropWhile fun c => c == 32).reverse

/-- The string in the middle between two, or none if they cannot be split. -/
def stringMidpoint (s₁ s₂ : ByteString) : Option ByteString :=
  if s₁ = s₂ then none
  else
    let i := backOff s₁ (sharedLength s₁ s₂)
    let r₁ := s₁.drop i
    let r₂ := s₂.drop i
    let b₁ := r₁.head?.getD 0
    let b₂ := r₂.head?.getD 0
    if max b₁ b₂ < 32 ∨ min b₁ b₂ > 126 then none
    else
      let mid := (stringToBase95Integer r₁ + stringToBase95Integer r₂) / 2
      some (trimRight (s₁.take i ++ base95IntegerToString mid))

/-! ### The model -/

structure StringPartitionEntry where
  start : ByteString
  stop : ByteString
  rows : UInt64
deriving DecidableEq

/-- The order of `stringPartitionHeap`: most rows first. -/
def StringPartitionEntry.less (a b : StringPartitionEntry) : Bool := a.rows > b.rows

/-- `rangeProber`, for one table and column.  A key that is not found is `none`. -/
structure RangeProber where
  estimateRowsInRange : ByteString → ByteString → Except String UInt64
  fetchNextRealKey : ByteString → ByteString → ByteString → Except String (Option ByteString)
  fetchPrevRealKey : ByteString → ByteString → ByteString → Except String (Option ByteString)

namespace RangeProber

def estimate (prober : RangeProber) (start stop : ByteString) : Except Fault UInt64 :=
  (prober.estimateRowsInRange start stop).mapError fun e =>
    .error ("failed to estimate rows: " ++ e)

/-- The next key from the midpoint on, or else the one before it. -/
def fetchKey (prober : RangeProber) (mid start stop : ByteString) :
    Except Fault (Option ByteString) := do
  let next ← (prober.fetchNextRealKey mid start stop).mapError fun e =>
    .error ("failed to fetch next real key: " ++ e)
  match next with
  | some k => return some k
  | none => (prober.fetchPrevRealKey mid start stop).mapError fun e =>
      .error ("failed to fetch prev real key: " ++ e)

/-- The two halves of a partition, or none if it cannot be split. -/
def split (prober : RangeProber) (p : StringPartitionEntry) :
    Except Fault (Option (StringPartitionEntry × StringPartitionEntry)) :=
  match stringMidpoint p.start p.stop with
  | none => .ok none
  | some mid => do
    match ← prober.fetchKey mid p.start p.stop with
    | none => return none
    | some k => do
      let leftRows ← prober.estimate p.start k
      let rightRows ← prober.estimate k p.stop
      return some (⟨p.start, k, leftRows⟩, ⟨k, p.stop, rightRows⟩)

end RangeProber

/-- The loop, at turn `i`: the partitions that were set aside, and the heap. -/
def adaptiveLoop (probers : ℕ → RangeProber) (numPartitions : Int64) :
    ℕ → ℕ → List StringPartitionEntry → Array StringPartitionEntry →
    Except Fault (List StringPartitionEntry × Array StringPartitionEntry)
  | 0, _, _, _ => .error .running
  | turns + 1, i, outputs, h =>
    if Int64.ofNat (outputs.length + h.size) < numPartitions ∧ h.size > 0 then
      match Heap.pop StringPartitionEntry.less h with
      | none => .error (.panic "runtime error: index out of range [-1]")
      | some (p, h) => do
        match ← (probers i).split p with
        | none => adaptiveLoop probers numPartitions turns (i + 1) (outputs ++ [p]) h
        | some (left, right) =>
          adaptiveLoop probers numPartitions turns (i + 1) outputs
            (Heap.push StringPartitionEntry.less
              (Heap.push StringPartitionEntry.less h left) right)
    else .ok (outputs, h)

/-- What is left in the heap, one pop after the other. -/
def drain : ℕ → Array StringPartitionEntry → List StringPartitionEntry
  | 0, _ => []
  | n + 1, h =>
    match Heap.pop StringPartitionEntry.less h with
    | none => []
    | some (p, h) => p :: drain n h

def buildAdaptiveStringPartitions (turns : ℕ) (probers : ℕ → RangeProber)
    (minVal maxVal : ByteString) (numPartitions : Int64) :
    Except Fault (List (StringPartition ByteString)) := do
  let totalRows ← (probers 0).estimate minVal maxVal
  let h := Heap.init StringPartitionEntry.less #[⟨minVal, maxVal, totalRows⟩]
  let (outputs, h) ← adaptiveLoop probers numPartitions turns 1 [] h
  return (outputs ++ drain h.size h).map fun p =>
    createStringPartition p.start p.stop (p.stop == maxVal)

/-! ### Collations -/

/-- A total preorder on strings: different strings can be equal in it. -/
structure Collation where
  le : ByteString → ByteString → Bool
  refl : ∀ s, le s s = true
  trans : ∀ s t u, le s t = true → le t u = true → le s u = true
  total : ∀ s t, le s t = true ∨ le t s = true

namespace Collation

variable (c : Collation)

def lt (s t : ByteString) : Bool := !c.le t s

/-- `start <= s AND s < end`, or `s <= end` for an inclusive end, in the collation. -/
def selects (p : StringPartition ByteString) (s : ByteString) : Bool :=
  c.le p.start s && if p.endInclusive then c.le s p.stop else c.lt s p.stop

end Collation

/-- Keys are strictly inside the range in which they were looked for. -/
def RangeProber.Strict (c : Collation) (prober : RangeProber) : Prop :=
  ∀ mid start stop k, prober.fetchNextRealKey mid start stop = .ok (some k) ∨
    prober.fetchPrevRealKey mid start stop = .ok (some k) →
    c.lt start k = true ∧ c.lt k stop = true

/-- Some answer of the prober is an error. -/
def RangeProber.Fails (prober : RangeProber) : Prop :=
  (∃ start stop e, prober.estimateRowsInRange start stop = .error e) ∨
  (∃ mid start stop e, prober.fetchNextRealKey mid start stop = .error e) ∨
  ∃ mid start stop e, prober.fetchPrevRealKey mid start stop = .error e

/-- The prober of the source, for the values of the column: the bounds are compared, and the
keys put in order, in the collation. -/
def tableProber (c : Collation) (column : List ByteString)
    (estimate : ByteString → ByteString → UInt64) : RangeProber where
  estimateRowsInRange start stop := .ok (estimate start stop)
  fetchNextRealKey mid start stop := .ok <|
    ((column.filter fun k => c.le mid k && (c.lt start k && c.lt k stop)).insertionSort
      fun s t => c.le s t = true).head?
  fetchPrevRealKey mid start stop := .ok <|
    ((column.filter fun k => c.lt k mid && (c.lt start k && c.lt k stop)).insertionSort
      fun s t => c.le t s = true).head?

theorem tableProber_strict (c : Collation) (column : List ByteString)
    (estimate : ByteString → ByteString → UInt64) : (tableProber c column estimate).Strict c := by
  -- what a query returns is one of the rows that it filters
  have hfilter : ∀ (le : ByteString → ByteString → Bool) (test : ByteString → Bool)
      (start stop k : ByteString),
      ((column.filter fun k => test k && (c.lt start k && c.lt k stop)).insertionSort
        fun s t => le s t = true).head? = some k → c.lt start k = true ∧ c.lt k stop = true := by
    intro le test start stop k hk
    have hmem := (mem_insertionSort _).mp (mem_of_head? hk)
    have htest := (mem_filter.mp hmem).2
    rw [Bool.and_eq_true, Bool.and_eq_true] at htest
    exact htest.2
  intro mid start stop k hk
  rcases hk with hk | hk
  · exact hfilter c.le _ start stop k (Except.ok.inj hk)
  · exact hfilter (fun s t => c.le t s) _ start stop k (Except.ok.inj hk)

/-! ### Ranges in a collation -/

namespace Collation

/-- Strings with the order of the collation. -/
def Carrier (_ : Collation) : Type := ByteString

instance (c : Collation) : Preorder c.Carrier where
  le s t := c.le s t = true
  le_refl := c.refl
  le_trans := c.trans

instance (c : Collation) : @Std.Total c.Carrier (· ≤ ·) := ⟨c.total⟩

noncomputable instance (c : Collation) : DecidableLE c.Carrier := Classical.decRel _

noncomputable instance (c : Collation) : DecidableLT c.Carrier := Classical.decRel _

/-- Strings up to equality in the collation. -/
abbrev Class (c : Collation) : Type := Antisymmetrization c.Carrier (· ≤ ·)

def toClass (c : Collation) (s : ByteString) : c.Class :=
  toAntisymmetrization (α := c.Carrier) (· ≤ ·) s

variable {c : Collation} {s t : ByteString}

theorem toClass_le : c.toClass s ≤ c.toClass t ↔ c.le s t = true :=
  toAntisymmetrization_le_toAntisymmetrization_iff

theorem toClass_lt : c.toClass s < c.toClass t ↔ c.lt s t = true := by
  rw [← not_le, toClass_le, lt, Bool.not_eq_true', Bool.not_eq_true]

theorem lt_trans_le {u : ByteString} (hst : c.lt s t = true) (htu : c.le t u = true) :
    c.lt s u = true := by
  rw [← toClass_lt] at hst ⊢
  rw [← toClass_le] at htu
  exact hst.trans_le htu

theorem le_of_lt (hst : c.lt s t = true) : c.le s t = true := by
  rw [← toClass_lt] at hst
  rw [← toClass_le]
  exact hst.le

theorem ne_of_lt (hst : c.lt s t = true) : s ≠ t := by
  rintro rfl
  rw [lt, c.refl] at hst
  cases hst

theorem selects_iff {start stop : ByteString} {closed : Bool} :
    c.selects (createStringPartition start stop closed) s = true ↔
      Within closed (c.toClass start, c.toClass stop) (c.toClass s) := by
  rw [selects, createStringPartition, Bool.and_eq_true]
  cases closed with
  | false =>
    rw [within_false, toClass_le, toClass_lt]
    rfl
  | true =>
    rw [within_true, toClass_le, toClass_le]
    rfl

end Collation

/-- Ranges from the least to the greatest value, in order: joined at their ends, and all
ends but the last strictly before the greatest value. -/
structure Pieces (c : Collation) (lo hi : ByteString) (rs : List (ByteString × ByteString)) :
    Prop where
  joined : Joined lo hi rs
  le : ∀ r ∈ rs, c.le r.1 r.2 = true
  before : ∀ r ∈ rs.dropLast, c.lt r.2 hi = true

namespace Pieces

variable {c : Collation} {lo hi : ByteString} {rs : List (ByteString × ByteString)}

theorem whole (hle : c.le lo hi = true) : Pieces c lo hi [(lo, hi)] :=
  ⟨.last lo hi, by simpa using hle, by simp⟩

/-- Splitting a range at a key strictly inside it. -/
theorem split {l r : List (ByteString × ByteString)} {s e k : ByteString}
    (h : Pieces c lo hi (l ++ (s, e) :: r)) (hsk : c.lt s k = true) (hke : c.lt k e = true) :
    Pieces c lo hi (l ++ (s, k) :: (k, e) :: r) := by
  have hle := h.le
  have hbefore := h.before
  refine ⟨h.joined.split k, ?_, ?_⟩
  · intro p hp
    rw [mem_append, mem_cons, mem_cons] at hp
    rcases hp with hp | rfl | rfl | hp
    · exact hle p (mem_append_left _ hp)
    · exact Collation.le_of_lt hsk
    · exact Collation.le_of_lt hke
    · exact hle p (mem_append_right _ (mem_cons_of_mem _ hp))
  · cases r with
    | nil =>
      -- the last range was split: its new first half ends before the greatest value
      have hend : e = hi := by
        have hlast := h.joined.getLast?
        rw [getLast?_concat] at hlast
        exact Option.some.inj hlast
      rw [dropLast_concat] at hbefore
      rw [append_cons, dropLast_concat]
      intro p hp
      rcases mem_append.mp hp with hp | hp
      · exact hbefore p hp
      · rw [mem_singleton.mp hp, ← hend]
        exact hke
    | cons q r =>
      rw [dropLast_append_cons, dropLast_cons_cons] at hbefore
      rw [dropLast_append_cons, dropLast_cons_cons, dropLast_cons_cons]
      have hehi : c.lt e hi = true := hbefore (s, e) (by simp)
      intro p hp
      rw [mem_append, mem_cons, mem_cons] at hp
      rcases hp with hp | rfl | rfl | hp
      · exact hbefore p (mem_append_left _ hp)
      · exact Collation.lt_trans_le hke (Collation.le_of_lt hehi)
      · exact hehi
      · exact hbefore p (mem_append_right _ (mem_cons_of_mem _ hp))

/-- Only the last range ends at the greatest value, byte by byte. -/
theorem flags (h : Pieces c lo hi rs) : (rs.map fun r => (r, r.2 == hi)) = lastClosed rs := by
  obtain ⟨init, last, rfl⟩ : ∃ init last, rs = init ++ [last] :=
    ⟨_, _, (dropLast_append_getLast h.joined.ne_nil).symm⟩
  have hlast := h.joined.getLast?
  rw [getLast?_concat] at hlast
  have hbefore := h.before
  rw [dropLast_concat] at hbefore
  rw [lastClosed_concat, map_append]
  congr 1
  · refine map_congr_left fun r hr => ?_
    rw [beq_eq_false_iff_ne.mpr (Collation.ne_of_lt (hbefore r hr))]
  · rw [map_singleton, show last.2 = hi from Option.some.inj hlast, beq_self_eq_true]

/-- **Every string between the ends is in one range**, in the collation. -/
theorem countP_selects (h : Pieces c lo hi rs) {s : ByteString} (hlo : c.le lo s = true)
    (hhi : c.le s hi = true) :
    ((rs.map fun r => createStringPartition r.1 r.2 (r.2 == hi)).countP fun p => c.selects p s) =
      1 := by
  have hranges : ∀ r ∈ rs.map fun r => (c.toClass r.1, c.toClass r.2), r.1 ≤ r.2 :=
    forall_mem_map.mpr fun r hr => Collation.toClass_le.mpr (h.le r hr)
  have hcount := (h.joined.map c.toClass).count_lastClosed hranges (c.toClass s)
  rw [if_pos ⟨Collation.toClass_le.mpr hlo, Collation.toClass_le.mpr hhi⟩, lastClosed_map,
    ← h.flags, map_map, countP_map] at hcount
  rw [countP_map]
  refine Eq.trans (countP_congr fun r _ => ?_) hcount
  simp only [Function.comp_apply, decide_eq_true_eq]
  exact Collation.selects_iff

theorem countP_inclusive (h : Pieces c lo hi rs) :
    (rs.map fun r => createStringPartition r.1 r.2 (r.2 == hi)).countP
      (fun p => p.endInclusive) = 1 := by
  have hcount : (lastClosed rs).countP (fun q => q.2) = 1 := by
    obtain ⟨init, last, rfl⟩ : ∃ init last, rs = init ++ [last] :=
      ⟨_, _, (dropLast_append_getLast h.joined.ne_nil).symm⟩
    rw [lastClosed_concat, countP_append, countP_map]
    simp
  rw [← h.flags, countP_map] at hcount
  rw [countP_map]
  exact hcount

end Pieces

/-! ### One turn -/

/-- What a call of the prober for a partition can give: no key, a key strictly inside, or
an error. -/
theorem RangeProber.split_cases {c : Collation} {prober : RangeProber} (hstrict : prober.Strict c)
    (p : StringPartitionEntry) :
    prober.split p = .ok none ∨
      (∃ k leftRows rightRows,
        prober.split p = .ok (some (⟨p.start, k, leftRows⟩, ⟨k, p.stop, rightRows⟩)) ∧
        c.lt p.start k = true ∧ c.lt k p.stop = true) ∨
      ∃ msg, prober.split p = .error (.error msg) ∧ prober.Fails := by
  rw [split]
  cases stringMidpoint p.start p.stop with
  | none => exact .inl rfl
  | some mid =>
    -- a key that was found is inside the range, wherever it comes from
    have hkey : (∃ msg, prober.fetchKey mid p.start p.stop = .error (.error msg) ∧ prober.Fails) ∨
        prober.fetchKey mid p.start p.stop = .ok none ∨
        ∃ k, prober.fetchKey mid p.start p.stop = .ok (some k) ∧
          c.lt p.start k = true ∧ c.lt k p.stop = true := by
      rw [fetchKey]
      cases hnext : prober.fetchNextRealKey mid p.start p.stop with
      | error e => exact .inl ⟨_, rfl, .inr (.inl ⟨_, _, _, e, hnext⟩)⟩
      | ok next =>
        cases next with
        | some k => exact .inr (.inr ⟨k, rfl, hstrict mid _ _ k (.inl hnext)⟩)
        | none =>
          cases hprev : prober.fetchPrevRealKey mid p.start p.stop with
          | error e => exact .inl ⟨_, rfl, .inr (.inr ⟨_, _, _, e, hprev⟩)⟩
          | ok prev =>
            cases prev with
            | none => exact .inr (.inl rfl)
            | some k => exact .inr (.inr ⟨k, rfl, hstrict mid _ _ k (.inr hprev)⟩)
    dsimp only
    rcases hkey with ⟨msg, hkey, hfails⟩ | hkey | ⟨k, hkey, hinside⟩
    · rw [hkey]
      exact .inr (.inr ⟨msg, rfl, hfails⟩)
    · rw [hkey]
      exact .inl rfl
    · rw [hkey]
      cases hleft : prober.estimateRowsInRange p.start k with
      | error e =>
        refine .inr (.inr ⟨"failed to estimate rows: " ++ e, ?_, .inl ⟨_, _, e, hleft⟩⟩)
        show (prober.estimate p.start k >>= _) = _
        rw [estimate, hleft]
        rfl
      | ok leftRows =>
        cases hright : prober.estimateRowsInRange k p.stop with
        | error e =>
          refine .inr (.inr ⟨"failed to estimate rows: " ++ e, ?_, .inl ⟨_, _, e, hright⟩⟩)
          show (prober.estimate p.start k >>= _) = _
          rw [estimate, hleft]
          show (prober.estimate k p.stop >>= _) = _
          rw [estimate, hright]
          rfl
        | ok rightRows =>
          refine .inr (.inl ⟨k, leftRows, rightRows, ?_, hinside⟩)
          show (prober.estimate p.start k >>= _) = _
          rw [estimate, hleft]
          show (prober.estimate k p.stop >>= _) = _
          rw [estimate, hright]
          rfl

def StringPartitionEntry.range (p : StringPartitionEntry) : ByteString × ByteString :=
  (p.start, p.stop)

/-- The ranges of these entries, put in order, are pieces of the whole range. -/
def Holds (c : Collation) (lo hi : ByteString) (entries : List StringPartitionEntry) : Prop :=
  ∃ rs, (entries.map StringPartitionEntry.range).Perm rs ∧ Pieces c lo hi rs

section Turn

variable {c : Collation} {lo hi : ByteString} {entries entries' : List StringPartitionEntry}

theorem Holds.perm (h : Holds c lo hi entries) (hperm : entries'.Perm entries) :
    Holds c lo hi entries' := by
  obtain ⟨rs, hrs, hpieces⟩ := h
  exact ⟨rs, (hperm.map _).trans hrs, hpieces⟩

/-- Replacing an entry by its two halves. -/
theorem Holds.split {p left right : StringPartitionEntry} {k : ByteString}
    (h : Holds c lo hi (p :: entries)) (hleft : left.range = (p.start, k))
    (hright : right.range = (k, p.stop)) (hpk : c.lt p.start k = true)
    (hkp : c.lt k p.stop = true) : Holds c lo hi (right :: left :: entries) := by
  obtain ⟨rs, hrs, hpieces⟩ := h
  rw [map_cons] at hrs
  obtain ⟨l, r, rfl⟩ := append_of_mem (hrs.mem_iff.mp mem_cons_self)
  have hrest : (entries.map StringPartitionEntry.range).Perm (l ++ r) :=
    List.Perm.cons_inv (hrs.trans perm_middle)
  refine ⟨l ++ (p.start, k) :: (k, p.stop) :: r, ?_, hpieces.split hpk hkp⟩
  rw [map_cons, map_cons, hleft, hright]
  refine (List.Perm.swap _ _ _).trans ?_
  refine List.Perm.trans ?_ perm_middle.symm
  refine List.Perm.cons _ ?_
  exact (hrest.cons _).trans perm_middle.symm

end Turn

/-! ### All turns -/

/-- The outcome of the loop: pieces of the range, not too many, or the error of a prober. -/
def LoopOutcome (c : Collation) (lo hi : ByteString) (numPartitions : Int64)
    (probers : ℕ → RangeProber) :
    Except Fault (List StringPartitionEntry × Array StringPartitionEntry) → Prop
  | .ok (outputs, h) =>
    Holds c lo hi (outputs ++ h.toList) ∧ outputs.length + h.size ≤ max 1 numPartitions.toInt.toNat
  | .error f => (∃ msg, f = .error msg) ∧ ∃ i, (probers i).Fails

variable {numPartitions : Int64}

/-- The loop goes on while there are fewer partitions than wanted. -/
theorem ofNat_lt_iff {total : ℕ} (hle : total ≤ max 1 numPartitions.toInt.toNat) :
    Int64.ofNat total < numPartitions ↔ total < numPartitions.toInt.toNat := by
  have hmax : numPartitions.toInt < 2 ^ 63 := numPartitions.toInt_lt
  rw [Int64.lt_iff_toInt_lt, Int64.toInt_ofNat_of_lt (by omega)]
  omega

variable {probers : ℕ → RangeProber} {outputs : List StringPartitionEntry}

/-- The loop ends when there are enough partitions, or none that can be split. -/
theorem adaptiveLoop_done {i turns : ℕ} {h : Array StringPartitionEntry} (hturns : 0 < turns)
    (hstop : ¬(Int64.ofNat (outputs.length + h.size) < numPartitions ∧ h.size > 0)) :
    adaptiveLoop probers numPartitions turns i outputs h = .ok (outputs, h) := by
  obtain ⟨turns, rfl⟩ := Nat.exists_eq_succ_of_ne_zero hturns.ne'
  rw [Nat.succ_eq_add_one, adaptiveLoop, if_neg hstop]

/-- One turn takes the largest partition from the heap, and goes on with it set aside or with
its two halves. -/
theorem adaptiveLoop_turn {i turns : ℕ} {h g : Array StringPartitionEntry}
    {p : StringPartitionEntry} (hturns : 0 < turns)
    (hgo : Int64.ofNat (outputs.length + h.size) < numPartitions ∧ h.size > 0)
    (hpop : Heap.pop StringPartitionEntry.less h = some (p, g)) :
    adaptiveLoop probers numPartitions turns i outputs h =
      (probers i).split p >>= fun
        | none => adaptiveLoop probers numPartitions (turns - 1) (i + 1) (outputs ++ [p]) g
        | some (left, right) => adaptiveLoop probers numPartitions (turns - 1) (i + 1) outputs
            (Heap.push StringPartitionEntry.less
              (Heap.push StringPartitionEntry.less g left) right) := by
  obtain ⟨turns, rfl⟩ := Nat.exists_eq_succ_of_ne_zero hturns.ne'
  rw [Nat.succ_eq_add_one, adaptiveLoop, if_pos hgo, hpop, Nat.add_sub_cancel]

/-- **Every turn keeps the pieces**, and the loop ends: a turn either sets a partition aside
or makes one more. -/
theorem adaptiveLoop_pieces {c : Collation} {lo hi : ByteString}
    (hstrict : ∀ i, (probers i).Strict c) (m : ℕ) :
    ∀ i outputs h, 2 * (numPartitions.toInt.toNat - (outputs.length + h.size)) + h.size ≤ m →
      outputs.length + h.size ≤ max 1 numPartitions.toInt.toNat →
      Holds c lo hi (outputs ++ h.toList) →
      ∃ outcome, (∀ turns > m, adaptiveLoop probers numPartitions turns i outputs h = outcome) ∧
        LoopOutcome c lo hi numPartitions probers outcome := by
  induction m with
  | zero =>
    intro i outputs h hm hle hholds
    exact ⟨.ok (outputs, h), fun turns hturns => adaptiveLoop_done hturns (by omega), hholds, hle⟩
  | succ m ih =>
    intro i outputs h hm hle hholds
    by_cases hgo : Int64.ofNat (outputs.length + h.size) < numPartitions ∧ h.size > 0
    swap
    · exact ⟨.ok (outputs, h), fun turns hturns => adaptiveLoop_done (by omega) hgo, hholds, hle⟩
    have hlt := (ofNat_lt_iff hle).mp hgo.1
    obtain ⟨p, g, hpop⟩ : ∃ p g, Heap.pop StringPartitionEntry.less h = some (p, g) :=
      Heap.exists_pop hgo.2
    have hperm := Heap.pop_perm hpop
    have hsize : h.size = g.size + 1 := by simpa using hperm.length_eq
    -- the partition that was popped, in front of all the others
    have hfront : Holds c lo hi (p :: (outputs ++ g.toList)) :=
      hholds.perm (perm_middle.symm.trans (hperm.symm.append_left _))
    rcases (probers i).split_cases (hstrict i) p with
      hsplit | ⟨k, leftRows, rightRows, hsplit, hpk, hkp⟩ | ⟨msg, hsplit, hfails⟩
    · obtain ⟨outcome, hrun, hgood⟩ := ih (i + 1) (outputs ++ [p]) g
        (by rw [length_append, length_singleton]; omega)
        (by rw [length_append, length_singleton]; omega)
        (hfront.perm (by rw [append_assoc]; exact perm_middle))
      refine ⟨outcome, fun turns hturns => ?_, hgood⟩
      rw [adaptiveLoop_turn (by omega) hgo hpop, hsplit]
      exact hrun (turns - 1) (by omega)
    · have hpush := (Heap.push_perm StringPartitionEntry.less
        (Heap.push StringPartitionEntry.less g ⟨p.start, k, leftRows⟩)
        ⟨k, p.stop, rightRows⟩).trans ((Heap.push_perm StringPartitionEntry.less g _).cons _)
      have hpushed : (Heap.push StringPartitionEntry.less (Heap.push StringPartitionEntry.less g
          ⟨p.start, k, leftRows⟩) ⟨k, p.stop, rightRows⟩).size = g.size + 2 := by
        simpa using hpush.length_eq
      have hhalves : Holds c lo hi (⟨k, p.stop, rightRows⟩ :: ⟨p.start, k, leftRows⟩ ::
          (outputs ++ g.toList)) := hfront.split rfl rfl hpk hkp
      obtain ⟨outcome, hrun, hgood⟩ := ih (i + 1) outputs _ (by rw [hpushed]; omega)
        (by rw [hpushed]; omega) (hhalves.perm ((hpush.append_left _).trans
          (perm_middle.trans (perm_middle.cons _))))
      refine ⟨outcome, fun turns hturns => ?_, hgood⟩
      rw [adaptiveLoop_turn (by omega) hgo hpop, hsplit]
      exact hrun (turns - 1) (by omega)
    · refine ⟨.error (.error msg), fun turns hturns => ?_, ⟨msg, rfl⟩, i, hfails⟩
      rw [adaptiveLoop_turn (by omega) hgo hpop, hsplit]
      rfl

/-- Popping all of the heap gives what was in it, in whatever order. -/
theorem drain_perm (n : ℕ) : ∀ h : Array StringPartitionEntry, h.size = n →
    (drain n h).Perm h.toList := by
  induction n with
  | zero =>
    intro h hsize
    rw [Array.size_eq_zero_iff.mp hsize]
    exact .nil
  | succ n ih =>
    intro h hsize
    obtain ⟨p, g, hpop⟩ : ∃ p g, Heap.pop StringPartitionEntry.less h = some (p, g) :=
      Heap.exists_pop (by omega)
    have hperm := Heap.pop_perm hpop
    have hg : h.size = g.size + 1 := by simpa using hperm.length_eq
    rw [drain, hpop]
    exact ((ih g (by omega)).cons p).trans hperm.symm

/-! ### The partitions -/

/-- What is left of the call once the rows of the whole range are estimated. -/
theorem buildAdaptiveStringPartitions_eq {minVal maxVal : ByteString} {totalRows : UInt64}
    (htotal : (probers 0).estimateRowsInRange minVal maxVal = .ok totalRows) (numPartitions : Int64)
    (turns : ℕ) :
    buildAdaptiveStringPartitions turns probers minVal maxVal numPartitions =
      adaptiveLoop probers numPartitions turns 1 []
          (Heap.init StringPartitionEntry.less #[⟨minVal, maxVal, totalRows⟩]) >>=
        fun (outputs, h) => .ok ((outputs ++ drain h.size h).map fun p =>
          createStringPartition p.start p.stop (p.stop == maxVal)) := by
  rw [buildAdaptiveStringPartitions, RangeProber.estimate, htotal]
  rfl

/-- The partitions that are returned are those of the pieces, in another order. -/
theorem partitions_perm {h : Array StringPartitionEntry} {rs : List (ByteString × ByteString)}
    (maxVal : ByteString) (hrs : ((outputs ++ h.toList).map StringPartitionEntry.range).Perm rs) :
    ((outputs ++ drain h.size h).map fun p =>
        createStringPartition p.start p.stop (p.stop == maxVal)).Perm
      (rs.map fun r => createStringPartition r.1 r.2 (r.2 == maxVal)) := by
  have hdrain := drain_perm h.size h rfl
  have hmap := (((hdrain.append_left outputs).map StringPartitionEntry.range).trans hrs).map
    fun r => createStringPartition r.1 r.2 (r.2 == maxVal)
  rw [map_map] at hmap
  exact hmap

/-- **Every string is in the range of exactly one partition.**  For any collation, any
estimates and any keys strictly inside the ranges in which they were looked for, the
partitions end: there are at most `max 1 numPartitions`, one is inclusive, namely that
which ends at the greatest value, and each string between the least and the greatest value
is selected once.  The only other outcome is the error of a prober. -/
theorem buildAdaptiveStringPartitions_cover (c : Collation) (probers : ℕ → RangeProber)
    (hstrict : ∀ i, (probers i).Strict c) (minVal maxVal : ByteString) (numPartitions : Int64)
    (hle : c.le minVal maxVal = true) :
    ∃ outcome, (∀ turns ≥ 2 * numPartitions.toInt.toNat + 2,
        buildAdaptiveStringPartitions turns probers minVal maxVal numPartitions = outcome) ∧
      match outcome with
      | .ok parts =>
        (parts.length : ℤ) ≤ max 1 numPartitions.toInt ∧
        parts.countP (fun p => p.endInclusive) = 1 ∧
        (∀ p ∈ parts, p.endInclusive = true ↔ p.stop = maxVal) ∧
        ∀ s, c.le minVal s = true → c.le s maxVal = true →
          parts.countP (fun p => c.selects p s) = 1
      | .error f => (∃ msg, f = .error msg) ∧ ∃ i, (probers i).Fails := by
  cases htotal : (probers 0).estimateRowsInRange minVal maxVal with
  | error e =>
    refine ⟨.error (.error ("failed to estimate rows: " ++ e)), fun turns _ => ?_,
      ⟨_, rfl⟩, 0, .inl ⟨_, _, e, htotal⟩⟩
    rw [buildAdaptiveStringPartitions, RangeProber.estimate, htotal]
    rfl
  | ok totalRows =>
    have hbuild := buildAdaptiveStringPartitions_eq htotal numPartitions
    have hinit := (Heap.init_perm StringPartitionEntry.less
      #[⟨minVal, maxVal, totalRows⟩]).toList
    have hsize := hinit.length_eq
    rw [Array.length_toList, length_singleton] at hsize
    have hwhole : Holds c minVal maxVal ([] ++ (Heap.init StringPartitionEntry.less
        #[⟨minVal, maxVal, totalRows⟩]).toList) :=
      Holds.perm ⟨[(minVal, maxVal)], .refl _, .whole hle⟩ hinit
    obtain ⟨outcome, hrun, hgood⟩ : ∃ outcome, (∀ turns > 2 * numPartitions.toInt.toNat + 1,
        adaptiveLoop probers numPartitions turns 1 [] (Heap.init StringPartitionEntry.less
          #[⟨minVal, maxVal, totalRows⟩]) = outcome) ∧
        LoopOutcome c minVal maxVal numPartitions probers outcome :=
      adaptiveLoop_pieces hstrict _ 1 [] _ (by rw [hsize]; omega) (by rw [hsize]; simp) hwhole
    cases outcome with
    | error f =>
      refine ⟨.error f, fun turns hturns => ?_, hgood⟩
      rw [hbuild, hrun turns (by omega)]
      rfl
    | ok result =>
      obtain ⟨outputs, h⟩ := result
      obtain ⟨⟨rs, hrs, hpieces⟩, hlength⟩ := hgood
      refine ⟨_, fun turns hturns => by rw [hbuild, hrun turns hturns], ?_⟩
      have hparts := partitions_perm maxVal hrs
      refine ⟨?_, ?_, ?_, ?_⟩
      · have hlist : h.toList.length = h.size := Array.length_toList
        rw [length_map, length_append, (drain_perm h.size h rfl).length_eq]
        omega
      · rw [hparts.countP_eq]
        exact hpieces.countP_inclusive
      · intro p hp
        obtain ⟨entry, -, rfl⟩ := mem_map.mp hp
        exact beq_iff_eq
      · intro s hlo hhi
        rw [hparts.countP_eq]
        exact hpieces.countP_selects hlo hhi

/-- A collation that does not distinguish the letters of ASCII by their case. -/
def caseInsensitive : Collation where
  le s t := decide (s.map lower ≤ t.map lower)
  refl _ := decide_eq_true le_rfl
  trans _ _ _ hst htu := decide_eq_true ((of_decide_eq_true hst).trans (of_decide_eq_true htu))
  total s t := (le_total (s.map lower) (t.map lower)).imp decide_eq_true decide_eq_true
where
  lower (b : Fin 256) : Fin 256 := if 65 ≤ b ∧ b ≤ 90 then b + 32 else b

/-- A column with the values `a`, `C`, `c` and `e`: the partitions meet at `C`, and `c`, equal
to it in the collation, is in the second one. -/
theorem buildAdaptiveStringPartitions_caseInsensitive :
    ∃ parts, buildAdaptiveStringPartitions 8
        (fun _ => tableProber caseInsensitive [[97], [67], [99], [101]] fun _ _ => 1)
        [97] [101] 3 = .ok parts ∧
      parts.map (fun p => (p.start, p.stop, p.endInclusive)) =
        [([97], [67], false), ([67], [101], true)] ∧
      parts.countP (fun p => caseInsensitive.selects p [99]) = 1 := by
  obtain ⟨outcome, hrun, hgood⟩ := buildAdaptiveStringPartitions_cover caseInsensitive
    (fun _ => tableProber caseInsensitive [[97], [67], [99], [101]] fun _ _ => 1)
    (fun _ => tableProber_strict _ _ _) [97] [101] 3 (by decide)
  have heval : buildAdaptiveStringPartitions 8
      (fun _ => tableProber caseInsensitive [[97], [67], [99], [101]] fun _ _ => 1)
      [97] [101] 3 = .ok [createStringPartition [97] [67] false,
        createStringPartition [67] [101] true] := by decide +kernel
  rw [hrun 8 (by decide)] at heval
  subst heval
  exact ⟨_, hrun 8 (by decide), rfl, hgood.2.2.2 [99] (by decide) (by decide)⟩

end QRep
