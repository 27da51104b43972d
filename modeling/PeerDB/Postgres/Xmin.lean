/-
Xmin replication (`XminFlowWorkflow`, `pullXminRecordStream`).

An xmin mirror has no replication slot.  Each pull reads, in one repeatable-read
transaction, the `xmin` of its snapshot and then the rows whose own `xmin` is not older
than the watermark, which is the snapshot `xmin` of the pull before.  Rows and watermark
have the low 32 bits of the transaction number only, and are compared by `age`, their
signed distance from the next number.

The transactions of the source are those of `Mvcc`; they go on between the pulls, and
between the snapshot of a pull and its query.

* `keeps_of_near` — a number from the watermark up to the next one meets the condition of
  the query, wherever the 32-bit counter wraps, if they are less than 2³¹ apart;
* `Complete.step` — one step keeps that every version visible to the last pull's snapshot
  has been selected;
* `pulls_miss_nothing` — so no pull leaves a version out, whatever the transactions do.

That few numbers are assigned between two pulls is not enough for this: the watermark is
the oldest transaction that was running, which may have been old already
(`oldWatermark_missed`).
-/
import PeerDB.Lib.Loop
import PeerDB.Lib.Mvcc
import PeerDB.Lib.Word
import PeerDB.QRep.Partition

open Loop Mvcc QRep

namespace XminFlow

/-! ### The query of a pull -/

/-- `age` of Postgres: how many numbers before the next one, as a signed 32-bit number. -/
def age (next : ℕ) (x : UInt32) : Int32 :=
  (UInt32.ofNat next - x).toInt32

/-- A query with the numbers that are passed, in decimal, for its placeholders. -/
structure Query where
  text : String
  args : List Int64
deriving DecidableEq

/-- The Go type of a `PartitionRange`'s range. -/
def rangeType : PartitionRange → String
  | .intRange .. => "*protos.PartitionRange_IntRange"
  | .uintRange .. => "*protos.PartitionRange_UintRange"
  | .timestampRange .. => "*protos.PartitionRange_TimestampRange"
  | .tidRange .. => "*protos.PartitionRange_TidRange"
  | .numericRange .. => "*protos.PartitionRange_NumericRange"
  | .nullRange => "*protos.PartitionRange_NullRange"

/-- The query of `pullXminRecordStream`, which asserts that a range is one of integers. -/
def xminQuery (query : String) (partition : QRepPartition) : Except Fault Query :=
  match partition.range with
  | none => .ok ⟨query, []⟩
  | some (.intRange start _) =>
    .ok ⟨query ++ " WHERE age(xmin) > 0 AND age(xmin) <= age($1::xid)",
      [start &&& 0xffffffff]⟩
  | some range =>
    .error (.panic ("interface conversion: protos.isPartitionRange_Range is " ++
      rangeType range ++ ", not *protos.PartitionRange_IntRange"))

/-- The cast `$1::xid`. -/
def xid (arg : Int64) : UInt32 :=
  arg.toUInt64.toUInt32

/-- Whether the condition of the query holds of a row. -/
def Query.keeps (q : Query) (next : ℕ) (xmin : UInt32) : Bool :=
  match q.args with
  | [] => true
  | arg :: _ => decide (0 < age next xmin) && decide (age next xmin ≤ age next (xid arg))

/-- The rows of a table that a query returns under a snapshot, by their position. -/
def Query.select (q : Query) (p : Snapshot) (store : Store) : List ℕ :=
  (List.range store.versions.length).filter fun i =>
    (store.versions[i]?).any fun v =>
      p.visible v && q.keeps store.next (UInt32.ofNat v.xmin)

/-! ### The workflow -/

/-- `InitialLastPartition`, with the id that a new state of an xmin mirror gets. -/
def initialLastPartition : QRepPartition :=
  ⟨.uuid, none, false⟩

/-- The partition that a pull leaves behind, from the `currentSnapshotXmin` it returns. -/
def partitionOf (currentSnapshotXmin : Int64) : QRepPartition :=
  ⟨.uuid, some (.intRange currentSnapshotXmin 0), false⟩

structure State where
  store : Store
  lastPartition : QRepPartition
  /-- The snapshot of the transaction in which a pull runs. -/
  pulling : Option Snapshot
  /-- The rows that the pulls so far have selected. -/
  selected : List ℕ
  /-- The snapshot of the last pull. -/
  lastPull : Option Snapshot

/-- A new mirror, of a table that is empty when the transaction number is `n`. -/
def State.init (n : ℕ) : State :=
  ⟨Store.empty n, initialLastPartition, none, [], none⟩

inductive Action
  /-- A step of some transaction on the source. -/
  | source (op : Op)
  /-- A pull starts: its transaction reads `txid_snapshot_xmin`. -/
  | snapshot
  /-- The query of the pull runs, its rows arrive, and the iteration ends. -/
  | finish
  /-- The pull or a later step of the iteration fails. -/
  | fail
deriving DecidableEq

/-- The last partition moves on only if the whole iteration succeeds. -/
def step (query : String) (s : State) : Action → Option State
  | .source op => (s.store.apply op).map fun store => { s with store := store }
  | .snapshot =>
    match s.pulling with
    | none => some { s with pulling := some s.store.snapshot }
    | some _ => none
  | .finish =>
    match s.pulling, xminQuery query s.lastPartition with
    | some p, .ok q =>
      some { s with
        lastPartition := partitionOf (Int64.ofNat p.xmin)
        pulling := none
        selected := s.selected ++ q.select p s.store
        lastPull := some p }
    | _, _ => none
  | .fail => some { s with pulling := none }

/-! ### Ages -/

theorem age_toInt {next x : ℕ} (hx : x ≤ next) (hnear : next - x < 2 ^ 31) :
    (age next (UInt32.ofNat x)).toInt = next - x :=
  UInt32.toInt_sub_ofNat hx hnear

/-- **A number from the watermark up to the next one meets the condition.**  Nothing is
said about the low 32 bits themselves, which may wrap between the three numbers. -/
theorem keeps_of_near {query : String} {q : Query} {w x next : ℕ}
    (hq : xminQuery query (partitionOf (Int64.ofNat w)) = .ok q) (hnear : next < w + 2 ^ 31)
    (hw : w ≤ x) (hx : x < next) : q.keeps next (UInt32.ofNat x) = true := by
  cases hq
  have hagex := age_toInt hx.le (by omega)
  have hagew := age_toInt (hw.trans hx.le) (by omega)
  rw [Query.keeps, Bool.and_eq_true_iff, decide_eq_true_iff, decide_eq_true_iff,
    Int32.lt_iff_toInt_lt, Int32.le_iff_toInt_le, hagex, xid, Int64.and_low_toUInt32, hagew]
  constructor
  · show (0 : ℤ) < _
    omega
  · omega

theorem mem_select {q : Query} {p : Snapshot} {store : Store} {i : ℕ} {v : Version}
    (hv : store.versions[i]? = some v) (hvisible : p.visible v = true)
    (hkeeps : q.keeps store.next (UInt32.ofNat v.xmin) = true) : i ∈ q.select p store := by
  obtain ⟨hlt, -⟩ := List.getElem?_eq_some_iff.mp hv
  rw [Query.select, List.mem_filter, List.mem_range]
  refine ⟨hlt, ?_⟩
  rw [hv, Option.any_some, hvisible, hkeeps]
  rfl

/-! ### What every pull keeps -/

/-- Every version that the snapshot sees has been selected. -/
def Covered (s : State) (p : Snapshot) : Prop :=
  ∀ i v, s.store.versions[i]? = some v → p.visible v = true → i ∈ s.selected

/-- The invariant of the mirror: the watermark is the one of the last pull, everything
visible to that pull has been selected, and a pull that is under way came after it. -/
structure Complete (s : State) : Prop where
  partition : s.lastPartition =
    (s.lastPull.map fun w => partitionOf (Int64.ofNat w.xmin)).getD initialLastPartition
  past : ∀ w, s.lastPull = some w → w.Past s.store
  covered : ∀ w, s.lastPull = some w → Covered s w
  pulling : ∀ p, s.pulling = some p → p.Past s.store
  order : ∀ w p, s.lastPull = some w → s.pulling = some p → w.Before p

/-- When a pull runs its query, less than 2³¹ numbers lie between its watermark and the
next transaction. -/
def Near (s : State) : Action → Prop
  | .finish => ∀ w ∈ s.lastPull, s.store.next < w.xmin + 2 ^ 31
  | _ => True

instance decidableNear (s : State) (a : Action) : Decidable (Near s a) := by
  cases a <;> unfold Near <;> infer_instance

namespace Complete

variable {query : String} {s s' : State}

theorem init (n : ℕ) : Complete (State.init n) where
  partition := rfl
  past := by simp [State.init]
  covered := by simp [State.init]
  pulling := by simp [State.init]
  order := by simp [State.init]

theorem source (h : Complete s) {op : Op} {store : Store}
    (hop : s.store.apply op = some store) : Complete { s with store := store } where
  partition := h.partition
  past := fun w hw => (h.past w hw).apply hop
  covered := by
    intro w hw i v hv hvisible
    obtain ⟨v₀, hv₀, hvisible₀⟩ := (h.past w hw).visible_of_apply hop hv hvisible
    exact h.covered w hw i v₀ hv₀ hvisible₀
  pulling := fun p hp => (h.pulling p hp).apply hop
  order := h.order

theorem snapshot (h : Complete s) :
    Complete { s with pulling := some s.store.snapshot } where
  partition := h.partition
  past := h.past
  covered := h.covered
  pulling := by
    intro p hp
    rw [← Option.some.inj hp]
    exact Snapshot.past_snapshot s.store
  order := by
    intro w p hw hp
    rw [← Option.some.inj hp]
    exact (h.past w hw).before

theorem fail (h : Complete s) : Complete { s with pulling := none } where
  partition := h.partition
  past := h.past
  covered := h.covered
  pulling := by simp
  order := by simp

/-- **What a pull sees, it or an earlier one has selected.**  A version below the watermark
was visible to the pull before already, and one above it meets the condition. -/
theorem mem_selected (h : Complete s) {p : Snapshot} (hp : s.pulling = some p) {q : Query}
    (hq : xminQuery query s.lastPartition = .ok q) (hnear : Near s .finish) {i : ℕ} {v : Version}
    (hv : s.store.versions[i]? = some v) (hvisible : p.visible v = true) :
    i ∈ s.selected ++ q.select p s.store := by
  rw [h.partition] at hq
  cases hw : s.lastPull with
  | none =>
    -- the first pull has no condition
    rw [hw] at hq
    cases hq
    exact List.mem_append_right _ (mem_select hv hvisible rfl)
  | some w =>
    rw [hw] at hq
    rcases lt_or_ge v.xmin w.xmin with hbelow | habove
    · have hbefore := (h.order w p hw hp).visible hbelow hvisible
      exact List.mem_append_left _ (h.covered w hw i v hv hbefore)
    · have hlt := p.committed_lt v.xmin (Snapshot.visible_iff.mp hvisible).1
      have hkeeps := keeps_of_near hq (hnear w hw) habove
        (hlt.trans_le (h.pulling p hp).next_le)
      exact List.mem_append_right _ (mem_select hv hvisible hkeeps)

theorem finish (h : Complete s) {p : Snapshot} (hp : s.pulling = some p) {q : Query}
    (hq : xminQuery query s.lastPartition = .ok q) (hnear : Near s .finish) :
    Complete { s with
      lastPartition := partitionOf (Int64.ofNat p.xmin)
      pulling := none
      selected := s.selected ++ q.select p s.store
      lastPull := some p } where
  partition := rfl
  past := by
    intro w hw
    rw [← Option.some.inj hw]
    exact h.pulling p hp
  covered := by
    intro w hw i v hv hvisible
    rw [← Option.some.inj hw] at hvisible
    exact h.mem_selected hp hq hnear hv hvisible
  pulling := by simp
  order := by simp

theorem step {a : Action} (h : Complete s) (hnear : Near s a)
    (hstep : XminFlow.step query s a = some s') : Complete s' := by
  cases a with
  | source op =>
    obtain ⟨store, hop, rfl⟩ := Option.map_eq_some_iff.mp hstep
    exact h.source hop
  | snapshot =>
    cases hp : s.pulling with
    | some p => simp [XminFlow.step, hp] at hstep
    | none =>
      simp only [XminFlow.step, hp] at hstep
      cases hstep
      exact h.snapshot
  | finish =>
    cases hp : s.pulling with
    | none => simp [XminFlow.step, hp] at hstep
    | some p =>
      cases hq : xminQuery query s.lastPartition with
      | error f => simp [XminFlow.step, hp, hq] at hstep
      | ok q =>
        simp only [XminFlow.step, hp, hq] at hstep
        cases hstep
        exact h.finish hp hq hnear
  | fail =>
    cases hstep
    exact h.fail

end Complete

/-- **No pull misses a row version.**  In every run of the source's transactions and of the
mirror's iterations, every version visible to the snapshot of the last pull was selected
by it or by an earlier one, if at each pull less than 2³¹ numbers lie between the watermark
and the next transaction. -/
theorem pulls_miss_nothing {query : String} {n : ℕ} {acts : List Action} {s : State}
    (hnear : Along (step query) Near (State.init n) acts)
    (hrun : runs (step query) (State.init n) acts = some s) {w : Snapshot}
    (hw : s.lastPull = some w) {i : ℕ} {v : Version} (hv : s.store.versions[i]? = some v)
    (hvisible : w.visible v = true) : i ∈ s.selected := by
  have hcomplete : Complete s :=
    runs_invariant Complete (fun _ _ _ h hnear hstep => h.step hnear hstep)
      (Complete.init n) hnear hrun
  exact hcomplete.covered w hw i v hv hvisible

/-- Three pulls over the place where the low 32 bits start again.  Transaction 4294967294
is running at the first two of them and commits after younger ones. -/
def wrapRun : List Action :=
  [.source .begin, .source (.insert 4294967293), .source .begin,
    .source (.commit 4294967293), .snapshot, .finish,
    .source .begin, .source .begin, .source (.insert 4294967296),
    .source (.insert 4294967294), .source (.commit 4294967296), .snapshot, .source .begin, .finish,
    .source (.delete 4294967297 0), .source (.commit 4294967294), .fail, .snapshot,
    .source (.commit 4294967297), .finish]

theorem wrapRun_selected :
    ∃ s w, runs (step "SELECT * FROM t") (State.init 4294967293) wrapRun = some s ∧
      s.lastPull = some w ∧ s.store.versions[2]? = some ⟨4294967294, none⟩ ∧
      w.visible ⟨4294967294, none⟩ = true ∧ 2 ∈ s.selected := by
  have hnear : Along (step "SELECT * FROM t") Near (State.init 4294967293) wrapRun :=
    along_of_check (by decide +kernel)
  have heval : (runs (step "SELECT * FROM t") (State.init 4294967293) wrapRun).map
      (fun s => (s.store.versions[2]?, s.lastPull.map (·.visible ⟨4294967294, none⟩))) =
      some (some ⟨4294967294, none⟩, some true) := by decide +kernel
  obtain ⟨s, hrun, hs⟩ := Option.map_eq_some_iff.mp heval
  obtain ⟨hversion, hlast⟩ := Prod.mk.inj hs
  obtain ⟨w, hw, hvisible⟩ := Option.map_eq_some_iff.mp hlast
  exact ⟨s, w, hrun, hw, hversion, hvisible,
    pulls_miss_nothing hnear hrun hw hversion hvisible⟩

/-! ### An old watermark -/

/-- Less than 2³¹ numbers are assigned from the watermark's snapshot to the query that
uses it. -/
def Recent (s : State) : Action → Prop
  | .finish => ∀ w ∈ s.lastPull, s.store.next < w.next + 2 ^ 31
  | _ => True

instance decidableRecent (s : State) (a : Action) : Decidable (Recent s a) := by
  cases a <;> unfold Recent <;> infer_instance

/-- Transactions that begin and abort, one after the other. -/
def shortTransactions (first n : ℕ) : List Action :=
  (List.range' first n).flatMap fun x => [.source .begin, .source (.abort x)]

/-- The store after `n` transactions that left nothing. -/
def advance (store : Store) (n : ℕ) : Store where
  next := store.next + n
  running := store.running
  committed := store.committed
  versions := store.versions
  running_lt := fun x hx => (store.running_lt x hx).trans_le (Nat.le_add_right _ _)
  committed_lt := fun x hx => (store.committed_lt x hx).trans_le (Nat.le_add_right _ _)
  running_open := store.running_open

theorem begin_abort (query : String) (s : State) :
    runs (step query) s [.source .begin, .source (.abort s.store.next)] =
      some { s with store := advance s.store 1 } := by
  have hmem : s.store.next ∈ s.store.begin.running := by simp [Store.begin]
  have hrunning : s.store.begin.running.filter (· ≠ s.store.next) = s.store.running := by
    rw [Store.begin, List.filter_append, List.filter_eq_self.mpr]
    · simp
    · intro x hx
      simpa using (s.store.running_lt x hx).ne
  have hclose : s.store.begin.close s.store.next hmem false = advance s.store 1 := by
    simp only [Store.close, advance, hrunning, Bool.false_and, Bool.or_false]
    rfl
  simp [step, Store.apply, hmem, hclose]

theorem runs_shortTransactions (query : String) (n : ℕ) :
    ∀ s : State, runs (step query) s (shortTransactions s.store.next n) =
      some { s with store := advance s.store n } := by
  induction n with
  | zero => exact fun s => rfl
  | succ n ih =>
    intro s
    have hcons : shortTransactions s.store.next (n + 1) =
        [.source .begin, .source (.abort s.store.next)] ++
          shortTransactions (s.store.next + 1) n := rfl
    rw [hcons, runs_append, begin_abort, Option.bind_some]
    refine (ih { s with store := advance s.store 1 }).trans ?_
    simp only [advance, Nat.add_assoc, Nat.add_comm 1 n]

theorem along_shortTransactions (query : String) (s : State) (first n : ℕ) :
    Along (step query) Recent s (shortTransactions first n) := by
  refine along_of_forall fun s a ha => ?_
  obtain ⟨x, -, hx⟩ := List.mem_flatMap.mp ha
  rcases List.mem_pair.mp hx with rfl | rfl <;> trivial

/-- A pull while transaction 3, which is about 2³¹ numbers old, is still running. -/
def pullThenCommit : List Action :=
  [.snapshot, .finish, .source (.insert 3), .source (.commit 3)]

def oldRun : List Action :=
  [.source .begin] ++ (shortTransactions 4 2143483648 ++
    (pullThenCommit ++ (shortTransactions 2143483652 5000000 ++ [.snapshot, .finish])))

/-- Transaction 3 is running. -/
def oldStart : State :=
  { State.init 3 with store := (Store.empty 3).begin }

/-- Transaction 3 has written a row and committed after the first pull. -/
def oldCommitted : State where
  store := ((advance oldStart.store 2143483648).setVersions [⟨3, none⟩]).close 3 (by decide) true
  lastPartition := partitionOf 3
  pulling := none
  selected := []
  lastPull := some (advance oldStart.store 2143483648).snapshot

theorem runs_pullThenCommit (query : String) :
    runs (step query) { oldStart with store := advance oldStart.store 2143483648 } pullThenCommit =
      some oldCommitted := rfl

theorem oldWatermark_missed :
    Along (step "SELECT * FROM t") Recent (State.init 3) oldRun ∧
      ∃ s w, runs (step "SELECT * FROM t") (State.init 3) oldRun = some s ∧
        s.lastPull = some w ∧ s.store.versions[0]? = some ⟨3, none⟩ ∧
        w.visible ⟨3, none⟩ = true ∧ 0 ∉ s.selected := by
  have hstart : runs (step "SELECT * FROM t") (State.init 3) [.source .begin] = some oldStart := rfl
  have hold : runs (step "SELECT * FROM t") oldStart (shortTransactions 4 2143483648) = _ :=
    runs_shortTransactions "SELECT * FROM t" 2143483648 oldStart
  have hpull := runs_pullThenCommit "SELECT * FROM t"
  have hafter :
      runs (step "SELECT * FROM t") oldCommitted (shortTransactions 2143483652 5000000) = _ :=
    runs_shortTransactions "SELECT * FROM t" 5000000 oldCommitted
  have hlast : (runs (step "SELECT * FROM t")
      { oldCommitted with store := advance oldCommitted.store 5000000 } [.snapshot, .finish]).map
      (fun s => (s.store.versions, s.selected, s.lastPull.map (·.visible ⟨3, none⟩))) =
      some ([⟨3, none⟩], [], some true) := by decide +kernel
  obtain ⟨s, hs, heval⟩ := Option.map_eq_some_iff.mp hlast
  obtain ⟨hversions, heval⟩ := Prod.mk.inj heval
  obtain ⟨hselected, hlast⟩ := Prod.mk.inj heval
  obtain ⟨w, hw, hvisible⟩ := Option.map_eq_some_iff.mp hlast
  refine ⟨?_, s, w, ?_, hw, by rw [hversions]; rfl, hvisible, by rw [hselected]; simp⟩
  · refine along_of_append ⟨trivial, fun _ _ => trivial⟩ hstart ?_
    refine along_of_append (along_shortTransactions _ _ 4 _) hold ?_
    refine along_of_append (along_of_check (by decide +kernel)) hpull ?_
    refine along_of_append (along_shortTransactions _ _ 2143483652 _) hafter ?_
    exact along_of_check (by decide +kernel)
  · rw [oldRun, runs_append, hstart, Option.bind_some, runs_append, hold, Option.bind_some,
      runs_append, hpull, Option.bind_some, runs_append, hafter, Option.bind_some]
    exact hs

end XminFlow
