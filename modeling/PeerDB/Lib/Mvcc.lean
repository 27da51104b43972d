/-
Multi-version concurrency control: transactions, row versions and snapshots.

A transaction has a number, and numbers are given out in order.  A row version carries
the number of the transaction that wrote it and, once a transaction has deleted or
replaced it, the number of that one.  A snapshot is what was committed when it was
taken; its `xmin` is the smallest number that was still running.

`Snapshot.Past` is what remains true of a snapshot while the store goes on.  Two facts
follow for every order in which transactions begin and end:

* `Snapshot.Past.visible_of_apply` — no version becomes visible to a snapshot after it was
  taken;
* `Snapshot.Before.visible` — a version below the `xmin` of a snapshot that a later
  snapshot sees was visible to the earlier one already.
-/
import Mathlib.Data.Nat.Basic
import Mathlib.Order.Lattice

namespace Mvcc

structure Version where
  /-- The transaction that wrote the version. -/
  xmin : ℕ
  /-- The last transaction that deleted or replaced it, committed or not. -/
  xmax : Option ℕ
deriving Repr, DecidableEq

/-- The transactions and row versions of a database.  A number below `next` that is
neither running nor committed belongs to an aborted transaction. -/
structure Store where
  next : ℕ
  running : List ℕ
  committed : ℕ → Bool
  versions : List Version
  running_lt : ∀ x ∈ running, x < next
  committed_lt : ∀ x, committed x = true → x < next
  running_open : ∀ x ∈ running, committed x = false

structure Snapshot where
  /-- The smallest number still running, or the next one if none is. -/
  xmin : ℕ
  next : ℕ
  committed : ℕ → Bool
  xmin_le : xmin ≤ next
  committed_lt : ∀ x, committed x = true → x < next

/-- A version is visible if its writer is committed and its deleter is not. -/
def Snapshot.visible (p : Snapshot) (v : Version) : Bool :=
  p.committed v.xmin && !v.xmax.any p.committed

inductive Op
  | begin
  | insert (x : ℕ)
  | delete (x i : ℕ)
  | commit (x : ℕ)
  | abort (x : ℕ)
deriving Repr, DecidableEq

namespace Store

/-- A database without rows, whose next transaction is `n`. -/
def empty (n : ℕ) : Store where
  next := n
  running := []
  committed := fun _ => false
  versions := []
  running_lt := by simp
  committed_lt := by simp
  running_open := by simp

def begin (s : Store) : Store where
  next := s.next + 1
  running := s.running ++ [s.next]
  committed := s.committed
  versions := s.versions
  running_lt := by
    intro x hx
    rcases List.mem_append.mp hx with hx | hx
    · exact (s.running_lt x hx).trans (Nat.lt_succ_self _)
    · rw [List.mem_singleton.mp hx]
      exact Nat.lt_succ_self _
  committed_lt := fun x hx => (s.committed_lt x hx).trans (Nat.lt_succ_self _)
  running_open := by
    intro x hx
    rcases List.mem_append.mp hx with hx | hx
    · exact s.running_open x hx
    · -- the new number is not below `next`, so it cannot have been committed
      by_contra hcommitted
      have hlt := s.committed_lt x (by simpa using hcommitted)
      rw [List.mem_singleton.mp hx] at hlt
      exact lt_irrefl _ hlt

def setVersions (s : Store) (versions : List Version) : Store :=
  { s with versions := versions }

/-- A version can be deleted unless a running or committed transaction has done so: a
running one holds the row's lock. -/
def held (s : Store) (v : Version) : Bool :=
  v.xmax.any fun y => s.running.contains y || s.committed y

/-- Transaction `x` ends. -/
def close (s : Store) (x : ℕ) (hx : x ∈ s.running) (commits : Bool) : Store where
  next := s.next
  running := s.running.filter (· ≠ x)
  committed := fun y => s.committed y || (commits && y == x)
  versions := s.versions
  running_lt := fun y hy => s.running_lt y (List.mem_filter.mp hy).1
  committed_lt := by
    intro y hy
    rcases Bool.or_eq_true_iff.mp hy with hy | hy
    · exact s.committed_lt y hy
    · rw [beq_iff_eq.mp (Bool.and_eq_true_iff.mp hy).2]
      exact s.running_lt x hx
  running_open := by
    intro y hy
    obtain ⟨hy, hne⟩ := List.mem_filter.mp hy
    have hne : y ≠ x := by simpa using hne
    simp [s.running_open y hy, hne]

def apply (s : Store) : Op → Option Store
  | .begin => some s.begin
  | .insert x =>
    if x ∈ s.running then some (s.setVersions (s.versions ++ [⟨x, none⟩])) else none
  | .delete x i =>
    if x ∈ s.running then
      match s.versions[i]? with
      | some v =>
        if s.held v then none
        else some (s.setVersions (s.versions.set i { v with xmax := some x }))
      | none => none
    else none
  | .commit x => if hx : x ∈ s.running then some (s.close x hx true) else none
  | .abort x => if hx : x ∈ s.running then some (s.close x hx false) else none

/-- The smallest running number, or the next one. -/
def oldest (s : Store) : ℕ :=
  s.running.foldl min s.next

theorem foldl_min_le {l : List ℕ} {n : ℕ} :
    l.foldl min n ≤ n ∧ ∀ x ∈ l, l.foldl min n ≤ x := by
  induction l generalizing n with
  | nil => simp
  | cons y l ih =>
    obtain ⟨hn, hl⟩ := ih (n := min n y)
    constructor
    · exact hn.trans (min_le_left n y)
    · intro x hx
      rcases List.mem_cons.mp hx with rfl | hx
      · exact hn.trans (min_le_right n x)
      · exact hl x hx

def snapshot (s : Store) : Snapshot where
  xmin := s.oldest
  next := s.next
  committed := s.committed
  xmin_le := foldl_min_le.1
  committed_lt := s.committed_lt

theorem oldest_le {s : Store} {x : ℕ} (hx : x ∈ s.running) : s.oldest ≤ x :=
  foldl_min_le.2 x hx

end Store

namespace Snapshot

/-- What holds of a snapshot in every later state of the store: what it has committed
stays so, and of the numbers below its `xmin` no one will ever commit. -/
structure Past (p : Snapshot) (s : Store) : Prop where
  next_le : p.next ≤ s.next
  committed : ∀ x, p.committed x = true → s.committed x = true
  ended : ∀ x < p.xmin, x ∉ s.running ∧ (s.committed x = true → p.committed x = true)

/-- The snapshot `w` was taken before `p`. -/
structure Before (w p : Snapshot) : Prop where
  committed : ∀ x, w.committed x = true → p.committed x = true
  ended : ∀ x < w.xmin, p.committed x = true → w.committed x = true

theorem past_snapshot (s : Store) : s.snapshot.Past s where
  next_le := le_refl _
  committed := fun _ hx => hx
  ended := by
    intro x hx
    refine ⟨fun hrunning => ?_, fun h => h⟩
    exact absurd (Store.oldest_le hrunning) (not_le.mpr hx)

theorem visible_iff {p : Snapshot} {v : Version} :
    p.visible v = true ↔
      p.committed v.xmin = true ∧ ∀ y, v.xmax = some y → p.committed y = false := by
  cases hxmax : v.xmax with
  | none | some => simp [visible, hxmax]

theorem Before.visible {w p : Snapshot} {v : Version} (h : w.Before p) (hv : v.xmin < w.xmin)
    (hp : p.visible v = true) : w.visible v = true := by
  obtain ⟨hx, hy⟩ := visible_iff.mp hp
  refine visible_iff.mpr ⟨h.ended v.xmin hv hx, fun y hxmax => ?_⟩
  -- a deleter that was committed then is committed now
  by_contra hcommitted
  have hlater := h.committed y (by simpa using hcommitted)
  rw [hy y hxmax] at hlater
  exact Bool.false_ne_true hlater

namespace Past

variable {p : Snapshot} {s s' : Store}

theorem before (h : p.Past s) : p.Before s.snapshot where
  committed := h.committed
  ended := fun x hx => (h.ended x hx).2

/-- A running transaction was not committed when the snapshot was taken. -/
theorem committed_running (h : p.Past s) {x : ℕ} (hx : x ∈ s.running) :
    p.committed x = false := by
  by_contra hcommitted
  have hnow := h.committed x (by simpa using hcommitted)
  rw [s.running_open x hx] at hnow
  exact Bool.false_ne_true hnow

theorem begin (h : p.Past s) : p.Past s.begin where
  next_le := h.next_le.trans (Nat.le_succ _)
  committed := h.committed
  ended := by
    intro x hx
    refine ⟨fun hrunning => ?_, (h.ended x hx).2⟩
    rcases List.mem_append.mp hrunning with hrunning | hnew
    · exact (h.ended x hx).1 hrunning
    · have hle := p.xmin_le.trans h.next_le
      rw [List.mem_singleton.mp hnew] at hx
      exact absurd hx (not_lt.mpr hle)

theorem close (h : p.Past s) {x : ℕ} (hx : x ∈ s.running) (commits : Bool) :
    p.Past (s.close x hx commits) where
  next_le := h.next_le
  committed := fun y hy => Bool.or_eq_true_iff.mpr (Or.inl (h.committed y hy))
  ended := by
    intro y hy
    refine ⟨fun hrunning => (h.ended y hy).1 (List.mem_filter.mp hrunning).1, fun hnow => ?_⟩
    rcases Bool.or_eq_true_iff.mp hnow with hnow | hnow
    · exact (h.ended y hy).2 hnow
    · -- the number that ends now was running, so it is not below `xmin`
      rw [beq_iff_eq.mp (Bool.and_eq_true_iff.mp hnow).2] at hy
      exact absurd hx (h.ended x hy).1

theorem setVersions (h : p.Past s) (versions : List Version) :
    p.Past (s.setVersions versions) :=
  ⟨h.next_le, h.committed, h.ended⟩

end Past

end Snapshot

namespace Store

/-- What one operation does to the transactions and to the versions. -/
theorem apply_cases {s s' : Store} {op : Op} (h : s.apply op = some s') :
    s' = s.begin ∨
    (∃ x hx commits, s' = s.close x hx commits) ∨
    (∃ x ∈ s.running, s' = s.setVersions (s.versions ++ [⟨x, none⟩])) ∨
    ∃ x ∈ s.running, ∃ i v, s.versions[i]? = some v ∧ s.held v = false ∧
      s' = s.setVersions (s.versions.set i { v with xmax := some x }) := by
  cases op with
  | begin => exact Or.inl (Option.some.inj h).symm
  | insert x =>
    rw [apply] at h
    split_ifs at h with hx
    exact Or.inr (Or.inr (Or.inl ⟨x, hx, (Option.some.inj h).symm⟩))
  | delete x i =>
    rw [apply] at h
    split_ifs at h with hx
    cases hv : s.versions[i]? with
    | none => simp [hv] at h
    | some v =>
      simp only [hv] at h
      split_ifs at h with hheld
      refine Or.inr (Or.inr (Or.inr ⟨x, hx, i, v, hv, ?_, (Option.some.inj h).symm⟩))
      simpa using hheld
  | commit x =>
    rw [apply] at h
    split_ifs at h with hx
    exact Or.inr (Or.inl ⟨x, hx, true, (Option.some.inj h).symm⟩)
  | abort x =>
    rw [apply] at h
    split_ifs at h with hx
    exact Or.inr (Or.inl ⟨x, hx, false, (Option.some.inj h).symm⟩)

end Store

namespace Snapshot.Past

variable {p : Snapshot} {s s' : Store}

/-- A snapshot of the past stays one. -/
theorem apply {op : Op} (h : p.Past s) (hop : s.apply op = some s') : p.Past s' := by
  rcases Store.apply_cases hop with rfl | ⟨x, hx, commits, rfl⟩ | ⟨x, -, rfl⟩ |
    ⟨x, -, i, v, -, -, rfl⟩
  · exact h.begin
  · exact h.close hx commits
  · exact h.setVersions _
  · exact h.setVersions _

/-- **No version becomes visible to a snapshot of the past.** -/
theorem visible_of_apply {op : Op} (h : p.Past s) (hop : s.apply op = some s') {i : ℕ}
    {v : Version} (hv : s'.versions[i]? = some v) (hvisible : p.visible v = true) :
    ∃ v₀, s.versions[i]? = some v₀ ∧ p.visible v₀ = true := by
  rcases Store.apply_cases hop with rfl | ⟨x, hx, commits, rfl⟩ | ⟨x, hx, rfl⟩ |
    ⟨x, hx, j, v₀, hv₀, hheld, rfl⟩
  · exact ⟨v, hv, hvisible⟩
  · exact ⟨v, hv, hvisible⟩
  · -- the new version has a writer that is still running
    have hv' : (s.versions ++ [⟨x, none⟩])[i]? = some v := hv
    rcases lt_or_ge i s.versions.length with hlt | hge
    · rw [List.getElem?_append_left hlt] at hv'
      exact ⟨v, hv', hvisible⟩
    · rw [List.getElem?_append_right hge] at hv'
      rw [List.mem_singleton.mp (List.mem_of_getElem? hv')] at hvisible
      have hwriter := (visible_iff.mp hvisible).1
      rw [h.committed_running hx] at hwriter
      exact absurd hwriter Bool.false_ne_true
  · by_cases hij : i = j
    · -- the version that is deleted had no deleter that is committed now, nor had it then
      subst hij
      obtain ⟨hlt, -⟩ := List.getElem?_eq_some_iff.mp hv₀
      have hset : v = { v₀ with xmax := some x } := by
        have hv' : (s.versions.set i { v₀ with xmax := some x })[i]? = some v := hv
        rw [List.getElem?_set_self hlt] at hv'
        exact (Option.some.inj hv').symm
      subst hset
      refine ⟨v₀, hv₀, visible_iff.mpr ⟨(visible_iff.mp hvisible).1, fun y hy => ?_⟩⟩
      by_contra hcommitted
      have hnow := h.committed y (by simpa using hcommitted)
      simp [Store.held, hy, hnow] at hheld
    · have hv' : (s.versions.set j { v₀ with xmax := some x })[i]? = some v := hv
      rw [List.getElem?_set_ne (Ne.symm hij)] at hv'
      exact ⟨v, hv', hvisible⟩

end Snapshot.Past

end Mvcc
