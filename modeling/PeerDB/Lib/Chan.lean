/-
Channels with a buffer.

A channel holds at most `cap` values, in the order they were sent.  A value is sent by `push`
when the buffer has room and received by `pop` when it is not empty; a channel without a buffer
never holds a value, and there a sender and a receiver meet in one step of the program.
Closing keeps what is in the buffer: a receiver sees the end when the channel is `drained`.
-/
import Mathlib.Data.Nat.Notation
import Mathlib.Tactic.Common

structure Chan (α : Type) (cap : ℕ) where
  queue : List α
  closed : Bool
  length_le : queue.length ≤ cap

namespace Chan

variable {α : Type} {cap : ℕ} {c c' : Chan α cap} {x : α}

/-- A new channel. -/
def make (α : Type) (cap : ℕ) : Chan α cap :=
  ⟨[], false, Nat.zero_le cap⟩

/-- A value is sent into the buffer. -/
def push (c : Chan α cap) (x : α) : Option (Chan α cap) :=
  if h : c.queue.length < cap then
    some ⟨c.queue ++ [x], c.closed, by rw [List.length_append]; exact h⟩
  else none

/-- A value is received from the buffer. -/
def pop (c : Chan α cap) : Option (α × Chan α cap) :=
  match h : c.queue with
  | [] => none
  | x :: queue =>
    some (x, ⟨queue, c.closed, by
      have hle := c.length_le
      rw [h, List.length_cons] at hle
      omega⟩)

def close (c : Chan α cap) : Chan α cap :=
  { c with closed := true }

/-- The channel is closed and empty, which ends a `range` over it. -/
def drained (c : Chan α cap) : Bool :=
  c.closed && c.queue.isEmpty

theorem push_eq_some (h : c.push x = some c') :
    c.queue.length < cap ∧ c'.queue = c.queue ++ [x] ∧ c'.closed = c.closed := by
  rw [push] at h
  split_ifs at h with hlt
  cases h
  exact ⟨hlt, rfl, rfl⟩

/-- There is room in a buffer that is not full. -/
theorem exists_push (h : c.queue.length < cap) (x : α) : ∃ c', c.push x = some c' :=
  ⟨_, dif_pos h⟩

theorem pop_eq_some (h : c.pop = some (x, c')) :
    c.queue = x :: c'.queue ∧ c'.closed = c.closed := by
  rw [pop] at h
  split at h
  · cases h
  · rename_i y queue hqueue
    cases h
    exact ⟨hqueue, rfl⟩

theorem exists_pop (h : c.queue ≠ []) : ∃ x c', c.pop = some (x, c') := by
  rw [pop]
  split
  · rename_i hqueue
    exact absurd hqueue h
  · exact ⟨_, _, rfl⟩

/-- A receiver waits only at an empty buffer. -/
theorem queue_of_pop (h : c.pop = none) : c.queue = [] := by
  by_contra hne
  obtain ⟨x, c', hpop⟩ := exists_pop hne
  rw [h] at hpop
  cases hpop

theorem drained_iff : c.drained = true ↔ c.closed = true ∧ c.queue = [] := by
  rw [drained, Bool.and_eq_true, List.isEmpty_iff]

end Chan
