/-
`LastChan` (`shared/concurrency`): the last value of a sequence, and a channel that is
closed when the next one arrives.

`Update` and `Close` are several atomic steps (`ChanWriter`, `LastChan.write`), and so is
waiting for a value above a bound: load, `Wait`, receive (`ChanReader`).  The value and the
channel are two separate atomics, so a reader that has loaded a value may be given the
channel that came with the next one.

`Woken` says that a reader will hear of a value above its bound.  The only step that
can break it is a writer that swaps the channel while the reader is between its load
and its `Wait` (`Woken.write`).
-/
import Mathlib.Data.Int.Notation
import Mathlib.Data.Nat.Notation

/-- Channels are numbered in the order they are made; `cond` is nil after `Close`. -/
structure LastChan where
  cond : Option ℕ
  val : ℤ
  made : ℕ
  closed : List ℕ
  deriving DecidableEq, Repr

/-- What a goroutine that updates or closes does next. -/
inductive ChanWriter where
  | idle
  /-- `Update`: store the value -/
  | storing (val : ℤ)
  /-- `Update`: swap in a fresh channel -/
  | stored
  /-- `Update`: close the channel that was swapped out -/
  | swapped (ch : Option ℕ)
  /-- `Close`: swap in nil -/
  | closing
  | nilled (ch : Option ℕ)
  deriving DecidableEq, Repr

/-- Where a goroutine that waits for a value stands. -/
inductive ChanReader where
  | away
  | loading
  /-- the value was too small, `Wait` is called next -/
  | waiting
  | blocked (ch : ℕ)
  /-- receiving from a nil channel -/
  | stuck
  deriving DecidableEq, Repr

namespace LastChan

/-- `NewLastChan`. -/
def new : LastChan := ⟨some 0, 0, 1, []⟩

def close (lc : LastChan) : Option ℕ → LastChan
  | some ch => { lc with closed := ch :: lc.closed }
  | none => lc

/-- One step of `Update` or `Close`. -/
def write (lc : LastChan) : ChanWriter → LastChan × ChanWriter
  | .idle => (lc, .idle)
  | .storing val => ({ lc with val := val }, .stored)
  | .stored => ({ lc with cond := some lc.made, made := lc.made + 1 }, .swapped lc.cond)
  | .swapped ch => (lc.close ch, .idle)
  | .closing => ({ lc with cond := none }, .nilled lc.cond)
  | .nilled ch => (lc.close ch, .idle)

/-- `Update(val)` without interruption. -/
def update (lc : LastChan) (val : ℤ) : LastChan :=
  (((lc.write (.storing val)).1.write .stored).1.write (.swapped lc.cond)).1

def isClosed (lc : LastChan) (ch : ℕ) : Bool := decide (ch ∈ lc.closed)

@[simp] theorem close_val (lc : LastChan) (ch : Option ℕ) : (lc.close ch).val = lc.val := by
  cases ch <;> rfl

@[simp] theorem close_cond (lc : LastChan) (ch : Option ℕ) : (lc.close ch).cond = lc.cond := by
  cases ch <;> rfl

theorem isClosed_close {lc : LastChan} {c : ℕ} (h : lc.isClosed c = true) (ch : Option ℕ) :
    (lc.close ch).isClosed c = true := by
  cases ch with
  | none => exact h
  | some d => exact decide_eq_true (List.mem_cons_of_mem d (of_decide_eq_true h))

theorem isClosed_close_self (lc : LastChan) (c : ℕ) : (lc.close (some c)).isClosed c = true :=
  decide_eq_true List.mem_cons_self

theorem isClosed_write {lc : LastChan} {c : ℕ} (h : lc.isClosed c = true) (w : ChanWriter) :
    (lc.write w).1.isClosed c = true := by
  cases w with
  | idle | storing | stored | closing => exact h
  | swapped ch => exact isClosed_close h ch
  | nilled ch => exact isClosed_close h ch

/-- Only `Close` takes the channel away. -/
theorem write_cond {lc : LastChan} {w : ChanWriter} (h : lc.cond ≠ none) (hw : w ≠ .closing) :
    (lc.write w).1.cond ≠ none := by
  cases w with
  | idle | storing => exact h
  | stored => exact Option.some_ne_none _
  | closing => exact absurd rfl hw
  | swapped ch | nilled ch =>
    show (lc.close ch).cond ≠ none
    rw [close_cond]
    exact h

theorem write_ne_closing (lc : LastChan) (w : ChanWriter) : (lc.write w).2 ≠ .closing := by
  cases w <;> exact nofun

end LastChan

def ChanWriter.updating : ChanWriter → Bool
  | .stored | .swapped _ => true
  | _ => false

/-- The reader will hear of a value above the bound. -/
def Woken (lc : LastChan) (bound : ℤ) (w : ChanWriter) : ChanReader → Prop
  | .away | .loading => True
  | .waiting => lc.val ≤ bound ∨ w = .stored
  | .blocked ch => lc.isClosed ch = true ∨ (lc.cond = some ch ∧ (lc.val ≤ bound ∨ w = .stored)) ∨
      w = .swapped (some ch) ∨ (w = .nilled (some ch) ∧ lc.val ≤ bound)
  | .stuck => False

/-- A goroutine that was not writing begins to. -/
theorem Woken.of_idle {lc : LastChan} {bound : ℤ} {r : ChanReader} (h : Woken lc bound .idle r)
    (w : ChanWriter) : Woken lc bound w r := by
  cases r with
  | away => trivial
  | loading => trivial
  | stuck => exact h
  | waiting => exact Or.inl (h.resolve_right nofun)
  | blocked ch =>
    rcases h with hclosed | ⟨hcond, hval⟩ | hw | ⟨hw, -⟩
    · exact Or.inl hclosed
    · exact Or.inr (Or.inl ⟨hcond, Or.inl (hval.resolve_right nofun)⟩)
    · cases hw
    · cases hw

/-- One step of waiting for a value above the bound, with the channel not nil. -/
inductive ReadStep (lc : LastChan) (bound : ℤ) : ChanReader → ChanReader → Prop
  /-- the loop is entered, or the channel was closed -/
  | again (r : ChanReader) : ReadStep lc bound r .loading
  | below (hval : lc.val ≤ bound) : ReadStep lc bound .loading .waiting
  | wait {ch : ℕ} (hcond : lc.cond = some ch) : ReadStep lc bound .waiting (.blocked ch)

/-- A step of the reader.  In `Wait` it gets the channel that belongs to the value it has
loaded, or the writer is about to close the one it gets. -/
theorem Woken.read {lc : LastChan} {bound : ℤ} {w : ChanWriter} {r r' : ChanReader}
    (h : Woken lc bound w r) (hread : ReadStep lc bound r r') : Woken lc bound w r' := by
  cases hread with
  | again => trivial
  | below hval => exact Or.inl hval
  | wait hcond => exact Or.inr (Or.inl ⟨hcond, h⟩)

/-- A step of the writer, unless it swaps the channel while a reader that has missed
the value is about to call `Wait`. -/
theorem Woken.write {lc : LastChan} {bound : ℤ} {w : ChanWriter} {r : ChanReader}
    (h : Woken lc bound w r) (hswap : w = .stored → r = .waiting → lc.val ≤ bound) :
    Woken (lc.write w).1 bound (lc.write w).2 r := by
  cases r with
  | away => trivial
  | loading => trivial
  | stuck => exact h
  | waiting =>
    have hbelow : w ≠ .stored → lc.val ≤ bound := fun hne => h.resolve_right hne
    cases w with
    | idle => exact h
    | storing val => exact Or.inr rfl
    | stored => exact Or.inl (hswap rfl rfl)
    | swapped ch =>
      left
      show (lc.close ch).val ≤ bound
      rw [LastChan.close_val]
      exact hbelow nofun
    | closing => exact Or.inl (hbelow nofun)
    | nilled ch =>
      left
      show (lc.close ch).val ≤ bound
      rw [LastChan.close_val]
      exact hbelow nofun
  | blocked ch =>
    rcases h with hclosed | ⟨hcond, hval⟩ | rfl | ⟨rfl, hval⟩
    · exact Or.inl (LastChan.isClosed_write hclosed w)
    · have hbelow : w ≠ .stored → lc.val ≤ bound := fun hne => hval.resolve_right hne
      cases w with
      | idle => exact Or.inr (Or.inl ⟨hcond, hval⟩)
      | storing val => exact Or.inr (Or.inl ⟨hcond, Or.inr rfl⟩)
      | stored =>
        -- the channel swapped out is the reader's
        refine Or.inr (Or.inr (Or.inl ?_))
        show ChanWriter.swapped lc.cond = .swapped (some ch)
        rw [hcond]
      | swapped old =>
        refine Or.inr (Or.inl ⟨?_, Or.inl ?_⟩)
        · show (lc.close old).cond = some ch
          rw [LastChan.close_cond]
          exact hcond
        · show (lc.close old).val ≤ bound
          rw [LastChan.close_val]
          exact hbelow nofun
      | closing =>
        refine Or.inr (Or.inr (Or.inr ⟨?_, hbelow nofun⟩))
        show ChanWriter.nilled lc.cond = .nilled (some ch)
        rw [hcond]
      | nilled old =>
        refine Or.inr (Or.inl ⟨?_, Or.inl ?_⟩)
        · show (lc.close old).cond = some ch
          rw [LastChan.close_cond]
          exact hcond
        · show (lc.close old).val ≤ bound
          rw [LastChan.close_val]
          exact hbelow nofun
    · exact Or.inl (LastChan.isClosed_close_self lc ch)
    · exact Or.inl (LastChan.isClosed_close_self lc ch)

/-- The reader is blocked on an open channel, no `Update` is in progress, and the value
is above the bound. -/
def Missed (lc : LastChan) (bound : ℤ) (w : ChanWriter) : ChanReader → Prop
  | .blocked ch => lc.isClosed ch = false ∧ w.updating = false ∧ bound < lc.val
  | .stuck => w.updating = false ∧ bound < lc.val
  | _ => False

instance (lc : LastChan) (bound : ℤ) (w : ChanWriter) (r : ChanReader) :
    Decidable (Missed lc bound w r) := by
  unfold Missed
  split <;> infer_instance

theorem Woken.not_missed {lc : LastChan} {bound : ℤ} {w : ChanWriter} {r : ChanReader}
    (h : Woken lc bound w r) : ¬ Missed lc bound w r := by
  intro hmissed
  cases r with
  | away | loading | waiting => exact hmissed
  | stuck => exact h
  | blocked ch =>
    obtain ⟨hopen, hupdating, hlt⟩ := hmissed
    rcases h with hclosed | ⟨-, hval | rfl⟩ | rfl | ⟨-, hval⟩
    · rw [hclosed] at hopen
      cases hopen
    · omega
    · cases hupdating
    · cases hupdating
    · omega
