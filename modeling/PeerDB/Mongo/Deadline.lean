/-
The deadline of `Next` (`connectors/mongo/cdc.go`, `PullRecords`).

`timeoutCtx` is replaced in two places.  `addRecord` replaces it when the first record of the
batch was added, by one that ends after `IdleTimeout`; `recreateChangeStream` replaces it by one
that ends after an hour, also when the batch already holds records.  So a resume token that is
lost after the first record takes the batch's deadline away:

* **`deadline_kept_iff`** — the deadline stays within `IdleTimeout` of the first record if and
  only if every recovery of a batch that holds records resets the context an hour before that;
  the batch is then returned at most one recreation later, and the time for which `AddRecord`
  waited for room in the channel;
* **`lostToken_batch_held`** — a batch with an idle timeout of ten seconds that is held for an
  hour.

The clock moves while `Next` waits, while a stream is closed and opened, and while `AddRecord`
waits, which has no bound; the rest of an event takes no time.
-/
import PeerDB.Mongo.Delivery

namespace Mongo

open Loop

section Deadline

variable {K D V : Type}

/-! ### The clock of a call -/

/-- `time.Hour`, in nanoseconds. -/
def hourNanos : ℕ := 3600 * 10 ^ 9

/-- A call with the clock and its `timeoutCtx`. -/
structure Timed (K D V : Type) where
  pull : PullState K D V
  now : ℕ
  /-- when `timeoutCtx` ends -/
  deadline : ℕ
  /-- when the first record was added -/
  firstAt : Option ℕ := none
  /-- how long the last recreation after that took -/
  recreation : ℕ := 0
  /-- how long the records after it waited for room in the channel, all together -/
  blocked : ℕ := 0
  returned : Option (Except String Unit) := none

/-- The answers of a turn, and how long they took. -/
structure TimedInput where
  turn : TurnInput
  nextTook : ℕ := 0
  closeTook : ℕ := 0
  watchTook : ℕ := 0
  /-- how long `AddRecord` waited for room in the channel -/
  addTook : ℕ := 0

/-- When `Next` may answer so: it waits for its context at most, exceeds a deadline only when
it has passed, and asks the server only before. -/
def TimedInput.Allowed (i : TimedInput) (now deadline : ℕ) : Prop :=
  now + i.nextTook ≤ max now deadline ∧
  match i.turn.next with
  | .deadline _ => deadline ≤ now + i.nextTook
  | .resumeTokenNotFound _ => now + i.nextTook ≤ deadline
  | .event | .failed _ => True

instance instDecidableAllowed (i : TimedInput) (now deadline : ℕ) :
    Decidable (i.Allowed now deadline) := by
  unfold TimedInput.Allowed
  split <;> infer_instance

/-- The call in front of its loop. -/
def Timed.start (p : PullState K D V) (now : ℕ) : Timed K D V :=
  { pull := p, now, deadline := now + hourNanos }

/-- `addRecord`, with `t` after the turn but for the time that it takes: the first record
starts the idle timeout once it was added. -/
def Timed.addRecord (t : Timed K D V) (idleTimeout : ℕ) (i : TimedInput) : Timed K D V :=
  if t.returned.isNone ∧ t.pull.recordCount = 1 then
    { t with
      now := t.now + i.addTook
      deadline := t.now + i.addTook + idleTimeout
      firstAt := some (t.now + i.addTook)
      recreation := 0
      blocked := 0 }
  else { t with now := t.now + i.addTook, blocked := t.blocked + i.addTook }

/-- `recreateChangeStream`: the context is reset between `Close` and the new stream. -/
def Timed.recreated (t : Timed K D V) (i : TimedInput) : Timed K D V :=
  { t with
    now := t.now + i.closeTook + i.watchTook
    deadline := t.now + i.closeTook + hourNanos
    recreation := i.closeTook + i.watchTook }

/-- What a turn that called `Next` leaves. -/
def Timed.polled (idleTimeout : ℕ) (t : Timed K D V) (i : TimedInput) (turned : Turned K D V) :
    Timed K D V :=
  let t' := { t with pull := turned.state, now := t.now + i.nextTook, returned := turned.returned }
  match i.turn.next with
  | .event =>
    -- a record that could not be added is counted too
    if t.pull.recordCount < turned.state.recordCount then t'.addRecord idleTimeout i else t'
  | .deadline _ | .resumeTokenNotFound _ =>
    if turned.returned.isSome then t' else t'.recreated i
  | .failed _ => t'

/-- One turn of the loop of `PullRecords`, with the clock. -/
def timedTurn (cfg : PullConfig K D V) (log : Oplog K D) (idleTimeout : ℕ) (t : Timed K D V)
    (i : TimedInput) : Option (Timed K D V) :=
  if t.returned.isSome then none
  else if t.pull.recordCount < cfg.maxBatchSize then
    if i.Allowed t.now t.deadline then
      (pullTurn cfg log t.pull i.turn).map (Timed.polled idleTimeout t i)
    else none
  else
    (pullTurn cfg log t.pull i.turn).map fun turned =>
      { t with pull := turned.state, returned := turned.returned }

/-! ### What is asked of it -/

/-- The deadline that the next call of `Next` gets is no later than the idle timeout of the
batch. -/
def Timed.OnTime (idleTimeout : ℕ) (t : Timed K D V) : Prop :=
  ∀ first ∈ t.firstAt, t.deadline ≤ first + idleTimeout

/-- The idle timeout of the batch ended at most one recreation ago, not counting the time for
which its records waited for room in the channel. -/
def Timed.Timely (idleTimeout : ℕ) (t : Timed K D V) : Prop :=
  ∀ first ∈ t.firstAt, t.now ≤ first + idleTimeout + t.recreation + t.blocked

/-- The server lost the resume token, and a new stream was opened at its time. -/
def Timed.recovers (cfg : PullConfig K D V) (log : Oplog K D) (t : Timed K D V)
    (i : TimedInput) : Bool :=
  match i.turn.next with
  | .resumeTokenNotFound _ =>
    (pullTurn cfg log t.pull i.turn).any fun turned => turned.returned.isNone
  | _ => false

/-- A recovery of a batch that holds records resets its context so early that the hour ends
within the idle timeout. -/
def Timed.Early (cfg : PullConfig K D V) (log : Oplog K D) (idleTimeout : ℕ) (t : Timed K D V)
    (i : TimedInput) : Prop :=
  t.recovers cfg log i = true → ∀ first ∈ t.firstAt,
    t.now + i.nextTook + i.closeTook + hourNanos ≤ first + idleTimeout

instance instDecidableEarly (cfg : PullConfig K D V) (log : Oplog K D) (idleTimeout : ℕ)
    (t : Timed K D V) (i : TimedInput) : Decidable (t.Early cfg log idleTimeout i) :=
  inferInstanceAs (Decidable (_ → _))

/-! ### What a turn can do -/

section Moves

variable {cfg : PullConfig K D V} {log : Oplog K D} {p : PullState K D V} {i : TurnInput}
  {r : Turned K D V}

theorem deadline_goes_on {moved : Option Token} (hnext : i.next = .deadline moved)
    (h : pullTurn cfg log p i = some r) (hon : r.returned = none) :
    p.recordCount = 0 ∧ r.state.recordCount = 0 := by
  cases pullTurn_cases h with
  | stops | quiet | breaks => cases hon
  | resumes _ hempty => exact ⟨hempty, hempty⟩
  | restarts houtcome | skips _ _ houtcome | adds _ _ houtcome => cases hnext.symm.trans houtcome

theorem lostToken_goes_on {moved : Option Token} (hnext : i.next = .resumeTokenNotFound moved)
    (h : pullTurn cfg log p i = some r) (hon : r.returned = none) :
    r.state.recordCount = p.recordCount := by
  cases pullTurn_cases h with
  | stops | quiet | breaks => cases hon
  | resumes | restarts | skips => rfl
  | adds _ _ houtcome => cases hnext.symm.trans houtcome

theorem recordCount_goes_on (h : pullTurn cfg log p i = some r) (hon : r.returned = none) :
    r.state.recordCount = p.recordCount ∨ r.state.recordCount = p.recordCount + 1 := by
  cases pullTurn_cases h with
  | stops | quiet | breaks => cases hon
  | resumes | restarts | skips => exact Or.inl rfl
  | adds => exact Or.inr rfl

/-- A stream that failed otherwise ends the call. -/
theorem failed_returns {err : Option String} (hnext : i.next = .failed err)
    (h : pullTurn cfg log p i = some r) : r.returned.isSome = true := by
  cases pullTurn_cases h with
  | stops | quiet | breaks => rfl
  | resumes _ _ _ _ _ houtcome | restarts houtcome | skips _ _ houtcome | adds _ _ houtcome =>
    cases hnext.symm.trans houtcome

end Moves

/-- The ways of a turn with the clock. -/
inductive Timed.Move (cfg : PullConfig K D V) (log : Oplog K D) (idleTimeout : ℕ)
    (t : Timed K D V) (i : TimedInput) : Timed K D V → Prop where
  /-- the call returns; its last record waited `w` for room in the channel -/
  | returns {p' : PullState K D V} {now w : ℕ} {result : Except String Unit}
      (waited : now ≤ max t.now t.deadline) (calm : t.recovers cfg log i = false) :
      Move cfg log idleTimeout t i { t with
        pull := p', now := now + w, blocked := t.blocked + w, returned := some result }
  /-- an event is read that is not the first of the batch -/
  | reads {p' : PullState K D V} {w : ℕ}
      (empty : p'.recordCount = 0 ↔ t.pull.recordCount = 0)
      (waited : t.now + i.nextTook ≤ max t.now t.deadline)
      (calm : t.recovers cfg log i = false) :
      Move cfg log idleTimeout t i { t with
        pull := p', now := t.now + i.nextTook + w, blocked := t.blocked + w }
  /-- the first record is added -/
  | opens {p' : PullState K D V} (one : p'.recordCount = 1)
      (calm : t.recovers cfg log i = false) :
      Move cfg log idleTimeout t i { t with
        pull := p', now := t.now + i.nextTook + i.addTook
        deadline := t.now + i.nextTook + i.addTook + idleTimeout
        firstAt := some (t.now + i.nextTook + i.addTook), recreation := 0, blocked := 0 }
  /-- an hour passed without a record -/
  | waits {p' : PullState K D V} (empty : t.pull.recordCount = 0) (still : p'.recordCount = 0)
      (calm : t.recovers cfg log i = false) :
      Move cfg log idleTimeout t i
        (Timed.recreated { t with pull := p', now := t.now + i.nextTook } i)
  /-- the token was lost, and a stream is opened at its time -/
  | recovers {p' : PullState K D V} (same : p'.recordCount = t.pull.recordCount)
      (before : t.now + i.nextTook ≤ t.deadline) (lost : t.recovers cfg log i = true) :
      Move cfg log idleTimeout t i
        (Timed.recreated { t with pull := p', now := t.now + i.nextTook } i)

section Steps

variable {cfg : PullConfig K D V} {log : Oplog K D} {idleTimeout : ℕ} {t t' : Timed K D V}
  {i : TimedInput}

theorem recovers_of_next (h : ∀ moved, i.turn.next ≠ .resumeTokenNotFound moved) :
    t.recovers cfg log i = false := by
  rw [Timed.recovers]
  split
  · rename_i moved hnext
    exact absurd hnext (h moved)
  · rfl

theorem recovers_of_turn {r : Turned K D V} {moved : Option Token}
    (hnext : i.turn.next = .resumeTokenNotFound moved)
    (h : pullTurn cfg log t.pull i.turn = some r) :
    t.recovers cfg log i = r.returned.isNone := by
  simp only [Timed.recovers, hnext, h, Option.any_some]

/-- A call that returned did not recover. -/
theorem recovers_of_returned {r : Turned K D V} (h : pullTurn cfg log t.pull i.turn = some r)
    (hreturned : r.returned.isSome = true) : t.recovers cfg log i = false := by
  rw [Timed.recovers]
  split
  · rw [h, Option.any_some]
    exact Option.isNone_eq_false_iff.mpr hreturned
  · rfl

/-- The turn after `Next` answered goes one of these ways. -/
theorem polled_move {r : Turned K D V} (hallowed : i.Allowed t.now t.deadline)
    (hopen : t.returned = none)
    (h : pullTurn cfg log t.pull i.turn = some r) :
    t.Move cfg log idleTimeout i (t.polled idleTimeout i r) := by
  obtain ⟨hwaited, hanswer⟩ := hallowed
  obtain ⟨p', saved, returned⟩ := r
  obtain ⟨p, now, deadline, firstAt, recreation, blocked, open'⟩ := t
  obtain rfl : open' = none := hopen
  cases returned with
  | some result =>
    have hcalm := recovers_of_returned h rfl
    cases hnext : i.turn.next with
    | failed err =>
      simp only [Timed.polled, hnext]
      exact .returns (w := 0) hwaited hcalm
    | deadline moved | resumeTokenNotFound moved =>
      simp only [Timed.polled, hnext, Option.isSome_some, if_true]
      exact .returns (w := 0) hwaited hcalm
    | event =>
      simp only [Timed.polled, hnext]
      split_ifs with hcounted
      · exact .returns hwaited hcalm
      · exact .returns (w := 0) hwaited hcalm
  | none =>
    cases hnext : i.turn.next with
    | failed err => cases failed_returns hnext h
    | deadline moved =>
      obtain ⟨hempty, hstill⟩ := deadline_goes_on hnext h rfl
      simp only [Timed.polled, hnext, Option.isSome_none, Bool.false_eq_true, if_false]
      exact .waits hempty hstill (recovers_of_next (by simp [hnext]))
    | resumeTokenNotFound moved =>
      rw [hnext] at hanswer
      simp only [Timed.polled, hnext, Option.isSome_none, Bool.false_eq_true, if_false]
      exact .recovers (lostToken_goes_on hnext h rfl) hanswer (recovers_of_turn hnext h)
    | event =>
      have hcalm : Timed.recovers cfg log
          ⟨p, now, deadline, firstAt, recreation, blocked, none⟩ i = false :=
        recovers_of_next (by simp [hnext])
      simp only [Timed.polled, hnext]
      -- the count tells a record from an event that is passed over
      rcases recordCount_goes_on h rfl with hsame | hone
      · have hsame : p'.recordCount = p.recordCount := hsame
        rw [if_neg (by omega)]
        exact .reads (w := 0) (by rw [hsame]) hwaited hcalm
      · have hone : p'.recordCount = p.recordCount + 1 := hone
        rw [if_pos (by omega), Timed.addRecord]
        split_ifs with hfirst
        · exact .opens hfirst.2 hcalm
        · refine .reads ?_ hwaited hcalm
          constructor
          · intro hzero
            rw [hone] at hzero
            cases hzero
          · intro hzero
            exact absurd ⟨rfl, hone.trans (congrArg (· + 1) hzero)⟩ hfirst

/-- **A turn with the clock goes one of these ways**, in a call that has not returned. -/
theorem timedTurn_move (h : timedTurn cfg log idleTimeout t i = some t') :
    t.returned = none ∧ t.Move cfg log idleTimeout i t' := by
  cases hopen : t.returned with
  | some result =>
    simp only [timedTurn, hopen, Option.isSome_some, if_true] at h
    cases h
  | none =>
    refine ⟨rfl, ?_⟩
    simp only [timedTurn, hopen, Option.isSome_none, Bool.false_eq_true, if_false] at h
    by_cases hcount : t.pull.recordCount < cfg.maxBatchSize
    · rw [if_pos hcount] at h
      split_ifs at h with hallowed
      obtain ⟨r, hr, rfl⟩ := Option.map_eq_some_iff.mp h
      exact polled_move hallowed hopen hr
    · -- the batch is full, and the call returns without asking for more
      rw [if_neg hcount] at h
      obtain ⟨r, hr, rfl⟩ := Option.map_eq_some_iff.mp h
      have hfull := hr
      rw [pullTurn, if_neg hcount] at hfull
      cases hfull
      exact .returns (w := 0) (le_max_left _ _) (recovers_of_returned hr rfl)

/-! ### What turns keep -/

/-- A call that goes on knows when its first record came. -/
def Timed.Linked (t : Timed K D V) : Prop :=
  t.returned = none → (t.firstAt = none ↔ t.pull.recordCount = 0)

theorem linked_step (hlinked : t.Linked) (h : timedTurn cfg log idleTimeout t i = some t') :
    t'.Linked := by
  obtain ⟨hopen, hmove⟩ := timedTurn_move h
  have hlinked := hlinked hopen
  cases hmove with
  | returns =>
    intro hreturned
    cases hreturned
  | reads hempty _ _ => exact fun _ => hlinked.trans hempty.symm
  | opens hone _ =>
    intro _
    simp [hone]
  | waits hempty hstill _ => exact fun _ => ⟨fun _ => hstill, fun _ => hlinked.mpr hempty⟩
  | recovers hsame _ _ =>
    intro _
    simp only [Timed.recreated, hsame]
    exact hlinked

/-- **A turn keeps the deadline exactly if it does not recover too late.** -/
theorem onTime_step (hlinked : t.Linked) (honTime : t.OnTime idleTimeout)
    (h : timedTurn cfg log idleTimeout t i = some t') :
    t'.OnTime idleTimeout ↔ t.Early cfg log idleTimeout i := by
  obtain ⟨hopen, hmove⟩ := timedTurn_move h
  have hlinked := hlinked hopen
  have hvacuous (hcalm : t.recovers cfg log i = false) : t.Early cfg log idleTimeout i := by
    intro hlost
    rw [hcalm] at hlost
    cases hlost
  cases hmove with
  | returns _ hcalm => exact ⟨fun _ => hvacuous hcalm, fun _ => honTime⟩
  | reads _ _ hcalm => exact ⟨fun _ => hvacuous hcalm, fun _ => honTime⟩
  | opens _ hcalm =>
    refine ⟨fun _ => hvacuous hcalm, fun _ first hfirst => ?_⟩
    cases hfirst
    exact le_rfl
  | waits hempty _ hcalm =>
    refine ⟨fun _ => hvacuous hcalm, fun _ first hfirst => ?_⟩
    have hnone : t.firstAt = none := hlinked.mpr hempty
    simp only [Timed.recreated, hnone] at hfirst
    cases hfirst
  | recovers _ _ hlost => exact ⟨fun hkept _ => hkept, fun hearly => hearly hlost⟩

/-- As long as the deadline is kept, the batch is late by one recreation at most, and by the
time for which its records waited. -/
theorem timely_step (hlinked : t.Linked) (honTime : t.OnTime idleTimeout)
    (htimely : t.Timely idleTimeout) (h : timedTurn cfg log idleTimeout t i = some t') :
    t'.Timely idleTimeout := by
  obtain ⟨hopen, hmove⟩ := timedTurn_move h
  have hlinked := hlinked hopen
  -- `Next` has answered by the deadline, or at once
  have hanswered (first : ℕ) (hfirst : first ∈ t.firstAt) {now : ℕ}
      (hwaited : now ≤ max t.now t.deadline) (w : ℕ) :
      now + w ≤ first + idleTimeout + t.recreation + (t.blocked + w) := by
    have hnow := htimely first hfirst
    have hdeadline := honTime first hfirst
    omega
  cases hmove with
  | returns hwaited _ => exact fun first hfirst => hanswered first hfirst hwaited _
  | reads _ hwaited _ => exact fun first hfirst => hanswered first hfirst hwaited _
  | opens _ _ =>
    intro first hfirst
    cases hfirst
    simp only [Nat.add_zero]
    exact Nat.le_add_right _ _
  | waits hempty _ _ =>
    intro first hfirst
    have hnone : t.firstAt = none := hlinked.mpr hempty
    simp only [Timed.recreated, hnone] at hfirst
    cases hfirst
  | recovers _ hbefore _ =>
    intro first hfirst
    have hdeadline := honTime first hfirst
    simp only [Timed.recreated]
    omega

/-! ### Whole calls -/

/-- Along a run that starts on time, the deadline is kept exactly if every recovery is early. -/
theorem onTime_run : ∀ {is : List TimedInput} {t t' : Timed K D V}, t.Linked →
    t.OnTime idleTimeout → runs (timedTurn cfg log idleTimeout) t is = some t' →
    ((Along (timedTurn cfg log idleTimeout) (fun t _ => t.OnTime idleTimeout) t is ∧
        t'.OnTime idleTimeout) ↔
      Along (timedTurn cfg log idleTimeout) (Timed.Early cfg log idleTimeout) t is) := by
  intro is
  induction is with
  | nil =>
    intro t t' _ honTime hrun
    cases hrun
    exact ⟨fun _ => trivial, fun _ => ⟨trivial, honTime⟩⟩
  | cons i is ih =>
    intro t t' hlinked honTime hrun
    obtain ⟨t₁, hstep, hrest⟩ := Option.bind_eq_some_iff.mp hrun
    have hlinked₁ := linked_step hlinked hstep
    have hfirst := onTime_step hlinked honTime hstep
    constructor
    · rintro ⟨⟨-, halong⟩, hlast⟩
      have halong := halong t₁ hstep
      -- the turn after this one, or the end of the run, says that this one kept the deadline
      have honTime₁ : t₁.OnTime idleTimeout := by
        cases is with
        | nil =>
          cases hrest
          exact hlast
        | cons j js => exact halong.1
      refine ⟨hfirst.mp honTime₁, fun t₂ hstep₂ => ?_⟩
      obtain rfl := Option.some.inj (hstep.symm.trans hstep₂)
      exact (ih hlinked₁ honTime₁ hrest).mp ⟨halong, hlast⟩
    · rintro ⟨hearly, halong⟩
      obtain ⟨hkept, hlast⟩ := (ih hlinked₁ (hfirst.mpr hearly) hrest).mpr (halong t₁ hstep)
      refine ⟨⟨honTime, fun t₂ hstep₂ => ?_⟩, hlast⟩
      obtain rfl := Option.some.inj (hstep.symm.trans hstep₂)
      exact hkept

theorem startPull_empty {lastOffset : Option Token} {watch watchAgain : WatchOutcome}
    {p : PullState K D V}
    (h : startPull cfg log lastOffset watch watchAgain = some (.ok p)) : p.recordCount = 0 := by
  unfold startPull at h
  split at h
  · cases h
  · simp only at h
    split at h
    · cases h
    · cases h
      rfl
    · split at h
      · cases h
      · obtain ⟨result, -, hresult⟩ := Option.map_eq_some_iff.mp h
        cases result with
        | error err => cases hresult
        | ok cs =>
          cases hresult
          rfl
    · cases h

end Steps

/-- **A batch that holds records is flushed on time, unless its token was lost.**  In every run
of a call: every deadline that `Next` gets after the first record is within `IdleTimeout` of it
if and only if every recovery of a batch that holds records resets the context an hour before
that.  Then the call has returned by the idle timeout of the batch and one recreation, not
counting the time for which `AddRecord` waited for room in the channel. -/
theorem deadline_kept_iff {cfg : PullConfig K D V} {log : Oplog K D} {idleTimeout now : ℕ}
    {lastOffset : Option Token} {watch watchAgain : WatchOutcome} {p : PullState K D V}
    {is : List TimedInput} {t : Timed K D V}
    (hstart : startPull cfg log lastOffset watch watchAgain = some (.ok p))
    (hrun : runs (timedTurn cfg log idleTimeout) (Timed.start p now) is = some t) :
    ((Along (timedTurn cfg log idleTimeout) (fun t _ => t.OnTime idleTimeout)
        (Timed.start p now) is ∧ t.OnTime idleTimeout) ↔
      Along (timedTurn cfg log idleTimeout) (Timed.Early cfg log idleTimeout)
        (Timed.start p now) is) ∧
    (Along (timedTurn cfg log idleTimeout) (Timed.Early cfg log idleTimeout)
        (Timed.start p now) is → t.Timely idleTimeout) := by
  have hlinked : (Timed.start p now).Linked := fun _ =>
    ⟨fun _ => startPull_empty hstart, fun _ => rfl⟩
  have honTime : (Timed.start p now).OnTime idleTimeout := by
    intro first hfirst
    cases hfirst
  have htimely : (Timed.start p now).Timely idleTimeout := by
    intro first hfirst
    cases hfirst
  refine ⟨onTime_run hlinked honTime hrun, fun hearly => ?_⟩
  refine (runs_invariant (fun t => t.Linked ∧ t.OnTime idleTimeout ∧ t.Timely idleTimeout)
    ?_ ⟨hlinked, honTime, htimely⟩ hearly hrun).2.2
  rintro t i t' ⟨hlinked, honTime, htimely⟩ hearly hstep
  exact ⟨linked_step hlinked hstep, (onTime_step hlinked honTime hstep).mpr hearly,
    timely_step hlinked honTime htimely hstep⟩

end Deadline

/-! ### Orders and a lost token -/

def seconds (n : ℕ) : ℕ := n * 10 ^ 9

/-- The orders of the shop, with room for more than they are. -/
def largePull : PullConfig ℕ ℕ ℕ :=
  { ordersPull with maxBatchSize := 100 }

/-- The call that starts in front of the orders. -/
def largeStart : PullState ℕ ℕ ℕ where
  pipeline := ⟨some [⟨"shop", "orders"⟩], []⟩
  changeStreamOpts := { resumeAfter := some (orderToken 0 0) }
  changeStream := ⟨ordersLog.events, some (orderToken 0 0)⟩

/-- The orders come after five seconds, and the second waits twelve seconds for room in the
channel; the idle timeout is over then. -/
def quietRun : List TimedInput :=
  [{ turn := { next := .event }, nextTook := seconds 5 },
    { turn := { next := .event }, addTook := seconds 12 },
    { turn := { next := .deadline none } }]

theorem deadline_kept_quiet :
    ∃ t, runs (timedTurn largePull ordersLog (seconds 10)) (Timed.start largeStart 0) quietRun =
        some t ∧
      t.returned = some (.ok ()) ∧ t.firstAt = some (seconds 5) ∧ t.now = seconds 17 ∧
      t.blocked = seconds 12 ∧ t.OnTime (seconds 10) ∧ t.Timely (seconds 10) := by
  have hstart : startPull largePull ordersLog (some (orderToken 0 0)) (.ok none 0) (.failed "") =
      some (.ok largeStart) := rfl
  have hrun : runs (timedTurn largePull ordersLog (seconds 10)) (Timed.start largeStart 0)
      quietRun = some _ := rfl
  have hearly : Along (timedTurn largePull ordersLog (seconds 10))
      (Timed.Early largePull ordersLog (seconds 10)) (Timed.start largeStart 0) quietRun :=
    along_of_check (by decide +kernel)
  obtain ⟨hkept, htimely⟩ := deadline_kept_iff hstart hrun
  exact ⟨_, hrun, rfl, rfl, rfl, rfl, (hkept.mpr hearly).2, htimely hearly⟩

/-- The token of the first order is lost a second after it was read; the stream that is opened
at its time reads both orders and is quiet then. -/
def lostTokenRun : List TimedInput :=
  [{ turn := { next := .event }, nextTook := seconds 5 },
    { turn := { next := .resumeTokenNotFound none, watch := .ok none 0 }, nextTook := seconds 1 },
    { turn := { next := .event } }, { turn := { next := .event } },
    { turn := { next := .deadline none }, nextTook := hourNanos }]

/-- The batch holds records for an hour, with an idle timeout of ten seconds; both streams were
opened at once, and no record had to wait. -/
theorem lostToken_batch_held :
    startPull largePull ordersLog (some (orderToken 0 0)) (.ok none 0) (.failed "") =
      some (.ok largeStart) ∧
    ∃ t, runs (timedTurn largePull ordersLog (seconds 10)) (Timed.start largeStart 0)
        lostTokenRun = some t ∧
      t.returned = some (.ok ()) ∧ t.firstAt = some (seconds 5) ∧ t.recreation = 0 ∧
      t.blocked = 0 ∧ t.now = seconds 3606 ∧ ¬ t.OnTime (seconds 10) ∧ ¬ t.Timely (seconds 10) := by
  have hrun : runs (timedTurn largePull ordersLog (seconds 10)) (Timed.start largeStart 0)
      lostTokenRun = some _ := rfl
  refine ⟨rfl, _, hrun, rfl, rfl, rfl, rfl, rfl, fun hkept => ?_, fun htimely => ?_⟩
  · exact absurd (hkept (seconds 5) rfl) (by decide)
  · exact absurd (htimely (seconds 5) rfl) (by decide)

end Mongo
