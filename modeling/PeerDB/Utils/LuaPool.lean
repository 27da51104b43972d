/-
The pool of script workers (`connectors/utils/lua.go`, `LuaPool`).

Every call of `Run` makes a channel for its result.  The function goes to a worker over
`messages`, which has no buffer, and the channel goes into `returns`, from which one goroutine
takes the channels in order and merges what it receives.  Workers finish in any order; the
order of the results is the order of the channels.

* **`results_in_order`** — for every pool size from one, every sequence of functions and every
  interleaving: results are merged once each, in the order of the calls, one after the other;
  `Wait` returns nil after the last of them; no state is a deadlock, no step panics, and every
  run ends.

A function may change the state of its worker and its result may depend on it.  The first call
of `cons` succeeds, or there is no pool; any other may fail.
-/
import Mathlib.Algebra.GroupWithZero.Nat
import Mathlib.Data.List.Range
import Mathlib.Logic.Function.Basic
import PeerDB.Lib.Chan
import PeerDB.Lib.Loop

namespace LuaPool

open Loop

variable {L T : Type} {maxSize : ℕ}

/-! ### The goroutines -/

/-- The goroutine of `Spawn`, with its Lua state; a message is the number of its call. -/
inductive Worker (L : Type)
  /-- Before it receives from `messages`. -/
  | starting (ls : L)
  | parked (ls : L)
  | working (ls : L) (k : ℕ)
  /-- The result is sent, and its channel is not closed yet. -/
  | closing (ls : L) (k : ℕ)
  | exited

def Worker.isParked : Worker L → Bool
  | .parked _ => true
  | _ => false

/-- The goroutine that merges. -/
inductive Merger (T : Type)
  /-- In the range over `returns`. -/
  | idle
  /-- In the range over the channel of a call. -/
  | draining (k : ℕ)
  | merging (k : ℕ) (val : T)
  | finished

/-- The goroutine that calls `Run` for each function and then `Wait`. -/
inductive Caller
  /-- Before the call with this number, or before `Wait`. -/
  | run (k : ℕ)
  | send (k : ℕ)
  | push (k : ℕ)
  /-- In `Close`, between the channels. -/
  | closing
  | wait
  /-- What `Wait` returned. -/
  | returned (err : Option String)

structure State (L T : Type) (maxSize : ℕ) where
  caller : Caller
  size : ℕ
  closed : Bool
  workers : List (Worker L)
  messagesClosed : Bool
  returns : Chan ℕ maxSize
  /-- The channels of the results. -/
  rets : ℕ → Chan T 1
  merger : Merger T
  waitClosed : Bool
  /-- The calls of `merge` that were made, with the number of the call of `Run`. -/
  begun : List (ℕ × T)
  /-- Those that have returned. -/
  merged : List (ℕ × T)
  /-- What the functions returned. -/
  ran : List (ℕ × T)
  fault : Option String

/-- `LuaPool`: it starts the merging goroutine and the first worker. -/
def luaPool (T : Type) (maxSize : ℕ) : Except String L → Except String (State L T maxSize)
  | .error err => .error err
  | .ok ls => .ok
    { caller := .run 0
      size := 1
      closed := false
      workers := [.starting ls]
      messagesClosed := false
      returns := .make ℕ maxSize
      rets := fun _ => .make T 1
      merger := .idle
      waitClosed := false
      begun := []
      merged := []
      ran := []
      fault := none }

inductive Action (L : Type)
  /-- `Run` finds a pool that is as large as it may be. -/
  | full
  /-- The `select` of `Run`: a worker is waiting. -/
  | offer (i : ℕ)
  /-- Its default. -/
  | spawn (cons : Except String L)
  | send (i : ℕ)
  | push
  | close
  | closeMessages
  | waitDone
  | cancelled (cause : String)
  | worker (i : ℕ)
  | merger

/-- The context of `Wait` ends. -/
def Action.cancels : Action L → Bool
  | .cancelled _ => true
  | _ => false

namespace State

variable (s : State L T maxSize)

/-- The process ends. -/
def panic (msg : String) : State L T maxSize :=
  { s with fault := some msg }

/-- `Spawn`, whose error is dropped. -/
def spawned : Except String L → State L T maxSize
  | .ok ls => { s with size := s.size + 1, workers := s.workers ++ [.starting ls] }
  | .error _ => s

/-- A message goes from the caller to a worker. -/
def hand (k i : ℕ) : Option (State L T maxSize) :=
  if s.messagesClosed then some (s.panic "send on closed channel")
  else
    match s.workers[i]? with
    | some (.parked ls) =>
      some { s with workers := s.workers.set i (.working ls k), caller := .push k }
    | _ => none

end State

/-- The caller: `Run` for each function, then `Wait`. -/
def callerStep (jobs : List (L → T × L)) (s : State L T maxSize) :
    Caller → Action L → Option (State L T maxSize)
  | .run k, .full =>
    if k < jobs.length ∧ maxSize ≤ s.size then some { s with caller := .send k } else none
  | .run k, .offer i =>
    if k < jobs.length ∧ s.size < maxSize then s.hand k i else none
  | .run k, .spawn cons =>
    if k < jobs.length ∧ s.size < maxSize ∧ s.workers.all (fun w => !w.isParked) then
      if s.messagesClosed then some (s.panic "send on closed channel")
      else some { s.spawned cons with caller := .send k }
    else none
  | .send k, .send i => s.hand k i
  | .push k, .push =>
    if s.returns.closed then some (s.panic "send on closed channel")
    else (s.returns.push k).map fun returns => { s with returns := returns, caller := .run (k + 1) }
  | .run k, .close =>
    if k < jobs.length then none
    else if s.closed then some { s with caller := .wait }
    else if s.returns.closed then some (s.panic "close of closed channel")
    else some { s with returns := s.returns.close, caller := .closing }
  | .closing, .closeMessages =>
    if s.messagesClosed then some (s.panic "close of closed channel")
    else some { s with messagesClosed := true, closed := true, caller := .wait }
  | .wait, .waitDone => if s.waitClosed then some { s with caller := .returned none } else none
  | .wait, .cancelled cause => some { s with caller := .returned (some cause) }
  | _, _ => none

/-- A worker; it cannot step while it waits for a message. -/
def workerStep (jobs : List (L → T × L)) (s : State L T maxSize) (i : ℕ) :
    Worker L → Option (State L T maxSize)
  | .starting ls =>
    if s.messagesClosed then some { s with workers := s.workers.set i .exited }
    else some { s with workers := s.workers.set i (.parked ls) }
  | .parked _ =>
    if s.messagesClosed then some { s with workers := s.workers.set i .exited } else none
  | .working ls k =>
    match jobs[k]? with
    | none => none
    | some f =>
      -- nothing can be seen between the return of the function and the send
      if (s.rets k).closed then some (s.panic "send on closed channel")
      else
        ((s.rets k).push (f ls).1).map fun ret =>
          { s with
            workers := s.workers.set i (.closing (f ls).2 k)
            rets := Function.update s.rets k ret
            ran := s.ran ++ [(k, (f ls).1)] }
  | .closing ls k =>
    if (s.rets k).closed then some (s.panic "close of closed channel")
    else
      some { s with
        workers := s.workers.set i (.starting ls)
        rets := Function.update s.rets k (s.rets k).close }
  | .exited => none

def mergerStep (s : State L T maxSize) : Merger T → Option (State L T maxSize)
  | .idle =>
    match s.returns.pop with
    | some (k, returns) => some { s with returns := returns, merger := .draining k }
    | none =>
      if s.returns.closed then some { s with merger := .finished, waitClosed := true } else none
  | .draining k =>
    match (s.rets k).pop with
    | some (val, ret) =>
      some { s with
        rets := Function.update s.rets k ret
        merger := .merging k val
        begun := s.begun ++ [(k, val)] }
    | none => if (s.rets k).closed then some { s with merger := .idle } else none
  | .merging k val =>
    some { s with merger := .draining k, merged := s.merged ++ [(k, val)] }
  | .finished => none

/-- One step of one of the goroutines. -/
def step (jobs : List (L → T × L)) (s : State L T maxSize) (a : Action L) :
    Option (State L T maxSize) :=
  if s.fault.isSome then none
  else
    match a with
    | .worker i => s.workers[i]?.bind (workerStep jobs s i)
    | .merger => mergerStep s s.merger
    | a => callerStep jobs s s.caller a

/-- Nothing is left to do. -/
structure State.Finished (s : State L T maxSize) : Prop where
  caller : ∃ err, s.caller = .returned err
  merger : s.merger = .finished
  workers : ∀ w ∈ s.workers, w = .exited

/-! ### Where the caller is -/

/-- The calls whose channel is in `returns` or was. -/
def Caller.pushed (n : ℕ) : Caller → ℕ
  | .run k => k
  | .send k => k
  | .push k => k
  | .closing => n
  | .wait => n
  | .returned _ => n

/-- The calls whose message was received by a worker. -/
def Caller.sent (n : ℕ) : Caller → ℕ
  | .push k => k + 1
  | c => c.pushed n

def Caller.returnsClosed : Caller → Bool
  | .run _ => false
  | .send _ => false
  | .push _ => false
  | _ => true

def Caller.messagesClosed : Caller → Bool
  | .wait => true
  | .returned _ => true
  | _ => false

def Caller.Within (n : ℕ) : Caller → Prop
  | .run k => k ≤ n
  | .send k => k < n
  | .push k => k < n
  | _ => True

theorem Caller.pushed_le {n : ℕ} {c : Caller} (h : c.Within n) : c.pushed n ≤ n := by
  cases c with
  | run k => exact h
  | send k | push k => exact Nat.le_of_lt h
  | _ => exact Nat.le_refl n

theorem Caller.sent_le {n : ℕ} {c : Caller} (h : c.Within n) :
    c.pushed n ≤ c.sent n ∧ c.sent n ≤ n := by
  cases c with
  | push k => exact ⟨Nat.le_succ k, h⟩
  | _ => exact ⟨Nat.le_refl _, Caller.pushed_le h⟩

/-! ### What a step can be -/

/-- The steps that are not a panic. -/
inductive Move (jobs : List (L → T × L)) (s : State L T maxSize) : State L T maxSize → Prop
  /-- the pool is as large as it may be, or `cons` failed -/
  | kept {k : ℕ} (hc : s.caller = .run k) (hk : k < jobs.length) :
    Move jobs s { s with caller := .send k }
  | spawned {k : ℕ} {ls : L} (hc : s.caller = .run k) (hk : k < jobs.length) :
    Move jobs s { s with
      size := s.size + 1, workers := s.workers ++ [.starting ls], caller := .send k }
  | handed {k i : ℕ} {ls : L} (hc : s.caller = .run k ∨ s.caller = .send k) (hk : k < jobs.length)
    (hw : s.workers[i]? = some (.parked ls)) :
    Move jobs s { s with workers := s.workers.set i (.working ls k), caller := .push k }
  | pushed {k : ℕ} {returns : Chan ℕ maxSize} (hc : s.caller = .push k)
    (hpush : s.returns.push k = some returns) :
    Move jobs s { s with returns := returns, caller := .run (k + 1) }
  | closes (hc : s.caller = .run jobs.length) :
    Move jobs s { s with returns := s.returns.close, caller := .closing }
  | closesMessages (hc : s.caller = .closing) :
    Move jobs s { s with messagesClosed := true, closed := true, caller := .wait }
  | waited (hc : s.caller = .wait) (hwait : s.waitClosed = true) :
    Move jobs s { s with caller := .returned none }
  | cancelled {cause : String} (hc : s.caller = .wait) :
    Move jobs s { s with caller := .returned (some cause) }
  | parks {i : ℕ} {ls : L} (hw : s.workers[i]? = some (.starting ls)) :
    Move jobs s { s with workers := s.workers.set i (.parked ls) }
  | exits {i : ℕ} {ls : L}
    (hw : s.workers[i]? = some (.starting ls) ∨ s.workers[i]? = some (.parked ls))
    (hclosed : s.messagesClosed = true) :
    Move jobs s { s with workers := s.workers.set i .exited }
  | works {i k : ℕ} {ls : L} {f : L → T × L} {ret : Chan T 1}
    (hw : s.workers[i]? = some (.working ls k)) (hf : jobs[k]? = some f)
    (hpush : (s.rets k).push (f ls).1 = some ret) :
    Move jobs s { s with
      workers := s.workers.set i (.closing (f ls).2 k)
      rets := Function.update s.rets k ret
      ran := s.ran ++ [(k, (f ls).1)] }
  | closesRet {i k : ℕ} {ls : L} (hw : s.workers[i]? = some (.closing ls k)) :
    Move jobs s { s with
      workers := s.workers.set i (.starting ls)
      rets := Function.update s.rets k (s.rets k).close }
  | takes {k : ℕ} {returns : Chan ℕ maxSize} (hm : s.merger = .idle)
    (hpop : s.returns.pop = some (k, returns)) :
    Move jobs s { s with returns := returns, merger := .draining k }
  | finishes (hm : s.merger = .idle) (hempty : s.returns.queue = [])
    (hclosed : s.returns.closed = true) :
    Move jobs s { s with merger := .finished, waitClosed := true }
  | receives {k : ℕ} {val : T} {ret : Chan T 1} (hm : s.merger = .draining k)
    (hpop : (s.rets k).pop = some (val, ret)) :
    Move jobs s { s with
      rets := Function.update s.rets k ret
      merger := .merging k val
      begun := s.begun ++ [(k, val)] }
  | drained {k : ℕ} (hm : s.merger = .draining k) (hempty : (s.rets k).queue = [])
    (hclosed : (s.rets k).closed = true) : Move jobs s { s with merger := .idle }
  | merges {k : ℕ} {val : T} (hm : s.merger = .merging k val) :
    Move jobs s { s with merger := .draining k, merged := s.merged ++ [(k, val)] }

/-! ### What holds in every state -/

/-- The caller and the channels it closes. -/
structure Shut (n : ℕ) (s : State L T maxSize) : Prop where
  within : s.caller.Within n
  closed : s.closed = s.messagesClosed
  messagesClosed : s.messagesClosed = s.caller.messagesClosed
  returnsClosed : s.returns.closed = s.caller.returnsClosed
  staffed : s.workers ≠ []
  exited : .exited ∈ s.workers → s.messagesClosed = true

/-- The number of the channel that the merging goroutine takes next. -/
def Merger.next (begun : ℕ) : Merger T → ℕ
  | .idle => begun
  | .draining k => k + 1
  | .merging k _ => k + 1
  | .finished => begun

/-- Where the merging goroutine is. -/
def Merger.Phase (s : State L T maxSize) : Merger T → Prop
  | .idle => s.begun = s.merged
  | .draining k => s.begun = s.merged ∧ (s.begun.length = k ∨ s.begun.length = k + 1)
  | .merging k val => s.begun = s.merged ++ [(k, val)] ∧ s.merged.length = k
  | .finished => s.begun = s.merged ∧ s.returns.queue = [] ∧ s.returns.closed = true

/-- The merging goroutine and the channels in front of it. -/
structure Merging (n : ℕ) (s : State L T maxSize) : Prop where
  queue : s.returns.queue = List.range' (s.merger.next s.begun.length)
    (s.caller.pushed n - s.merger.next s.begun.length)
  next_le : s.merger.next s.begun.length ≤ s.caller.pushed n
  phase : s.merger.Phase s
  numbers : s.begun.map Prod.fst = List.range s.begun.length
  honest : ∀ x ∈ s.begun, x ∈ s.ran
  waitClosed : s.waitClosed = true ↔ s.merger = .finished
  waited : s.caller = .returned none → s.waitClosed = true

/-- How far a call is, and which worker has it. -/
inductive Stage (T : Type)
  | fresh
  | working (i : ℕ)
  | closing (i : ℕ) (val : T)
  | done (val : T)

def Stage.holder : Stage T → Option ℕ
  | .working i => some i
  | .closing i _ => some i
  | _ => none

/-- The result, once the function has returned. -/
def Stage.val : Stage T → Option T
  | .closing _ val => some val
  | .done val => some val
  | _ => none

def Stage.isDone : Stage T → Bool
  | .done _ => true
  | _ => false

/-- The call that a worker is at. -/
def Worker.job : Worker L → Option ℕ
  | .working _ k => some k
  | .closing _ k => some k
  | _ => none

/-- The worker at a position is where the stage of its call says. -/
def Worker.Matches (stages : ℕ → Stage T) (i : ℕ) : Worker L → Prop
  | .working _ k => stages k = .working i
  | .closing _ k => ∃ val, stages k = .closing i val
  | _ => True

/-- A call is at a stage.  What was received from its channel is what the merging goroutine has
begun. -/
structure CallAt (n : ℕ) (s : State L T maxSize) (j : ℕ) (st : Stage T) : Prop where
  fresh : st = .fresh ↔ s.caller.sent n ≤ j
  closed : (s.rets j).closed = st.isDone
  queue : (s.rets j).queue = if j < s.begun.length then [] else st.val.toList
  received : j < s.begun.length → st.val.isSome = true
  ran : ∀ val, (j, val) ∈ s.ran ↔ st.val = some val

/-- The calls are at these stages. -/
structure Staged (jobs : List (L → T × L)) (s : State L T maxSize) (stages : ℕ → Stage T) :
    Prop where
  call : ∀ j, CallAt jobs.length s j (stages j)
  worker : ∀ i (w : Worker L), s.workers[i]? = some w → w.Matches stages i
  holder : ∀ j i, (stages j).holder = some i → ∃ w, s.workers[i]? = some w ∧ w.job = some j
  once : (s.ran.map Prod.fst).Nodup
  results : ∀ x ∈ s.ran, ∃ f ls, jobs[x.1]? = some f ∧ (f ls).1 = x.2

structure Sound (jobs : List (L → T × L)) (s : State L T maxSize) : Prop where
  calm : s.fault = none
  shut : Shut jobs.length s
  merging : Merging jobs.length s
  staged : ∃ stages, Staged jobs s stages

theorem luaPool_sound {jobs : List (L → T × L)} {cons : Except String L} {s : State L T maxSize}
    (h : luaPool T maxSize cons = .ok s) : Sound jobs s := by
  cases cons with
  | error err => cases h
  | ok ls =>
    cases h
    refine ⟨rfl, ⟨Nat.zero_le _, rfl, rfl, rfl, nofun, by simp⟩,
      ⟨rfl, le_rfl, rfl, rfl, nofun, ⟨nofun, nofun⟩, nofun⟩, fun _ => .fresh, fun j => ?_,
      fun i w hw => ?_, nofun, List.nodup_nil, nofun⟩
    · exact ⟨⟨fun _ => Nat.zero_le j, fun _ => rfl⟩, rfl, rfl, nofun, fun _ => ⟨nofun, nofun⟩⟩
    · rw [List.mem_singleton.mp (List.mem_of_getElem? hw)]
      trivial

section Stages

variable {jobs : List (L → T × L)} {s s' : State L T maxSize} {stages : ℕ → Stage T} {i k : ℕ}
  {w v : Worker L} {t : Stage T}

theorem Worker.Matches.holder (h : w.Matches stages i) (hk : w.job = some k) :
    (stages k).holder = some i := by
  cases w <;> simp_all [Worker.job, Worker.Matches, Stage.holder]
  obtain ⟨val, hval⟩ := h
  rw [hval]

/-- A worker that is not at a call does not see it change. -/
theorem Worker.Matches.update (h : w.Matches stages i) (hk : w.job ≠ some k) :
    w.Matches (Function.update stages k t) i := by
  cases w with
  | working ls j | closing ls j =>
    have hne : j ≠ k := fun hj => hk (congrArg some hj)
    simpa only [Worker.Matches, Function.update_of_ne hne] using h
  | _ => trivial

namespace Staged

/-- Nothing that the calls are about has changed. -/
theorem congr (h : Staged jobs s stages) (hworkers : s'.workers = s.workers)
    (hrets : s'.rets = s.rets) (hran : s'.ran = s.ran) (hbegun : s'.begun = s.begun)
    (hsent : s'.caller.sent jobs.length = s.caller.sent jobs.length) :
    Staged jobs s' stages := by
  obtain ⟨hcall, hworker, hholder, honce, hresults⟩ := h
  refine ⟨fun j => ?_, ?_, ?_, ?_, ?_⟩
  · obtain ⟨hfresh, hclosed, hqueue, hreceived, hvals⟩ := hcall j
    exact ⟨by rw [hfresh, hsent], by rw [hrets, hclosed], by rw [hrets, hbegun, hqueue],
      hbegun ▸ hreceived, hran ▸ hvals⟩
  all_goals simpa only [hworkers, hran]

/-- A new worker is at no call. -/
theorem spawn (h : Staged jobs s stages) {ls : L} {c : Caller} {size : ℕ}
    (hsent : c.sent jobs.length = s.caller.sent jobs.length) :
    Staged jobs { s with size := size, workers := s.workers ++ [.starting ls], caller := c }
      stages := by
  refine { h with call := fun j => ?_, worker := fun i w hw => ?_, holder := fun j i hj => ?_ }
  · exact { h.call j with fresh := (h.call j).fresh.trans (by rw [← hsent]) }
  · rw [List.getElem?_append] at hw
    split_ifs at hw
    · exact h.worker i w hw
    · rw [List.mem_singleton.mp (List.mem_of_getElem? hw)]
      trivial
  · obtain ⟨w, hw, hjob⟩ := h.holder j i hj
    exact ⟨w, (List.getElem?_append_left (List.getElem?_eq_some_iff.mp hw).1).trans hw, hjob⟩

/-- A worker that is at no call goes on. -/
theorem idle (h : Staged jobs s stages) (hw : s.workers[i]? = some w) (hjob : w.job = none)
    (hmatches : v.Matches stages i) :
    Staged jobs { s with workers := s.workers.set i v } stages := by
  refine { h with
    call := fun j => { h.call j with }, worker := fun i' w₁ hw₁ => ?_, holder := fun j i' hj => ?_ }
  · rw [List.getElem?_set] at hw₁
    split_ifs at hw₁ with hi
    · cases hw₁
      exact hi ▸ hmatches
    · exact h.worker i' w₁ hw₁
  · obtain ⟨w₁, hw₁, hjob₁⟩ := h.holder j i' hj
    have hi : i ≠ i' := by grind
    exact ⟨w₁, (List.getElem?_set_ne hi).trans hw₁, hjob₁⟩

/-- A worker takes its call to the next stage, and nothing happens to the other calls. -/
theorem advance (h : Staged jobs s stages) (hworkers : s'.workers = s.workers.set i v)
    (hw : s.workers[i]? = some w) (hheld : ∀ i', (stages k).holder = some i' → i' = i)
    (hjob : w.job = none ∨ w.job = some k) (hw' : v.Matches (Function.update stages k t) i)
    (hst : ∀ i', t.holder = some i' → i' = i ∧ v.job = some k) (hcall : CallAt jobs.length s' k t)
    (hothers : ∀ j ≠ k, CallAt jobs.length s j (stages j) → CallAt jobs.length s' j (stages j))
    (honce : (s'.ran.map Prod.fst).Nodup)
    (hresults : ∀ x ∈ s'.ran, ∃ f ls, jobs[x.1]? = some f ∧ (f ls).1 = x.2) :
    Staged jobs s' (Function.update stages k t) := by
  have hlt := (List.getElem?_eq_some_iff.mp hw).1
  refine ⟨fun j => ?_, fun i' w₁ hw₁ => ?_, fun j i' hj => ?_, honce, hresults⟩
  · rcases eq_or_ne j k with rfl | hne
    · rwa [Function.update_self]
    · rw [Function.update_of_ne hne]
      exact hothers j hne (h.call j)
  · rw [hworkers, List.getElem?_set] at hw₁
    split_ifs at hw₁ with hi
    · cases hw₁
      exact hi ▸ hw'
    · have hmatches := h.worker i' w₁ hw₁
      exact hmatches.update fun hk => hi (hheld i' (hmatches.holder hk)).symm
  · rw [hworkers]
    rcases eq_or_ne j k with rfl | hne
    · rw [Function.update_self] at hj
      obtain ⟨rfl, hjob'⟩ := hst i' hj
      exact ⟨v, List.getElem?_set_self hlt, hjob'⟩
    · rw [Function.update_of_ne hne] at hj
      obtain ⟨w₁, hw₁, hjob₁⟩ := h.holder j i' hj
      -- the worker that moved was at another call
      have hi : i ≠ i' := by grind
      exact ⟨w₁, (List.getElem?_set_ne hi).trans hw₁, hjob₁⟩

/-- What is taken from a channel is the result of its call, which was not received before. -/
theorem of_pop (h : Staged jobs s stages) {val : T} {ret : Chan T 1}
    (hpop : (s.rets k).pop = some (val, ret)) :
    s.begun.length ≤ k ∧ (stages k).val = some val ∧ ret.queue = [] := by
  have hqueue := (h.call k).queue
  rw [(Chan.pop_eq_some hpop).1] at hqueue
  split_ifs at hqueue with hlt
  cases hgiven : (stages k).val <;> simp_all

/-- A channel that is closed and empty has given its result away. -/
theorem of_drained (h : Staged jobs s stages) (hempty : (s.rets k).queue = [])
    (hclosed : (s.rets k).closed = true) : k < s.begun.length := by
  by_contra hge
  have hqueue := (h.call k).queue
  rw [hempty, if_neg hge] at hqueue
  rw [(h.call k).closed] at hclosed
  cases hstage : stages k with
  | done val =>
    rw [hstage] at hqueue
    cases hqueue
  | _ =>
    rw [hstage] at hclosed
    cases hclosed

end Staged

end Stages

section Steps

variable {jobs : List (L → T × L)} {s s' : State L T maxSize}

theorem hand_move {k i : ℕ} (hopen : s.messagesClosed = false)
    (hc : s.caller = .run k ∨ s.caller = .send k) (hk : k < jobs.length)
    (h : s.hand k i = some s') : Move jobs s s' := by
  rw [State.hand, if_neg (by simp [hopen])] at h
  split at h
  · rename_i ls hw
    cases h
    exact .handed hc hk hw
  · cases h

/-- Closing is the first thing that closes the channels. -/
theorem callerStep_move {a : Action L} (hshut : Shut jobs.length s)
    (h : callerStep jobs s s.caller a = some s') : Move jobs s s' := by
  obtain ⟨hwithin, hclosed, hmessages, hreturns, -, -⟩ := hshut
  unfold callerStep at h
  split at h
  case h_10 => cases h
  all_goals
    rename_i hc
    rw [hc] at hwithin hmessages hreturns
    simp only [Caller.messagesClosed, Caller.returnsClosed] at hmessages hreturns
  case h_1 =>
    split_ifs at h with hk
    cases h
    exact .kept hc hk.1
  case h_2 =>
    split_ifs at h with hk
    exact hand_move hmessages (Or.inl hc) hk.1 h
  case h_3 cons =>
    split_ifs at h with hk hgone
    · cases hmessages.symm.trans hgone
    cases cons with
    | ok ls =>
      cases h
      exact .spawned hc hk.1
    | error err =>
      cases h
      exact .kept hc hk.1
  case h_4 => exact hand_move hmessages (Or.inr hc) hwithin h
  case h_5 =>
    rw [if_neg (by simp [hreturns])] at h
    obtain ⟨returns, hpush, rfl⟩ := Option.map_eq_some_iff.mp h
    exact .pushed hc hpush
  case h_6 k =>
    split_ifs at h with hk hgone hgone
    · cases (hclosed.trans hmessages).symm.trans hgone
    · cases hreturns.symm.trans hgone
    cases h
    obtain rfl : k = jobs.length := Nat.le_antisymm hwithin (Nat.not_lt.mp hk)
    exact .closes hc
  case h_7 =>
    rw [if_neg (by simp [hmessages])] at h
    cases h
    exact .closesMessages hc
  case h_8 =>
    split_ifs at h with hwait
    cases h
    exact .waited hc hwait
  case h_9 =>
    cases h
    exact .cancelled hc

theorem workerStep_move {stages : ℕ → Stage T} {i : ℕ} {w : Worker L}
    (hstaged : Staged jobs s stages) (hw : s.workers[i]? = some w)
    (h : workerStep jobs s i w = some s') : Move jobs s s' := by
  have hmatches := hstaged.worker i w hw
  cases w with
  | starting ls =>
    rw [workerStep] at h
    split_ifs at h with hclosed <;> cases h
    · exact .exits (Or.inl hw) hclosed
    · exact .parks hw
  | parked ls =>
    rw [workerStep] at h
    split_ifs at h with hclosed
    cases h
    exact .exits (Or.inr hw) hclosed
  | working ls k =>
    have hopen : (s.rets k).closed = false := by
      rw [(hstaged.call k).closed, show stages k = _ from hmatches]
      rfl
    rw [workerStep] at h
    split at h
    · cases h
    · rw [if_neg (by simp [hopen])] at h
      obtain ⟨ret, hpush, rfl⟩ := Option.map_eq_some_iff.mp h
      exact .works hw ‹_› hpush
  | closing ls k =>
    obtain ⟨val, hval⟩ := hmatches
    have hopen : (s.rets k).closed = false := by
      rw [(hstaged.call k).closed, hval]
      rfl
    rw [workerStep, if_neg (by simp [hopen])] at h
    cases h
    exact .closesRet hw
  | exited => cases h

theorem mergerStep_move (h : mergerStep s s.merger = some s') : Move jobs s s' := by
  unfold mergerStep at h
  split at h
  case h_1 hm =>
    split at h
    · cases h
      exact .takes hm ‹_›
    · split_ifs at h with hclosed
      cases h
      exact .finishes hm (Chan.queue_of_pop ‹_›) hclosed
  case h_2 hm =>
    split at h
    · cases h
      exact .receives hm ‹_›
    · split_ifs at h with hclosed
      cases h
      exact .drained hm (Chan.queue_of_pop ‹_›) hclosed
  case h_3 hm =>
    cases h
    exact .merges hm
  case h_4 => cases h

/-- **No step panics**, so every step is one of the moves. -/
theorem step_move {a : Action L} (hsound : Sound jobs s) (h : step jobs s a = some s') :
    Move jobs s s' := by
  unfold step at h
  rw [if_neg (by simp [hsound.calm])] at h
  cases a with
  | worker i =>
    obtain ⟨w, hw, hstep⟩ := Option.bind_eq_some_iff.mp h
    exact hsound.staged.elim fun stages hstaged => workerStep_move hstaged hw hstep
  | merger => exact mergerStep_move h
  | _ => exact callerStep_move hsound.shut h

/-! ### Every step keeps it -/

theorem shut_move (hshut : Shut jobs.length s) (h : Move jobs s s') : Shut jobs.length s' := by
  obtain ⟨hwithin, hclosed, hmessages, hreturns, hstaffed, hexited⟩ := hshut
  -- a worker that goes on has not left
  have hgoes {i : ℕ} {w : Worker L} (hw : w ≠ .exited) (hin : .exited ∈ s.workers.set i w) :
      s.messagesClosed = true :=
    (List.mem_or_eq_of_mem_set hin).elim hexited fun heq => absurd heq.symm hw
  cases h with
  | pushed hc hpush =>
    have hsame := (Chan.push_eq_some hpush).2.2
    rw [hc] at hwithin hmessages hreturns
    exact ⟨Nat.succ_le_of_lt hwithin, hclosed, hmessages, hsame.trans hreturns, hstaffed, hexited⟩
  | takes hm hpop =>
    have hsame := (Chan.pop_eq_some hpop).2
    constructor <;> simp_all
  | parks | works | closesRet =>
    exact ⟨hwithin, hclosed, hmessages, hreturns, by simpa, hgoes nofun⟩
  | handed hc hk =>
    rcases hc with hc | hc <;> rw [hc] at hmessages hreturns <;>
      exact ⟨hk, hclosed, hmessages, hreturns, by simpa, hgoes nofun⟩
  | _ =>
    constructor <;>
      simp_all [Caller.Within, Caller.messagesClosed, Caller.returnsClosed, Chan.close]

/-- The merging goroutine does not see what the others do, unless it is about its channels. -/
theorem Merging.frame {n : ℕ} (h : Merging n s) (hmerger : s'.merger = s.merger)
    (hbegun : s'.begun = s.begun) (hmerged : s'.merged = s.merged) (hran : s.ran ⊆ s'.ran)
    (hwait : s'.waitClosed = s.waitClosed) (hqueue : s'.returns.queue = s.returns.queue)
    (hclosed : s.returns.closed = true → s'.returns.closed = true)
    (hpushed : s'.caller.pushed n = s.caller.pushed n)
    (hwaited : s'.caller = .returned none → s'.waitClosed = true) : Merging n s' where
  queue := by rw [hqueue, hmerger, hbegun, hpushed, h.queue]
  next_le := by
    rw [hmerger, hbegun, hpushed]
    exact h.next_le
  phase := by
    have hphase := h.phase
    rw [hmerger]
    cases hm : s.merger with
    | finished =>
      rw [hm] at hphase
      exact ⟨by rw [hbegun, hmerged, hphase.1], hqueue.trans hphase.2.1, hclosed hphase.2.2⟩
    | _ =>
      rw [hm] at hphase
      simpa only [Merger.Phase, hbegun, hmerged] using hphase
  numbers := by rw [hbegun, h.numbers]
  honest x hx := hran (h.honest x (hbegun ▸ hx))
  waitClosed := by rw [hwait, hmerger, h.waitClosed]
  waited := hwaited

theorem merging_move {stages : ℕ → Stage T} (hshut : Shut jobs.length s)
    (h : Merging jobs.length s) (hstaged : Staged jobs s stages) (hmove : Move jobs s s') :
    Merging jobs.length s' := by
  have hphase := h.phase
  have hsame := List.Subset.refl s.ran
  cases hmove with
  | kept hc | spawned hc | closesMessages hc | cancelled hc =>
    exact h.frame rfl rfl rfl hsame rfl rfl id (by rw [hc]; rfl) nofun
  | handed hc =>
    exact h.frame rfl rfl rfl hsame rfl rfl id (by rcases hc with hc | hc <;> rw [hc] <;> rfl) nofun
  | closes hc =>
    exact h.frame rfl rfl rfl hsame rfl rfl (fun _ => rfl) (by rw [hc]; rfl) nofun
  | waited hc hwait =>
    exact h.frame rfl rfl rfl hsame rfl rfl id (by rw [hc]; rfl) fun _ => hwait
  | parks | exits | closesRet => exact h.frame rfl rfl rfl hsame rfl rfl id rfl h.waited
  | works =>
    exact h.frame rfl rfl rfl (List.subset_append_left _ _) rfl rfl id rfl h.waited
  | @pushed k returns hc hpush =>
    have hqueue := (Chan.push_eq_some hpush).2.1
    obtain ⟨hold, hle, -, hnumbers, hhonest, hwait, -⟩ := h
    have hopen : s.returns.closed = false := by rw [hshut.returnsClosed, hc]; rfl
    rw [hc, Caller.pushed] at hold hle
    refine ⟨?_, Nat.le_succ_of_le hle, ?_, hnumbers, hhonest, hwait, nofun⟩
    · show returns.queue = List.range' _ (k + 1 - _)
      rw [hqueue, hold, Nat.succ_sub hle, List.range'_1_concat, Nat.add_sub_cancel' hle]
    · cases hm : s.merger <;> grind [Merger.Phase]
  | @takes k returns hm hpop =>
    obtain ⟨hold, hle, -, hnumbers, hhonest, hwait, hwaited⟩ := h
    rw [hm] at hold hle hphase
    -- the queue starts with the number of the next result
    obtain ⟨d, hd⟩ := Nat.exists_eq_add_of_le hle
    rw [(Chan.pop_eq_some hpop).1, hd, Nat.add_sub_cancel_left] at hold
    cases d with
    | zero => cases hold
    | succ d =>
      obtain ⟨rfl, hrest⟩ := List.cons.inj (hold.trans List.range'_succ)
      constructor <;> grind [Merger.next, Merger.Phase]
  | finishes hm hempty hclosed =>
    obtain ⟨hold, hle, -, hnumbers, hhonest, -, -⟩ := h
    constructor <;> simp_all [Merger.next, Merger.Phase]
  | @receives k val ret hm hpop =>
    obtain ⟨hge, hgiven, -⟩ := hstaged.of_pop hpop
    have hran := ((hstaged.call k).ran val).mpr hgiven
    obtain ⟨hold, hle, -, hnumbers, hhonest, hwait, hwaited⟩ := h
    rw [hm] at hold hle hphase
    have hlen : s.begun.length = k := by
      have := hphase.2
      omega
    refine ⟨hold, hle, by grind [Merger.Phase], ?_, ?_, by grind, hwaited⟩
    · simp [hnumbers, List.range_succ, hlen]
    · simpa [or_imp, forall_and, hran] using hhonest
  | @drained k hm hempty hclosed =>
    have hlt := hstaged.of_drained hempty hclosed
    obtain ⟨hold, hle, -, hnumbers, hhonest, hwait, hwaited⟩ := h
    rw [hm] at hold hle hphase
    have hlen : s.begun.length = k + 1 := by
      have := hphase.2
      omega
    constructor <;> grind [Merger.next, Merger.Phase]
  | @merges k val hm =>
    obtain ⟨hold, hle, -, hnumbers, hhonest, hwait, hwaited⟩ := h
    rw [hm] at hold hle hphase
    constructor <;> grind [Merger.next, Merger.Phase]

theorem staged_move {stages : ℕ → Stage T} (hmerging : Merging jobs.length s)
    (h : Staged jobs s stages) (hmove : Move jobs s s') : ∃ stages', Staged jobs s' stages' := by
  cases hmove with
  | spawned hc => exact ⟨stages, h.spawn (by rw [hc]; rfl)⟩
  | kept hc | pushed hc | closes hc | closesMessages hc | waited hc | cancelled hc =>
    exact ⟨stages, h.congr rfl rfl rfl rfl (by rw [hc]; rfl)⟩
  | takes | finishes | drained | merges => exact ⟨stages, h.congr rfl rfl rfl rfl rfl⟩
  | parks hw => exact ⟨stages, h.idle hw rfl trivial⟩
  | exits hw =>
    rcases hw with hw | hw <;> exact ⟨stages, h.idle hw rfl trivial⟩
  | @handed k i ls hc hk hw =>
    have hsent : s.caller.sent jobs.length = k := by rcases hc with hc | hc <;> rw [hc] <;> rfl
    have hstage : stages k = .fresh := (h.call k).fresh.mpr hsent.le
    obtain ⟨-, hclosed, hqueue, hreceived, hran⟩ := hstage ▸ h.call k
    refine ⟨_, h.advance (t := .working i) rfl hw (by simp [hstage, Stage.holder]) (.inl rfl)
      (Function.update_self k _ _) (fun i' hi => ⟨(Option.some.inj hi).symm, rfl⟩)
      ⟨by simp [Caller.sent], hclosed, hqueue, hreceived, hran⟩
      (fun j hj hcall => { hcall with fresh := hcall.fresh.trans ?_ }) h.once h.results⟩
    show _ ↔ k + 1 ≤ j
    omega
  | @works i k ls f ret hw hf hpush =>
    have hstage : stages k = .working i := h.worker i _ hw
    obtain ⟨hfresh, hclosed, hqueue, hreceived, hran⟩ := hstage ▸ h.call k
    -- the function of this call has not returned before
    have hunrun (val : T) : (k, val) ∉ s.ran := by simp [hran, Stage.val]
    obtain ⟨-, hpushed, hsame⟩ := Chan.push_eq_some hpush
    have honce := h.once
    refine ⟨_, h.advance (t := .closing i (f ls).1) rfl hw
      (by simp [hstage, Stage.holder, eq_comm]) (.inr rfl) ⟨_, Function.update_self k _ _⟩
      (fun i' hi => ⟨(Option.some.inj hi).symm, rfl⟩)
      (by constructor <;> grind [Stage.isDone, Stage.val])
      (fun j hj hcall => { hcall with closed := ?_, queue := ?_, ran := fun val => ?_ })
      (by grind) fun x hx => ?_⟩
    · simpa [hj] using hcall.closed
    · simpa [hj] using hcall.queue
    · simp [hj, hcall.ran]
    · rcases List.mem_append.mp hx with hx | hx
      · exact h.results x hx
      · rw [List.mem_singleton.mp hx]
        exact ⟨f, ls, hf, rfl⟩
  | @closesRet i k ls hw =>
    obtain ⟨val, hstage⟩ : ∃ val, stages k = .closing i val := h.worker i _ hw
    obtain ⟨hfresh, -, hqueue, hreceived, hran⟩ := hstage ▸ h.call k
    refine ⟨_, h.advance (t := .done val) rfl hw (by simp [hstage, Stage.holder, eq_comm])
      (.inr rfl) trivial (by simp [Stage.holder])
      (by constructor <;> grind [Chan.close, Stage.isDone, Stage.val])
      (fun j hj hcall => { hcall with closed := ?_, queue := ?_ }) h.once h.results⟩
    · simpa [hj] using hcall.closed
    · simpa [hj] using hcall.queue
  | @receives k val ret hm hpop =>
    obtain ⟨hge, hgiven, hempty⟩ := h.of_pop hpop
    have hphase := hmerging.phase
    rw [hm] at hphase
    have hlen : s.begun.length = k := by
      have := hphase.2
      omega
    have hsame := (Chan.pop_eq_some hpop).2
    refine ⟨stages, { h with call := fun j => ?_ }⟩
    obtain ⟨hfresh, hclosed, hqueue, hreceived, hran⟩ := h.call j
    constructor <;> grind

theorem sound_step {a : Action L} (h : Sound jobs s) (hstep : step jobs s a = some s') :
    Sound jobs s' := by
  have hmove := step_move h hstep
  obtain ⟨stages, hstaged⟩ := h.staged
  refine ⟨?_, shut_move h.shut hmove, merging_move h.shut h.merging hstaged hmove,
    staged_move h.merging hstaged hmove⟩
  cases hmove <;> exact h.calm

/-! ### Every run ends -/

def Worker.weight : Worker L → ℕ
  | .starting _ => 2
  | .parked _ => 1
  | .working _ _ => 4
  | .closing _ _ => 3
  | .exited => 0

def Merger.weight : Merger T → ℕ
  | .idle => 1
  | .draining _ => 2
  | .merging _ _ => 1
  | .finished => 0

def Caller.weight (n : ℕ) : Caller → ℕ
  | .run k => 10 * (n - k) + 3
  | .send k => 10 * (n - k)
  | .push k => 10 * (n - k) - 4
  | .closing => 2
  | .wait => 1
  | .returned _ => 0

/-- The steps that are left at most. -/
def State.weight (n : ℕ) (s : State L T maxSize) : ℕ :=
  s.caller.weight n + (s.workers.map Worker.weight).sum + 2 * s.returns.queue.length +
    s.merger.weight + 2 * (n - s.merged.length)

theorem sum_map_set {α : Type} (f : α → ℕ) {l : List α} {i : ℕ} {a b : α}
    (h : l[i]? = some a) : ((l.set i b).map f).sum + f a = (l.map f).sum + f b := by
  induction l generalizing i with
  | nil => cases h
  | cons x l ih =>
    cases i with
    | zero =>
      cases h
      simp only [List.set_cons_zero, List.map_cons, List.sum_cons]
      omega
    | succ i =>
      have ih := ih (i := i) h
      simp only [List.set_cons_succ, List.map_cons, List.sum_cons]
      omega

theorem weight_step {a : Action L} (h : Sound jobs s) (hstep : step jobs s a = some s') :
    s'.weight jobs.length < s.weight jobs.length := by
  have hwithin := h.shut.within
  -- what a worker gives up, the sum over all gives up
  have hset {i : ℕ} {w v : Worker L} (hw : s.workers[i]? = some w) :
      ((s.workers.set i v).map Worker.weight).sum + w.weight =
        (s.workers.map Worker.weight).sum + v.weight := sum_map_set _ hw
  cases step_move h hstep with
  | merges hm =>
    have hphase := h.merging.phase
    have hle := h.merging.next_le
    have hpushed := Caller.pushed_le hwithin
    rw [hm] at hphase hle
    simp only [Merger.next] at hle
    simp only [State.weight, hm, Merger.weight, List.length_append, List.length_singleton]
    rw [hphase.2]
    omega
  | pushed hc hpush =>
    have hqueue := (Chan.push_eq_some hpush).2.1
    grind [State.weight, Caller.weight, Caller.Within]
  | takes hm hpop =>
    have hqueue := (Chan.pop_eq_some hpop).1
    grind [State.weight, Merger.weight]
  | _ => grind [State.weight, Caller.weight, Worker.weight, Merger.weight, Chan.close]

/-! ### Some step is possible -/

/-- A worker that is neither waiting for a message nor gone can take a step. -/
theorem exists_worker_step {stages : ℕ → Stage T} {i : ℕ} {w : Worker L} (h : Sound jobs s)
    (hstaged : Staged jobs s stages) (hw : s.workers[i]? = some w)
    (hready : w ≠ .exited ∧ (w.isParked = true → s.messagesClosed = true)) :
    ∃ s', step jobs s (.worker i) = some s' := by
  have hmatches := hstaged.worker i w hw
  simp only [step, h.calm, Option.isSome_none, Bool.false_eq_true, if_false, hw, Option.bind_some]
  cases w with
  | starting ls =>
    rw [workerStep]
    split_ifs <;> exact ⟨_, rfl⟩
  | parked ls => exact ⟨_, by rw [workerStep, if_pos (hready.2 rfl)]⟩
  | working ls k =>
    have hstage : stages k = .working i := hmatches
    obtain ⟨hfresh, hopen, hqueue, -, -⟩ := hstage ▸ hstaged.call k
    have hlt : k < jobs.length := by
      have hsent : ¬ s.caller.sent jobs.length ≤ k := fun hle => nomatch hfresh.mpr hle
      have := (Caller.sent_le h.shut.within).2
      omega
    have hempty : (s.rets k).queue.length < 1 := by
      rw [hqueue]
      split_ifs <;> exact Nat.one_pos
    obtain ⟨ret, hpush⟩ := Chan.exists_push hempty (jobs[k] ls).1
    exact ⟨_, by
      simp only [workerStep, List.getElem?_eq_getElem hlt, hopen, Stage.isDone, hpush]; rfl⟩
  | closing ls k =>
    obtain ⟨val, hstage⟩ := hmatches
    have hopen := (hstage ▸ hstaged.call k).closed
    exact ⟨_, by rw [workerStep, if_neg (by simp [hopen, Stage.isDone])]⟩
  | exited => exact absurd rfl hready.1

/-- When no worker can step, the merging goroutine can, unless it has nothing to do. -/
theorem exists_merger_step {stages : ℕ → Stage T} (h : Sound jobs s)
    (hstaged : Staged jobs s stages) (hidle : ∀ w ∈ s.workers, w.job = none)
    (hready : s.returns.queue ≠ [] ∨ s.returns.closed = true) (hm : s.merger ≠ .finished) :
    ∃ s', step jobs s .merger = some s' := by
  have hle := h.merging.next_le
  simp only [step, h.calm, Option.isSome_none, Bool.false_eq_true, if_false]
  cases hmerger : s.merger with
  | idle =>
    rw [mergerStep]
    cases hpop : s.returns.pop with
    | some x => exact ⟨_, rfl⟩
    | none => exact ⟨_, if_pos (hready.resolve_left fun hne => hne (Chan.queue_of_pop hpop))⟩
  | draining k =>
    -- nobody is at the call, so it is done
    rw [hmerger] at hle
    have hsent := (Caller.sent_le h.shut.within).1
    have hclosed : (s.rets k).closed = true := by
      rw [(hstaged.call k).closed]
      cases hstage : stages k with
      | done val => rfl
      | fresh =>
        have hlate := (hstaged.call k).fresh.mp hstage
        simp only [Merger.next] at hle
        omega
      | working i | closing i =>
        obtain ⟨w, hw, hjob⟩ := hstaged.holder k i (by rw [hstage]; rfl)
        rw [hidle w (List.mem_of_getElem? hw)] at hjob
        cases hjob
    rw [mergerStep]
    cases (s.rets k).pop with
    | some x => exact ⟨_, rfl⟩
    | none => exact ⟨_, if_pos hclosed⟩
  | merging k val => exact ⟨_, rfl⟩
  | finished => exact absurd hmerger hm

/-- **No state is a deadlock.** -/
theorem exists_step (hmax : 1 ≤ maxSize) (h : Sound jobs s) :
    (∃ a s', a.cancels = false ∧ step jobs s a = some s') ∨ s.Finished := by
  obtain ⟨stages, hstaged⟩ := h.staged
  by_cases hbusy : ∃ i : ℕ, ∃ w : Worker L, s.workers[i]? = some w ∧ w ≠ .exited ∧
      (w.isParked = true → s.messagesClosed = true)
  · obtain ⟨i, w, hw, hready⟩ := hbusy
    exact .inl ⟨.worker i, (exists_worker_step h hstaged hw hready).imp fun _ => .intro rfl⟩
  have hrest (w : Worker L) (hin : w ∈ s.workers) :
      w = .exited ∨ (∃ ls, w = .parked ls) ∧ s.messagesClosed = false := by
    obtain ⟨i, hw⟩ := List.mem_iff_getElem?.mp hin
    by_contra hnot
    exact hbusy ⟨i, w, hw, by cases w <;> simp_all [Worker.isParked]⟩
  have hmerger (hready : s.returns.queue ≠ [] ∨ s.returns.closed = true)
      (hm : s.merger ≠ .finished) :
      (∃ a s', a.cancels = false ∧ step jobs s a = some s') ∨ s.Finished := by
    refine .inl ⟨.merger, (exists_merger_step h hstaged (fun w hin => ?_) hready hm).imp
      fun _ => .intro rfl⟩
    rcases hrest w hin with rfl | ⟨⟨ls, rfl⟩, -⟩ <;> rfl
  obtain ⟨hwithin, hclosed, hmessages, hreturns, hstaffed, hexited⟩ := h.shut
  -- a worker that waits for a message can be handed one
  have hhand (hopen : s.messagesClosed = false) (k : ℕ) : ∃ i s', s.hand k i = some s' := by
    obtain ⟨w, hin⟩ := List.exists_mem_of_ne_nil _ hstaffed
    obtain ⟨i, hw⟩ := List.mem_iff_getElem?.mp hin
    rcases hrest w hin with rfl | ⟨⟨ls, rfl⟩, -⟩
    · cases hopen.symm.trans (hexited hin)
    · exact ⟨i, _, by rw [State.hand, if_neg (by simp [hopen]), hw]⟩
  cases hc : s.caller with
  | run k =>
    rw [hc] at hmessages hreturns
    by_cases hk : k < jobs.length
    · by_cases hfull : maxSize ≤ s.size
      · exact .inl ⟨.full, _, rfl, by simp [step, h.calm, hc, callerStep, hk, hfull]; rfl⟩
      · obtain ⟨i, s', hhanded⟩ := hhand hmessages k
        exact .inl ⟨.offer i, s', rfl,
          by simp [step, h.calm, hc, callerStep, hk, Nat.not_le.mp hfull, hhanded]⟩
    · exact .inl ⟨.close, _, rfl, by
        simp [step, h.calm, hc, callerStep, hk, hclosed, hmessages, hreturns,
          Caller.messagesClosed, Caller.returnsClosed]; rfl⟩
  | send k =>
    rw [hc] at hmessages
    obtain ⟨i, s', hhanded⟩ := hhand hmessages k
    exact .inl ⟨.send i, s', rfl, by simp [step, h.calm, hc, callerStep, hhanded]⟩
  | push k =>
    rw [hc] at hreturns
    by_cases hroom : s.returns.queue.length < maxSize
    · obtain ⟨returns, hpush⟩ := Chan.exists_push hroom k
      exact .inl ⟨.push, _, rfl,
        by simp [step, h.calm, hc, callerStep, hreturns, Caller.returnsClosed, hpush]; rfl⟩
    · -- the channels in the buffer are taken by the merging goroutine
      refine hmerger (.inl fun hnil => hroom (by rwa [hnil])) fun hm => ?_
      have hphase := hm ▸ h.merging.phase
      cases hreturns.symm.trans hphase.2.2
  | closing =>
    rw [hc] at hmessages
    exact .inl ⟨.closeMessages, _, rfl,
      by simp [step, h.calm, hc, callerStep, hmessages, Caller.messagesClosed]; rfl⟩
  | wait =>
    rw [hc] at hreturns
    by_cases hm : s.merger = .finished
    · exact .inl ⟨.waitDone, _, rfl,
        by simp [step, h.calm, hc, callerStep, h.merging.waitClosed.mpr hm]; rfl⟩
    · exact hmerger (.inr hreturns) hm
  | returned err =>
    rw [hc] at hreturns hmessages
    by_cases hm : s.merger = .finished
    · refine .inr ⟨⟨err, hc⟩, hm, fun w hin => (hrest w hin).resolve_right fun hparked => ?_⟩
      cases hmessages.symm.trans hparked.2
    · exact hmerger (.inr hreturns) hm

end Steps

/-- **Results are merged in the order of the calls.**  In every state that a pool of at least
one worker can reach:

* the merges that were begun are those of the first calls, one for each, in order, each with
  what its function returned, and every function has returned once at most;
* a merge begins only when those before it have returned;
* once `Wait` has returned nil, all results were merged, and so they are when nothing is left
  to do;
* a step without a cancellation is possible or nothing is left to do, no step was a panic, and
  the number of steps is bounded. -/
theorem results_in_order {jobs : List (L → T × L)} (hmax : 1 ≤ maxSize) {cons : Except String L}
    {s₀ s : State L T maxSize} {as : List (Action L)} (hpool : luaPool T maxSize cons = .ok s₀)
    (hrun : runs (step jobs) s₀ as = some s) :
    (s.begun.map Prod.fst = List.range s.begun.length ∧ s.begun.length ≤ jobs.length ∧
      (∀ x ∈ s.begun, x ∈ s.ran ∧ ∃ f ls, jobs[x.1]? = some f ∧ (f ls).1 = x.2) ∧
      (s.ran.map Prod.fst).Nodup) ∧
    (s.begun = s.merged ∨ ∃ x, s.begun = s.merged ++ [x]) ∧
    (s.caller = .returned none ∨ s.Finished →
      s.merged.map Prod.fst = List.range jobs.length) ∧
    ((∃ a s', a.cancels = false ∧ step jobs s a = some s') ∨ s.Finished) ∧
    s.fault = none ∧ as.length ≤ 12 * jobs.length + 6 := by
  have hsound : Sound jobs s := runs_keeps (Sound jobs) (fun _ _ _ => sound_step)
    (luaPool_sound hpool) hrun
  obtain ⟨stages, hstaged⟩ := hsound.staged
  have hphase := hsound.merging.phase
  have hle := hsound.merging.next_le
  have hpushed := Caller.pushed_le hsound.shut.within
  refine ⟨⟨hsound.merging.numbers, ?_, fun x hx => ⟨hsound.merging.honest x hx,
    hstaged.results x (hsound.merging.honest x hx)⟩, hstaged.once⟩, ?_, fun hover => ?_,
    exists_step hmax hsound, hsound.calm, ?_⟩
  · cases hm : s.merger <;> grind [Merger.next, Merger.Phase]
  · cases hm : s.merger <;> grind [Merger.Phase]
  · -- the merging goroutine has ended, so nothing is left in its queue
    have hfinished : s.merger = .finished := hover.elim
      (fun hnil => hsound.merging.waitClosed.mp (hsound.merging.waited hnil)) (·.merger)
    have hall : s.caller.pushed jobs.length = jobs.length := by
      rcases hover with hc | ⟨⟨err, hc⟩, -, -⟩ <;> rw [hc] <;> rfl
    have hlength := congrArg List.length hsound.merging.queue
    rw [hfinished] at hlength hle hphase
    rw [hphase.2.1, hall, List.length_range', List.length_nil] at hlength
    simp only [Merger.next, hall] at hlength hle
    rw [← hphase.1, hsound.merging.numbers]
    congr 1
    omega
  · have hlength := runs_length_le (State.weight jobs.length) (Sound jobs)
      (fun _ _ _ h hstep => ⟨sound_step h hstep, weight_step h hstep⟩) (luaPool_sound hpool) hrun
    cases cons with
    | error err => cases hpool
    | ok ls =>
      cases hpool
      simp [State.weight, Caller.weight, Worker.weight, Merger.weight, Chan.make] at hlength
      omega

/-! ### Two functions and two workers -/

/-- Functions that return how often their worker was used before. -/
def countUses : List (ℕ → ℕ × ℕ) :=
  [fun uses => (uses, uses + 1), fun uses => (uses, uses + 1)]

/-- The second worker finishes first; its result is merged second. -/
def secondFirst : List (Action ℕ) :=
  [.worker 0, .offer 0, .push, .spawn (.ok 10), .worker 1, .send 1, .push, .worker 1, .worker 1,
    .merger, .worker 0, .merger, .merger, .worker 0, .merger, .merger, .merger, .merger, .merger,
    .close, .closeMessages, .merger, .waitDone]

theorem results_in_order_secondFirst :
    ∃ s₀ s, luaPool ℕ 2 (.ok 0) = .ok s₀ ∧ runs (step countUses) s₀ secondFirst = some s ∧
      s.ran = [(1, 10), (0, 0)] ∧ s.merged = [(0, 0), (1, 10)] ∧
      s.merged.map Prod.fst = List.range countUses.length := by
  obtain ⟨s, hs, hran, hmerged, hreturned⟩ :
      ∃ s, ((luaPool ℕ 2 (.ok 0)).toOption.bind fun s₀ => runs (step countUses) s₀ secondFirst) =
        some s ∧ s.ran = [(1, 10), (0, 0)] ∧ s.merged = [(0, 0), (1, 10)] ∧
        s.caller = .returned none := ⟨_, rfl, rfl, rfl, rfl⟩
  obtain ⟨s₀, hpool, hrun⟩ := Option.bind_eq_some_iff.mp hs
  exact ⟨s₀, s, toOption_eq_some hpool, hrun, hran, hmerged,
    (results_in_order (by decide) (toOption_eq_some hpool) hrun).2.2.1 (.inl hreturned)⟩

end LuaPool
