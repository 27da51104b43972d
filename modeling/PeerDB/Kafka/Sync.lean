/-
The Kafka destination: `SyncRecords` and `createPool` (`connectors/kafka`), with the
Lua pool it runs on (`connectors/utils`).

The record loop hands every record to the pool.  A worker runs the script on it; the
merge goroutine takes the results in the order of the records and gives their messages
to the client; the client calls a promise for every message; and the flush loop
persists the largest position all of whose messages were acknowledged.  A script error
or a produce error cancels the queue context, which only the record loop and its last
steps look at.

A record that was taken is a `Task`, and `taskStep` says what the worker, the merge
goroutine and the promises do to it; `step` interleaves these with the two loops.

A persisted position may be past a record that failed (`failedProduce_passed`): the
flush loop does not look at the queue context.  As long as the queue context is not
cancelled, merging in order and flushing before persisting are enough
(`persisted_produced`).
-/
import PeerDB.Lib.Loop
import PeerDB.Lib.Offset
import PeerDB.Model.Record

open Loop Offset

namespace Kafka

open List

/-- `kgo.Record`. -/
structure KafkaRecord where
  topic : String
  key : String
  value : String
  deriving DecidableEq, Repr

/-- What the script does with a record.  A returned value has been read by
`lvalueToKafkaRecord`: a record, nothing for nil, or an error. -/
inductive ScriptOutcome where
  | notFunction (lfn : String)
  | failed (err : String)
  | returned (values : List (Except String (Option KafkaRecord)))

/-- Where a message stands; `buffered` is in the hands of the client. -/
inductive MessageStatus where
  | unsent | buffered | acked | failed
  deriving DecidableEq, Repr

structure Message where
  record : KafkaRecord
  status : MessageStatus := .unsent
  deriving DecidableEq, Repr

inductive Stage where
  /-- in the pool, the script has not returned -/
  | running
  /-- the result waits to be merged -/
  | returned
  | merging
  | merged
  deriving DecidableEq, Repr

/-- A record the loop has taken, with its `poolResult`. -/
structure Task (V : Type) where
  src : SourceRecord V
  stage : Stage := .running
  /-- the error the script ended with -/
  err : Option String := none
  messages : List Message := []
  lsn : ℕ := 0
  recordCounter : ℤ := 0
  /-- `lastSeenLSN` is being raised to `lsn`; the value loaded -/
  raising : Option ℕ := none

/-- What the client tells a promise, and what the promise meets when it acts on it:
whether topics are created, and the error of creating one. -/
inductive Promise where
  | success
  | error (err : String) (unknownTopicOrPartition force : Bool) (createTopic : Option String)

inductive TaskAction where
  | script (out : ScriptOutcome)
  /-- `merge` is called -/
  | merge
  | produce (j : ℕ)
  /-- `merge` returns -/
  | merged
  | promise (j : ℕ) (p : Promise)
  | compareAndSwap

/-- Where the record loop stands. -/
inductive Phase where
  | looping
  /-- in `pool.Wait` -/
  | waiting
  /-- in the last `Flush` -/
  | flushing
  | finishing
  | finished
  | failed (err : String)
  deriving DecidableEq, Repr

structure State (V : Type) where
  todo : List (SourceRecord V)
  tasks : List (Task V) := []
  phase : Phase := .looping
  /-- the cause the queue context was cancelled with -/
  cancelled : Option String := none
  lastSeenLSN : ℕ := 0
  consumedOffset : ℕ := 0
  /-- the value the flush loop has loaded, and whether it has flushed -/
  flushing : Option (ℕ × Bool) := none
  persisted : List ℕ := []

inductive Action where
  | take
  | task (i : ℕ) (a : TaskAction)
  | tick
  | flush (ok : Bool)
  | persist (ok : Bool)
  | endOfRecords
  /-- the record loop sees the cancelled queue context -/
  | queueDone
  | wait (ok : Bool)
  | finalFlush (ok : Bool)
  | finishBatch (ok : Bool)

section Sync

variable {V : Type}

/-- The function run by a worker. -/
def onRecord (record : Record V) : ScriptOutcome → Except String (List KafkaRecord)
  | .notFunction lfn => .error s!"script should define `onRecord` as function, not {lfn}"
  | .failed err => .error s!"script failed: {err}"
  | .returned values => do
    let results ← values.mapM id
    return results.reduceOption.map fun kr =>
      if kr.topic = "" then { kr with topic := record.getDestinationTableName } else kr

def Task.setStatus (t : Task V) (j : ℕ) (m : Message) (st : MessageStatus) : Task V :=
  { t with messages := t.messages.set j { m with status := st } }

/-- The handler of a buffered message, with the error it cancels the queue with. -/
def promise (lastSeenLSN : ℕ) (t : Task V) (j : ℕ) (m : Message) :
    Promise → Task V × Option String
  | .success =>
    let counter := t.recordCounter - 1
    ({ t.setStatus j m .acked with
        recordCounter := counter
        raising := if counter = 0 then some lastSeenLSN else t.raising }, none)
  | .error err unknownTopicOrPartition force createTopic =>
    if unknownTopicOrPartition && force then
      match createTopic with
      | some createErr => (t.setStatus j m .failed, some createErr)
      -- the message is produced again
      | none => (t, none)
    else (t.setStatus j m .failed, some err)

/-- What a goroutine does to one record: the new task, the new value of `lastSeenLSN`,
and the error the queue context is cancelled with. -/
def taskStep (lastSeenLSN : ℕ) (t : Task V) : TaskAction → Option (Task V × ℕ × Option String)
  | .script out =>
    if t.stage = .running then
      match onRecord t.src.record out with
      | .error err => some ({ t with stage := .returned, err := some err }, lastSeenLSN, some err)
      | .ok results => some ({ t with
          stage := .returned
          messages := results.map fun kr => { record := kr }
          lsn := t.src.lsn }, lastSeenLSN, none)
    else none
  | .merge =>
    if t.stage = .returned then
      if t.messages = [] then
        some ({ t with stage := .merging, raising := some lastSeenLSN }, lastSeenLSN, none)
      else
        some ({ t with stage := .merging, recordCounter := t.messages.length }, lastSeenLSN, none)
    else none
  | .produce j =>
    match t.stage, t.messages[j]? with
    | .merging, some m =>
      if m.status = .unsent ∧ ∀ m' ∈ t.messages.take j, m'.status ≠ .unsent then
        some (t.setStatus j m .buffered, lastSeenLSN, none)
      else none
    | _, _ => none
  | .merged =>
    if t.stage = .merging ∧ (∀ m ∈ t.messages, m.status ≠ .unsent) ∧
        (t.messages = [] → t.raising = none) then
      some ({ t with stage := .merged }, lastSeenLSN, none)
    else none
  | .promise j p =>
    match t.messages[j]? with
    | some m =>
      if m.status = .buffered then
        let (t', cause) := promise lastSeenLSN t j m p
        some (t', lastSeenLSN, cause)
      else none
    | none => none
  | .compareAndSwap =>
    t.raising.map fun old =>
      let (cell, again) := casMax lastSeenLSN t.lsn old
      ({ t with raising := again }, cell, none)

/-- `Flush` returns nil once no message is in the hands of the client. -/
def State.nothingBuffered (s : State V) : Bool :=
  s.tasks.all fun t => t.messages.all fun m => decide (m.status ≠ .buffered)

def State.allMerged (s : State V) : Bool := s.tasks.all fun t => decide (t.stage = .merged)

/-- Results are merged in the order of the records. -/
def State.canMerge (s : State V) (i : ℕ) : Bool :=
  (s.tasks.take i).all fun t => decide (t.stage = .merged)

def TaskAction.isMerge : TaskAction → Bool
  | .merge => true
  | _ => false

def step (lastCheckpoint : ℕ) (s : State V) : Action → Option (State V)
  | .take =>
    match s.phase, s.todo with
    | .looping, x :: todo => some { s with todo := todo, tasks := s.tasks ++ [{ src := x }] }
    | _, _ => none
  | .task i a =>
    match s.tasks[i]? with
    | none => none
    | some t =>
      if a.isMerge && !s.canMerge i then none
      else (taskStep s.lastSeenLSN t a).map fun r => { s with
        tasks := s.tasks.set i r.1
        lastSeenLSN := r.2.1
        cancelled := s.cancelled.or r.2.2 }
  | .tick =>
    match s.flushing with
    | none => some { s with flushing := some (s.lastSeenLSN, false) }
    | some _ => none
  | .flush ok =>
    match s.flushing with
    | some (o, false) =>
      if ok then
        if s.nothingBuffered then some { s with
          flushing := if o > s.consumedOffset then some (o, true) else none }
        else none
      else some { s with flushing := none }
    | _ => none
  | .persist ok =>
    match s.flushing with
    | some (o, true) =>
      if ok then some { s with
        flushing := none
        consumedOffset := max s.consumedOffset o
        persisted := s.persisted ++ [o] }
      else some { s with flushing := none }
    | _ => none
  | .endOfRecords =>
    match s.phase, s.todo with
    | .looping, [] => some { s with phase := .waiting }
    | _, _ => none
  | .queueDone =>
    match s.phase, s.cancelled with
    | .looping, some _ => some { s with phase := .waiting }
    | _, _ => none
  | .wait ok =>
    match s.phase with
    | .waiting =>
      if ok then if s.allMerged then some { s with phase := .flushing } else none
      else s.cancelled.map fun cause => { s with phase := .failed cause }
    | _ => none
  | .finalFlush ok =>
    match s.phase with
    | .flushing =>
      if ok then if s.nothingBuffered then some { s with phase := .finishing } else none
      else s.cancelled.map fun cause =>
        { s with phase := .failed s!"[kafka] final flush error: {cause}" }
    | _ => none
  | .finishBatch ok =>
    match s.phase with
    | .finishing =>
      if ok then some { s with
        phase := .finished, persisted := s.persisted ++ [lastCheckpoint] }
      else some { s with phase := .failed "failed to finish batch" }
    | _ => none

/-- A batch that is about to be synced. -/
def State.init (records : List (SourceRecord V)) (consumedOffset : ℕ) : State V :=
  { todo := records, consumedOffset := consumedOffset }

end Sync

/-! ### One record -/

section Task

variable {V : Type}

/-- The script ran without error and every message is acknowledged. -/
structure Task.Done (t : Task V) : Prop where
  ran : t.stage ≠ .running
  err : t.err = none
  acked : ∀ m ∈ t.messages, m.status = .acked

/-- Nothing has failed so far. -/
structure Task.Clean (t : Task V) : Prop where
  err : t.err = none
  messages : ∀ m ∈ t.messages, m.status ≠ .failed

/-- The merge goroutine has called `merge` on the result. -/
def Task.Started (t : Task V) : Prop := t.stage = .merging ∨ t.stage = .merged

variable {t t' : Task V}

theorem Task.Started.not_running (h : t.Started) : t.stage ≠ .running := by
  intro hrunning
  rcases h with hs | hs <;> rw [hs] at hrunning <;> cases hrunning

theorem Task.Started.not_returned (h : t.Started) : t.stage ≠ .returned := by
  intro hreturned
  rcases h with hs | hs <;> rw [hs] at hreturned <;> cases hreturned

/-- The merge goroutine and the client are done with the record. -/
structure Task.Drained (t : Task V) : Prop where
  merged : t.stage = .merged
  messages : ∀ m ∈ t.messages, m.status ≠ .buffered

def Message.isOpen (m : Message) : Bool := decide (m.status ≠ .acked)

structure Task.WF (t : Task V) : Prop where
  running : t.stage = .running → t.err = none ∧ t.messages = [] ∧ t.lsn = 0
  returned : t.stage = .returned → ∀ m ∈ t.messages, m.status = .unsent
  merged : t.stage = .merged → ∀ m ∈ t.messages, m.status ≠ .unsent
  ok : t.stage ≠ .running → t.err = none → t.lsn = t.src.lsn
  failed : t.err ≠ none → t.lsn = 0
  counter : t.Started → t.messages ≠ [] → t.recordCounter = t.messages.countP Message.isOpen
  raising : t.raising ≠ none → t.Started ∧ ∀ m ∈ t.messages, m.status = .acked

/-- The value the position is being raised to is that of a record that is done. -/
theorem Task.WF.raised (h : t.WF) (hraising : t.raising ≠ none) :
    t.lsn = 0 ∨ (t.Started ∧ t.Done ∧ t.src.lsn = t.lsn) := by
  obtain ⟨hstarted, hacked⟩ := h.raising hraising
  have hran : t.stage ≠ .running := hstarted.not_running
  by_cases herr : t.err = none
  · exact Or.inr ⟨hstarted, ⟨hran, herr, hacked⟩, (h.ok hran herr).symm⟩
  · exact Or.inl (h.failed herr)

variable {m : Message}

/-- A message in the hands of the client belongs to a result that is being merged. -/
theorem Task.WF.started (h : t.WF) (hm : m ∈ t.messages) (hbuffered : m.status = .buffered) :
    t.Started := by
  cases hstage : t.stage with
  | running =>
    rw [(h.running hstage).2.1] at hm
    cases hm
  | returned =>
    rw [h.returned hstage m hm] at hbuffered
    cases hbuffered
  | merging => exact Or.inl hstage
  | merged => exact Or.inr hstage

theorem Task.Clean.done (h : t.Clean) (hwf : t.WF) (hdrained : t.Drained) :
    t.Done := by
  refine ⟨by rw [hdrained.merged]; decide, h.err, fun m hm => ?_⟩
  have hfailed := h.messages m hm
  have hbuffered := hdrained.messages m hm
  have hunsent := hwf.merged hdrained.merged m hm
  cases hst : m.status with
  | unsent => exact absurd hst hunsent
  | buffered => exact absurd hst hbuffered
  | acked => rfl
  | failed => exact absurd hst hfailed

/-- What every step does to a record. -/
structure Evolves (t t' : Task V) : Prop where
  src : t'.src = t.src
  done : t.Done → t'.Done
  drained : t.Drained → t'.Drained
  started : t.Started → t'.Started
  merged : t.stage = .merged → t'.stage = .merged

theorem Evolves.refl (t : Task V) : Evolves t t := ⟨rfl, id, id, id, id⟩

/-- The specification of `taskStep`. -/
structure TaskMove (t : Task V) (a : TaskAction) (lastSeenLSN : ℕ) (t' : Task V)
    (lastSeenLSN' : ℕ) (cause : Option String) : Prop where
  wf : t'.WF
  evolves : Evolves t t'
  clean : cause = none → t.Clean → t'.Clean
  start : t'.Started → t.Started ∨ a.isMerge = true
  seen : lastSeenLSN' = lastSeenLSN ∨ (t.raising ≠ none ∧ lastSeenLSN' = t.lsn)

variable {j lastSeenLSN : ℕ}

theorem mem_of_mem_setStatus {m m' : Message} {st : MessageStatus}
    (h : m' ∈ (t.setStatus j m st).messages) :
    m' ∈ t.messages ∨ m' = { m with status := st } :=
  mem_or_eq_of_mem_set h

/-- A record with an open message is neither done nor, in general, drained. -/
theorem evolves_open (hmem : m ∈ t.messages) (hopen : m.status ≠ .acked)
    (hdrained : m.status = .buffered ∨ t.stage ≠ .merged) (hsrc : t'.src = t.src)
    (hstage : t'.stage = t.stage) : Evolves t t' := by
  refine ⟨hsrc, fun hdone => absurd (hdone.acked m hmem) hopen, fun hd => ?_, ?_, ?_⟩
  · rcases hdrained with hbuffered | hstage
    · exact absurd hbuffered (hd.messages m hmem)
    · exact absurd hd.merged hstage
  · rw [Task.Started, Task.Started, hstage]
    exact id
  · rw [hstage]
    exact id

theorem messages_ne_nil (hm : t.messages[j]? = some m) :
    t.messages ≠ [] := by
  intro hnil
  rw [hnil] at hm
  cases hm

theorem countP_setStatus (st : MessageStatus) (hm : t.messages[j]? = some m)
    (hopen : m.status ≠ .acked) :
    ((t.setStatus j m st).messages.countP Message.isOpen : ℤ) =
      t.messages.countP Message.isOpen - (if st = .acked then 1 else 0) := by
  obtain ⟨hj, rfl⟩ := List.getElem?_eq_some_iff.mp hm
  have hpos : 0 < t.messages.countP Message.isOpen :=
    countP_pos_iff.mpr ⟨_, List.getElem_mem hj, decide_eq_true hopen⟩
  have hset : (t.setStatus j t.messages[j] st).messages.countP Message.isOpen =
      t.messages.countP Message.isOpen - (if Message.isOpen t.messages[j] then 1 else 0) +
        (if Message.isOpen { t.messages[j] with status := st } then 1 else 0) :=
    countP_set hj
  have hold : Message.isOpen t.messages[j] = true := decide_eq_true hopen
  rw [hset, hold]
  by_cases hst : st = .acked
  · have hnew : Message.isOpen { t.messages[j] with status := st } = false :=
      decide_eq_false (not_not_intro hst)
    rw [hnew, if_pos hst]
    simp only [if_true, Bool.false_eq_true, if_false]
    omega
  · have hnew : Message.isOpen { t.messages[j] with status := st } = true := decide_eq_true hst
    rw [hnew, if_neg hst]
    simp only [if_true]
    omega

theorem Task.WF.setStatus {st : MessageStatus} (h : t.WF) (hm : t.messages[j]? = some m)
    (hopen : m.status ≠ .acked) (hstarted : t.Started) (hst : st ≠ .unsent) {counter : ℤ}
    {raising : Option ℕ} (hcounter : counter = t.recordCounter - (if st = .acked then 1 else 0))
    (hraising : raising ≠ none → ∀ m' ∈ (t.setStatus j m st).messages, m'.status = .acked) :
    Task.WF { t.setStatus j m st with recordCounter := counter, raising := raising } where
  running hstage := absurd hstage hstarted.not_running
  returned hstage := absurd hstage hstarted.not_returned
  merged hstage m' hm' := by
    rcases mem_of_mem_setStatus hm' with hold | rfl
    · exact h.merged hstage m' hold
    · exact hst
  ok := h.ok
  failed := h.failed
  counter _ _ := by
    show counter = ((t.setStatus j m st).messages.countP Message.isOpen : ℤ)
    rw [countP_setStatus st hm hopen, hcounter, h.counter hstarted (messages_ne_nil hm)]
  raising hr := ⟨hstarted, hraising hr⟩

/-- Nothing is raised while a message is open. -/
theorem Task.WF.raising_none (h : t.WF) (hm : m ∈ t.messages) (hopen : m.status ≠ .acked) :
    t.raising = none := by
  by_contra hraising
  exact hopen ((h.raising hraising).2 m hm)

theorem all_acked_of_counter (h : t.WF) (hm : t.messages[j]? = some m) (hopen : m.status ≠ .acked)
    (hstarted : t.Started) (hzero : t.recordCounter - 1 = 0) :
    ∀ m' ∈ (t.setStatus j m .acked).messages, m'.status = .acked := by
  have hcount := countP_setStatus .acked hm hopen
  rw [← h.counter hstarted (messages_ne_nil hm), if_pos rfl, hzero] at hcount
  have hnone := countP_eq_zero.mp (Int.ofNat_eq_zero.mp hcount)
  intro m' hm'
  by_contra hne
  exact hnone m' hm' (decide_eq_true hne)

/-- A promise, by cases: the message is acknowledged, has failed, or is produced
again. -/
theorem promise_move (a : TaskAction) (lastSeenLSN : ℕ) (h : t.WF) (hm : t.messages[j]? = some m)
    (hbuffered : m.status = .buffered) (p : Promise) :
    TaskMove t a lastSeenLSN (promise lastSeenLSN t j m p).1 lastSeenLSN
      (promise lastSeenLSN t j m p).2 := by
  have hmem : m ∈ t.messages := mem_of_getElem? hm
  have hopen : m.status ≠ .acked := by rw [hbuffered]; decide
  have hstarted : t.Started := h.started hmem hbuffered
  have hnone : t.raising = none := h.raising_none hmem hopen
  have hfail : ∀ err : String, TaskMove t a lastSeenLSN (t.setStatus j m .failed) lastSeenLSN
      (some err) := by
    intro err
    refine ⟨h.setStatus hm hopen hstarted (by decide) (by simp) ?_,
      evolves_open hmem hopen (Or.inl hbuffered) rfl rfl, nofun,
      fun _ => Or.inl hstarted, Or.inl rfl⟩
    intro hraising
    exact absurd hnone hraising
  cases p with
  | success =>
    refine ⟨h.setStatus hm hopen hstarted (by decide) (by simp) ?_,
      evolves_open hmem hopen (Or.inl hbuffered) rfl rfl, fun _ hclean => ⟨hclean.err, ?_⟩,
      fun _ => Or.inl hstarted, Or.inl rfl⟩
    · intro hraising
      by_cases hzero : t.recordCounter - 1 = 0
      · exact all_acked_of_counter h hm hopen hstarted hzero
      · rw [if_neg hzero] at hraising
        exact absurd hnone hraising
    · intro m' hm'
      rcases mem_of_mem_setStatus hm' with hold | rfl
      · exact hclean.messages m' hold
      · simp
  | error err unknownTopicOrPartition force createTopic =>
    by_cases hforce : (unknownTopicOrPartition && force) = true
    · cases createTopic with
      | some createErr =>
        simp only [promise, if_pos hforce]
        exact hfail createErr
      | none =>
        simp only [promise, if_pos hforce]
        exact ⟨h, Evolves.refl t, fun _ hclean => hclean, fun _ => Or.inl hstarted, Or.inl rfl⟩
    · simp only [promise, if_neg hforce]
      exact hfail err

theorem script_move {a : TaskAction} {cause : Option String} (h : t.WF)
    (hrunning : t.stage = .running) (hsrc : t'.src = t.src) (hstage : t'.stage = .returned)
    (hraising : t'.raising = t.raising) (hunsent : ∀ m ∈ t'.messages, m.status = .unsent)
    (hlsn : t'.err = none ∧ t'.lsn = t'.src.lsn ∨ t'.err ≠ none ∧ t'.lsn = 0)
    (hcause : cause = none → t'.err = none) :
    TaskMove t a lastSeenLSN t' lastSeenLSN cause := by
  have hnotStarted : ¬ t.Started := fun hs => hs.not_running hrunning
  have hnotStarted' : ¬ t'.Started := fun hs => hs.not_returned hstage
  have hnone : t'.raising = none := by
    rw [hraising]
    by_contra hne
    exact hnotStarted (h.raising hne).1
  constructor
  case wf =>
    refine ⟨?_, fun _ => hunsent, ?_, fun _ herr => ?_, fun herr => ?_,
      fun hs => absurd hs hnotStarted', fun hne => absurd hnone hne⟩
    · rw [hstage]
      exact nofun
    · rw [hstage]
      exact nofun
    · rcases hlsn with ⟨-, hlsn⟩ | ⟨hne, -⟩
      · exact hlsn
      · exact absurd herr hne
    · rcases hlsn with ⟨hok, -⟩ | ⟨-, hzero⟩
      · exact absurd hok herr
      · exact hzero
  case evolves =>
    refine ⟨hsrc, fun hd => absurd hrunning hd.ran, fun hd => ?_, fun hs => absurd hs hnotStarted,
      fun hs => absurd (Or.inr hs) hnotStarted⟩
    exact absurd (Or.inr hd.merged) hnotStarted
  case clean =>
    intro hc _
    refine ⟨hcause hc, fun m hm => ?_⟩
    rw [hunsent m hm]
    decide
  case start => exact fun hs => absurd hs hnotStarted'
  case seen => exact Or.inl rfl

/-- `merge` is called: nothing has been sent yet. -/
theorem merge_move (h : t.WF) (hreturned : t.stage = .returned) (hsrc : t'.src = t.src)
    (hstage : t'.stage = .merging) (herr : t'.err = t.err) (hlsn : t'.lsn = t.lsn)
    (hmessages : t'.messages = t.messages)
    (hcounter : t.messages ≠ [] → t'.recordCounter = t.messages.length)
    (hraising : t'.raising ≠ none → t.messages = []) :
    TaskMove t .merge lastSeenLSN t' lastSeenLSN none := by
  have hran : t.stage ≠ .running := by rw [hreturned]; decide
  have hnotMerged : t.stage ≠ .merged := by rw [hreturned]; decide
  have hran' : t'.stage ≠ .running := by rw [hstage]; decide
  constructor
  case wf =>
    refine ⟨fun hs => absurd hs hran', ?_, ?_, fun _ hok => ?_, fun hne => ?_, fun _ hne => ?_,
      fun hr => ⟨Or.inl hstage, ?_⟩⟩
    · rw [hstage]
      exact nofun
    · rw [hstage]
      exact nofun
    · rw [hlsn, hsrc]
      rw [herr] at hok
      exact h.ok hran hok
    · rw [herr] at hne
      rw [hlsn]
      exact h.failed hne
    · rw [hmessages] at hne ⊢
      rw [hcounter hne]
      -- every message is still to be sent, so all of them are open
      have hall : t.messages.countP Message.isOpen = t.messages.length := by
        apply countP_eq_length.mpr
        intro m hm
        rw [Message.isOpen, h.returned hreturned m hm]
        decide
      rw [hall]
    · rw [hmessages, hraising hr]
      exact nofun
  case evolves =>
    refine ⟨hsrc, fun hd => ⟨hran', ?_, ?_⟩, fun hd => absurd hd.merged hnotMerged,
      fun _ => Or.inl hstage, fun hs => absurd hs hnotMerged⟩
    · rw [herr]
      exact hd.err
    · rw [hmessages]
      exact hd.acked
  case clean =>
    intro _ hclean
    refine ⟨?_, ?_⟩
    · rw [herr]
      exact hclean.err
    · rw [hmessages]
      exact hclean.messages
  case start => exact fun _ => Or.inr rfl
  case seen => exact Or.inl rfl

/-- A message is handed to the client. -/
theorem produce_move (a : TaskAction) (lastSeenLSN : ℕ) (h : t.WF) (hmerging : t.stage = .merging)
    (hm : t.messages[j]? = some m) (hunsent : m.status = .unsent) :
    TaskMove t a lastSeenLSN (t.setStatus j m .buffered) lastSeenLSN none := by
  have hmem : m ∈ t.messages := mem_of_getElem? hm
  have hopen : m.status ≠ .acked := by rw [hunsent]; decide
  have hnotMerged : t.stage ≠ .merged := by rw [hmerging]; decide
  have hnone : t.raising = none := h.raising_none hmem hopen
  refine ⟨h.setStatus hm hopen (Or.inl hmerging) (by decide) (by simp)
    (fun hne => absurd hnone hne), evolves_open hmem hopen (Or.inr hnotMerged) rfl rfl,
    fun _ hclean => ⟨hclean.err, fun m' hm' => ?_⟩, fun hs => Or.inl hs, Or.inl rfl⟩
  rcases mem_of_mem_setStatus hm' with hold | rfl
  · exact hclean.messages m' hold
  · simp

/-- The result has been merged: all its messages are with the client. -/
theorem merged_move (a : TaskAction) (lastSeenLSN : ℕ) (h : t.WF) (hmerging : t.stage = .merging)
    (hsent : ∀ m ∈ t.messages, m.status ≠ .unsent) :
    TaskMove t a lastSeenLSN { t with stage := .merged } lastSeenLSN none := by
  have hran : t.stage ≠ .running := by rw [hmerging]; decide
  have hstarted : t.Started := Or.inl hmerging
  constructor
  case wf =>
    exact ⟨nofun, nofun, fun _ => hsent, fun _ => h.ok hran, h.failed,
      fun _ => h.counter hstarted, fun hr => ⟨Or.inr rfl, (h.raising hr).2⟩⟩
  case evolves =>
    exact ⟨rfl, fun hd => ⟨nofun, hd.err, hd.acked⟩, fun hd => ⟨rfl, hd.messages⟩,
      fun _ => Or.inr rfl, fun _ => rfl⟩
  case clean => exact fun _ hclean => ⟨hclean.err, hclean.messages⟩
  case start => exact fun _ => Or.inl hstarted
  case seen => exact Or.inl rfl

/-- One attempt at raising `lastSeenLSN`. -/
theorem compareAndSwap_move {old : ℕ} (a : TaskAction) (lastSeenLSN : ℕ) (h : t.WF)
    (hold : t.raising = some old) :
    TaskMove t a lastSeenLSN { t with raising := (casMax lastSeenLSN t.lsn old).2 }
      (casMax lastSeenLSN t.lsn old).1 none := by
  have hraising : t.raising ≠ none := by rw [hold]; exact nofun
  constructor
  case wf =>
    exact ⟨h.running, h.returned, h.merged, h.ok, h.failed, h.counter, fun _ => h.raising hraising⟩
  case evolves =>
    exact ⟨rfl, fun hd => ⟨hd.ran, hd.err, hd.acked⟩, fun hd => ⟨hd.merged, hd.messages⟩, id, id⟩
  case clean => exact fun _ hclean => ⟨hclean.err, hclean.messages⟩
  case start => exact fun hs => Or.inl hs
  case seen => exact (casMax_fst lastSeenLSN t.lsn old).imp id fun heq => ⟨hraising, heq⟩

/-- **One record, one step.** -/
theorem taskStep_move {a : TaskAction} {lastSeenLSN lastSeenLSN' : ℕ} {cause : Option String}
    (h : t.WF) (hstep : taskStep lastSeenLSN t a = some (t', lastSeenLSN', cause)) :
    TaskMove t a lastSeenLSN t' lastSeenLSN' cause := by
  cases a <;> simp only [taskStep] at hstep
  case script out =>
    split_ifs at hstep with hrunning
    obtain ⟨herr, hmessages, hzero⟩ := h.running hrunning
    split at hstep <;> cases hstep
    · refine script_move h hrunning rfl rfl rfl ?_ (Or.inr ⟨nofun, hzero⟩) nofun
      rw [hmessages]
      exact nofun
    · refine script_move h hrunning rfl rfl rfl ?_ (Or.inl ⟨herr, rfl⟩) fun _ => herr
      intro m hm
      obtain ⟨kr, -, rfl⟩ := mem_map.mp hm
      rfl
  case merge =>
    split_ifs at hstep with hreturned hnil <;> cases hstep
    · exact merge_move h hreturned rfl rfl rfl rfl rfl (fun hne => absurd hnil hne) fun _ => hnil
    · refine merge_move h hreturned rfl rfl rfl rfl rfl (fun _ => rfl) fun hne => ?_
      exact absurd hreturned (h.raising hne).1.not_returned
  case produce j =>
    split at hstep
    · split_ifs at hstep with hfirst
      cases hstep
      exact produce_move _ _ h ‹_› ‹_› hfirst.1
    · cases hstep
  case merged =>
    split_ifs at hstep with hend
    cases hstep
    exact merged_move _ _ h hend.1 hend.2.1
  case promise j p =>
    split at hstep
    · split_ifs at hstep with hbuffered
      cases hstep
      exact promise_move (.promise j p) lastSeenLSN h ‹_› hbuffered p
    · cases hstep
  case compareAndSwap =>
    obtain ⟨old, hold, hresult⟩ := Option.map_eq_some_iff.mp hstep
    cases hresult
    exact compareAndSwap_move _ _ h hold

end Task

/-! ### Runs -/

section Run

variable {V : Type}

/-- A position `lastSeenLSN` may take: that of a record that is done. -/
def State.Reached (s : State V) (v : ℕ) : Prop :=
  v = 0 ∨ ∃ (i : ℕ) (t : Task V), s.tasks[i]? = some t ∧ t.Started ∧ t.Done ∧ t.src.lsn = v

/-- A position after `Flush`: no record in front of it is in progress. -/
def State.Flushed (s : State V) (o : ℕ) : Prop :=
  ∃ (i : ℕ) (t : Task V), s.tasks[i]? = some t ∧ t.Done ∧ t.src.lsn = o ∧
    ∀ (j : ℕ) (u : Task V), j < i → s.tasks[j]? = some u → u.Drained

/-- The record with this index ran through the script without error and all its
messages are acknowledged. -/
def State.Produced (s : State V) (i : ℕ) : Prop := ∃ t, s.tasks[i]? = some t ∧ t.Done

/-- Every record of a transaction up to the offset was produced. -/
def State.Settled (records : List (SourceRecord V)) (s : State V) (o : ℕ) : Prop :=
  ∀ (i : ℕ) (x : SourceRecord V), records[i]? = some x → x.commitLSN ≤ o → s.Produced i

/-- Records keep their place and never lose what was done. -/
def Grows (s s' : State V) : Prop :=
  ∀ (i : ℕ) (t : Task V), s.tasks[i]? = some t → ∃ t', s'.tasks[i]? = some t' ∧ Evolves t t'

variable {s s' : State V}

theorem Grows.reached (h : Grows s s') {v : ℕ} (hv : s.Reached v) :
    s'.Reached v := by
  rcases hv with hzero | ⟨i, t, ht, hstarted, hdone, hlsn⟩
  · exact Or.inl hzero
  · obtain ⟨t', ht', hevolves⟩ := h i t ht
    refine Or.inr ⟨i, t', ht', hevolves.started hstarted, hevolves.done hdone, ?_⟩
    rw [hevolves.src]
    exact hlsn

variable {o i j : ℕ}

theorem Grows.flushed (h : Grows s s') (ho : s.Flushed o) :
    s'.Flushed o := by
  obtain ⟨i, t, ht, hdone, hlsn, hbefore⟩ := ho
  obtain ⟨t', ht', hevolves⟩ := h i t ht
  refine ⟨i, t', ht', hevolves.done hdone, by rw [hevolves.src]; exact hlsn, ?_⟩
  intro j u' hj hu'
  -- the records in front were there before
  have hlt : j < s.tasks.length := Nat.lt_trans hj (List.getElem?_eq_some_iff.mp ht).1
  obtain ⟨u, hu, huevolves⟩ := h j _ (List.getElem?_eq_getElem hlt)
  rw [hu'] at hu
  cases hu
  exact huevolves.drained (hbefore j _ hj (List.getElem?_eq_getElem hlt))

variable {records : List (SourceRecord V)}

theorem Grows.settled (h : Grows s s') (ho : State.Settled records s o) :
    State.Settled records s' o := by
  intro i x hx hcommit
  obtain ⟨t, ht, hdone⟩ := ho i x hx hcommit
  obtain ⟨t', ht', hevolves⟩ := h i t ht
  exact ⟨t', ht', hevolves.done hdone⟩

/-- What is known of the record with index `i`. -/
structure Entry (records : List (SourceRecord V)) (s : State V) (i : ℕ) (t : Task V) : Prop where
  source : records[i]? = some t.src
  wf : t.WF
  clean : s.cancelled = none → t.Clean
  waited : s.phase = .flushing → t.stage = .merged
  drained : s.phase = .finishing → t.Drained

structure Inv (records : List (SourceRecord V)) (s : State V) : Prop where
  todo : s.todo = records.drop s.tasks.length
  each : ∀ (i : ℕ) (t : Task V), s.tasks[i]? = some t → Entry records s i t
  merges : ∀ (i j : ℕ) (t u : Task V), i < j → s.tasks[i]? = some t → s.tasks[j]? = some u →
    u.Started → t.stage = .merged
  seen : s.Reached s.lastSeenLSN
  loaded : ∀ o, s.flushing = some (o, false) → s.Reached o
  flushed : ∀ o, s.flushing = some (o, true) → s.Flushed o
  persisted : ∀ o ∈ s.persisted, State.Settled records s o
  stopped : s.phase = .waiting ∨ s.phase = .flushing ∨ s.phase = .finishing →
    s.todo = [] ∨ s.cancelled ≠ none

theorem inv_init (records : List (SourceRecord V)) (consumedOffset : ℕ) :
    Inv records (State.init records consumedOffset) :=
  ⟨rfl, fun _ _ ht => (by cases ht), fun _ _ _ _ _ ht => (by cases ht), Or.inl rfl,
    fun _ ho => (by cases ho), fun _ ho => (by cases ho), fun _ ho => (not_mem_nil ho).elim,
    by simp [State.init]⟩

theorem nothingBuffered_iff : s.nothingBuffered = true ↔
    ∀ t ∈ s.tasks, ∀ m ∈ t.messages, m.status ≠ .buffered := by
  simp only [State.nothingBuffered, all_eq_true, decide_eq_true_eq]

theorem allMerged_iff : s.allMerged = true ↔
    ∀ t ∈ s.tasks, t.stage = .merged := by
  simp only [State.allMerged, all_eq_true, decide_eq_true_eq]

theorem canMerge_iff : s.canMerge i = true ↔
    ∀ t ∈ s.tasks.take i, t.stage = .merged := by
  simp only [State.canMerge, all_eq_true, decide_eq_true_eq]

/-- **What `Flush` adds.**  Results are merged in order, so when nothing is buffered
everything in front of a record that is done has come to an end. -/
theorem Inv.flush (h : Inv records s) (ho : s.Reached o) (hpos : 0 < o)
    (hnothing : s.nothingBuffered = true) : s.Flushed o := by
  rcases ho with rfl | ⟨i, t, ht, hstarted, hdone, hlsn⟩
  · omega
  · refine ⟨i, t, ht, hdone, hlsn, fun j u hj hu => ⟨h.merges j i u t hj hu ht hstarted, ?_⟩⟩
    exact nothingBuffered_iff.mp hnothing u (mem_of_getElem? hu)

/-- A position is settled if what is in front of it came to an end and nothing
failed. -/
theorem Inv.settled (h : Inv records s)
    (hordered : CommitOrdered SourceRecord.lsn SourceRecord.commitLSN records)
    (hcancelled : s.cancelled = none) (ho : s.Flushed o) : State.Settled records s o := by
  obtain ⟨i, t, ht, -, rfl, hbefore⟩ := ho
  intro j x hx hcommit
  have hlt : j < i := hordered.lt hx (h.each i t ht).source hcommit
  have hj : j < s.tasks.length := Nat.lt_trans hlt (List.getElem?_eq_some_iff.mp ht).1
  have hu := List.getElem?_eq_getElem hj
  exact ⟨_, hu, ((h.each j _ hu).clean hcancelled).done (h.each j _ hu).wf (hbefore j _ hlt hu)⟩

/-- At the end of a batch in which nothing failed, all of it was produced. -/
theorem Inv.finished (h : Inv records s) (hphase : s.phase = .finishing)
    (hcancelled : s.cancelled = none) (o : ℕ) :
    State.Settled records s o := by
  have htodo : s.todo = [] :=
    (h.stopped (Or.inr (Or.inr hphase))).resolve_right (not_not_intro hcancelled)
  rw [h.todo, drop_eq_nil_iff] at htodo
  intro i x hx _
  have hi : i < s.tasks.length := Nat.lt_of_lt_of_le (List.getElem?_eq_some_iff.mp hx).1 htodo
  have ht := List.getElem?_eq_getElem hi
  obtain ⟨-, hwf, hclean, -, hdrained⟩ := h.each i _ ht
  exact ⟨_, ht, (hclean hcancelled).done hwf (hdrained hphase)⟩

/-! ### Steps -/

variable {t u t' : Task V}

theorem getElem?_set_cases {l : List (Task V)} (h : (l.set i t)[j]? = some u) :
    (j = i ∧ u = t) ∨ (j ≠ i ∧ l[j]? = some u) := by
  by_cases hij : j = i
  · subst hij
    obtain ⟨hj, hget⟩ := List.getElem?_eq_some_iff.mp h
    rw [List.getElem_set_self] at hget
    exact Or.inl ⟨rfl, hget.symm⟩
  · rw [getElem?_set_ne (Ne.symm hij)] at h
    exact Or.inr ⟨hij, h⟩

theorem grows_set (ht : s.tasks[i]? = some t) (hevolves : Evolves t t')
    (htasks : s'.tasks = s.tasks.set i t') : Grows s s' := by
  intro j u hu
  rw [htasks]
  by_cases hij : j = i
  · subst hij
    rw [ht] at hu
    cases hu
    exact ⟨t', getElem?_set_self (List.getElem?_eq_some_iff.mp ht).1, hevolves⟩
  · exact ⟨u, by rw [getElem?_set_ne (Ne.symm hij)]; exact hu, Evolves.refl u⟩

/-- What holds of every record holds after one of them was replaced. -/
theorem forall_set {l : List (Task V)} {P : ℕ → Task V → Prop} (h : ∀ j u, l[j]? = some u → P j u)
    (hi : P i t') :
    ∀ j u, (l.set i t')[j]? = some u → P j u := by
  intro j u hu
  rcases getElem?_set_cases hu with ⟨rfl, rfl⟩ | ⟨-, hold⟩
  · exact hi
  · exact h j u hold

/-- A worker, the merge goroutine or a promise acts on one record. -/
theorem Inv.task (h : Inv records s) {a : TaskAction} {lastSeenLSN : ℕ} {cause : Option String}
    (ht : s.tasks[i]? = some t) (hmerge : a.isMerge = true → s.canMerge i = true)
    (hmove : TaskMove t a s.lastSeenLSN t' lastSeenLSN cause) :
    Inv records { s with
      tasks := s.tasks.set i t'
      lastSeenLSN := lastSeenLSN
      cancelled := s.cancelled.or cause } := by
  have hgrows : Grows s { s with
      tasks := s.tasks.set i t'
      lastSeenLSN := lastSeenLSN
      cancelled := s.cancelled.or cause } := grows_set ht hmove.evolves rfl
  obtain ⟨hsource, hwf, hclean, hwaited, hdrained⟩ := h.each i t ht
  constructor
  case todo =>
    show s.todo = records.drop (s.tasks.set i t').length
    rw [length_set]
    exact h.todo
  case each =>
    have hnone : s.cancelled.or cause = none → s.cancelled = none ∧ cause = none :=
      Option.or_eq_none_iff.mp
    refine forall_set (fun j u hu => ?_) ⟨hmove.evolves.src ▸ hsource, hmove.wf,
      fun hc => hmove.clean (hnone hc).2 (hclean (hnone hc).1),
      fun hp => hmove.evolves.merged (hwaited hp), fun hp => hmove.evolves.drained (hdrained hp)⟩
    have hold := h.each j u hu
    exact ⟨hold.source, hold.wf, fun hc => hold.clean (hnone hc).1, hold.waited, hold.drained⟩
  case merges =>
    intro j k u v hjk hu hv hstarted
    rcases getElem?_set_cases hu with ⟨rfl, rfl⟩ | ⟨-, hu'⟩
    · rcases getElem?_set_cases hv with ⟨rfl, -⟩ | ⟨-, hv'⟩
      · omega
      · exact hmove.evolves.merged (h.merges j k t v hjk ht hv' hstarted)
    · rcases getElem?_set_cases hv with ⟨rfl, rfl⟩ | ⟨-, hv'⟩
      · rcases hmove.start hstarted with hold | hnew
        · exact h.merges j k u t hjk hu' ht hold
        · -- the merge goroutine has come to this record
          refine canMerge_iff.mp (hmerge hnew) u (mem_iff_getElem?.mpr ⟨j, ?_⟩)
          rw [getElem?_take_of_lt hjk]
          exact hu'
      · exact h.merges j k u v hjk hu' hv' hstarted
  case seen =>
    show State.Reached _ lastSeenLSN
    rcases hmove.seen with hsame | ⟨hraising, hlsn⟩
    · rw [hsame]
      exact hgrows.reached h.seen
    · rw [hlsn]
      rcases hwf.raised hraising with hzero | ⟨hstarted, hdone, hsrc⟩
      · exact Or.inl hzero
      · exact hgrows.reached (Or.inr ⟨i, t, ht, hstarted, hdone, hsrc⟩)
  case loaded => exact fun o ho => hgrows.reached (h.loaded o ho)
  case flushed => exact fun o ho => hgrows.flushed (h.flushed o ho)
  case persisted => exact fun o ho => hgrows.settled (h.persisted o ho)
  case stopped =>
    intro hphase
    refine (h.stopped hphase).imp id fun hne hnone => hne (Option.or_eq_none_iff.mp hnone).1

theorem getElem?_snoc_cases {l : List (Task V)} (h : (l ++ [t])[j]? = some u) :
    (j = l.length ∧ u = t) ∨ l[j]? = some u := by
  rcases Nat.lt_or_ge j l.length with hlt | hge
  · rw [getElem?_append_left hlt] at h
    exact Or.inr h
  · rw [getElem?_append_right hge] at h
    obtain ⟨hj, hget⟩ := List.getElem?_eq_some_iff.mp h
    rw [length_singleton] at hj
    rw [getElem_singleton] at hget
    exact Or.inl ⟨by omega, hget.symm⟩

theorem Inv.take (h : Inv records s) {x : SourceRecord V} {todo : List (SourceRecord V)}
    (hphase : s.phase = .looping) (htodo : s.todo = x :: todo) :
    Inv records { s with todo := todo, tasks := s.tasks ++ [{ src := x }] } := by
  have hgrows : Grows s { s with todo := todo, tasks := s.tasks ++ [{ src := x }] } := by
    intro i t ht
    refine ⟨t, ?_, Evolves.refl t⟩
    show (s.tasks ++ [_])[i]? = some t
    rw [getElem?_append_left (List.getElem?_eq_some_iff.mp ht).1]
    exact ht
  have hdrop : records.drop s.tasks.length = x :: todo := by rw [← h.todo, htodo]
  have hstopped : ∀ p, p ≠ Phase.looping → s.phase ≠ p := by
    rintro p hp rfl
    exact hp hphase
  constructor
  case todo =>
    show todo = records.drop (s.tasks ++ [_]).length
    rw [length_append, length_singleton, ← drop_drop, hdrop]
    rfl
  case each =>
    intro i t ht
    rcases getElem?_snoc_cases ht with ⟨rfl, rfl⟩ | hold
    · refine ⟨?_, ⟨fun _ => ⟨rfl, rfl, rfl⟩, nofun, nofun, fun hne => absurd rfl hne,
        fun hne => absurd rfl hne, fun hstarted => absurd rfl hstarted.not_running,
        fun hne => absurd rfl hne⟩, fun _ => ⟨rfl, nofun⟩, fun hp => absurd hp (hstopped _ nofun),
        fun hp => absurd hp (hstopped _ nofun)⟩
      have hhead : (records.drop s.tasks.length)[0]? = some x := by rw [hdrop]; rfl
      rw [getElem?_drop, Nat.add_zero] at hhead
      exact hhead
    · exact { h.each i t hold with }
  case merges =>
    intro i j t u hij ht hu hstarted
    rcases getElem?_snoc_cases hu with ⟨rfl, rfl⟩ | hu
    · exact absurd rfl hstarted.not_running
    · rcases getElem?_snoc_cases ht with ⟨rfl, rfl⟩ | ht
      · have hlt := (List.getElem?_eq_some_iff.mp hu).1
        omega
      · exact h.merges i j t u hij ht hu hstarted
  case seen => exact hgrows.reached h.seen
  case loaded => exact fun o ho => hgrows.reached (h.loaded o ho)
  case flushed => exact fun o ho => hgrows.flushed (h.flushed o ho)
  case persisted => exact fun o ho => hgrows.settled (h.persisted o ho)
  case stopped =>
    rintro (hp | hp | hp) <;> exact absurd hp (hstopped _ nofun)

/-- The steps that persist an offset. -/
def Action.persists : Action → Bool
  | .persist ok | .finishBatch ok => ok
  | _ => false

/-- The condition on a step: an offset is persisted only while the queue context is not
cancelled. -/
def Uncancelled (s : State V) (act : Action) : Prop :=
  act.persists = true → s.cancelled = none

instance (s : State V) (act : Action) : Decidable (Uncancelled s act) :=
  inferInstanceAs (Decidable (_ → _))

section Step

variable {records : List (SourceRecord V)} {s s' : State V} {lastCheckpoint : ℕ}

/-- The flush loop has loaded, flushed or given up. -/
theorem Inv.setFlushing (h : Inv records s) {r : Option (ℕ × Bool)}
    (hloaded : ∀ o, r = some (o, false) → s.Reached o)
    (hflushed : ∀ o, r = some (o, true) → s.Flushed o) : Inv records { s with flushing := r } :=
  { h with
    each := fun i t ht => { h.each i t ht with }
    loaded := hloaded
    flushed := hflushed }

theorem Inv.persist (h : Inv records s) {o : ℕ} (ho : State.Settled records s o)
    (consumedOffset : ℕ) : Inv records { s with
      consumedOffset := consumedOffset, persisted := s.persisted ++ [o] } := by
  refine { h with each := fun i t ht => { h.each i t ht with }, persisted := fun o' ho' => ?_ }
  rcases mem_append.mp ho' with hold | hnew
  · exact h.persisted o' hold
  · obtain rfl := mem_singleton.mp hnew
    exact ho

/-- The record loop moves on to its next phase. -/
theorem Inv.setPhase (h : Inv records s) {p : Phase}
    (hstopped : p = .waiting ∨ p = .flushing ∨ p = .finishing → s.todo = [] ∨ s.cancelled ≠ none)
    (hwaited : p = .flushing → ∀ t ∈ s.tasks, t.stage = .merged)
    (hdrained : p = .finishing → ∀ t ∈ s.tasks, t.Drained) : Inv records { s with phase := p } :=
  { h with
    each := fun i t ht => { h.each i t ht with
      waited := fun hp => hwaited hp t (mem_of_getElem? ht)
      drained := fun hp => hdrained hp t (mem_of_getElem? ht) }
    stopped := hstopped }

theorem Inv.failed (h : Inv records s) (err : String) :
    Inv records { s with phase := .failed err } :=
  h.setPhase (by simp) nofun nofun

/-- **Step.**  Every step that meets the condition keeps the invariant. -/
theorem step_inv (hordered : CommitOrdered SourceRecord.lsn SourceRecord.commitLSN records)
    (h : Inv records s) {act : Action} (hquiet : Uncancelled s act)
    (hstep : step lastCheckpoint s act = some s') : Inv records s' := by
  cases act <;> simp only [step] at hstep
  case take =>
    split at hstep <;> cases hstep
    exact h.take ‹_› ‹_›
  case task i a =>
    split at hstep
    · cases hstep
    · split_ifs at hstep with hblocked
      obtain ⟨⟨t', lastSeenLSN, cause⟩, hmove, rfl⟩ := Option.map_eq_some_iff.mp hstep
      refine h.task ‹_› (fun hmerge => ?_) (taskStep_move (h.each i _ ‹_›).wf hmove)
      simpa [hmerge] using hblocked
  case tick =>
    split at hstep <;> cases hstep
    refine h.setFlushing (fun o ho => ?_) nofun
    cases ho
    exact h.seen
  case flush ok =>
    split at hstep
    · split_ifs at hstep with hok hnothing hlater <;> cases hstep
      · refine h.setFlushing nofun fun o ho => ?_
        cases ho
        exact h.flush (h.loaded _ ‹_›) (by omega) hnothing
      all_goals exact h.setFlushing nofun nofun
    · cases hstep
  case persist ok =>
    split at hstep
    · split_ifs at hstep with hok <;> cases hstep
      · have hsettled := h.settled hordered (hquiet hok) (h.flushed _ ‹_›)
        exact (h.persist hsettled _).setFlushing nofun nofun
      · exact h.setFlushing nofun nofun
    · cases hstep
  case endOfRecords =>
    split at hstep <;> cases hstep
    exact h.setPhase (fun _ => Or.inl ‹_›) nofun nofun
  case queueDone =>
    split at hstep <;> cases hstep
    exact h.setPhase (fun _ => Or.inr (by simp [*])) nofun nofun
  case wait ok =>
    split at hstep
    · split_ifs at hstep with hok hmerged
      · cases hstep
        exact h.setPhase (fun _ => h.stopped (Or.inl ‹_›)) (fun _ => allMerged_iff.mp hmerged) nofun
      · obtain ⟨cause, -, rfl⟩ := Option.map_eq_some_iff.mp hstep
        exact h.failed cause
    · cases hstep
  case finalFlush ok =>
    split at hstep
    case h_1 hphase =>
      split_ifs at hstep with hok hnothing
      · cases hstep
        refine h.setPhase (fun _ => h.stopped (Or.inr (Or.inl hphase))) nofun fun _ t ht => ?_
        obtain ⟨i, hi⟩ := mem_iff_getElem?.mp ht
        exact ⟨(h.each i t hi).waited hphase, nothingBuffered_iff.mp hnothing t ht⟩
      · obtain ⟨cause, -, rfl⟩ := Option.map_eq_some_iff.mp hstep
        exact h.failed _
    case h_2 => cases hstep
  case finishBatch ok =>
    split at hstep
    · split_ifs at hstep with hok <;> cases hstep
      · have hsettled := h.finished ‹_› (hquiet hok) lastCheckpoint
        exact (h.persist hsettled s.consumedOffset).setPhase (by simp) nofun nofun
      · exact h.failed _
    · cases hstep

end Step

/-- **Persisted offsets pass no record that was not produced.**  In every run in which
offsets are persisted, by the flush loop or at the end of the batch, only while the
queue context is not cancelled, at every point and for every offset persisted so far,
every record of a transaction up to the offset ran through the script without error
and all its messages are acknowledged. -/
theorem persisted_produced {records : List (SourceRecord V)} {consumedOffset lastCheckpoint : ℕ}
    {acts : List Action} {s : State V}
    (hordered : CommitOrdered SourceRecord.lsn SourceRecord.commitLSN records)
    (hquiet : Along (step lastCheckpoint) Uncancelled (State.init records consumedOffset) acts)
    (hrun : runs (step lastCheckpoint) (State.init records consumedOffset) acts = some s) :
    ∀ o ∈ s.persisted, ∀ (i : ℕ) (x : SourceRecord V), records[i]? = some x → x.commitLSN ≤ o →
      ∃ t, s.tasks[i]? = some t ∧ t.src = x ∧ t.Done := by
  have hinv : Inv records s :=
    runs_invariant (Inv records) (fun _ _ _ hs hq hstep => step_inv hordered hs hq hstep)
      (inv_init records consumedOffset) hquiet hrun
  intro o ho i x hx hcommit
  obtain ⟨t, ht, hdone⟩ := hinv.persisted o ho i x hx hcommit
  have hsrc := (hinv.each i t ht).source
  rw [hx] at hsrc
  exact ⟨t, ht, (Option.some.inj hsrc).symm, hdone⟩

def shopInsert (lsn commitLSN : ℕ) : SourceRecord ℕ :=
  ⟨.insert ⟨lsn, 0, 0⟩ (Items.empty.addColumn "id" (some 1)) "orders" "orders", commitLSN⟩

/-- Two transactions of one row. -/
def twoInserts : List (SourceRecord ℕ) := [shopInsert 50 100, shopInsert 150 200]

/-- The script makes one message of each record; both are given to the client. -/
def produceBoth : List Action :=
  [.take, .take, .task 1 (.script (.returned [.ok (some ⟨"", "", "second"⟩)])),
    .task 0 (.script (.returned [.ok (some ⟨"", "", "first"⟩), .ok none])),
    .task 0 .merge, .task 0 (.produce 0), .task 0 .merged,
    .task 1 .merge, .task 1 (.produce 0), .task 1 .merged]

def ackBoth : List Action :=
  produceBoth ++ [.task 0 (.promise 0 .success), .task 0 .compareAndSwap,
    .task 1 (.promise 0 .success), .task 1 .compareAndSwap, .tick, .flush true, .persist true,
    .endOfRecords, .wait true, .finalFlush true, .finishBatch true]

theorem ackBoth_produced :
    ∃ s, runs (step 200) (State.init twoInserts 0) ackBoth = some s ∧ s.persisted = [150, 200] ∧
      ∀ (i : ℕ) (x : SourceRecord ℕ), twoInserts[i]? = some x → x.commitLSN ≤ 200 →
        ∃ t, s.tasks[i]? = some t ∧ t.src = x ∧ t.Done := by
  have hordered : CommitOrdered SourceRecord.lsn SourceRecord.commitLSN twoInserts :=
    ⟨by decide, by decide⟩
  have hquiet : Along (step 200) Uncancelled (State.init twoInserts 0) ackBoth :=
    along_of_check (by decide +kernel)
  have heval : (runs (step 200) (State.init twoInserts 0) ackBoth).map State.persisted =
      some [150, 200] := by decide +kernel
  obtain ⟨s, hrun, hpersisted⟩ := Option.map_eq_some_iff.mp heval
  exact ⟨s, hrun, hpersisted,
    persisted_produced hordered hquiet hrun 200 (by rw [hpersisted]; decide)⟩

/-- The second message is acknowledged, the flush loop loads its position, and then the
first message fails. -/
def failFirst : List Action :=
  produceBoth ++ [.task 1 (.promise 0 .success), .task 1 .compareAndSwap, .tick,
    .task 0 (.promise 0 (.error "MESSAGE_TOO_LARGE" false false none)), .flush true, .persist true]

theorem failedProduce_passed :
    CommitOrdered SourceRecord.lsn SourceRecord.commitLSN twoInserts ∧
      ∃ s, runs (step 200) (State.init twoInserts 0) failFirst = some s ∧
        ∃ o ∈ s.persisted, ∃ (i : ℕ) (x : SourceRecord ℕ), twoInserts[i]? = some x ∧
          x.commitLSN ≤ o ∧ ¬ ∃ t, s.tasks[i]? = some t ∧ t.src = x ∧ t.Done := by
  have heval : (runs (step 200) (State.init twoInserts 0) failFirst).map
      (fun s => (s.persisted, s.tasks[0]?.map fun t => t.messages.map Message.status)) =
      some ([150], some [.failed]) := by decide +kernel
  obtain ⟨s, hrun, hs⟩ := Option.map_eq_some_iff.mp heval
  obtain ⟨hpersisted, hfirst⟩ := Prod.mk.inj hs
  refine ⟨⟨by decide, by decide⟩, s, hrun, 150, by rw [hpersisted]; decide, 0, shopInsert 50 100,
    rfl, by decide, ?_⟩
  rintro ⟨t, ht, -, hdone⟩
  rw [ht] at hfirst
  have hstatus : t.messages.map Message.status = [.failed] := Option.some.inj hfirst
  have hmem : MessageStatus.failed ∈ t.messages.map Message.status := by rw [hstatus]; decide
  obtain ⟨m, hm, hfailed⟩ := mem_map.mp hmem
  rw [hdone.acked m hm] at hfailed
  cases hfailed

end Run

end Kafka
