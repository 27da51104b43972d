/-
The hand-off of a batch from the puller to the syncer (`CDCStream`, the `addRecord` of the
Postgres and MySQL connectors, `pullAndSyncCore`).

The puller adds records to a channel and, after it has added the first one, closes the empty
signal; `pullAndSyncCore` waits for that signal before it starts the syncer, which receives the
records.  So the first record is sent before anyone is there to receive it.

* `handOff_completes_iff`: a batch is handed over completely in every interleaving without
  cancellation exactly if the channel has a buffer or the batch is empty.
* Read as a statement about every moment, that the puller is never blocked before the syncer is
  started, it holds exactly if the buffer takes the whole batch; with a shorter buffer the
  puller may wait for the syncer to be started, which the next step of `pullAndSyncCore` does.
* `handOff_safe`: whatever fails, no channel is closed twice and no record is skipped, and a
  pull without an error has sent every record.

A failure of one goroutine cancels the context of both (`errgroup`); steps that fail or are
cancelled are marked by `Action.fails`.  The stream is not adapted by a script, and its
bookkeeping for normalization is left out.
-/
import PeerDB.Lib.Chan
import PeerDB.Lib.Loop

open Loop

namespace HandOff

variable {R : Type} {n : ℕ}

/-! ### The stream -/

structure CDCStream (R : Type) (n : ℕ) where
  records : Chan R n
  /-- The channel `emptySignal` is closed. -/
  emptySignal : Bool
  empty : Bool
  emptySet : Bool
  lastCheckpointSet : Bool

namespace CDCStream

/-- `NewCDCStream`. -/
def new (R : Type) (n : ℕ) : CDCStream R n where
  records := .make R n
  emptySignal := false
  empty := true
  emptySet := false
  lastCheckpointSet := false

variable (r : CDCStream R n)

/-- `close(r.emptySignal)`, which panics if it is closed. -/
def closeEmptySignal : Option (CDCStream R n) :=
  if r.emptySignal then none else some { r with emptySignal := true }

def signalAsEmpty : Option (CDCStream R n) :=
  closeEmptySignal { r with emptySet := true }

def signalAsNotEmpty : Option (CDCStream R n) :=
  closeEmptySignal { r with empty := false, emptySet := true }

def close : Option (CDCStream R n) :=
  if r.lastCheckpointSet then some r
  else
    let r := { r with lastCheckpointSet := true, records := r.records.close }
    if r.emptySet then some r else closeEmptySignal { r with emptySet := true }

end CDCStream

/-! ### The goroutines -/

/-- MySQL counts a record before it is added, Postgres after. -/
inductive Connector
  | postgres
  | mysql
deriving DecidableEq

/-- Where `PullRecords` is. -/
inductive Puller (R : Type)
  /-- Before the deferred call that signals an empty batch. -/
  | starting
  | pulling
  /-- `AddRecord`, in the `select` with a default. -/
  | trying (record : R)
  /-- `AddRecord`, in the `select` of its loop. -/
  | blocked (record : R)
  /-- `AddRecord` has returned. -/
  | added
  /-- Before the deferred call that signals an empty batch, which is made now. -/
  | leaving (err : Option String)
  /-- Before the deferred `Close`. -/
  | closing (err : Option String)
  | returned (err : Option String)
  | panicked
deriving DecidableEq

/-- Where `pullAndSyncCore` is. -/
inductive Main
  /-- `WaitAndCheckEmpty` -/
  | waiting
  /-- There are no records; the pull is waited for. -/
  | waitPull
  | waitBoth
  | returned
deriving DecidableEq

/-- The goroutine that receives the records. -/
inductive Syncer
  | notStarted
  | starting
  | receiving
  | ended (err : Option String)
deriving DecidableEq

structure State (R : Type) (n : ℕ) where
  stream : CDCStream R n
  /-- The records of the batch that are not read from the source yet. -/
  unread : List R
  /-- `totalRecords` of Postgres, `recordCount` of MySQL. -/
  count : ℕ
  puller : Puller R
  main : Main
  syncer : Syncer
  received : List R
  cancelled : Bool

def State.init (n : ℕ) (batch : List R) : State R n where
  stream := .new R n
  unread := batch
  count := 0
  puller := .starting
  main := .waiting
  syncer := .notStarted
  received := []
  cancelled := false

inductive Action
  | startPull (err : Option String)
  | readRecord
  | sourceFails (err : String)
  | endBatch
  | trySend
  /-- The default of the first `select`. -/
  | giveUp
  | send
  | ctxDone
  /-- A sender and the receiver meet, on a channel without a buffer. -/
  | meet
  | count
  | signalEmpty
  | closeStream
  | checkEmpty
  | startSync
  | receive
  | endRecords
  /-- The queue context of Kafka's `SyncRecords` is done; it may still return no error. -/
  | syncLeaves
  | syncFails (err : String)
  | finish
  | cancel
deriving DecidableEq

/-- The steps of a failure or a cancellation. -/
def Action.fails : Action → Bool
  | .startPull err => err.isSome
  | .sourceFails _ => true
  | .ctxDone => true
  | .syncLeaves => true
  | .syncFails _ => true
  | .cancel => true
  | _ => false

namespace State

variable (s : State R n)

/-- The goroutine goes on with the stream, or panics. -/
def withStream (stream : Option (CDCStream R n)) (puller : Puller R) : State R n :=
  match stream with
  | some stream => { s with stream := stream, puller := puller }
  | none => { s with puller := .panicked }

/-- A record goes into the buffer. -/
def push (record : R) : Option (State R n) :=
  (s.stream.records.push record).map fun records =>
    { s with stream := { s.stream with records := records }, puller := .added }

end State

/-- The end of `addRecord`: the first record of the batch is signalled. -/
def countRecord (conn : Connector) (s : State R n) : State R n :=
  let s := if conn = .postgres then { s with count := s.count + 1 } else s
  if s.count = 1 then s.withStream s.stream.signalAsNotEmpty .pulling
  else { s with puller := .pulling }

def pullerStep (conn : Connector) (s : State R n) : Puller R → Action → Option (State R n)
  | .starting, .startPull none => some { s with puller := .pulling }
  | .starting, .startPull (some err) => some { s with puller := .closing (some err) }
  | .pulling, .readRecord =>
    match s.unread with
    | [] => none
    | record :: unread =>
      some { s with
        unread := unread
        count := if conn = .mysql then s.count + 1 else s.count
        puller := .trying record }
  | .pulling, .sourceFails err => some { s with puller := .leaving (some err) }
  | .pulling, .endBatch => if s.unread = [] then some { s with puller := .leaving none } else none
  | .trying record, .trySend => s.push record
  | .trying record, .giveUp =>
    if s.stream.records.queue.length < n then none
    else some { s with puller := .blocked record }
  | .blocked record, .send => s.push record
  | .blocked _, .ctxDone =>
    if s.cancelled then some { s with puller := .leaving (some "context canceled") } else none
  | .added, .count => some (countRecord conn s)
  | .leaving err, .signalEmpty =>
    if s.count = 0 then some (s.withStream s.stream.signalAsEmpty (.closing err))
    else some { s with puller := .closing err }
  | .closing err, .closeStream =>
    some { s.withStream s.stream.close (.returned err) with
      cancelled := s.cancelled || err.isSome }
  | _, _ => none

/-- The record that the puller is sending. -/
def Puller.sending : Puller R → Option R
  | .trying record => some record
  | .blocked record => some record
  | _ => none

def meet (s : State R n) : Option (State R n) :=
  match s.puller.sending, s.syncer with
  | some record, .receiving =>
    if n = 0 then some { s with puller := .added, received := s.received ++ [record] } else none
  | _, _ => none

def mainStep (s : State R n) : Main → Option (State R n)
  | .waiting =>
    if s.stream.emptySignal then
      if s.stream.empty then some { s with main := .waitPull }
      else some { s with main := .waitBoth, syncer := .starting }
    else none
  | .waitPull =>
    match s.puller with
    | .returned _ => some { s with main := .returned }
    | _ => none
  | .waitBoth =>
    match s.puller, s.syncer with
    | .returned _, .ended _ => some { s with main := .returned }
    | _, _ => none
  | .returned => none

def syncerStep (s : State R n) : Syncer → Action → Option (State R n)
  | .starting, .startSync => some { s with syncer := .receiving }
  | .receiving, .receive =>
    s.stream.records.pop.map fun x =>
      { s with
        stream := { s.stream with records := x.2 }
        received := s.received ++ [x.1] }
  | .receiving, .endRecords =>
    if s.stream.records.drained then some { s with syncer := .ended none } else none
  | .receiving, .syncLeaves => some { s with syncer := .ended none }
  | .starting, .syncFails err =>
    some { s with syncer := .ended (some err), cancelled := true }
  | .receiving, .syncFails err =>
    some { s with syncer := .ended (some err), cancelled := true }
  | _, _ => none

/-- One step of one of the goroutines. -/
def step (conn : Connector) (s : State R n) (a : Action) : Option (State R n) :=
  match a with
  | .checkEmpty => if s.main = .waiting then mainStep s s.main else none
  | .finish => if s.main = .waiting then none else mainStep s s.main
  | .startSync => syncerStep s s.syncer a
  | .receive => syncerStep s s.syncer a
  | .endRecords => syncerStep s s.syncer a
  | .syncLeaves => syncerStep s s.syncer a
  | .syncFails _ => syncerStep s s.syncer a
  | .meet => meet s
  | .cancel => if s.cancelled then none else some { s with cancelled := true }
  | _ => pullerStep conn s s.puller a

/-- A step without a failure or a cancellation. -/
def calmStep (conn : Connector) (s : State R n) (a : Action) : Option (State R n) :=
  if a.fails then none else step conn s a

/-! ### What a step can be -/

/-- The steps without a failure. -/
inductive Move (conn : Connector) (s : State R n) : State R n → Prop
  | startPull (hp : s.puller = .starting) : Move conn s { s with puller := .pulling }
  | readRecord {x : R} {unread : List R} (hp : s.puller = .pulling) (hu : s.unread = x :: unread) :
    Move conn s { s with
      unread := unread
      count := if conn = .mysql then s.count + 1 else s.count
      puller := .trying x }
  | endBatch (hp : s.puller = .pulling) (hu : s.unread = []) :
    Move conn s { s with puller := .leaving none }
  | push {x : R} {records : Chan R n} (hp : s.puller.sending = some x)
    (hpush : s.stream.records.push x = some records) :
    Move conn s { s with stream := { s.stream with records := records }, puller := .added }
  | giveUp {x : R} (hp : s.puller = .trying x) (hfull : n ≤ s.stream.records.queue.length) :
    Move conn s { s with puller := .blocked x }
  | meet {x : R} (hp : s.puller.sending = some x) (hs : s.syncer = .receiving) (hn : n = 0) :
    Move conn s { s with puller := .added, received := s.received ++ [x] }
  | count (hp : s.puller = .added) : Move conn s (countRecord conn s)
  | signalEmpty {err : Option String} (hp : s.puller = .leaving err) (hc : s.count = 0) :
    Move conn s (s.withStream s.stream.signalAsEmpty (.closing err))
  | signalled {err : Option String} (hp : s.puller = .leaving err) (hc : s.count ≠ 0) :
    Move conn s { s with puller := .closing err }
  | closeStream {err : Option String} (hp : s.puller = .closing err) :
    Move conn s { s.withStream s.stream.close (.returned err) with
      cancelled := s.cancelled || err.isSome }
  | noRecords (hm : s.main = .waiting) (hsignal : s.stream.emptySignal = true)
    (hempty : s.stream.empty = true) : Move conn s { s with main := .waitPull }
  | records (hm : s.main = .waiting) (hsignal : s.stream.emptySignal = true)
    (hempty : s.stream.empty = false) :
    Move conn s { s with main := .waitBoth, syncer := .starting }
  | pulled {err : Option String} (hm : s.main = .waitPull) (hp : s.puller = .returned err) :
    Move conn s { s with main := .returned }
  | synced {err err' : Option String} (hm : s.main = .waitBoth) (hp : s.puller = .returned err)
    (hs : s.syncer = .ended err') : Move conn s { s with main := .returned }
  | startSync (hs : s.syncer = .starting) : Move conn s { s with syncer := .receiving }
  | receive {x : R} {records : Chan R n} (hs : s.syncer = .receiving)
    (hpop : s.stream.records.pop = some (x, records)) :
    Move conn s { s with
      stream := { s.stream with records := records }
      received := s.received ++ [x] }
  | endRecords (hs : s.syncer = .receiving) (hdrained : s.stream.records.drained = true) :
    Move conn s { s with syncer := .ended none }

section

variable {conn : Connector} {s s' : State R n} {a : Action}

theorem pullerStep_move (h : pullerStep conn s s.puller a = some s') (ha : a.fails = false) :
    Move conn s s' := by
  unfold pullerStep at h
  split at h
  case h_1 hp =>
    cases h
    exact .startPull hp
  case h_3 hp =>
    split at h
    · cases h
    · rename_i hu
      cases h
      exact .readRecord hp hu
  case h_5 hp =>
    split_ifs at h with hu
    cases h
    exact .endBatch hp hu
  case h_6 hp | h_8 hp =>
    obtain ⟨records, hpush, rfl⟩ := Option.map_eq_some_iff.mp h
    exact .push (by rw [hp]; rfl) hpush
  case h_7 hp =>
    split_ifs at h with hfull
    cases h
    exact .giveUp hp (Nat.not_lt.mp hfull)
  case h_10 hp =>
    cases h
    exact .count hp
  case h_11 hp =>
    split_ifs at h with hc <;> cases h
    · exact .signalEmpty hp hc
    · exact .signalled hp hc
  case h_12 hp =>
    cases h
    exact .closeStream hp
  case h_13 => cases h
  -- the steps of a failure
  all_goals cases ha

theorem mainStep_move (h : mainStep s s.main = some s') : Move conn s s' := by
  unfold mainStep at h
  split at h
  case h_1 hm =>
    split_ifs at h with hsignal hempty <;> cases h
    · exact .noRecords hm hsignal hempty
    · exact .records hm hsignal (Bool.eq_false_iff.mpr hempty)
  case h_2 hm =>
    split at h <;> cases h
    exact .pulled hm ‹_›
  case h_3 hm =>
    split at h <;> cases h
    exact .synced hm ‹_› ‹_›
  case h_4 => cases h

theorem syncerStep_move (h : syncerStep s s.syncer a = some s') (ha : a.fails = false) :
    Move conn s s' := by
  unfold syncerStep at h
  split at h
  case h_1 hs =>
    cases h
    exact .startSync hs
  case h_2 hs =>
    obtain ⟨⟨x, records⟩, hpop, rfl⟩ := Option.map_eq_some_iff.mp h
    exact .receive hs hpop
  case h_3 hs =>
    split_ifs at h with hdrained
    cases h
    exact .endRecords hs hdrained
  case h_7 => cases h
  all_goals cases ha

theorem meet_move (h : meet s = some s') : Move conn s s' := by
  rw [meet] at h
  split at h
  · rename_i x hp hs
    split_ifs at h with hn
    cases h
    exact .meet hp hs hn
  · cases h

theorem step_move (h : calmStep conn s a = some s') : Move conn s s' := by
  rw [calmStep] at h
  split_ifs at h with hfails
  have ha : a.fails = false := Bool.eq_false_iff.mpr hfails
  cases a with
  | checkEmpty | finish =>
    simp only [step] at h
    split_ifs at h
    exact mainStep_move h
  | startSync | receive | endRecords | syncLeaves | syncFails => exact syncerStep_move h ha
  | meet => exact meet_move h
  | cancel => cases ha
  | _ => exact pullerStep_move h ha

end

/-! ### What every run without a failure keeps -/

/-- The number of records that have been sent. -/
def State.sent (s : State R n) : ℕ :=
  s.received.length + s.stream.records.queue.length

/-- A stream to which the puller still adds: it is signalled as not empty once a record was
counted. -/
structure CDCStream.Open (r : CDCStream R n) (counted : ℕ) : Prop where
  closed : r.records.closed = false
  lastCheckpointSet : r.lastCheckpointSet = false
  emptySet : r.emptySet = r.emptySignal
  emptySignal : r.emptySignal = true ↔ 0 < counted
  empty : r.empty = true ↔ counted = 0

/-- A stream that is signalled as empty or as not empty. -/
structure CDCStream.Signalled (r : CDCStream R n) (sent : ℕ) : Prop where
  emptySignal : r.emptySignal = true
  emptySet : r.emptySet = true
  empty : r.empty = true ↔ sent = 0

/-- What holds of the stream and the count at each place of the puller. -/
def Puller.Sound (conn : Connector) (r : CDCStream R n) (count sent : ℕ) (unread : List R) :
    Puller R → Prop
  | .starting => r.Open sent ∧ count = sent
  | .pulling => r.Open sent ∧ count = sent
  | .trying _ => r.Open sent ∧ count = if conn = .mysql then sent + 1 else sent
  | .blocked _ => r.Open sent ∧ count = if conn = .mysql then sent + 1 else sent
  | .added =>
    0 < sent ∧ r.Open (sent - 1) ∧ sent = if conn = .mysql then count else count + 1
  | .leaving _ => r.Open sent ∧ count = sent ∧ unread = []
  | .closing _ =>
    r.Signalled sent ∧ r.records.closed = false ∧ r.lastCheckpointSet = false ∧ unread = []
  | .returned _ => r.Signalled sent ∧ r.records.closed = true ∧ unread = []
  | .panicked => False

/-- What holds at each place of `pullAndSyncCore`. -/
def Main.Sound (batch : List R) (s : State R n) : Main → Prop
  | .waiting => s.syncer = .notStarted ∧ s.received = []
  | .waitPull =>
    (s.syncer = .notStarted ∧ s.received = []) ∧
      s.stream.emptySignal = true ∧ s.stream.empty = true
  | .waitBoth =>
    s.syncer ≠ .notStarted ∧ ∀ err, s.syncer = .ended err → s.stream.records.drained = true
  | .returned =>
    (s.syncer ≠ .starting ∧ s.syncer ≠ .receiving) ∧ s.stream.records.closed = true ∧
      s.received = batch

structure Sound (conn : Connector) (batch : List R) (s : State R n) : Prop where
  account : s.received ++ s.stream.records.queue ++ s.puller.sending.toList ++ s.unread = batch
  puller : s.puller.Sound conn s.stream s.count s.sent s.unread
  main : s.main.Sound batch s
  /-- A puller that waits for the syncer to be started found the buffer full. -/
  full : ∀ x, s.puller = .blocked x → s.syncer = .notStarted →
    n ≤ s.stream.records.queue.length

namespace CDCStream

variable {r : CDCStream R n} {counted sent : ℕ} {records : Chan R n}

theorem Open.new : (CDCStream.new R n).Open 0 :=
  ⟨rfl, rfl, rfl, by simp [CDCStream.new], by simp [CDCStream.new]⟩

/-- What is in the buffer does not matter. -/
theorem Open.withRecords (h : r.Open counted) (hclosed : records.closed = r.records.closed) :
    ({ r with records := records } : CDCStream R n).Open counted :=
  ⟨hclosed.trans h.closed, h.lastCheckpointSet, h.emptySet, h.emptySignal, h.empty⟩

theorem Signalled.withRecords (h : r.Signalled sent) :
    ({ r with records := records } : CDCStream R n).Signalled sent :=
  ⟨h.emptySignal, h.emptySet, h.empty⟩

theorem Open.not_signalled (h : r.Open 0) : ¬ r.emptySignal = true :=
  fun hsignal => Nat.lt_irrefl 0 (h.emptySignal.mp hsignal)

/-- The first record is signalled, without a panic. -/
theorem Open.signalAsNotEmpty (h : r.Open 0) :
    ∃ r', r.signalAsNotEmpty = some r' ∧ r'.records = r.records ∧ r'.Open 1 :=
  ⟨_, if_neg h.not_signalled, rfl, h.closed, h.lastCheckpointSet, rfl, by simp, by simp⟩

theorem Open.signalAsEmpty (h : r.Open 0) :
    ∃ r', r.signalAsEmpty = some r' ∧ r'.records = r.records ∧
      r'.lastCheckpointSet = false ∧ r'.Signalled 0 :=
  ⟨_, if_neg h.not_signalled, rfl, h.lastCheckpointSet, rfl, rfl, h.empty⟩

/-- A signalled stream is closed without a panic. -/
theorem Signalled.close (h : r.Signalled sent) (hset : r.lastCheckpointSet = false) :
    ∃ r', r.close = some r' ∧ r'.records = r.records.close ∧ r'.Signalled sent := by
  refine ⟨{ r with lastCheckpointSet := true, records := r.records.close }, ?_, rfl,
    h.emptySignal, h.emptySet, h.empty⟩
  simp [CDCStream.close, hset, h.emptySet]

end CDCStream

theorem Sound.init (conn : Connector) (batch : List R) :
    Sound conn batch (State.init n batch) where
  account := rfl
  puller := ⟨.new, rfl⟩
  main := ⟨rfl, rfl⟩
  full := nofun

/-- Receiving a record changes nothing for the puller. -/
theorem Puller.Sound.withRecords {conn : Connector} {r : CDCStream R n} {count sent : ℕ}
    {unread : List R} {records : Chan R n} {p : Puller R}
    (h : p.Sound conn r count sent unread) (hclosed : records.closed = r.records.closed) :
    p.Sound conn { r with records := records } count sent unread := by
  cases p with
  | starting | pulling | trying | blocked | leaving => exact ⟨h.1.withRecords hclosed, h.2⟩
  | added => exact ⟨h.1, h.2.1.withRecords hclosed, h.2.2⟩
  | closing | returned => exact ⟨h.1.withRecords, hclosed.trans h.2.1, h.2.2⟩
  | panicked => exact h

section

variable {conn : Connector} {batch : List R} {s s' : State R n}

/-- While the puller adds records, nobody has seen an empty batch. -/
theorem CDCStream.Open.not_waitPull {counted : ℕ} (hopen : s.stream.Open counted)
    (h : s.main.Sound batch s) : s.main ≠ .waitPull := by
  intro hm
  rw [hm] at h
  have hpos := hopen.emptySignal.mp h.2.1
  have hzero := hopen.empty.mp h.2.2
  omega

/-- Before the stream is closed, a step of the puller leaves the others where they are. -/
theorem Main.Sound.keep (h : s.main.Sound batch s) (hclosed : s.stream.records.closed = false)
    (hmain : s'.main = s.main) (hsyncer : s'.syncer = s.syncer)
    (hreceived : s'.received = s.received)
    (hempty : s.main = .waitPull → s'.stream.emptySignal = true ∧ s'.stream.empty = true) :
    s'.main.Sound batch s' := by
  rw [hmain]
  cases hm : s.main with
  | waiting =>
    rw [hm] at h
    exact ⟨hsyncer.trans h.1, hreceived.trans h.2⟩
  | waitPull =>
    rw [hm] at h
    exact ⟨⟨hsyncer.trans h.1.1, hreceived.trans h.1.2⟩, hempty hm⟩
  | waitBoth =>
    rw [hm] at h
    refine ⟨hsyncer ▸ h.1, fun err hended => ?_⟩
    have hdrained := Chan.drained_iff.mp (h.2 err (hsyncer ▸ hended))
    rw [hclosed] at hdrained
    exact absurd hdrained.1 Bool.false_ne_true
  | returned =>
    rw [hm] at h
    exact absurd (hclosed.symm.trans h.2.1) Bool.false_ne_true

/-- A step of a puller that still adds records. -/
theorem Sound.move {counted : ℕ} (h : Sound conn batch s) (hopen : s.stream.Open counted)
    (haccount : s'.received ++ s'.stream.records.queue ++ s'.puller.sending.toList ++ s'.unread =
      s.received ++ s.stream.records.queue ++ s.puller.sending.toList ++ s.unread)
    (hpuller : s'.puller.Sound conn s'.stream s'.count s'.sent s'.unread)
    (hmain : s'.main = s.main) (hsyncer : s'.syncer = s.syncer)
    (hreceived : s'.received = s.received)
    (hfull : ∀ x, s'.puller = .blocked x → n ≤ s'.stream.records.queue.length) :
    Sound conn batch s' where
  account := haccount.trans h.account
  puller := hpuller
  main := h.main.keep hopen.closed hmain hsyncer hreceived
    fun hm => absurd hm (hopen.not_waitPull h.main)
  full x hx _ := hfull x hx

theorem Puller.Sound.sending {r : CDCStream R n} {count sent : ℕ} {unread : List R}
    {p : Puller R} {x : R} (h : p.Sound conn r count sent unread) (hp : p.sending = some x) :
    r.Open sent ∧ count = if conn = .mysql then sent + 1 else sent := by
  cases p with
  | trying | blocked => exact h
  | _ => cases hp

theorem Puller.Sound.added {r : CDCStream R n} {count sent sent' : ℕ} {unread : List R}
    (hopen : r.Open sent) (hcount : count = if conn = .mysql then sent + 1 else sent)
    (hsent : sent' = sent + 1) : Puller.added.Sound conn r count sent' unread := by
  subst hsent
  refine ⟨Nat.succ_pos _, hopen, ?_⟩
  cases conn with
  | postgres | mysql => simpa using hcount.symm

theorem countRecord_eq (conn : Connector) (s : State R n) :
    ∃ count, count = (if conn = .mysql then s.count else s.count + 1) ∧
      countRecord conn s =
        if count = 1 then
          ({ s with count := count } : State R n).withStream s.stream.signalAsNotEmpty .pulling
        else { s with count := count, puller := .pulling } := by
  cases conn with
  | postgres => exact ⟨s.count + 1, rfl, rfl⟩
  | mysql => exact ⟨s.count, rfl, rfl⟩

/-- The first record is signalled, and every other one only counted. -/
theorem Sound.count (h : Sound conn batch s) (hp : s.puller = .added) :
    Sound conn batch (countRecord conn s) := by
  have hpuller := h.puller
  rw [hp] at hpuller
  obtain ⟨hsent, hopen, hcount⟩ := hpuller
  obtain ⟨count, hc, heq⟩ := countRecord_eq conn s
  obtain rfl : count = s.sent := hc.trans hcount.symm
  rw [heq]
  split_ifs with hone
  · rw [hone] at hopen
    obtain ⟨r', hr', hrecords, hopen'⟩ := hopen.signalAsNotEmpty
    rw [hr']
    refine h.move hopen ?_ ⟨?_, ?_⟩ rfl rfl rfl nofun
    · simp [State.withStream, hrecords, hp, Puller.sending]
    · simpa [State.withStream, State.sent, hrecords, ← hone] using hopen'
    · simp [State.withStream, State.sent, hrecords]
  · refine h.move hopen ?_ ⟨?_, rfl⟩ rfl rfl rfl nofun
    · simp [hp, Puller.sending]
    · exact ⟨hopen.closed, hopen.lastCheckpointSet, hopen.emptySet,
        hopen.emptySignal.trans (by show 0 < s.sent - 1 ↔ 0 < s.sent; omega),
        hopen.empty.trans (by show s.sent - 1 = 0 ↔ s.sent = 0; omega)⟩

/-- A step of one of the others, who take records from the buffer or nothing. -/
theorem Sound.other (h : Sound conn batch s)
    (haccount : s'.received ++ s'.stream.records.queue = s.received ++ s.stream.records.queue)
    (hclosed : s'.stream.records.closed = s.stream.records.closed)
    (hstream : s'.stream = { s.stream with records := s'.stream.records })
    (hpuller : s'.puller = s.puller) (hcount : s'.count = s.count) (hunread : s'.unread = s.unread)
    (hmain : s'.main.Sound batch s')
    (hfull : s'.syncer = .notStarted → s.syncer = .notStarted ∧ s'.stream = s.stream) :
    Sound conn batch s' where
  account := by
    rw [haccount, hpuller, hunread]
    exact h.account
  puller := by
    have hsent : s'.sent = s.sent := by
      have hlength := congrArg List.length haccount
      rw [List.length_append, List.length_append] at hlength
      exact hlength
    rw [hstream, hpuller, hcount, hunread, hsent]
    exact h.puller.withRecords hclosed
  main := hmain
  full x hx hs := by
    obtain ⟨hs, hstream⟩ := hfull hs
    rw [hstream]
    exact h.full x (hpuller ▸ hx) hs

theorem Sound.complete {err : Option String} (h : Sound conn batch s)
    (hp : s.puller = .returned err) (hqueue : s.stream.records.queue = []) :
    s.received = batch := by
  have hunread : s.unread = [] := by
    have hpuller := h.puller
    rw [hp] at hpuller
    exact hpuller.2.2
  have haccount := h.account
  rw [hqueue, hunread, hp] at haccount
  simpa [Puller.sending] using haccount

theorem Sound.main_eq (h : Sound conn batch s) (hs : s.syncer = .starting ∨ s.syncer = .receiving) :
    s.main = .waitBoth := by
  have hmain := h.main
  cases hm : s.main with
  | waitBoth => rfl
  | waiting | waitPull | returned =>
    rw [hm] at hmain
    simp only [Main.Sound] at hmain
    simp_all

theorem Sound.syncer (h : Sound conn batch s) (hs : s.syncer = .starting ∨ s.syncer = .receiving)
    (haccount : s'.received ++ s'.stream.records.queue = s.received ++ s.stream.records.queue)
    (hclosed : s'.stream.records.closed = s.stream.records.closed)
    (hstream : s'.stream = { s.stream with records := s'.stream.records })
    (hpuller : s'.puller = s.puller) (hcount : s'.count = s.count) (hunread : s'.unread = s.unread)
    (hmain : s'.main = s.main) (hstarted : s'.syncer ≠ .notStarted)
    (hended : ∀ err, s'.syncer = .ended err → s'.stream.records.drained = true) :
    Sound conn batch s' := by
  refine h.other haccount hclosed hstream hpuller hcount hunread ?_ fun hs => absurd hs hstarted
  rw [hmain, h.main_eq hs]
  exact ⟨hstarted, hended⟩

theorem Sound.step (h : Sound conn batch s) (hmove : Move conn s s') : Sound conn batch s' := by
  have hpuller := h.puller
  cases hmove with
  | startPull hp =>
    rw [hp] at hpuller
    exact h.move hpuller.1 (by simp [hp, Puller.sending]) hpuller rfl rfl rfl nofun
  | readRecord hp hu =>
    rw [hp] at hpuller
    refine h.move hpuller.1 (by simp [hp, hu, Puller.sending]) ⟨hpuller.1, ?_⟩ rfl rfl rfl nofun
    show (if conn = .mysql then s.count + 1 else s.count) = _
    rw [hpuller.2]
    rfl
  | endBatch hp hu =>
    rw [hp] at hpuller
    exact h.move hpuller.1 (by simp [hp, Puller.sending]) ⟨hpuller.1, hpuller.2, hu⟩ rfl rfl rfl
      nofun
  | @push x records hp hpush =>
    obtain ⟨hopen, hcount⟩ := hpuller.sending hp
    obtain ⟨hlt, hqueue, hclosed⟩ := Chan.push_eq_some hpush
    refine h.move hopen ?_ (.added (hopen.withRecords hclosed) hcount ?_) rfl rfl rfl nofun
    · rw [hp]
      simp [hqueue, Puller.sending]
    · simp [State.sent, hqueue, Nat.add_assoc]
  | giveUp hp hfull =>
    rw [hp] at hpuller
    exact h.move hpuller.1 (by simp [hp, Puller.sending]) hpuller rfl rfl rfl fun _ _ => hfull
  | @meet x hp hs hn =>
    obtain ⟨hopen, hcount⟩ := hpuller.sending hp
    have hqueue : s.stream.records.queue = [] :=
      List.eq_nil_of_length_eq_zero (Nat.le_zero.mp (hn ▸ s.stream.records.length_le))
    refine ⟨?_, .added hopen hcount ?_, ?_, nofun⟩
    · rw [← h.account, hp, hqueue]
      simp [Puller.sending]
    · simp [State.sent, Nat.add_right_comm]
    · show s.main.Sound batch _
      rw [h.main_eq (.inr hs)]
      simp [Main.Sound, hs]
  | count hp => exact h.count hp
  | signalEmpty hp hc =>
    rw [hp] at hpuller
    obtain ⟨hopen, hcount, hunread⟩ := hpuller
    have hsent : s.sent = 0 := hcount.symm.trans hc
    rw [hsent] at hopen
    obtain ⟨r', hr', hrecords, hset, hsignalled⟩ := hopen.signalAsEmpty
    rw [hr']
    refine h.move hopen ?_ ⟨?_, ?_, hset, hunread⟩ rfl rfl rfl nofun
    · simp [State.withStream, hrecords, hp, Puller.sending]
    · simpa [State.withStream, State.sent, hrecords, ← hsent] using hsignalled
    · show r'.records.closed = false
      rw [hrecords]
      exact hopen.closed
  | signalled hp hc =>
    rw [hp] at hpuller
    obtain ⟨hopen, hcount, hunread⟩ := hpuller
    have hpos : 0 < s.sent := by omega
    have hsignal := hopen.emptySignal.mpr hpos
    refine h.move hopen (by simp [hp, Puller.sending]) ⟨⟨hsignal, ?_, hopen.empty⟩, hopen.closed,
      hopen.lastCheckpointSet, hunread⟩ rfl rfl rfl nofun
    exact hopen.emptySet.trans hsignal
  | closeStream hp =>
    rw [hp] at hpuller
    obtain ⟨hsignalled, hclosed, hset, hunread⟩ := hpuller
    obtain ⟨r', hr', hrecords, hsignalled'⟩ := hsignalled.close hset
    have hqueue : r'.records.queue = s.stream.records.queue := by rw [hrecords]; rfl
    rw [hr']
    refine ⟨?_, ⟨?_, ?_, hunread⟩, ?_, nofun⟩
    · rw [← h.account, hp]
      simp [State.withStream, hqueue, Puller.sending]
    · simpa [State.withStream, State.sent, hqueue] using hsignalled'
    · show r'.records.closed = true
      rw [hrecords]
      rfl
    · refine h.main.keep hclosed rfl rfl rfl fun hm => ⟨hsignalled'.emptySignal, ?_⟩
      have hmain := h.main
      rw [hm] at hmain
      exact hsignalled'.empty.mpr (hsignalled.empty.mp hmain.2.2)
  | noRecords hm hsignal hempty =>
    have hmain := h.main
    rw [hm] at hmain
    exact h.other rfl rfl rfl rfl rfl rfl ⟨hmain, hsignal, hempty⟩ fun hs => ⟨hs, rfl⟩
  | records hm hsignal hempty =>
    exact h.other rfl rfl rfl rfl rfl rfl ⟨nofun, nofun⟩ nofun
  | pulled hm hp =>
    have hmain := h.main
    rw [hm] at hmain
    rw [hp] at hpuller
    -- nothing was sent, so nothing is in the buffer
    have hsent := hpuller.1.empty.mp hmain.2.2
    have hqueue : s.stream.records.queue = [] := by
      rw [State.sent] at hsent
      exact List.eq_nil_of_length_eq_zero (by omega)
    exact h.other rfl rfl rfl rfl rfl rfl
      ⟨by simp [hmain.1.1], hpuller.2.1, h.complete hp hqueue⟩ fun hs => ⟨hs, rfl⟩
  | synced hm hp hs =>
    have hmain := h.main
    rw [hm] at hmain
    obtain ⟨hclosed, hqueue⟩ := Chan.drained_iff.mp (hmain.2 _ hs)
    exact h.other rfl rfl rfl rfl rfl rfl ⟨by simp [hs], hclosed, h.complete hp hqueue⟩
      fun hs => ⟨hs, rfl⟩
  | startSync hs => exact h.syncer (.inl hs) rfl rfl rfl rfl rfl rfl rfl nofun nofun
  | receive hs hpop =>
    obtain ⟨hqueue, hclosed⟩ := Chan.pop_eq_some hpop
    refine h.syncer (.inr hs) ?_ hclosed rfl rfl rfl rfl rfl (by simp [hs]) (by simp [hs])
    rw [hqueue]
    exact List.append_assoc _ _ _
  | endRecords hs hdrained =>
    exact h.syncer (.inr hs) rfl rfl rfl rfl rfl rfl rfl nofun fun _ _ => hdrained

end

/-! ### Every run ends -/

def Puller.weight : Puller R → ℕ
  | .trying _ => 7
  | .blocked _ => 6
  | .starting => 4
  | .added => 4
  | .pulling => 3
  | .leaving _ => 2
  | .closing _ => 1
  | .returned _ => 0
  | .panicked => 0

def Main.weight : Main → ℕ
  | .waiting => 4
  | .waitPull => 1
  | .waitBoth => 1
  | .returned => 0

def Syncer.weight : Syncer → ℕ
  | .starting => 2
  | .receiving => 1
  | .notStarted => 0
  | .ended _ => 0

/-- A record costs the steps that read, send and count it, and the one that receives it. -/
def State.weight (s : State R n) : ℕ :=
  6 * s.unread.length + s.puller.weight + s.stream.records.queue.length + s.main.weight +
    s.syncer.weight

theorem State.weight_withStream (s : State R n) {stream : Option (CDCStream R n)}
    (hrecords : ∀ r, stream = some r → r.records.queue = s.stream.records.queue)
    {p : Puller R} (hp : p.weight < s.puller.weight) :
    (s.withStream stream p).weight < s.weight := by
  cases stream with
  | none =>
    have hzero : (Puller.panicked : Puller R).weight = 0 := rfl
    simp only [withStream, State.weight]
    omega
  | some r =>
    simp only [withStream, State.weight, hrecords r rfl]
    omega

namespace CDCStream

variable {r r' : CDCStream R n}

theorem closeEmptySignal_records (h : r.closeEmptySignal = some r') : r'.records = r.records := by
  rw [closeEmptySignal] at h
  split_ifs at h
  cases h
  rfl

theorem signalAsEmpty_records (h : r.signalAsEmpty = some r') : r'.records = r.records :=
  closeEmptySignal_records (r := { r with emptySet := true }) h

theorem signalAsNotEmpty_records (h : r.signalAsNotEmpty = some r') : r'.records = r.records :=
  closeEmptySignal_records (r := { r with empty := false, emptySet := true }) h

theorem close_queue (h : r.close = some r') : r'.records.queue = r.records.queue := by
  rw [close] at h
  dsimp only at h
  split_ifs at h
  · cases h
    rfl
  · cases h
    rfl
  · rw [closeEmptySignal_records h]
    rfl

end CDCStream

attribute [local simp] calmStep Action.fails step pullerStep mainStep syncerStep

section

variable {conn : Connector} {batch : List R} {s s' : State R n}

theorem Puller.added_lt_of_sending {p : Puller R} {x : R} (h : p.sending = some x) :
    (Puller.added : Puller R).weight + 1 < p.weight := by
  cases p with
  | trying | blocked => simp [Puller.weight]
  | _ => cases h

theorem countRecord_weight (hp : s.puller = .added) : (countRecord conn s).weight < s.weight := by
  have hlt : (Puller.pulling : Puller R).weight < s.puller.weight := by
    rw [hp]
    exact Nat.lt_succ_self 3
  obtain ⟨count, -, heq⟩ := countRecord_eq conn s
  rw [heq]
  split_ifs
  · exact State.weight_withStream { s with count := count }
      (fun r hr => congrArg Chan.queue (CDCStream.signalAsNotEmpty_records hr)) hlt
  · simp only [State.weight]
    omega

theorem Move.weight (hmove : Move conn s s') : s'.weight < s.weight := by
  cases hmove with
  | startPull hp | endBatch hp | giveUp hp | signalled hp =>
    simp only [State.weight, hp, Puller.weight]
    omega
  | readRecord hp hu =>
    simp only [State.weight, hp, hu, Puller.weight, List.length_cons]
    omega
  | push hp hpush =>
    have hlt := Puller.added_lt_of_sending hp
    obtain ⟨-, hqueue, -⟩ := Chan.push_eq_some hpush
    simp only [State.weight, hqueue, List.length_append, List.length_singleton]
    omega
  | meet hp =>
    have hlt := Puller.added_lt_of_sending hp
    simp only [State.weight]
    omega
  | count hp => exact countRecord_weight hp
  | signalEmpty hp hc =>
    exact s.weight_withStream
      (fun r hr => congrArg Chan.queue (CDCStream.signalAsEmpty_records hr))
      (by rw [hp]; exact Nat.lt_succ_self 1)
  | closeStream hp =>
    exact s.weight_withStream (fun r hr => CDCStream.close_queue hr)
      (by rw [hp]; exact Nat.lt_succ_self 0)
  | noRecords hm | records hm | pulled hm | synced hm =>
    simp only [State.weight, hm, Main.weight, Syncer.weight]
    omega
  | startSync hs | endRecords hs =>
    simp only [State.weight, hs, Syncer.weight]
    omega
  | receive hs hpop =>
    obtain ⟨hqueue, -⟩ := Chan.pop_eq_some hpop
    simp only [State.weight, hqueue, List.length_cons]
    omega

/-! ### Progress -/

/-- Once the batch is signalled, the others can take a step as long as there is something to
receive or the puller has returned. -/
theorem exists_other_step (h : Sound conn batch s) (hsignal : s.stream.emptySignal = true)
    (hready : (s.stream.records.queue ≠ [] ∨ s.stream.records.closed = true) ∧
      (s.main ≠ .waitPull ∧ s.stream.records.queue ≠ [] ∨ ∃ err, s.puller = .returned err)) :
    (∃ a s', calmStep conn s a = some s') ∨ s.main = .returned := by
  have hmain := h.main
  cases hm : s.main with
  | returned => exact .inr rfl
  | waiting =>
    refine .inl ⟨.checkEmpty, ?_⟩
    cases hempty : s.stream.empty with
    | true | false => exact ⟨_, by simp [hm, hsignal, hempty]; rfl⟩
  | waitPull =>
    rcases hready.2 with hnot | ⟨err, hp⟩
    · exact absurd hm hnot.1
    · exact .inl ⟨.finish, _, by simp [hm, hp]; rfl⟩
  | waitBoth =>
    rw [hm] at hmain
    cases hs : s.syncer with
    | notStarted => exact absurd hs hmain.1
    | starting => exact .inl ⟨.startSync, _, by simp [hs]; rfl⟩
    | receiving =>
      by_cases hqueue : s.stream.records.queue = []
      · have hclosed : s.stream.records.closed = true := by
          rcases hready.1 with hne | hclosed
          · exact absurd hqueue hne
          · exact hclosed
        have hdrained := Chan.drained_iff.mpr ⟨hclosed, hqueue⟩
        exact .inl ⟨.endRecords, _, by simp [hs, hdrained]; rfl⟩
      · obtain ⟨x, records, hpop⟩ := Chan.exists_pop hqueue
        exact .inl ⟨.receive, _, by simp [hs, hpop]; rfl⟩
    | ended err =>
      have hqueue := (Chan.drained_iff.mp (hmain.2 err hs)).2
      rcases hready.2 with hnot | ⟨err', hp⟩
      · exact absurd hqueue hnot.2
      · exact .inl ⟨.finish, _, by simp [hm, hp, hs]; rfl⟩

/-- **No deadlock with a buffer.** -/
theorem exists_step (h : Sound conn batch s) (hn : 1 ≤ n ∨ batch = []) :
    (∃ a s', calmStep conn s a = some s') ∨ s.main = .returned := by
  have hpuller := h.puller
  cases hp : s.puller with
  | starting => exact .inl ⟨.startPull none, _, by simp [hp]; rfl⟩
  | pulling =>
    cases hu : s.unread with
    | nil => exact .inl ⟨.endBatch, _, by simp [hp, hu]; rfl⟩
    | cons x unread => exact .inl ⟨.readRecord, _, by simp [hp, hu]; rfl⟩
  | trying x =>
    by_cases hfull : s.stream.records.queue.length < n
    · obtain ⟨records, hpush⟩ := Chan.exists_push hfull x
      exact .inl ⟨.trySend, _, by simp [State.push, hp, hpush]; rfl⟩
    · exact .inl ⟨.giveUp, _, by simp [hp, hfull]; rfl⟩
  | blocked x =>
    rw [hp] at hpuller
    by_cases hfull : s.stream.records.queue.length < n
    · obtain ⟨records, hpush⟩ := Chan.exists_push hfull x
      exact .inl ⟨.send, _, by simp [State.push, hp, hpush]; rfl⟩
    · -- the buffer is full, so a record was sent and the batch is signalled
      have hlength : 0 < s.stream.records.queue.length := by
        rcases hn with hn | hbatch
        · omega
        · have haccount := h.account
          rw [hp, hbatch] at haccount
          simp [Puller.sending] at haccount
      have hqueue := List.ne_nil_of_length_pos hlength
      have hsent : 0 < s.sent := by
        rw [State.sent]
        omega
      exact exists_other_step h (hpuller.1.emptySignal.mpr hsent)
        ⟨.inl hqueue, .inl ⟨hpuller.1.not_waitPull h.main, hqueue⟩⟩
  | added => exact .inl ⟨.count, _, by simp [hp]; rfl⟩
  | leaving err =>
    by_cases hc : s.count = 0 <;> exact .inl ⟨.signalEmpty, _, by simp [hp, hc]; rfl⟩
  | closing err => exact .inl ⟨.closeStream, _, by simp [hp]; rfl⟩
  | returned err =>
    rw [hp] at hpuller
    exact exists_other_step h hpuller.1.emptySignal ⟨.inr hpuller.2.1, .inr ⟨err, hp⟩⟩
  | panicked =>
    rw [hp] at hpuller
    exact absurd hpuller id

theorem sound_of_run {acts : List Action}
    (hrun : runs (calmStep conn) (State.init n batch) acts = some s) : Sound conn batch s :=
  runs_keeps (Sound conn batch) (fun _ _ _ h hstep => h.step (step_move hstep))
    (.init conn batch) hrun

theorem length_of_run {acts : List Action}
    (hrun : runs (calmStep conn) (State.init n batch) acts = some s) :
    acts.length ≤ 6 * batch.length + 8 := by
  have hle := runs_length_le State.weight (fun _ => True)
    (fun _ _ _ _ hstep => ⟨trivial, (step_move hstep).weight⟩) trivial hrun
  have hinit : (State.init n batch).weight = 6 * batch.length + 8 := rfl
  omega

end

/-! ### A buffer that is too short -/

/-- The first `k` records of the batch are in the buffer, and nothing else has happened. -/
structure Filled (batch : List R) (k : ℕ) (s : State R n) : Prop where
  puller : s.puller = .pulling
  main : s.main = .waiting
  syncer : s.syncer = .notStarted
  unread : s.unread = batch.drop k
  queue : s.stream.records.queue = batch.take k

theorem countRecord_keeps (conn : Connector) (s : State R n) :
    (countRecord conn s).main = s.main ∧ (countRecord conn s).syncer = s.syncer ∧
      (countRecord conn s).unread = s.unread ∧
      (countRecord conn s).stream.records = s.stream.records ∧
      ((countRecord conn s).puller = .pulling ∨ (countRecord conn s).puller = .panicked) := by
  obtain ⟨count, -, heq⟩ := countRecord_eq conn s
  rw [heq]
  split_ifs
  · cases hr : s.stream.signalAsNotEmpty with
    | none => exact ⟨rfl, rfl, rfl, rfl, .inr rfl⟩
    | some r => exact ⟨rfl, rfl, rfl, CDCStream.signalAsNotEmpty_records hr, .inl rfl⟩
  · exact ⟨rfl, rfl, rfl, rfl, .inl rfl⟩

/-- The next record is read. -/
def State.reads (conn : Connector) (s : State R n) (x : R) (unread : List R) : State R n :=
  { s with
    unread := unread
    count := if conn = .mysql then s.count + 1 else s.count
    puller := .trying x }

theorem Filled.reads {conn : Connector} {batch : List R} {k : ℕ} {s : State R n}
    (h : Filled batch k s) (hk : k < batch.length) :
    calmStep conn s .readRecord = some (s.reads conn batch[k] (batch.drop (k + 1))) := by
  have hunread : s.unread = batch[k] :: batch.drop (k + 1) := by
    rw [h.unread, List.drop_eq_getElem_cons hk]
  simp only [calmStep, Action.fails, step, pullerStep, h.puller, hunread]
  rfl

/-- The puller can fill the buffer before `pullAndSyncCore` takes its first step. -/
theorem exists_filled (conn : Connector) (batch : List R) :
    ∀ k, k ≤ n → k ≤ batch.length →
      ∃ acts s, runs (calmStep conn) (State.init n batch) acts = some s ∧ Filled batch k s := by
  intro k
  induction k with
  | zero =>
    intro _ _
    exact ⟨[.startPull none], _, rfl, rfl, rfl, rfl, rfl, rfl⟩
  | succ k ih =>
    intro hn hlength
    obtain ⟨acts, s, hrun, hs⟩ := ih (by omega) (by omega)
    have hroom : s.stream.records.queue.length < n := by
      rw [hs.queue, List.length_take]
      omega
    obtain ⟨records, hpush⟩ := Chan.exists_push hroom batch[k]
    obtain ⟨-, hqueue, -⟩ := Chan.push_eq_some hpush
    let s₁ := s.reads conn batch[k] (batch.drop (k + 1))
    let s₂ : State R n :=
      { s₁ with stream := { s.stream with records := records }, puller := .added }
    have hsend : calmStep conn s₁ .trySend = some s₂ := by
      simp [State.push, State.reads, hpush, s₁, s₂]
    have hcount : calmStep conn s₂ .count = some (countRecord conn s₂) := rfl
    have hrun' : runs (calmStep conn) (State.init n batch)
        (acts ++ [.readRecord, .trySend, .count]) = some (countRecord conn s₂) := by
      rw [runs_append, hrun]
      simp only [Option.bind_some, runs, hs.reads (by omega), hsend, hcount, s₁]
    obtain ⟨hmain, hsyncer, hdrop, hrecords, hpuller⟩ := countRecord_keeps conn s₂
    refine ⟨_, _, hrun', ?_, hmain.trans hs.main, hsyncer.trans hs.syncer, hdrop, ?_⟩
    · rcases hpuller with hpuller | hpanicked
      · exact hpuller
      · -- a run never panics
        have hsound := (sound_of_run hrun').puller
        rw [hpanicked] at hsound
        exact absurd hsound id
    · rw [hrecords, show s₂.stream.records.queue = records.queue from rfl, hqueue, hs.queue,
        List.take_succ_eq_append_getElem (by omega)]

/-- A batch that is longer than the buffer can block the puller before the syncer is
started. -/
theorem exists_blocked (conn : Connector) {batch : List R} (hlong : n < batch.length) :
    ∃ acts s, runs (calmStep conn) (State.init n batch) acts = some s ∧
      (∃ x, s.puller = .blocked x) ∧ s.main = .waiting ∧ s.syncer = .notStarted ∧
      s.stream.records.queue = batch.take n := by
  obtain ⟨acts, s, hrun, hs⟩ := exists_filled conn batch n (Nat.le_refl n) (Nat.le_of_lt hlong)
  have hfull : ¬s.stream.records.queue.length < n := by
    rw [hs.queue, List.length_take]
    omega
  let s₁ := s.reads conn batch[n] (batch.drop (n + 1))
  have hgive : calmStep conn s₁ .giveUp = some { s₁ with puller := .blocked batch[n] } := by
    simp [State.reads, hfull, s₁]
  refine ⟨acts ++ [.readRecord, .giveUp], { s₁ with puller := .blocked batch[n] }, ?_,
    ⟨batch[n], rfl⟩, hs.main, hs.syncer, hs.queue⟩
  rw [runs_append, hrun]
  simp only [Option.bind_some, runs, hs.reads hlong, hgive, s₁]

/-! ### The hand-off -/

/-- Every interleaving without a failure or a cancellation hands the batch over: it has a
bounded number of steps, and where no further step can be taken the call has returned and every
record was received. -/
def Completes (conn : Connector) (n : ℕ) (batch : List R) : Prop :=
  ∀ acts (s : State R n), runs (calmStep conn) (State.init n batch) acts = some s →
    acts.length ≤ 6 * batch.length + 8 ∧
      ((∃ a s', calmStep conn s a = some s') ∨ s.main = .returned ∧ s.received = batch)

/-- The puller is never blocked on sending before the syncer is started. -/
def NeverBlocked (conn : Connector) (n : ℕ) (batch : List R) : Prop :=
  ∀ acts (s : State R n), runs (calmStep conn) (State.init n batch) acts = some s →
    ∀ x, s.puller = .blocked x → s.syncer ≠ .notStarted

theorem stuck_of_blocked {conn : Connector} {s : State R n} {x : R} (hp : s.puller = .blocked x)
    (hfull : n ≤ s.stream.records.queue.length) (hm : s.main = .waiting)
    (hsignal : s.stream.emptySignal = false) (hs : s.syncer = .notStarted) (a : Action) :
    calmStep conn s a = none := by
  have hpush : s.stream.records.push x = none := dif_neg (Nat.not_lt.mpr hfull)
  cases a with
  | startPull err => cases err <;> simp [hp]
  | send => simp [State.push, hp, hpush]
  | checkEmpty | finish => simp [hm, hsignal]
  | meet => simp [meet, hs]
  | startSync | receive | endRecords => simp [hs]
  | sourceFails | syncFails | ctxDone | cancel => rfl
  | _ => simp [hp]

/-- Without a buffer the first record stops every goroutine. -/
theorem unbuffered_stuck (conn : Connector) {batch : List R} (hbatch : batch ≠ []) :
    ∃ acts, ∃ s : State R 0, runs (calmStep conn) (State.init 0 batch) acts = some s ∧
      s.main = .waiting ∧ ∀ a, calmStep conn s a = none := by
  obtain ⟨acts, s, hrun, ⟨x, hx⟩, hm, hs, hqueue⟩ :=
    exists_blocked conn (List.length_pos_of_ne_nil hbatch)
  have hsound := sound_of_run hrun
  have hreceived : s.received = [] := by
    have hmain := hsound.main
    rw [hm] at hmain
    exact hmain.2
  -- nothing was sent, so nothing was signalled
  have hsignal : s.stream.emptySignal = false := by
    have hpuller := hsound.puller
    rw [hx, State.sent, hreceived, hqueue] at hpuller
    exact Bool.eq_false_iff.mpr fun h => Nat.lt_irrefl 0 (hpuller.1.emptySignal.mp h)
  exact ⟨acts, s, hrun, hm, stuck_of_blocked hx (Nat.zero_le _) hm hsignal hs⟩

/-- A stream that can still be closed; it was signalled only if `signals`. -/
structure CDCStream.Fresh (r : CDCStream R n) (signals : Prop) : Prop where
  closed : r.records.closed = false
  lastCheckpointSet : r.lastCheckpointSet = false
  emptySet : r.emptySet = r.emptySignal
  signalled : r.emptySignal = true → signals

/-- The count that `countRecord` compares with one. -/
def counted (conn : Connector) (count : ℕ) : ℕ := if conn = .mysql then count else count + 1

/-- What holds at each place of the puller whatever fails; `lost` was not sent. -/
def Puller.Safe (conn : Connector) (r : CDCStream R n) (count : ℕ) (unread lost : List R) :
    Puller R → Prop
  | .starting => r.Fresh (0 < count) ∧ lost = unread
  | .pulling => r.Fresh (0 < count) ∧ lost = unread
  | .trying x => r.Fresh (1 < counted conn count) ∧ lost = x :: unread
  | .blocked x => r.Fresh (1 < counted conn count) ∧ lost = x :: unread
  | .added => r.Fresh (1 < counted conn count) ∧ lost = unread
  | .leaving err => r.Fresh (0 < count) ∧ (err = none → lost = [])
  | .closing err => r.Fresh True ∧ (err = none → lost = [])
  | .returned err => err = none → lost = []
  | .panicked => False

def Safe (conn : Connector) (batch : List R) (s : State R n) : Prop :=
  ∃ lost, s.puller.Safe conn s.stream s.count s.unread lost ∧
    s.received ++ s.stream.records.queue ++ lost = batch

namespace CDCStream

variable {r : CDCStream R n} {p q : Prop} {records : Chan R n}

theorem Fresh.mono (h : r.Fresh p) (hpq : p → q) : r.Fresh q :=
  { h with signalled := fun hsignal => hpq (h.signalled hsignal) }

theorem Fresh.withRecords (h : r.Fresh p) (hclosed : records.closed = r.records.closed) :
    ({ r with records := records } : CDCStream R n).Fresh p :=
  { h with closed := hclosed.trans h.closed }

theorem Fresh.signalAsNotEmpty (h : r.Fresh p) (hp : ¬ p) :
    ∃ r', r.signalAsNotEmpty = some r' ∧ r'.records = r.records ∧ r'.Fresh True :=
  ⟨_, if_neg fun hsignal => hp (h.signalled hsignal), rfl, h.closed, h.lastCheckpointSet, rfl,
    fun _ => trivial⟩

theorem Fresh.signalAsEmpty (h : r.Fresh p) (hp : ¬ p) :
    ∃ r', r.signalAsEmpty = some r' ∧ r'.records = r.records ∧ r'.Fresh True :=
  ⟨_, if_neg fun hsignal => hp (h.signalled hsignal), rfl, h.closed, h.lastCheckpointSet, rfl,
    fun _ => trivial⟩

theorem Fresh.close (h : r.Fresh p) :
    ∃ r', r.close = some r' ∧ r'.records.queue = r.records.queue := by
  refine ⟨{ r with
    lastCheckpointSet := true
    records := r.records.close
    emptySet := true
    emptySignal := true }, ?_, rfl⟩
  cases hs : r.emptySignal with
  | true | false =>
    simp [CDCStream.close, closeEmptySignal, h.lastCheckpointSet, h.emptySet, hs]

end CDCStream

section

variable {conn : Connector} {batch : List R} {s s' : State R n}

theorem Puller.Safe.sending {r : CDCStream R n} {count : ℕ} {unread lost : List R} {p : Puller R}
    {x : R} (h : p.Safe conn r count unread lost) (hp : p.sending = some x) :
    r.Fresh (1 < counted conn count) ∧ lost = x :: unread := by
  cases p with
  | trying | blocked =>
    cases hp
    exact h
  | _ => cases hp

/-- Receiving a record changes nothing for the puller. -/
theorem Puller.Safe.withRecords {r : CDCStream R n} {count : ℕ} {unread lost : List R}
    {records : Chan R n} {p : Puller R} (h : p.Safe conn r count unread lost)
    (hclosed : records.closed = r.records.closed) :
    p.Safe conn { r with records := records } count unread lost := by
  cases p with
  | returned | panicked => exact h
  | _ => exact ⟨h.1.withRecords hclosed, h.2⟩

/-- The first record that is counted finds a stream that was not signalled. -/
theorem Safe.count (h : Safe conn batch s) (hp : s.puller = .added) :
    Safe conn batch (countRecord conn s) := by
  obtain ⟨lost, hpuller, haccount⟩ := h
  rw [hp] at hpuller
  obtain ⟨hfresh, hlost⟩ := hpuller
  obtain ⟨count, hc, heq⟩ := countRecord_eq conn s
  rw [counted, ← hc] at hfresh
  rw [heq]
  split_ifs with hone
  · obtain ⟨r', hr', hrecords, hfresh'⟩ := hfresh.signalAsNotEmpty (by omega)
    rw [hr']
    refine ⟨lost, ⟨hfresh'.mono fun _ => ?_, hlost⟩,
      by simpa [State.withStream, hrecords] using haccount⟩
    show 0 < count
    omega
  · exact ⟨lost, ⟨hfresh.mono fun hlt => Nat.zero_lt_of_lt hlt, hlost⟩, haccount⟩

theorem Safe.move (h : Safe conn batch s) (hmove : Move conn s s') : Safe conn batch s' := by
  have hsafe := h
  obtain ⟨lost, hpuller, haccount⟩ := h
  cases hmove with
  | startPull hp | giveUp hp hfull =>
    rw [hp] at hpuller
    exact ⟨lost, hpuller, haccount⟩
  | readRecord hp hu =>
    rw [hp] at hpuller
    obtain ⟨hfresh, rfl⟩ := hpuller
    refine ⟨_, ⟨hfresh.mono fun hpos => ?_, hu⟩, haccount⟩
    cases conn with
    | postgres | mysql => exact Nat.succ_lt_succ hpos
  | endBatch hp hu =>
    rw [hp] at hpuller
    exact ⟨lost, ⟨hpuller.1, fun _ => hpuller.2.trans hu⟩, haccount⟩
  | push hp hpush =>
    obtain ⟨hfresh, rfl⟩ := hpuller.sending hp
    obtain ⟨-, hqueue, hclosed⟩ := Chan.push_eq_some hpush
    refine ⟨s.unread, ⟨hfresh.withRecords hclosed, rfl⟩, ?_⟩
    simpa [hqueue] using haccount
  | meet hp hs hn =>
    obtain ⟨hfresh, rfl⟩ := hpuller.sending hp
    have hqueue : s.stream.records.queue = [] :=
      List.eq_nil_of_length_eq_zero (Nat.le_zero.mp (hn ▸ s.stream.records.length_le))
    refine ⟨s.unread, ⟨hfresh, rfl⟩, ?_⟩
    simpa [hqueue] using haccount
  | count hp => exact hsafe.count hp
  | signalEmpty hp hc =>
    rw [hp] at hpuller
    obtain ⟨r', hr', hrecords, hfresh⟩ := hpuller.1.signalAsEmpty (by omega)
    rw [hr']
    exact ⟨lost, ⟨hfresh, hpuller.2⟩, by simpa [State.withStream, hrecords] using haccount⟩
  | signalled hp hc =>
    rw [hp] at hpuller
    exact ⟨lost, ⟨hpuller.1.mono fun _ => trivial, hpuller.2⟩, haccount⟩
  | closeStream hp =>
    rw [hp] at hpuller
    obtain ⟨r', hr', hqueue⟩ := hpuller.1.close
    rw [hr']
    exact ⟨lost, hpuller.2, by simpa [State.withStream, hqueue] using haccount⟩
  | receive hs hpop =>
    obtain ⟨hqueue, hclosed⟩ := Chan.pop_eq_some hpop
    refine ⟨lost, hpuller.withRecords hclosed, ?_⟩
    simpa [hqueue] using haccount
  | startSync | endRecords | noRecords | records | pulled | synced =>
    exact ⟨lost, hpuller, haccount⟩

/-- A failure of the puller ends the pull with an error. -/
theorem Safe.pullerFails {a : Action} (h : Safe conn batch s) (ha : a.fails = true)
    (hstep : pullerStep conn s s.puller a = some s') : Safe conn batch s' := by
  obtain ⟨lost, hpuller, haccount⟩ := h
  unfold pullerStep at hstep
  split at hstep
  case h_2 hp =>
    rw [hp] at hpuller
    cases hstep
    exact ⟨lost, ⟨hpuller.1.mono fun _ => trivial, nofun⟩, haccount⟩
  case h_4 hp =>
    rw [hp] at hpuller
    cases hstep
    exact ⟨lost, ⟨hpuller.1, nofun⟩, haccount⟩
  case h_9 hp =>
    rw [hp] at hpuller
    split_ifs at hstep
    cases hstep
    refine ⟨lost, ⟨hpuller.1.mono fun hlt => ?_, nofun⟩, haccount⟩
    show 0 < s.count
    rw [counted] at hlt
    split_ifs at hlt <;> omega
  case h_13 => cases hstep
  all_goals cases ha

theorem Safe.step {a : Action} (h : Safe conn batch s) (hstep : step conn s a = some s') :
    Safe conn batch s' := by
  by_cases hfails : a.fails = true
  · cases a with
    | startPull | sourceFails | ctxDone => exact h.pullerFails hfails hstep
    | cancel =>
      simp only [HandOff.step] at hstep
      split_ifs at hstep
      cases hstep
      exact h
    | syncLeaves | syncFails err =>
      simp only [HandOff.step] at hstep
      cases hs : s.syncer <;> rw [hs] at hstep <;> cases hstep <;> exact h
    | _ => cases hfails
  · exact h.move (step_move (by rw [calmStep, if_neg hfails, hstep]))

end

end HandOff
