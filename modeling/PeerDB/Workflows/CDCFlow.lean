/-
The workflow of a mirror and the configuration updates sent to it (`CDCFlowWorkflow`,
`addCdcPropertiesSignalListener`, `processCDCFlowConfigUpdate`).

A mirror is a chain of workflow runs, each of which continues as the next with the same
`CDCFlowWorkflowState`.  A run that finds the mirror paused stays in the pause loop, where an
update is processed as soon as it is received; any other run sets the mirror up or starts a
sync flow and stays in the main loop, where an update is only stored in `FlowConfigUpdate`
until the mirror is paused.

* `step_account` says once what a step does to the updates: it keeps the account of those
  that are processed or waiting, or it receives one.
* `updates_kept_iff`: every update received is processed or waiting, in order, exactly in
  the runs that never receive an update while another one is stored.
* `drop_request_kept`: a request to drop the mirror is never lost.

Signals wait in channels until a selector takes them.  What a continued run finds in its
channels of the signals that the last one has not taken is a parameter (`carry`).  The
upload of the configuration to the catalog, whose failure is only logged, the input of the
drop flow and the temporary names of tables under resync are left out.
-/
import PeerDB.Lib.Loop
import Mathlib.Data.Int.Notation
import Mathlib.Data.Nat.Notation
import Mathlib.Tactic.Common

open Loop

namespace CDCFlow

/-! ### The state of the workflow -/

/-- `protos.TableMapping`, as far as the workflow reads it. -/
structure TableMapping where
  sourceTableIdentifier : String
  destinationTableIdentifier : String
deriving DecidableEq, Repr

/-- The snapshot parameters, which are fields of an update, of the configuration and of the
state. -/
structure SnapshotParameters where
  snapshotNumRowsPerPartition : UInt32 := 0
  snapshotNumPartitionsOverride : UInt32 := 0
  snapshotMaxParallelWorkers : UInt32 := 0
  snapshotNumTablesInParallel : UInt32 := 0
deriving DecidableEq, Repr

structure CDCFlowConfigUpdate extends SnapshotParameters where
  additionalTables : List TableMapping := []
  removedTables : List TableMapping := []
  batchSize : UInt32 := 0
  idleTimeout : UInt64 := 0
  updatedEnv : List (String × String) := []
deriving DecidableEq, Repr

/-- A setting of an update replaces the old one if it is positive. -/
def override {w : Type} [LT w] [DecidableLT w] [OfNat w 0] (new old : w) : w :=
  if 0 < new then new else old

def SnapshotParameters.override (new old : SnapshotParameters) : SnapshotParameters where
  snapshotNumRowsPerPartition :=
    CDCFlow.override new.snapshotNumRowsPerPartition old.snapshotNumRowsPerPartition
  snapshotNumPartitionsOverride :=
    CDCFlow.override new.snapshotNumPartitionsOverride old.snapshotNumPartitionsOverride
  snapshotMaxParallelWorkers :=
    CDCFlow.override new.snapshotMaxParallelWorkers old.snapshotMaxParallelWorkers
  snapshotNumTablesInParallel :=
    CDCFlow.override new.snapshotNumTablesInParallel old.snapshotNumTablesInParallel

inductive CDCFlowSignal
  | noop
  | pause
  | terminate
  | resync
deriving DecidableEq, Repr

inductive FlowStatus
  | setup
  | snapshot
  | running
  | pausing
  | paused
  | modifying
  | resync
  | completed
  | failed
  | terminating
  | terminated
deriving DecidableEq, Repr

structure FlowStateChangeRequest where
  requestedFlowState : FlowStatus
  flowConfigUpdate : Option CDCFlowConfigUpdate := none
deriving DecidableEq, Repr

structure SyncFlowOptions where
  batchSize : UInt32
  idleTimeoutSeconds : UInt64
  tableMappings : List TableMapping
  srcTableIdNameMapping : List (UInt32 × String)

/-- `protos.FlowConnectionConfigsCore`. -/
structure Config extends SnapshotParameters where
  env : List (String × String) := []
  resync : Bool := false
  doInitialSnapshot : Bool := true
  initialSnapshotOnly : Bool := false
  maxBatchSize : UInt32 := 0
  idleTimeoutSeconds : UInt64 := 0
  tableMappings : List TableMapping := []

def Config.applySnapshotConfigOverrides (cfg : Config) (u : CDCFlowConfigUpdate) : Config :=
  { cfg with toSnapshotParameters := u.toSnapshotParameters.override cfg.toSnapshotParameters }

/-- `cdc_state.CDCFlowWorkflowState`; times are in nanoseconds. -/
structure CDCFlowWorkflowState extends SnapshotParameters where
  /-- The update request, `none` once it is processed. -/
  flowConfigUpdate : Option CDCFlowConfigUpdate
  syncFlowOptions : SyncFlowOptions
  lastError : ℤ
  errorCount : ℕ
  activeSignal : CDCFlowSignal
  currentFlowStatus : FlowStatus

def newCDCFlowWorkflowState (cfg : Config) : CDCFlowWorkflowState where
  activeSignal := .noop
  currentFlowStatus := .setup
  flowConfigUpdate := none
  syncFlowOptions :=
    { batchSize := cfg.maxBatchSize
      idleTimeoutSeconds := cfg.idleTimeoutSeconds
      tableMappings := cfg.tableMappings
      srcTableIdNameMapping := [] }
  lastError := 0
  errorCount := 0
  toSnapshotParameters := cfg.toSnapshotParameters

/-- `maps.Copy`. -/
def mapsCopy {K V : Type} [DecidableEq K] (dst src : List (K × V)) : List (K × V) :=
  src ++ dst.filter fun e => ¬(src.map Prod.fst).contains e.1

def flowSignalHandler (activeSignal v : CDCFlowSignal) : CDCFlowSignal :=
  match v with
  | .pause => if activeSignal = .noop then v else activeSignal
  | .noop => if activeSignal = .pause then v else activeSignal
  | .terminate => v
  | .resync => v

namespace CDCFlowWorkflowState

variable (s : CDCFlowWorkflowState)

/-- `overrideSnapshotParametersInState`, which the processing of an update does too. -/
def overrideSnapshotParametersInState (u : CDCFlowConfigUpdate) : CDCFlowWorkflowState :=
  { s with toSnapshotParameters := u.toSnapshotParameters.override s.toSnapshotParameters }

/-- The settings of an update, which take effect before its tables. -/
def applySettings (u : CDCFlowConfigUpdate) : CDCFlowWorkflowState :=
  { s.overrideSnapshotParametersInState u with
    syncFlowOptions :=
      { s.syncFlowOptions with
        batchSize := override u.batchSize s.syncFlowOptions.batchSize
        idleTimeoutSeconds := override u.idleTimeout s.syncFlowOptions.idleTimeoutSeconds } }

def updateStatus (status : FlowStatus) : CDCFlowWorkflowState :=
  { s with currentFlowStatus := status }

def withTableMappings (tables : List TableMapping) : CDCFlowWorkflowState :=
  { s with syncFlowOptions := { s.syncFlowOptions with tableMappings := tables } }

def withSrcTableIdNameMapping (mapping : List (UInt32 × String)) : CDCFlowWorkflowState :=
  { s with syncFlowOptions := { s.syncFlowOptions with srcTableIdNameMapping := mapping } }

/-- The count of errors in a row, once the main loop is left. -/
def countError (finishedError : Bool) : CDCFlowWorkflowState :=
  { s with errorCount := if finishedError then s.errorCount + 1 else 0 }

/-- The tables of the mirror. -/
def tables : List TableMapping :=
  s.syncFlowOptions.tableMappings

end CDCFlowWorkflowState

def additionalTablesHasOverlap (current additional : List TableMapping)
    (checkDestination : Bool) : Bool :=
  additional.any fun t =>
    (current.map TableMapping.sourceTableIdentifier).contains t.sourceTableIdentifier ||
      checkDestination &&
        (current.map TableMapping.destinationTableIdentifier).contains
          t.destinationTableIdentifier

/-- A table is among the removed ones, by its name at the source. -/
def removes (removed : List TableMapping) (source : String) : Bool :=
  (removed.map TableMapping.sourceTableIdentifier).contains source

/-! ### The mirror -/

/-- The activities of `processTableRemovals`, one after the other. -/
inductive Removal
  | publication
  | rawTable
  | catalog
deriving DecidableEq

/-- What a run that sets the mirror up is waiting for. -/
inductive Setup
  | setupFlow
  | snapshotFlow
  | renameTables
deriving DecidableEq

/-- The variables of the main loop. -/
structure MainLoop where
  finished : Bool := false
  finishedError : Bool := false
  /-- The callback of the sync flow has run. -/
  syncDone : Bool := false
  /-- The minutes to wait after an error, while waiting. -/
  sleepFor : Option ℕ := none
deriving DecidableEq

inductive Ending
  | completed
  | failed (err : String)
  | terminated
  /-- Continued as `DropFlowWorkflow`. -/
  | dropFlow
deriving DecidableEq

/-- Where a run is. -/
inductive Phase
  | started
  | paused
  /-- In `processTableAdditions`; the publication is altered first, then the child workflow
  runs. -/
  | addingTables (u : CDCFlowConfigUpdate) (published : Bool)
  | removingTables (u : CDCFlowConfigUpdate) (stage : Removal)
  | settingUp (stage : Setup)
  | running (loop : MainLoop)
  /-- The main loop is left, and the selector is drained. -/
  | draining (loop : MainLoop)
  | ended (how : Ending)
deriving DecidableEq

/-- The loops whose selector has the listener for updates. -/
def Phase.listens : Phase → Bool
  | .paused => true
  | .running _ => true
  | .draining _ => true
  | _ => false

/-- The signals that no selector has taken yet. -/
structure Channels where
  signals : List CDCFlowSignal := []
  stateChanges : List FlowStateChangeRequest := []
  updates : List CDCFlowConfigUpdate := []

/-- `HasPending`, apart from futures. -/
def Channels.hasPending (c : Channels) : Bool :=
  !(c.signals.isEmpty && c.stateChanges.isEmpty && c.updates.isEmpty)

structure Mirror where
  cfg : Config
  state : CDCFlowWorkflowState
  channels : Channels := {}
  cancelled : Bool := false
  phase : Phase := .started
  /-- History: the updates the listener was called with. -/
  received : List CDCFlowConfigUpdate := []
  /-- History: the updates passed to `processCDCFlowConfigUpdate`. -/
  processed : List CDCFlowConfigUpdate := []
  /-- History: the updates whose additional tables were found to be duplicates. -/
  rejected : List CDCFlowConfigUpdate := []
  /-- The stored update has been passed to `processCDCFlowConfigUpdate`. -/
  handed : Bool := false

def Mirror.new (cfg : Config) : Mirror where
  cfg := cfg
  state := newCDCFlowWorkflowState cfg

namespace Mirror

variable (m : Mirror)

/-- The stored update, if it is still to be processed. -/
def waiting : List CDCFlowConfigUpdate :=
  if m.handed then [] else m.state.flowConfigUpdate.toList

/-- The updates that are processed or waiting to be. -/
def account : List CDCFlowConfigUpdate :=
  m.processed ++ m.waiting

/-! ### Processing an update -/

def finish (how : Ending) (status : FlowStatus) : Mirror :=
  { m with phase := .ended how, state := m.state.updateStatus status }

def fail (err : String) : Mirror :=
  m.finish (.failed err) .failed

def continueAsNew (carry : Channels → Channels) : Mirror :=
  { m with phase := .started, channels := carry m.channels }

/-- The update is processed and wiped, which ends the pause. -/
def wipe (carry : Channels → Channels) : Mirror :=
  continueAsNew
    { m with
      state := { m.state with
        flowConfigUpdate := none, activeSignal := .noop, currentFlowStatus := .running }
      handed := false }
    carry

/-- `processTableRemovals`, up to its first wait; without tables to remove the update is
done. -/
def removeTables (carry : Channels → Channels) (u : CDCFlowConfigUpdate) : Mirror :=
  if u.removedTables = [] then m.wipe carry
  else
    { m with
      state :=
        ((m.state.updateStatus .modifying).withSrcTableIdNameMapping
          (m.state.syncFlowOptions.srcTableIdNameMapping.filter fun e =>
            ¬removes u.removedTables e.2)).withTableMappings
          (m.state.tables.filter fun t => ¬removes u.removedTables t.sourceTableIdentifier)
      phase := .removingTables u .publication }

/-- `processTableAdditions`, up to its first wait. -/
def addTables (carry : Channels → Channels) (allowNonEmpty : Bool) (u : CDCFlowConfigUpdate) :
    Mirror :=
  if u.additionalTables = [] then m.removeTables carry u
  else if additionalTablesHasOverlap m.state.tables u.additionalTables (!allowNonEmpty) then
    removeTables { m with rejected := m.rejected ++ [u] } carry u
  else
    { m with
      state := (m.state.updateStatus .snapshot).withTableMappings
        (m.state.tables ++ u.additionalTables)
      phase := .addingTables u false }

/-- `processCDCFlowConfigUpdate` is called with the stored update. -/
def processCDCFlowConfigUpdate (carry : Channels → Channels) (allowNonEmpty : Bool)
    (u : CDCFlowConfigUpdate) : Mirror :=
  addTables
    { m with
      processed := m.processed ++ [u]
      handed := true
      state := m.state.applySettings u
      cfg := { m.cfg with env := mapsCopy m.cfg.env u.updatedEnv } }
    carry allowNonEmpty u

/-! ### The loops -/

/-- What a request to change the state does; a resync during setup overrides the snapshot
parameters of the configuration and not those of the state. -/
def changeState (inSetup : Bool) (r : FlowStateChangeRequest) : Mirror :=
  match r.requestedFlowState with
  | .terminating => { m with state := { m.state with activeSignal := .terminate } }
  | .resync =>
    let u := r.flowConfigUpdate.getD {}
    let cfg := { m.cfg with resync := true, doInitialSnapshot := true }
    let s := { m.state with activeSignal := .resync }
    if inSetup then { m with cfg := cfg.applySnapshotConfigOverrides u, state := s }
    else { m with cfg := cfg, state := s.overrideSnapshotParametersInState u }
  | _ => m

/-- The mirror is to be dropped. -/
def dropped : Bool :=
  m.state.activeSignal = .terminate ∨ m.state.activeSignal = .resync

/-- The checks after a `Select` of the loops in `processTableAdditions` and
`processTableRemovals`, whose errors fail the mirror. -/
def checkProcessing : Mirror :=
  if m.dropped then m.finish .dropFlow .failed
  else if m.cancelled then m.fail "canceled"
  else m

/-- The checks after a `Select` of the loops of a setup. -/
def checkSetup : Mirror :=
  if m.dropped then { m with phase := .ended .dropFlow }
  else if m.cancelled then m.finish .terminated .terminated
  else m

/-- The listener of `addCdcPropertiesSignalListener`. -/
def listen (u : CDCFlowConfigUpdate) (updates : List CDCFlowConfigUpdate) : Mirror :=
  { m with
    state := { m.state with flowConfigUpdate := some u }
    channels := { m.channels with updates := updates }
    received := m.received ++ [u] }

/-- The start of a run. -/
def start (migrateErr : Option String) : Mirror :=
  if m.state.currentFlowStatus = .completed then { m with phase := .ended .completed }
  else if m.state.activeSignal = .pause then
    { m with phase := .paused, state := m.state.updateStatus .paused }
  else
    match migrateErr with
    | some err =>
      { m with phase := .ended (.failed ("failed to migrate Postgres table OIDs: " ++ err)) }
    | none =>
      if m.cancelled then m.finish .terminated .terminated
      else if m.state.currentFlowStatus ≠ .running then { m with phase := .settingUp .setupFlow }
      else { m with phase := .running {}, state := m.state.updateStatus .running }

/-- A turn of the pause loop, once its inner loop is left. -/
def pauseTurn (carry : Channels → Channels) (allowNonEmpty : Bool) : Option Mirror :=
  if m.cancelled then some (m.finish .terminated .terminated)
  else if m.dropped then some { m with phase := .ended .dropFlow }
  else
    match m.state.flowConfigUpdate with
    | some u => some (m.processCDCFlowConfigUpdate carry allowNonEmpty u)
    | none =>
      if m.state.activeSignal = .pause then none
      else some (continueAsNew { m with state := m.state.updateStatus .running } carry)

/-- The last activity of a setup is done. -/
def setUp (carry : Channels → Channels) : Mirror :=
  continueAsNew
    { m with state :=
        m.state.updateStatus (if m.cfg.initialSnapshotOnly then .completed else .running) }
    carry

/-- The callbacks of `processTableAdditions`. -/
def additionsDone (carry : Channels → Channels) (u : CDCFlowConfigUpdate) (published : Bool) :
    Except String (List (UInt32 × String)) → Mirror
  | .error err => m.fail ("failed to execute child CDCFlow for additional tables: " ++ err)
  | .ok mapping =>
    if published then
      let copied := mapsCopy m.state.syncFlowOptions.srcTableIdNameMapping mapping
      removeTables { m with state := m.state.withSrcTableIdNameMapping copied } carry u
    else { m with phase := .addingTables u true }

/-- The callbacks of `processTableRemovals`. -/
def removalsDone (carry : Channels → Channels) (u : CDCFlowConfigUpdate) (stage : Removal) :
    Except String (List (UInt32 × String)) → Mirror
  | .error err => m.fail ("failed to execute child CDCFlow for additional tables: " ++ err)
  | .ok _ =>
    match stage with
    | .publication => { m with phase := .removingTables u .rawTable }
    | .rawTable => { m with phase := .removingTables u .catalog }
    | .catalog => m.wipe carry

/-- The setup flow, the snapshot flow or the renaming of tables is done. -/
def setupDone (carry : Channels → Channels) (stage : Setup)
    (outcome : Except String (List (UInt32 × String))) : Mirror :=
  match stage, outcome with
  | .setupFlow, .error err => m.fail ("failed to execute setup workflow: " ++ err)
  | .setupFlow, .ok mapping =>
    { m with
      state := (m.state.withSrcTableIdNameMapping mapping).updateStatus .snapshot
      phase := .settingUp .snapshotFlow }
  | .snapshotFlow, .error err => m.fail ("failed to execute snapshot workflow: " ++ err)
  | .snapshotFlow, .ok _ =>
    if m.cfg.resync then
      { m with state := m.state.updateStatus .resync, phase := .settingUp .renameTables }
    else m.setUp carry
  | .renameTables, .error err => m.fail ("failed to execute rename tables activity: " ++ err)
  | .renameTables, .ok _ => m.setUp carry

/-- What the phase was waiting for is done, with an error or a table mapping.  In a
cancelled run neither is looked at. -/
def activityDone (carry : Channels → Channels)
    (outcome : Except String (List (UInt32 × String))) : Option Mirror :=
  match m.phase with
  | .addingTables u published =>
    some (if m.cancelled then m.checkProcessing else m.additionsDone carry u published outcome)
  | .removingTables u stage =>
    some (if m.cancelled then m.checkProcessing else m.removalsDone carry u stage outcome)
  | .settingUp stage =>
    some (if m.cancelled then m.checkSetup else m.setupDone carry stage outcome)
  | _ => none

end Mirror

/-- How a sync flow ends. -/
inductive SyncOutcome
  | ok
  | canceled
  | panicked
  | failed
deriving DecidableEq

def hour : ℤ := 3600000000000

/-- The callback of the sync flow's future. -/
def syncFlowDone (now : ℤ) (outcome : SyncOutcome) (s : CDCFlowWorkflowState) (loop : MainLoop) :
    CDCFlowWorkflowState × MainLoop :=
  let loop := { loop with syncDone := true }
  match outcome with
  | .ok => (s, { loop with finished := true })
  | .canceled => (s, loop)
  | _ =>
    if loop.finished then (s, loop)
    else
      let errorCount := if s.lastError + hour < now then 0 else s.errorCount
      let sleepFor :=
        if outcome = .panicked then 10 + min errorCount 9 * 5 else 1 + min errorCount 9
      ({ s with errorCount := errorCount, lastError := now },
        { loop with sleepFor := some sleepFor })

namespace Mirror

variable (m : Mirror)

/-- The callbacks of the main loop's selector, which also drain it. -/
def takeSignal (v : CDCFlowSignal) (signals : List CDCFlowSignal) (loop : MainLoop) :
    Mirror × MainLoop :=
  let active := flowSignalHandler m.state.activeSignal v
  let s := { m.state with activeSignal := active }
  let m := { m with channels := { m.channels with signals := signals } }
  if active = .pause then
    ({ m with state := s.updateStatus .pausing }, { loop with finished := true })
  else ({ m with state := s }, loop)

/-- The selector is drained; the next run takes over. -/
def drained (carry : Channels → Channels) (loop : MainLoop) : Mirror :=
  let m := { m with state := m.state.countError loop.finishedError }
  if m.dropped then { m with phase := .ended .dropFlow } else m.continueAsNew carry

end Mirror

/-! ### Steps -/

inductive Action
  /-- Signals arrive at the workflow. -/
  | sendSignal (v : CDCFlowSignal)
  | sendStateChange (r : FlowStateChangeRequest)
  | sendUpdate (u : CDCFlowConfigUpdate)
  | cancel
  | start (migrateErr : Option String)
  /-- A selector takes the first signal of a channel. -/
  | receiveSignal
  | receiveStateChange
  | receiveUpdate
  | pauseTurn (allowNonEmpty : Bool)
  | activityDone (outcome : Except String (List (UInt32 × String)))
  | syncFlowDone (now : ℤ) (outcome : SyncOutcome)
  | sleepDone
  /-- The main loop looks at its variables; `ShouldWorkflowContinueAsNew` may hold. -/
  | mainTurn (suggested : Bool)
  | drained

/-- The phase of the main loop with these variables. -/
def Phase.withLoop (loop : MainLoop) : Phase → Phase
  | .draining _ => .draining loop
  | _ => .running loop

def Phase.mainLoop : Phase → Option MainLoop
  | .running loop => some loop
  | .draining loop => some loop
  | _ => none

namespace Mirror

variable (m : Mirror)

/-- The inner loop of the pause loop, which waits for a signal. -/
def pauseWaits : Bool :=
  m.state.activeSignal = .pause ∧ m.state.flowConfigUpdate = none ∧ m.cancelled = false

def receiveSignal : Option Mirror :=
  match m.channels.signals, m.phase with
  | v :: signals, .paused =>
    if m.pauseWaits then
      some { m with
        state := { m.state with activeSignal := flowSignalHandler m.state.activeSignal v }
        channels := { m.channels with signals := signals } }
    else none
  | v :: signals, phase =>
    phase.mainLoop.map fun loop =>
      let (m, loop) := m.takeSignal v signals loop
      { m with phase := phase.withLoop loop }
  | [], _ => none

def receiveStateChange : Option Mirror :=
  match m.channels.stateChanges with
  | r :: stateChanges =>
    let m' := { m with channels := { m.channels with stateChanges := stateChanges } }
    match m.phase with
    | .paused => if m.pauseWaits then some (m'.changeState false r) else none
    | .addingTables _ _ => some (m'.changeState false r).checkProcessing
    | .removingTables _ _ => some (m'.changeState false r).checkProcessing
    | .settingUp _ => some (m'.changeState true r).checkSetup
    | .running loop =>
      some { m'.changeState false r with phase := .running { loop with finished := true } }
    | .draining loop =>
      some { m'.changeState false r with phase := .draining { loop with finished := true } }
    | .started => none
    | .ended _ => none
  | [] => none

def receiveUpdate : Option Mirror :=
  match m.channels.updates with
  | u :: updates =>
    match m.phase with
    | .paused => if m.pauseWaits then some (m.listen u updates) else none
    | .running _ => some (m.listen u updates)
    | .draining _ => some (m.listen u updates)
    | _ => none
  | [] => none

def mainTurn (suggested : Bool) (loop : MainLoop) : Option Mirror :=
  if m.cancelled then some (m.finish .terminated .terminated)
  else if m.channels.hasPending then none
  else if loop.finished || suggested then
    some { m with phase := .draining { loop with finished := true } }
  else some m

end Mirror

/-- One step of the mirror or of those who signal it; none is taken after the workflow has
returned. -/
def step (carry : Channels → Channels) (m : Mirror) (a : Action) : Option Mirror :=
  match m.phase, a with
  | .ended _, _ => none
  | _, .sendSignal v =>
    some { m with channels := { m.channels with signals := m.channels.signals ++ [v] } }
  | _, .sendStateChange r =>
    some { m with channels := { m.channels with stateChanges := m.channels.stateChanges ++ [r] } }
  | _, .sendUpdate u =>
    some { m with channels := { m.channels with updates := m.channels.updates ++ [u] } }
  | _, .cancel => some { m with cancelled := true }
  | .started, .start migrateErr => some (m.start migrateErr)
  | _, .receiveSignal => m.receiveSignal
  | _, .receiveStateChange => m.receiveStateChange
  | _, .receiveUpdate => m.receiveUpdate
  | .paused, .pauseTurn allowNonEmpty => m.pauseTurn carry allowNonEmpty
  | _, .activityDone outcome => m.activityDone carry outcome
  | phase, .syncFlowDone now outcome =>
    phase.mainLoop.bind fun loop =>
      if loop.syncDone then none
      else
        let (s, loop) := syncFlowDone now outcome m.state loop
        some { m with state := s, phase := phase.withLoop loop }
  | phase, .sleepDone =>
    phase.mainLoop.bind fun loop =>
      loop.sleepFor.map fun _ =>
        let loop := { loop with sleepFor := none, finished := true, finishedError := true }
        { m with phase := phase.withLoop loop }
  | .running loop, .mainTurn suggested => m.mainTurn suggested loop
  | .draining loop, .drained =>
    if m.cancelled then some (m.finish .terminated .terminated)
    else if m.channels.hasPending || !loop.syncDone then none
    else some (m.drained carry loop)
  | _, _ => none

/-! ### What a step can be -/

/-- The update that is being processed. -/
def Phase.update : Phase → Option CDCFlowConfigUpdate
  | .addingTables u _ => some u
  | .removingTables u _ => some u
  | _ => none

/-- Where a mirror that is to be dropped can be. -/
def Phase.dropping (cancelled : Bool) : Phase → Bool
  | .paused | .running _ | .draining _ | .ended .dropFlow => true
  | .ended .terminated => cancelled
  | _ => false

/-- A request to drop the mirror is seen at once, or by the loop that took it. -/
def Mirror.DropSeen (m : Mirror) : Prop :=
  m.dropped = true → m.phase.dropping m.cancelled = true

/-- The updates and the tables of the mirror. -/
structure Ledger where
  received : List CDCFlowConfigUpdate
  processed : List CDCFlowConfigUpdate
  rejected : List CDCFlowConfigUpdate
  handed : Bool
  stored : Option CDCFlowConfigUpdate
  tables : List TableMapping

def Mirror.ledger (m : Mirror) : Ledger :=
  ⟨m.received, m.processed, m.rejected, m.handed, m.state.flowConfigUpdate, m.state.tables⟩

/-- A step that touches neither the updates nor the tables of the mirror, and keeps a request to
drop it. -/
structure Quiet (m m' : Mirror) : Prop where
  ledger : m'.ledger = m.ledger
  phase : m'.phase.update = m.phase.update ∨ ∃ how, m'.phase = .ended how
  seen : m.DropSeen → m'.DropSeen
  dropped : m.dropped = true → m'.dropped = true

namespace Quiet

variable {m m' : Mirror}

theorem refl (m : Mirror) : Quiet m m :=
  ⟨rfl, .inl rfl, id, id⟩

theorem received (h : Quiet m m') : m'.received = m.received := congrArg Ledger.received h.ledger

theorem processed (h : Quiet m m') : m'.processed = m.processed :=
  congrArg Ledger.processed h.ledger

theorem rejected (h : Quiet m m') : m'.rejected = m.rejected := congrArg Ledger.rejected h.ledger

theorem tables (h : Quiet m m') : m'.state.tables = m.state.tables :=
  congrArg Ledger.tables h.ledger

theorem handed (h : Quiet m m') : m'.handed = m.handed := congrArg Ledger.handed h.ledger

theorem account (h : Quiet m m') : m'.account = m.account := by
  have hstored : m'.state.flowConfigUpdate = m.state.flowConfigUpdate :=
    congrArg Ledger.stored h.ledger
  rw [Mirror.account, Mirror.account, Mirror.waiting, Mirror.waiting, h.processed, h.handed,
    hstored]

/-- A phase in which there is no request, as it would have been seen. -/
theorem calm (hledger : m'.ledger = m.ledger)
    (hphase : m'.phase.update = m.phase.update ∨ ∃ how, m'.phase = .ended how)
    (hdropped : m'.dropped = m.dropped) (hcalm : m.phase.dropping m.cancelled = false) :
    Quiet m m' :=
  ⟨hledger, hphase, fun h hd => absurd (hcalm.symm.trans (h (hdropped ▸ hd))) (by decide),
    hdropped.trans⟩

/-- The loop that takes a request sees it. -/
theorem looping (hledger : m'.ledger = m.ledger)
    (hphase : m'.phase.update = m.phase.update ∨ ∃ how, m'.phase = .ended how)
    (hdropped : m.dropped = true → m'.dropped = true)
    (hloop : m'.phase.dropping m'.cancelled = true) : Quiet m m' :=
  ⟨hledger, hphase, fun _ _ => hloop, hdropped⟩

end Quiet

namespace Mirror

variable (m : Mirror)

/-- The workflow ends because it is cancelled. -/
theorem quiet_terminated (status : FlowStatus) (h : m.cancelled = true) :
    Quiet m (m.finish .terminated status) :=
  .looping rfl (.inr ⟨_, rfl⟩) id h

theorem changeState_spec (inSetup : Bool) (r : FlowStateChangeRequest) :
    (m.changeState inSetup r).ledger = m.ledger ∧ (m.changeState inSetup r).phase = m.phase ∧
      (m.dropped = true → (m.changeState inSetup r).dropped = true) := by
  rw [changeState]
  split
  · exact ⟨rfl, rfl, fun _ => rfl⟩
  · cases inSetup <;> exact ⟨rfl, rfl, fun _ => rfl⟩
  · exact ⟨rfl, rfl, id⟩

/-- A request that is received while tables are added or removed ends the loop. -/
theorem quiet_checkProcessing {m₀ : Mirror} (hledger : m.ledger = m₀.ledger)
    (hphase : m.phase = m₀.phase) (hdropped : m₀.dropped = true → m.dropped = true) :
    Quiet m₀ m.checkProcessing := by
  rw [checkProcessing]
  split_ifs with hd
  · exact .looping hledger (.inr ⟨_, rfl⟩) hdropped rfl
  · exact ⟨hledger, .inr ⟨_, rfl⟩, fun _ hd' => absurd hd' hd, hdropped⟩
  · exact ⟨hledger, .inl (congrArg Phase.update hphase), fun _ hd' => absurd hd' hd, hdropped⟩

theorem quiet_checkSetup {m₀ : Mirror} (hledger : m.ledger = m₀.ledger)
    (hphase : m.phase = m₀.phase) (hdropped : m₀.dropped = true → m.dropped = true) :
    Quiet m₀ m.checkSetup := by
  rw [checkSetup]
  split_ifs with hd
  · exact .looping hledger (.inr ⟨_, rfl⟩) hdropped rfl
  · exact ⟨hledger, .inr ⟨_, rfl⟩, fun _ hd' => absurd hd' hd, hdropped⟩
  · exact ⟨hledger, .inl (congrArg Phase.update hphase), fun _ hd' => absurd hd' hd, hdropped⟩

/-- A loop that goes on after a request, or ends because of it. -/
theorem quiet_receiveStateChange {m' : Mirror} (h : m.receiveStateChange = some m') :
    Quiet m m' := by
  rw [receiveStateChange] at h
  split at h
  · rename_i r stateChanges hchannel
    have hspec (inSetup : Bool) := changeState_spec
      { m with channels := { m.channels with stateChanges := stateChanges } } inSetup r
    obtain ⟨hledger, hphase, hdropped⟩ := hspec false
    split at h
    case h_1 hm =>
      split_ifs at h
      cases h
      refine .looping hledger (.inl (congrArg Phase.update hphase)) hdropped ?_
      rw [hphase, hm]
      rfl
    case h_2 | h_3 =>
      cases h
      exact quiet_checkProcessing _ hledger hphase hdropped
    case h_4 =>
      cases h
      exact quiet_checkSetup _ (hspec true).1 (hspec true).2.1 (hspec true).2.2
    case h_5 hm | h_6 hm =>
      cases h
      exact .looping hledger (.inl (by rw [hm]; rfl)) hdropped rfl
    case h_7 | h_8 => cases h
  · cases h

/-- The main loop with other variables. -/
theorem withLoop_spec {phase : Phase} {loop : MainLoop} (h : phase.mainLoop = some loop)
    (loop' : MainLoop) (cancelled : Bool) : (phase.withLoop loop').update = phase.update ∧
      (phase.withLoop loop').dropping cancelled = true := by
  cases phase with
  | running | draining => exact ⟨rfl, rfl⟩
  | _ => cases h

theorem flowSignalHandler_dropped (v : CDCFlowSignal) (h : m.dropped = true) :
    decide (flowSignalHandler m.state.activeSignal v = .terminate ∨
      flowSignalHandler m.state.activeSignal v = .resync) = true := by
  rcases of_decide_eq_true h with h | h <;> rw [h] <;> cases v <;> rfl

theorem quiet_receiveSignal {m' : Mirror} (h : m.receiveSignal = some m') : Quiet m m' := by
  rw [receiveSignal] at h
  split at h
  · rename_i hphase
    split_ifs at h
    cases h
    exact .looping rfl (.inl rfl) (m.flowSignalHandler_dropped _) (by rw [hphase]; rfl)
  · obtain ⟨loop, hloop, heq⟩ := Option.map_eq_some_iff.mp h
    cases heq
    rw [takeSignal]
    split_ifs <;> exact .looping rfl (.inl (withLoop_spec hloop _ false).1)
      (m.flowSignalHandler_dropped _) (withLoop_spec hloop _ _).2
  · cases h

theorem quiet_start (hphase : m.phase = .started) (migrateErr : Option String) :
    Quiet m (m.start migrateErr) := by
  have hnone : m.phase.update = none := by rw [hphase]; rfl
  have hcalm : m.phase.dropping m.cancelled = false := by rw [hphase]; rfl
  unfold start
  split_ifs
  · exact .calm rfl (.inr ⟨_, rfl⟩) rfl hcalm
  · exact .calm rfl (.inl hnone.symm) rfl hcalm
  all_goals split
  all_goals first
    | exact .calm rfl (.inr ⟨_, rfl⟩) rfl hcalm
    | exact .calm rfl (.inl hnone.symm) rfl hcalm

theorem quiet_setupDone {stage : Setup} (hphase : m.phase = .settingUp stage)
    (carry : Channels → Channels) (outcome : Except String (List (UInt32 × String))) :
    Quiet m (m.setupDone carry stage outcome) := by
  have hnone : m.phase.update = none := by rw [hphase]; rfl
  have hcalm : m.phase.dropping m.cancelled = false := by rw [hphase]; rfl
  unfold setupDone
  split
  case h_1 | h_3 | h_5 => exact .calm rfl (.inr ⟨_, rfl⟩) rfl hcalm
  case h_4 => split_ifs <;> exact .calm rfl (.inl hnone.symm) rfl hcalm
  all_goals exact .calm rfl (.inl hnone.symm) rfl hcalm

theorem quiet_drained {loop : MainLoop} (hphase : m.phase = .draining loop)
    (carry : Channels → Channels) (loop' : MainLoop) : Quiet m (m.drained carry loop') := by
  rw [drained]
  dsimp only
  split_ifs with hdropped
  · exact .looping rfl (.inr ⟨_, rfl⟩) id rfl
  · exact ⟨rfl, .inl (by rw [hphase]; rfl), fun _ hd => absurd hd hdropped, id⟩

theorem quiet_mainTurn {loop : MainLoop} {suggested : Bool} {m' : Mirror}
    (hphase : m.phase = .running loop) (h : m.mainTurn suggested loop = some m') : Quiet m m' := by
  rw [mainTurn] at h
  split_ifs at h with hcancelled <;> cases h
  · exact m.quiet_terminated _ hcancelled
  · exact .looping rfl (.inl (by rw [hphase]; rfl)) id rfl
  · exact .refl m

end Mirror

/-- What a step can be, as far as the updates go. -/
inductive Move (carry : Channels → Channels) (m : Mirror) : Action → Mirror → Prop
  | quiet {a : Action} {m' : Mirror} (ha : a ≠ .receiveUpdate) (h : Quiet m m') : Move carry m a m'
  /-- The listener stores an update. -/
  | listen (u : CDCFlowConfigUpdate) (updates : List CDCFlowConfigUpdate)
    (h : m.phase.listens = true) : Move carry m .receiveUpdate (m.listen u updates)
  /-- The pause loop processes the stored update. -/
  | process (u : CDCFlowConfigUpdate) (allowNonEmpty : Bool) (h : m.phase = .paused)
    (hu : m.state.flowConfigUpdate = some u) (hd : m.dropped = false) :
    Move carry m (.pauseTurn allowNonEmpty) (m.processCDCFlowConfigUpdate carry allowNonEmpty u)
  /-- The tables to add are added. -/
  | added {m₁ : Mirror} (u : CDCFlowConfigUpdate) (outcome : Except String (List (UInt32 × String)))
    (h : m.phase.update = some u) (hq : Quiet m m₁) (hd : m₁.dropped = m.dropped) :
    Move carry m (.activityDone outcome) (m₁.removeTables carry u)
  /-- The tables to remove are removed. -/
  | removed (u : CDCFlowConfigUpdate) (outcome : Except String (List (UInt32 × String)))
    (h : m.phase.update = some u) : Move carry m (.activityDone outcome) (m.wipe carry)

section

variable {carry : Channels → Channels} {m m' : Mirror}

theorem receiveUpdate_move (h : m.receiveUpdate = some m') :
    Move carry m .receiveUpdate m' := by
  rw [Mirror.receiveUpdate] at h
  split at h
  · rename_i u updates hchannel
    split at h
    case h_1 hphase =>
      split_ifs at h
      cases h
      exact .listen u updates (by rw [hphase]; rfl)
    case h_2 hphase | h_3 hphase =>
      cases h
      exact .listen u updates (by rw [hphase]; rfl)
    case h_4 => cases h
  · cases h

theorem pauseTurn_move {allowNonEmpty : Bool} (hphase : m.phase = .paused)
    (h : m.pauseTurn carry allowNonEmpty = some m') :
    Move carry m (.pauseTurn allowNonEmpty) m' := by
  have hnone : m.phase.update = none := by rw [hphase]; rfl
  unfold Mirror.pauseTurn at h
  split_ifs at h with hcancelled hdropped
  · cases h
    exact .quiet nofun (m.quiet_terminated _ hcancelled)
  · cases h
    exact .quiet nofun (.looping rfl (.inr ⟨_, rfl⟩) id rfl)
  all_goals
    split at h <;> cases h
    · exact .process _ allowNonEmpty hphase ‹_› (Bool.eq_false_iff.mpr hdropped)
  exact .quiet nofun ⟨rfl, .inl hnone.symm, fun _ hd => absurd hd hdropped, id⟩

theorem dropping_of_update {phase : Phase} {u : CDCFlowConfigUpdate} (h : phase.update = some u)
    (cancelled : Bool) : phase.dropping cancelled = false := by
  cases phase with
  | addingTables | removingTables => rfl
  | _ => cases h

theorem activityDone_move {outcome : Except String (List (UInt32 × String))}
    (h : m.activityDone carry outcome = some m') :
    Move carry m (.activityDone outcome) m' := by
  rw [Mirror.activityDone] at h
  split at h
  · rename_i u published hphase
    cases h
    have hu : m.phase.update = some u := by rw [hphase]; rfl
    have hcalm := dropping_of_update hu m.cancelled
    split_ifs
    · exact .quiet nofun (m.quiet_checkProcessing rfl rfl id)
    · cases outcome with
      | error err => exact .quiet nofun (.calm rfl (.inr ⟨_, rfl⟩) rfl hcalm)
      | ok mapping =>
        cases published with
        | true => exact .added u _ hu (.calm rfl (.inl rfl) rfl hcalm) rfl
        | false => exact .quiet nofun (.calm rfl (.inl hu.symm) rfl hcalm)
  · rename_i u stage hphase
    cases h
    have hu : m.phase.update = some u := by rw [hphase]; rfl
    have hcalm := dropping_of_update hu m.cancelled
    split_ifs
    · exact .quiet nofun (m.quiet_checkProcessing rfl rfl id)
    · cases outcome with
      | error err => exact .quiet nofun (.calm rfl (.inr ⟨_, rfl⟩) rfl hcalm)
      | ok mapping =>
        cases stage with
        | publication | rawTable => exact .quiet nofun (.calm rfl (.inl hu.symm) rfl hcalm)
        | catalog => exact .removed u _ hu
  · rename_i stage hphase
    cases h
    split_ifs
    · exact .quiet nofun (m.quiet_checkSetup rfl rfl id)
    · exact .quiet nofun (m.quiet_setupDone hphase carry outcome)
  · cases h

/-- The callback of the sync flow changes the backoff only. -/
theorem syncFlowDone_spec (now : ℤ) (outcome : SyncOutcome) (m : Mirror) (loop : MainLoop)
    (phase : Phase) :
    let m' := { m with state := (syncFlowDone now outcome m.state loop).1, phase := phase }
    m'.ledger = m.ledger ∧ m'.dropped = m.dropped := by
  cases outcome with
  | ok | canceled => exact ⟨rfl, rfl⟩
  | panicked | failed =>
    simp only [syncFlowDone]
    split_ifs <;> exact ⟨rfl, rfl⟩

/-- A mirror that is cancelled still sees a request. -/
theorem dropping_cancelled {phase : Phase} {cancelled : Bool}
    (h : phase.dropping cancelled = true) : phase.dropping true = true := by
  cases phase with
  | ended how => cases how <;> first | rfl | cases h
  | _ => exact h

theorem step_move {a : Action} (h : step carry m a = some m') : Move carry m a m' := by
  unfold step at h
  split at h
  case h_1 | h_16 => cases h
  case h_2 | h_3 | h_4 =>
    cases h
    exact .quiet nofun ⟨rfl, .inl rfl, id, id⟩
  case h_5 =>
    cases h
    exact .quiet nofun ⟨rfl, .inl rfl, fun h hd => dropping_cancelled (h hd), id⟩
  case h_6 migrateErr hphase =>
    cases h
    exact .quiet nofun (m.quiet_start hphase migrateErr)
  case h_7 => exact .quiet nofun (m.quiet_receiveSignal h)
  case h_8 => exact .quiet nofun (m.quiet_receiveStateChange h)
  case h_9 => exact receiveUpdate_move h
  case h_10 hphase => exact pauseTurn_move hphase h
  case h_11 => exact activityDone_move h
  case h_12 =>
    obtain ⟨loop, hloop, h⟩ := Option.bind_eq_some_iff.mp h
    split_ifs at h
    cases h
    obtain ⟨hledger, hdropped⟩ := syncFlowDone_spec _ _ m loop _
    exact .quiet nofun (.looping hledger (.inl (Mirror.withLoop_spec hloop _ false).1)
      hdropped.trans (Mirror.withLoop_spec hloop _ _).2)
  case h_13 =>
    obtain ⟨loop, hloop, h⟩ := Option.bind_eq_some_iff.mp h
    obtain ⟨minutes, hsleep, rfl⟩ := Option.map_eq_some_iff.mp h
    exact .quiet nofun (.looping rfl (.inl (Mirror.withLoop_spec hloop _ false).1) id
      (Mirror.withLoop_spec hloop _ _).2)
  case h_14 hphase => exact .quiet nofun (m.quiet_mainTurn hphase h)
  case h_15 loop hphase =>
    split_ifs at h with hcancelled <;> cases h
    · exact .quiet nofun (m.quiet_terminated _ hcancelled)
    · exact .quiet nofun (m.quiet_drained hphase carry loop)

end

/-! ### What every run keeps -/

/-- The tables an update adds are accounted for: it has duplicates, or they are tables of the
mirror, or a processed update removes them. -/
def Mirror.Settled (m : Mirror) (u : CDCFlowConfigUpdate) : Prop :=
  ∀ t ∈ u.additionalTables, u ∈ m.rejected ∨ t ∈ m.state.tables ∨
    ∃ v ∈ m.processed, removes v.removedTables t.sourceTableIdentifier = true

theorem Mirror.Settled.mono {m m' : Mirror} {u : CDCFlowConfigUpdate} (h : m.Settled u)
    (hrejected : m.rejected ⊆ m'.rejected) (htables : m.state.tables ⊆ m'.state.tables)
    (hprocessed : m.processed ⊆ m'.processed) : m'.Settled u := by
  intro t ht
  rcases h t ht with hu | hu | ⟨v, hv, hremoves⟩
  · exact .inl (hrejected hu)
  · exact .inr (.inl (htables hu))
  · exact .inr (.inr ⟨v, hprocessed hv, hremoves⟩)

structure Sound (m : Mirror) : Prop where
  processing : ∀ u, m.phase.update = some u → m.handed = true ∧ u ∈ m.processed
  handed : m.handed = true → m.phase.update ≠ none ∨ ∃ how, m.phase = .ended how
  settled : ∀ u ∈ m.processed, m.Settled u

theorem Sound.new (cfg : Config) : Sound (Mirror.new cfg) where
  processing := nofun
  handed := nofun
  settled := nofun

section

variable {carry : Channels → Channels} {m m' : Mirror} {u : CDCFlowConfigUpdate}

/-- The loops that listen do so only when no update is being processed. -/
theorem Sound.not_handed (h : Sound m) (hlistens : m.phase.listens = true) :
    ¬m.handed = true := by
  intro hhanded
  rcases h.handed hhanded with hupdate | ⟨how, hended⟩
  · cases hphase : m.phase with
    | addingTables | removingTables => simp [hphase, Phase.listens] at hlistens
    | _ => simp [hphase, Phase.update] at hupdate
  · simp [hended, Phase.listens] at hlistens

theorem Sound.waiting_eq (h : Sound m) (hlistens : m.phase.listens = true) :
    m.waiting = m.state.flowConfigUpdate.toList := by
  rw [Mirror.waiting, if_neg (h.not_handed hlistens)]

theorem Sound.quiet (h : Sound m) (hopen : ∀ how, m.phase ≠ .ended how) (hq : Quiet m m') :
    Sound m' where
  processing u hu := by
    rw [hq.handed, hq.processed]
    rcases hq.phase with hphase | ⟨how, hphase⟩
    · exact h.processing u (hphase ▸ hu)
    · rw [hphase] at hu
      cases hu
  handed hhanded := by
    rcases hq.phase with hphase | hended
    · rw [hq.handed] at hhanded
      rcases h.handed hhanded with hupdate | ⟨how, hended⟩
      · exact .inl (hphase ▸ hupdate)
      · exact absurd hended (hopen how)
    · exact .inr hended
  settled u hu := by
    rw [hq.processed] at hu
    exact (h.settled u hu).mono (hq.rejected ▸ List.Subset.refl _)
      (hq.tables ▸ List.Subset.refl _) (hq.processed ▸ List.Subset.refl _)

/-- Wiping an update that was handed over keeps the account. -/
theorem Sound.wipe (hsettled : ∀ v ∈ m.processed, m.Settled v) : Sound (m.wipe carry) where
  processing := nofun
  handed := nofun
  settled v hv := (hsettled v hv).mono (List.Subset.refl _) (List.Subset.refl _)
    (List.Subset.refl _)

theorem account_wipe (hhanded : m.handed = true) : (m.wipe carry).account = m.account := by
  rw [Mirror.account, Mirror.account, Mirror.waiting, Mirror.waiting, if_pos hhanded]
  rfl

theorem Sound.removeTables (hhanded : m.handed = true) (hu : u ∈ m.processed)
    (hsettled : ∀ v ∈ m.processed, m.Settled v) : Sound (m.removeTables carry u) := by
  rw [Mirror.removeTables]
  split_ifs
  · exact .wipe hsettled
  · refine ⟨fun v hv => ?_, fun _ => .inl (Option.some_ne_none u), fun v hv t ht => ?_⟩
    · cases hv
      exact ⟨hhanded, hu⟩
    · rcases hsettled v hv t ht with hrejected | htable | hremoved
      · exact .inl hrejected
      · by_cases hremoves : removes u.removedTables t.sourceTableIdentifier = true
        · exact .inr (.inr ⟨u, hu, hremoves⟩)
        · refine .inr (.inl (List.mem_filter.mpr ⟨htable, ?_⟩))
          simpa using hremoves
      · exact .inr (.inr hremoved)

theorem account_removeTables (hhanded : m.handed = true) :
    (m.removeTables carry u).account = m.account := by
  rw [Mirror.removeTables]
  split_ifs
  · exact account_wipe hhanded
  · rw [Mirror.account, Mirror.account, Mirror.waiting, Mirror.waiting, if_pos hhanded,
      if_pos hhanded]

theorem received_removeTables : (m.removeTables carry u).received = m.received := by
  rw [Mirror.removeTables]
  split_ifs <;> rfl

/-- The tables of the update itself are settled by the addition, or by its rejection. -/
theorem Sound.addTables {allowNonEmpty : Bool} (hhanded : m.handed = true) (hu : u ∈ m.processed)
    (hsettled : ∀ v ∈ m.processed, v = u ∨ m.Settled v) :
    Sound (m.addTables carry allowNonEmpty u) := by
  rw [Mirror.addTables]
  split_ifs with hnone
  · refine .removeTables hhanded hu fun v hv => ?_
    rcases hsettled v hv with rfl | hv
    · intro t ht
      rw [hnone] at ht
      cases ht
    · exact hv
  · refine .removeTables hhanded hu fun v hv => ?_
    rcases hsettled v hv with rfl | hv
    · exact fun t _ => .inl (List.mem_append_right _ (List.mem_singleton_self v))
    · exact hv.mono (List.subset_append_left _ _) (List.Subset.refl _) (List.Subset.refl _)
  · refine ⟨fun v hv => ?_, fun _ => .inl (Option.some_ne_none u), fun v hv => ?_⟩
    · cases hv
      exact ⟨hhanded, hu⟩
    · rcases hsettled v hv with rfl | hv
      · exact fun t ht => .inr (.inl (List.mem_append_right _ ht))
      · exact hv.mono (List.Subset.refl _) (List.subset_append_left _ _) (List.Subset.refl _)

theorem account_addTables {allowNonEmpty : Bool} (hhanded : m.handed = true) :
    (m.addTables carry allowNonEmpty u).account = m.account := by
  rw [Mirror.addTables]
  split_ifs
  · exact account_removeTables hhanded
  · rw [account_removeTables (by exact hhanded)]
    rfl
  · rw [Mirror.account, Mirror.account, Mirror.waiting, Mirror.waiting, if_pos hhanded,
      if_pos hhanded]

theorem received_addTables {allowNonEmpty : Bool} :
    (m.addTables carry allowNonEmpty u).received = m.received := by
  rw [Mirror.addTables]
  split_ifs
  · exact received_removeTables
  · exact received_removeTables
  · rfl

theorem Sound.process {allowNonEmpty : Bool} (h : Sound m) :
    Sound (m.processCDCFlowConfigUpdate carry allowNonEmpty u) := by
  refine .addTables rfl (List.mem_append_right _ (List.mem_singleton_self u)) fun v hv => ?_
  rcases List.mem_append.mp hv with hv | hv
  · exact .inr ((h.settled v hv).mono (List.Subset.refl _) (List.Subset.refl _)
      (List.subset_append_left _ _))
  · exact .inl (List.mem_singleton.mp hv)

theorem account_process {allowNonEmpty : Bool} (hwaiting : m.waiting = [u]) :
    (m.processCDCFlowConfigUpdate carry allowNonEmpty u).account = m.account := by
  rw [Mirror.processCDCFlowConfigUpdate, account_addTables rfl, Mirror.account, Mirror.account,
    hwaiting]
  exact List.append_nil _

theorem step_open {a : Action} (h : step carry m a = some m') : ∀ how, m.phase ≠ .ended how := by
  intro how hphase
  simp [step, hphase] at h

theorem Sound.step {a : Action} (h : Sound m) (hstep : step carry m a = some m') : Sound m' := by
  cases step_move hstep with
  | quiet _ hq => exact h.quiet (step_open hstep) hq
  | listen u updates hlistens =>
    exact ⟨h.processing, h.handed, fun v hv => (h.settled v hv).mono (List.Subset.refl _)
      (List.Subset.refl _) (List.Subset.refl _)⟩
  | process u allowNonEmpty _ _ _ => exact h.process
  | added u outcome hu hq _ =>
    obtain ⟨hhanded, hmem⟩ := h.processing u hu
    refine .removeTables (hq.handed.trans hhanded) (hq.processed ▸ hmem) fun v hv => ?_
    exact (h.quiet (step_open hstep) hq).settled v hv
  | removed u outcome hu => exact .wipe h.settled

/-- **What a step does to the updates.**  It keeps the account of those that are processed or
waiting, or it receives one, which takes the place of any that is stored. -/
theorem step_account {a : Action} (h : Sound m) (hstep : step carry m a = some m') :
    (a ≠ .receiveUpdate ∧ m'.account = m.account ∧ m'.received = m.received) ∨
      a = .receiveUpdate ∧ m.waiting = m.state.flowConfigUpdate.toList ∧
        ∃ u, m'.account = m.processed ++ [u] ∧ m'.received = m.received ++ [u] := by
  cases step_move hstep with
  | quiet ha hq => exact .inl ⟨ha, hq.account, hq.received⟩
  | listen u updates hlistens =>
    refine .inr ⟨rfl, h.waiting_eq hlistens, u, ?_, rfl⟩
    rw [Mirror.account, Mirror.waiting, if_neg (by exact h.not_handed hlistens)]
    rfl
  | process u allowNonEmpty hphase hu _ =>
    have hwaiting := h.waiting_eq (by rw [hphase]; rfl)
    rw [hu] at hwaiting
    exact .inl ⟨nofun, account_process hwaiting, received_addTables⟩
  | added u outcome hu hq _ =>
    have hhanded := hq.handed.trans (h.processing u hu).1
    exact .inl ⟨nofun, (account_removeTables hhanded).trans hq.account,
      received_removeTables.trans hq.received⟩
  | removed u outcome hu => exact .inl ⟨nofun, account_wipe (h.processing u hu).1, rfl⟩

end

/-! ### Updates are kept -/

def ReceivesFree (m : Mirror) : Action → Prop
  | .receiveUpdate => m.state.flowConfigUpdate = none
  | _ => True

instance decidableReceivesFree (m : Mirror) : (a : Action) → Decidable (ReceivesFree m a)
  | .receiveUpdate => inferInstanceAs (Decidable (m.state.flowConfigUpdate = none))
  | .sendSignal _ => isTrue trivial
  | .sendStateChange _ => isTrue trivial
  | .sendUpdate _ => isTrue trivial
  | .cancel => isTrue trivial
  | .start _ => isTrue trivial
  | .receiveSignal => isTrue trivial
  | .receiveStateChange => isTrue trivial
  | .pauseTurn _ => isTrue trivial
  | .activityDone _ => isTrue trivial
  | .syncFlowDone _ _ => isTrue trivial
  | .sleepDone => isTrue trivial
  | .mainTurn _ => isTrue trivial
  | .drained => isTrue trivial

theorem receivesFree_of_ne {m : Mirror} {a : Action} (h : a ≠ .receiveUpdate) :
    ReceivesFree m a := by
  cases a with
  | receiveUpdate => exact absurd rfl h
  | _ => trivial

/-- The account of a run: complete if every update was received when none was stored, and
short of an update otherwise. -/
structure Tally (carry : Channels → Channels) (cfg : Config) (acts : List Action) (m : Mirror) :
    Prop where
  run : runs (step carry) (Mirror.new cfg) acts = some m
  sound : Sound m
  complete : Along (step carry) ReceivesFree (Mirror.new cfg) acts → m.account = m.received
  short : ¬Along (step carry) ReceivesFree (Mirror.new cfg) acts →
    m.account.length < m.received.length

theorem Tally.step {carry : Channels → Channels} {cfg : Config} {acts : List Action}
    {a : Action} {m m' : Mirror} (h : Tally carry cfg acts m) (hstep : step carry m a = some m') :
    Tally carry cfg (acts ++ [a]) m' := by
  have hrun : runs (CDCFlow.step carry) (Mirror.new cfg) (acts ++ [a]) = some m' := by
    rw [runs_append, h.run]
    simp [runs, hstep]
  have hsplit : Along (CDCFlow.step carry) ReceivesFree (Mirror.new cfg) (acts ++ [a]) ↔
      Along (CDCFlow.step carry) ReceivesFree (Mirror.new cfg) acts ∧ ReceivesFree m a := by
    constructor
    · intro halong
      obtain ⟨hbefore, hlast⟩ := along_append halong h.run
      exact ⟨hbefore, hlast.1⟩
    · rintro ⟨hbefore, hlast⟩
      exact along_of_append hbefore h.run ⟨hlast, fun _ _ => trivial⟩
  -- either nothing is received, or the account grows exactly when nothing was waiting
  rcases step_account h.sound hstep with ⟨ha, haccount, hreceived⟩ | ⟨rfl, hwaiting, u, haccount,
    hreceived⟩
  · refine ⟨hrun, h.sound.step hstep, fun halong => ?_, fun halong => ?_⟩
    · rw [haccount, hreceived]
      exact h.complete (hsplit.mp halong).1
    · rw [haccount, hreceived]
      exact h.short fun hbefore => halong (hsplit.mpr ⟨hbefore, receivesFree_of_ne ha⟩)
  · refine ⟨hrun, h.sound.step hstep, fun halong => ?_, fun halong => ?_⟩
    · obtain ⟨hbefore, hfree⟩ := hsplit.mp halong
      have hnone : m.account = m.processed := by
        rw [Mirror.account, hwaiting, show m.state.flowConfigUpdate = none from hfree]
        exact List.append_nil _
      rw [haccount, hreceived, ← h.complete hbefore, hnone]
    · rw [haccount, hreceived, List.length_append, List.length_append]
      by_cases hbefore : Along (CDCFlow.step carry) ReceivesFree (Mirror.new cfg) acts
      · -- the update that was stored is lost here
        have hstored : m.state.flowConfigUpdate ≠ none :=
          fun hnone => halong (hsplit.mpr ⟨hbefore, hnone⟩)
        obtain ⟨v, hv⟩ := Option.ne_none_iff_exists'.mp hstored
        have hlength := congrArg List.length (h.complete hbefore)
        rw [Mirror.account, hwaiting, hv, List.length_append] at hlength
        simp only [Option.toList_some, List.length_singleton] at hlength ⊢
        omega
      · have hlt := h.short hbefore
        rw [Mirror.account, List.length_append] at hlt
        simp only [List.length_singleton]
        omega

theorem tally_of_run {carry : Channels → Channels} {cfg : Config} {acts : List Action}
    {m : Mirror} (hrun : runs (step carry) (Mirror.new cfg) acts = some m) :
    Tally carry cfg acts m := by
  refine runs_history (Tally carry cfg) ⟨rfl, .new cfg, fun _ => rfl, fun h => ?_⟩ ?_ hrun
  · exact absurd trivial h
  · intro pre a s s' hpre hstep
    exact hpre.step hstep

/-- **Configuration updates are kept exactly when none is received over another.**  In every
run of a mirror the updates received are those processed, in the same order, followed by the
one that waits, if and only if every update was received when none was stored.  Then the tables
an update asks for are never dropped by a later one: the update waits, or has duplicates, or
they are tables of the mirror, or a processed update removes them. -/
theorem updates_kept_iff (carry : Channels → Channels) (cfg : Config) {acts : List Action}
    {m : Mirror} (hrun : runs (step carry) (Mirror.new cfg) acts = some m) :
    (m.processed ++ m.waiting = m.received ↔
        Along (step carry) ReceivesFree (Mirror.new cfg) acts) ∧
      (Along (step carry) ReceivesFree (Mirror.new cfg) acts →
        ∀ u ∈ m.received, ∀ t ∈ u.additionalTables,
          u ∈ m.waiting ∨ u ∈ m.rejected ∨ t ∈ m.state.tables ∨
            ∃ v ∈ m.processed, removes v.removedTables t.sourceTableIdentifier = true) := by
  have htally := tally_of_run hrun
  refine ⟨⟨fun hkept => ?_, htally.complete⟩, fun halong u hu t ht => ?_⟩
  · by_contra halong
    have hlt := htally.short halong
    rw [show m.account = m.received from hkept] at hlt
    exact Nat.lt_irrefl _ hlt
  · rw [← htally.complete halong] at hu
    rcases List.mem_append.mp hu with hu | hu
    · exact .inr (htally.sound.settled u hu t ht)
    · exact .inl hu

/-! ### Two updates -/

def addsTable (name : String) : CDCFlowConfigUpdate :=
  { additionalTables := [⟨"public." ++ name, name⟩] }

/-- The mirror is set up and starts its sync flow. -/
def startUp : List Action :=
  [.start none, .activityDone (.ok [(1, "public.t")]), .activityDone (.ok []), .start none]

/-- The running mirror receives an update. -/
def updateRunning (name : String) : List Action :=
  [.sendUpdate (addsTable name), .receiveUpdate]

/-- The running mirror is paused, and processes what is stored. -/
def pauseAndProcess : List Action :=
  [.sendSignal .pause, .receiveSignal, .mainTurn false, .syncFlowDone 0 .canceled, .drained,
    .start none, .pauseTurn false, .activityDone (.ok []), .activityDone (.ok []), .start none]

def oneTable : Config :=
  { tableMappings := [⟨"public.t", "t"⟩] }

/-- Two updates, the second after the first is processed. -/
theorem updates_kept_two :
    ∃ m, runs (step id) (Mirror.new oneTable)
        (startUp ++ updateRunning "a" ++ pauseAndProcess ++ updateRunning "b") = some m ∧
      m.processed = [addsTable "a"] ∧ m.waiting = [addsTable "b"] ∧
      m.processed ++ m.waiting = m.received ∧ ⟨"public.a", "a"⟩ ∈ m.state.tables := by
  have hrun : (runs (step id) (Mirror.new oneTable)
      (startUp ++ updateRunning "a" ++ pauseAndProcess ++ updateRunning "b")).map
        (fun m => (m.processed, m.waiting, m.state.tables)) =
      some ([addsTable "a"], [addsTable "b"], [⟨"public.t", "t"⟩, ⟨"public.a", "a"⟩]) := by
    decide +kernel
  obtain ⟨m, hm, hfields⟩ := Option.map_eq_some_iff.mp hrun
  obtain ⟨hprocessed, hwaiting, htables⟩ :
      m.processed = [addsTable "a"] ∧ m.waiting = [addsTable "b"] ∧
        m.state.tables = [⟨"public.t", "t"⟩, ⟨"public.a", "a"⟩] := by
    simpa using hfields
  have halong := along_of_check (show alongCheck (step id) ReceivesFree (Mirror.new oneTable)
      (startUp ++ updateRunning "a" ++ pauseAndProcess ++ updateRunning "b") = true by
    decide +kernel)
  refine ⟨m, hm, hprocessed, hwaiting, ((updates_kept_iff id oneTable hm).1).mpr halong, ?_⟩
  simp [htables]

/-- Two updates sent to a running mirror before it is paused: only the second is processed,
and the table of the first is not in the mirror. -/
theorem first_update_dropped :
    (runs (step id) (Mirror.new oneTable)
        (startUp ++ updateRunning "a" ++ updateRunning "b" ++ pauseAndProcess)).map
      (fun m => (m.received, m.processed, m.waiting, m.state.tables)) =
      some ([addsTable "a", addsTable "b"], [addsTable "b"], [],
        [⟨"public.t", "t"⟩, ⟨"public.b", "b"⟩]) := by
  decide +kernel

/-! ### Dropping the mirror -/

section

variable {carry : Channels → Channels} {m m' : Mirror} {u : CDCFlowConfigUpdate}

theorem dropped_removeTables (h : m.dropped = false) :
    (m.removeTables carry u).dropped = false := by
  rw [Mirror.removeTables]
  split_ifs
  · rfl
  · exact h

theorem dropped_addTables {allowNonEmpty : Bool} (h : m.dropped = false) :
    (m.addTables carry allowNonEmpty u).dropped = false := by
  rw [Mirror.addTables]
  split_ifs
  · exact dropped_removeTables h
  · exact dropped_removeTables h
  · exact h

/-- A step keeps a request to drop the mirror, and processes no update after it. -/
theorem dropSeen_step {a : Action} (h : m.DropSeen) (hstep : step carry m a = some m') :
    m'.DropSeen ∧ (m.dropped = true → m'.dropped = true ∧ m'.processed = m.processed) := by
  -- there is no request while an update is processed, and the step makes none
  have hcalm (hd : m.dropped = false) (hd' : m'.dropped = false) : m'.DropSeen ∧
      (m.dropped = true → m'.dropped = true ∧ m'.processed = m.processed) :=
    ⟨fun h => absurd (hd'.symm.trans h) (by decide), fun h => absurd (hd.symm.trans h) (by decide)⟩
  have hnone (u : CDCFlowConfigUpdate) (hu : m.phase.update = some u) : m.dropped = false :=
    Bool.eq_false_iff.mpr fun hd =>
      absurd ((dropping_of_update hu m.cancelled).symm.trans (h hd)) (by decide)
  cases step_move hstep with
  | quiet _ hq => exact ⟨hq.seen h, fun hd => ⟨hq.dropped hd, hq.processed⟩⟩
  | listen u updates hlistens => exact ⟨h, fun hd => ⟨hd, rfl⟩⟩
  | process u allowNonEmpty _ _ hd => exact hcalm hd (dropped_addTables hd)
  | added u outcome hu hq hsame =>
    exact hcalm (hnone u hu) (dropped_removeTables (hsame.trans (hnone u hu)))
  | removed u outcome hu => exact hcalm (hnone u hu) rfl

end

/-- **A request to drop a mirror is never lost.**  Once a signal or a state change asks to
terminate or resync it, whatever arrives later: the request stands, no update is processed, the
workflow does not continue as a new run, and it ends as the drop flow or because it is cancelled. -/
theorem drop_request_kept (carry : Channels → Channels) (cfg : Config) {acts acts' : List Action}
    {m m' : Mirror} (hrun : runs (step carry) (Mirror.new cfg) acts = some m)
    (hdropped : m.dropped = true) (hrun' : runs (step carry) m acts' = some m') :
    m'.dropped = true ∧ m'.processed = m.processed ∧ m'.phase ≠ .started ∧
      ∀ how, m'.phase = .ended how → how = .dropFlow ∨ how = .terminated ∧ m'.cancelled = true := by
  have hseen := runs_keeps Mirror.DropSeen (fun _ _ _ h hs => (dropSeen_step h hs).1)
    (fun h => by cases h) hrun
  obtain ⟨hseen', hd, hprocessed⟩ := runs_keeps
    (fun x => x.DropSeen ∧ x.dropped = true ∧ x.processed = m.processed) (fun x a y hx hs => by
      obtain ⟨hy, hkeeps⟩ := dropSeen_step hx.1 hs
      exact ⟨hy, (hkeeps hx.2.1).1, (hkeeps hx.2.1).2.trans hx.2.2⟩) ⟨hseen, hdropped, rfl⟩ hrun'
  have hphase := hseen' hd
  refine ⟨hd, hprocessed, fun hs => ?_, fun how hhow => ?_⟩
  · rw [hs] at hphase
    cases hphase
  · rw [hhow] at hphase
    cases how <;> simp_all [Phase.dropping]

/-- A running mirror is terminated, and then resumed. -/
theorem drop_request_kept_resumed :
    ∃ acts m m', runs (step id) (Mirror.new oneTable) acts = some m ∧
      runs (step id) m [.drained] = some m' ∧ m'.phase = .ended .dropFlow ∧
      m'.processed = m.processed := by
  have h : runs (step id) (Mirror.new oneTable)
    (startUp ++ [.sendSignal .terminate, .receiveSignal, .sendSignal .noop, .receiveSignal,
      .mainTurn true, .syncFlowDone 0 .ok]) = some _ := rfl
  exact ⟨_, _, _, h, rfl, rfl, (@drop_request_kept id oneTable _ [.drained] _ _ h rfl rfl).2.1⟩

end CDCFlow
