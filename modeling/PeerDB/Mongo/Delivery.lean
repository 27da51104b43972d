/-
Pulling a change stream again and again (`activities/flowable_core.go`, `syncCore`).

Each call of `PullRecords` starts from the offset in the catalog.  The offset is saved by
an idle call itself, or with a batch that was synced.  A call can end anywhere: it
returns an error, its batch is not synced, or the worker crashes; then what it pulled is
pulled again.

However the server answers and wherever calls end, nothing is lost
(`changes_at_least_once`): an event is emitted after all events in front of it, and the
saved offset has only events of synced batches up to it.
-/
import PeerDB.Lib.Replay
import PeerDB.Mongo.Pull

namespace Mongo

open Loop Replay List

section Delivery

variable {K D V : Type}

/-! ### Calls -/

/-- A call that is over: what it added to its record stream, and whether that was synced. -/
structure Call (K D V : Type) where
  records : List (ChangeEvent K D × Record V)
  synced : Bool

def Call.events (c : Call K D V) : List (ChangeEvent K D) := c.records.map Prod.fst

def PullState.events (p : PullState K D V) : List (ChangeEvent K D) := p.records.map Prod.fst

theorem added_events (p : PullState K D V) (e : ChangeEvent K D)
    (pending : List (ChangeEvent K D)) (record : Record V) :
    (p.added e pending record).events = p.events ++ [e] := by
  simp [PullState.added, PullState.events]

/-- What is going on: nothing, a call, or the sync of what a call has pulled. -/
inductive Phase (K D V : Type) where
  | idle
  | pulling (p : PullState K D V)
  | returned (p : PullState K D V)

def Phase.records : Phase K D V → List (ChangeEvent K D × Record V)
  | .idle => []
  | .pulling p => p.records
  | .returned p => p.records

/-- The catalog, the calls that are over, and the one that is not. -/
structure World (K D V : Type) where
  lastOffset : Option Token
  past : List (Call K D V) := []
  phase : Phase K D V := .idle

/-- All calls, the present one as not synced. -/
def World.calls (w : World K D V) : List (Call K D V) := w.past ++ [⟨w.phase.records, false⟩]

/-- Everything that was ever added to a record stream, in order. -/
def World.emitted (w : World K D V) : List (ChangeEvent K D) := w.calls.flatMap Call.events

def World.synced (w : World K D V) : List (ChangeEvent K D) :=
  (w.past.filter Call.synced).flatMap Call.events

inductive Action where
  | start (watch watchAgain : WatchOutcome)
  | turn (i : TurnInput)
  | sync
  | crash

/-- The call is over. -/
def World.close (w : World K D V) (lastOffset : Option Token) (synced : Bool) : World K D V where
  lastOffset := lastOffset
  past := w.past ++ [⟨w.phase.records, synced⟩]

/-- The steps of the world; a batch is synced after its call has returned. -/
def step (cfg : PullConfig K D V) (log : Oplog K D) (w : World K D V) :
    Action → Option (World K D V)
  | .start watch watchAgain =>
    match w.phase with
    | .idle =>
      (startPull cfg log w.lastOffset watch watchAgain).map fun result =>
        match result with
        | .error _ => w
        | .ok p => { w with phase := .pulling p }
    | _ => none
  | .turn i =>
    match w.phase with
    | .pulling p =>
      (pullTurn cfg log p i).map fun r =>
        { w with
          lastOffset := r.saved.or w.lastOffset
          phase := if r.returned.isSome then .returned r.state else .pulling r.state }
    | _ => none
  | .sync =>
    match w.phase with
    | .returned p => if p.records = [] then none else some (w.close p.lastCheckpointText true)
    | _ => none
  | .crash => some (w.close w.lastOffset false)

/-- The world after `SetupReplication`, which saves the first token. -/
def World.setup (t₀ : Token) : World K D V where
  lastOffset := some t₀

/-! ### Nothing is lost -/

section Safety

variable {cfg : PullConfig K D V} {log : Oplog K D} {t₀ : Token}

/-- The events a mirror has to deliver. -/
def Due (cfg : PullConfig K D V) (t₀ : Token) (e : ChangeEvent K D) : Prop :=
  cfg.wanted e = true ∧ t₀ < e.token

/-- Events that need not be delivered any more. -/
def Kept (cfg : PullConfig K D V) (t₀ : Token) (out : List (ChangeEvent K D))
    (e : ChangeEvent K D) : Prop :=
  Due cfg t₀ e → e ∈ out

theorem Kept.mono {out out' : List (ChangeEvent K D)} (h : ∀ e ∈ out, e ∈ out')
    (e : ChangeEvent K D) (he : Kept cfg t₀ out e) : Kept cfg t₀ out' e :=
  fun hdue => h e (he hdue)

section Opening

variable {pipeline : Pipeline} {cs : ChangeStream K D} {t : Token}
  {out : List (ChangeEvent K D)}
  (hpipeline : createPipeline (some cfg.tableNameMapping) cfg.excludedOps = .ok pipeline)
  (hcovers : Covers ChangeEvent.token log.events (Kept cfg t₀ out) t)

include hpipeline hcovers

/-- A stream that has every event after a safe token has lost nothing. -/
theorem reading_of_late {late : ChangeEvent K D → Bool}
    (hlate : ∀ e ∈ log.events, t < e.token → late e = true) :
    Reading ChangeEvent.token log.events (Kept cfg t₀ out)
      ((log.events.filter pipeline.passes).filter late) := by
  refine hcovers.reading ((log.increasing.filter _).filter _) fun e he ht => ?_
  by_cases hwanted : cfg.wanted e = true
  · have hpasses := passes_of_wanted cfg (log.dotless e he) hpipeline hwanted
    exact Or.inl (mem_filter.mpr ⟨mem_filter.mpr ⟨he, hpasses⟩, hlate e he ht⟩)
  · exact Or.inr fun hdue => absurd hdue.1 hwanted

theorem Resumed.reading (h : Resumed log pipeline t cs) :
    Reading ChangeEvent.token log.events (Kept cfg t₀ out) cs.pending := by
  rw [h.pending]
  exact reading_of_late hpipeline hcovers fun e _ ht => decide_eq_true ht

theorem Started.reading {time : Timestamp} (h : Started log pipeline time cs)
    (hdecoded : decodeTimestampFromResumeToken t = .ok time) :
    Reading ChangeEvent.token log.events (Kept cfg t₀ out) cs.pending := by
  rw [h.pending]
  refine reading_of_late hpipeline hcovers fun e he ht => ?_
  exact decide_eq_true (decodeTimestampFromResumeToken_mono ht.le hdecoded (log.timed e he))

end Opening

/-- A call whose checkpoint is safe: everything up to it was synced before, or is in the batch. -/
structure Checkpointed (cfg : PullConfig K D V) (log : Oplog K D) (t₀ : Token)
    (synced : List (ChangeEvent K D)) (p : PullState K D V) : Prop where
  covers : ∀ c ∈ p.lastCheckpointText,
    Covers ChangeEvent.token log.events (Kept cfg t₀ (synced ++ p.events)) c
  stamped : p.records ≠ [] → p.lastCheckpointText.isSome

/-- A call that reads on: everything else is still to come. -/
structure Loading (cfg : PullConfig K D V) (log : Oplog K D) (t₀ : Token)
    (synced : List (ChangeEvent K D)) (p : PullState K D V) : Prop
    extends Checkpointed cfg log t₀ synced p where
  pipeline : createPipeline (some cfg.tableNameMapping) cfg.excludedOps = .ok p.pipeline
  reading : Reading ChangeEvent.token log.events (Kept cfg t₀ (synced ++ p.events))
    p.changeStream.pending
  ahead : p.changeStream.Ahead
  counted : p.recordCount = p.records.length

section Turns

variable {synced : List (ChangeEvent K D)} {p : PullState K D V} {cs : ChangeStream K D}

theorem Loading.covers_of_advanced (h : Loading cfg log t₀ synced p)
    (hadvanced : p.changeStream.Advanced cs) {r : Token} (hr : r ∈ cs.resumeToken) :
    Covers ChangeEvent.token log.events (Kept cfg t₀ (synced ++ p.events)) r := by
  refine h.reading.covers ?_
  rw [← hadvanced.pending]
  exact hadvanced.ahead h.ahead r hr

theorem Loading.checkpoint (h : Loading cfg log t₀ synced p)
    (hadvanced : p.changeStream.Advanced cs) :
    Checkpointed cfg log t₀ synced { p with changeStream := cs }.checkpoint := by
  rw [checkpoint_eq]
  refine ⟨fun c hc => ?_, fun hrecords => ?_⟩
  · have hc' : cs.resumeToken.or p.lastCheckpointText = some c := hc
    rcases Option.or_eq_some_iff.mp hc' with hrt | ⟨-, hlast⟩
    · exact h.covers_of_advanced hadvanced hrt
    · exact h.covers c hlast
  · show (cs.resumeToken.or p.lastCheckpointText).isSome
    rw [Option.isSome_or, h.stamped hrecords, Bool.or_true]

/-- An empty call has only what was synced before. -/
theorem Loading.events_nil (h : Loading cfg log t₀ synced p) (hempty : p.recordCount = 0) :
    p.records = [] := by
  rw [h.counted] at hempty
  exact length_eq_zero_iff.mp hempty

theorem Loading.save (h : Loading cfg log t₀ synced p) (hadvanced : p.changeStream.Advanced cs)
    (hempty : p.recordCount = 0) {r : Token} (hr : r ∈ cs.resumeToken) :
    Covers ChangeEvent.token log.events (Kept cfg t₀ synced) r := by
  have hcovers := h.covers_of_advanced hadvanced hr
  rw [PullState.events, h.events_nil hempty, map_nil, append_nil] at hcovers
  exact hcovers

/-- What a turn leaves, saves and emits. -/
structure TurnKeeps (cfg : PullConfig K D V) (log : Oplog K D) (t₀ : Token)
    (synced : List (ChangeEvent K D)) (p : PullState K D V) (r : Turned K D V) : Prop where
  state : Checkpointed cfg log t₀ synced r.state
  goes : r.returned = none → Loading cfg log t₀ synced r.state
  saved : ∀ t ∈ r.saved, Covers ChangeEvent.token log.events (Kept cfg t₀ synced) t
  emits : r.state.events = p.events ∨
    ∃ e, r.state.events = p.events ++ [e] ∧ ∀ x ∈ log.events, Due cfg t₀ x →
      x.token < e.token → x ∈ synced ++ p.events

theorem Loading.add (h : Loading cfg log t₀ synced p) {e : ChangeEvent K D}
    {pending : List (ChangeEvent K D)} (hnext : p.changeStream.pending = e :: pending)
    (record : Record V) :
    Loading cfg log t₀ synced (p.added e pending record) ∧
      ∀ x ∈ log.events, Due cfg t₀ x → x.token < e.token → x ∈ synced ++ p.events := by
  have hreading := hnext ▸ h.reading
  have hnew : Reading ChangeEvent.token log.events
      (Kept cfg t₀ (synced ++ (p.added e pending record).events)) pending := by
    rw [added_events]
    refine (hreading.mono (Kept.mono fun x hx => ?_)).next fun _ => by simp
    rw [← append_assoc]
    exact mem_append_left _ hx
  have hahead : ∀ x ∈ pending, e.token < x.token := fun x hx =>
    rel_of_pairwise_cons hreading.sorted hx
  refine ⟨⟨⟨fun c hc => ?_, fun _ => rfl⟩, h.pipeline, hnew, fun r hr => ?_, ?_⟩,
    fun x hx hdue hlt => hreading.before hx hlt hdue⟩
  · cases hc
    exact hnew.covers hahead
  · cases hr
    exact hahead
  · simp [PullState.added, h.counted]

/-- An event is passed over, and it is not due. -/
theorem Loading.skip (h : Loading cfg log t₀ synced p) {e : ChangeEvent K D}
    {pending : List (ChangeEvent K D)} (hnext : p.changeStream.pending = e :: pending)
    (hskipped : handleEvent cfg e = .ok none) :
    Loading cfg log t₀ synced { p with changeStream := ⟨pending, some e.token⟩ } := by
  have hreading := h.reading
  rw [hnext] at hreading
  have hdone : Kept cfg t₀ (synced ++ p.events) e := by
    rintro ⟨hwanted, -⟩
    rw [PullConfig.wanted, (handleEvent_none_iff cfg).mp hskipped] at hwanted
    cases hwanted
  refine ⟨⟨h.covers, h.stamped⟩, h.pipeline, hreading.next hdone, fun r hr x hx => ?_, h.counted⟩
  cases hr
  exact rel_of_pairwise_cons hreading.sorted hx

theorem Loading.turn (h : Loading cfg log t₀ synced p) {i : TurnInput} {r : Turned K D V}
    (hturn : TurnCase cfg log p i r) : TurnKeeps cfg log t₀ synced p r := by
  cases hturn with
  | @stops p' result hrecords hcheckpoint =>
    have hevents : p'.events = p.events := by rw [PullState.events, hrecords, PullState.events]
    refine ⟨⟨?_, ?_⟩, nofun, nofun, Or.inl hevents⟩
    · simpa only [hcheckpoint, hevents] using h.covers
    · simpa only [hcheckpoint, hrecords] using h.stamped
  | quiet hadvanced =>
    exact ⟨h.checkpoint hadvanced, nofun, nofun, Or.inl (by rw [checkpoint_eq]; rfl)⟩
  | breaks hadvanced hempty hsave =>
    exact ⟨h.checkpoint hadvanced, nofun, fun t ht => h.save hadvanced hempty (hsave t ht),
      Or.inl (by rw [checkpoint_eq]; rfl)⟩
  | @resumes cs cs' opts saved rt _ hadvanced hempty hrt hsave hresumed =>
    have hcovers := h.covers_of_advanced hadvanced hrt
    have hload : Loading cfg log t₀ synced { p with
        changeStreamOpts := opts, changeStream := cs', lastCheckpointText := some rt } := by
      refine ⟨⟨fun c hc => ?_, fun _ => rfl⟩, h.pipeline, hresumed.reading h.pipeline hcovers,
        hresumed.ahead, h.counted⟩
      cases hc
      exact hcovers
    refine ⟨hload.toCheckpointed, fun _ => hload, fun t ht => ?_, Or.inl rfl⟩
    obtain rfl := hsave t ht
    exact h.save hadvanced hempty hrt
  | @restarts cs cs' opts rt time moved _ hadvanced hrt hdecoded hstarted =>
    have hcovers := h.covers_of_advanced hadvanced hrt
    have hload : Loading cfg log t₀ synced
        { p with changeStreamOpts := opts, changeStream := cs' } :=
      ⟨⟨h.covers, h.stamped⟩, h.pipeline, hstarted.reading h.pipeline hcovers hdecoded,
        hstarted.ahead, h.counted⟩
    exact ⟨hload.toCheckpointed, fun _ => hload, nofun, Or.inl rfl⟩
  | skips hnext hskipped =>
    have hload := h.skip hnext hskipped
    exact ⟨hload.toCheckpointed, fun _ => hload, nofun, Or.inl rfl⟩
  | @adds e pending record hnext _ =>
    obtain ⟨hload, hbefore⟩ := h.add hnext record
    exact ⟨hload.toCheckpointed, fun _ => hload, nofun,
      Or.inr ⟨e, added_events p e pending record, hbefore⟩⟩

end Turns

/-! ### Runs -/

section Worlds

variable {w w' : World K D V}

theorem emitted_eq (w : World K D V) :
    w.emitted = w.past.flatMap Call.events ++ w.phase.records.map Prod.fst := by
  rw [World.emitted, World.calls, flatMap_append]
  simp [Call.events]

/-- To close a call emits nothing. -/
theorem close_emitted (w : World K D V) (offset : Option Token) (synced : Bool) :
    (w.close offset synced).emitted = w.emitted := by
  rw [emitted_eq, emitted_eq, World.close, flatMap_append]
  simp [Phase.records, Call.events]

theorem close_synced (w : World K D V) (offset : Option Token) (synced : Bool) :
    (w.close offset synced).synced =
      w.synced ++ if synced then w.phase.records.map Prod.fst else [] := by
  rw [World.synced, World.synced, World.close, filter_append, flatMap_append]
  cases synced with
  | true => simp [Call.events]
  | false => simp

theorem synced_subset (w : World K D V) : ∀ e ∈ w.synced, e ∈ w.past.flatMap Call.events := by
  intro e he
  obtain ⟨c, hc, hce⟩ := mem_flatMap.mp he
  exact mem_flatMap.mpr ⟨c, (mem_filter.mp hc).1, hce⟩

/-- What holds of the world after any steps. -/
structure World.Inv (cfg : PullConfig K D V) (log : Oplog K D) (t₀ : Token) (w : World K D V) :
    Prop where
  offset : ∃ t, w.lastOffset = some t ∧
    Covers ChangeEvent.token log.events (Kept cfg t₀ w.synced) t
  pulling : ∀ p, w.phase = .pulling p → Loading cfg log t₀ w.synced p
  returned : ∀ p, w.phase = .returned p → Checkpointed cfg log t₀ w.synced p
  order : Gapless ChangeEvent.token log.events (Due cfg t₀) w.emitted

theorem inv_setup : (World.setup t₀ : World K D V).Inv cfg log t₀ where
  offset := ⟨t₀, rfl, fun _ _ hle hdue => absurd hle (not_le.mpr hdue.2)⟩
  pulling p hp := by cases hp
  returned p hp := by cases hp
  order pre x post hsplit := by
    have hlen := congrArg List.length hsplit
    simp [emitted_eq, World.setup, Phase.records] at hlen

/-- What a step does. -/
inductive StepCase (cfg : PullConfig K D V) (log : Oplog K D) (w : World K D V) :
    Action → World K D V → Prop where
  /-- the call does not get to its loop -/
  | fails {watch watchAgain : WatchOutcome} : StepCase cfg log w (.start watch watchAgain) w
  /-- the call has opened its stream -/
  | opens {watch watchAgain : WatchOutcome} {p : PullState K D V} (idle : w.phase = .idle)
      (started : startPull cfg log w.lastOffset watch watchAgain = some (.ok p)) :
      StepCase cfg log w (.start watch watchAgain) { w with phase := .pulling p }
  | goes {i : TurnInput} {p p' : PullState K D V} {saved : Option Token}
      (pulling : w.phase = .pulling p) (turn : TurnCase cfg log p i ⟨p', saved, none⟩) :
      StepCase cfg log w (.turn i)
        { w with lastOffset := saved.or w.lastOffset, phase := .pulling p' }
  | returns {i : TurnInput} {p p' : PullState K D V} {saved : Option Token}
      {result : Except String Unit} (pulling : w.phase = .pulling p)
      (turn : TurnCase cfg log p i ⟨p', saved, some result⟩) :
      StepCase cfg log w (.turn i)
        { w with lastOffset := saved.or w.lastOffset, phase := .returned p' }
  | syncs {p : PullState K D V} (returned : w.phase = .returned p) (records : p.records ≠ []) :
      StepCase cfg log w .sync (w.close p.lastCheckpointText true)
  | crashes : StepCase cfg log w .crash (w.close w.lastOffset false)

theorem step_cases {a : Action} (h : step cfg log w a = some w') : StepCase cfg log w a w' := by
  cases a with
  | start watch watchAgain =>
    cases hphase : w.phase <;> simp only [step, hphase, reduceCtorEq] at h
    obtain ⟨result, hstart, rfl⟩ := Option.map_eq_some_iff.mp h
    cases result with
    | error err => exact .fails
    | ok p => exact .opens hphase hstart
  | turn i =>
    cases hphase : w.phase <;> simp only [step, hphase, reduceCtorEq] at h
    obtain ⟨⟨p', saved, result⟩, hturn, rfl⟩ := Option.map_eq_some_iff.mp h
    cases result with
    | none => exact .goes hphase (pullTurn_cases hturn)
    | some result => exact .returns hphase (pullTurn_cases hturn)
  | sync =>
    cases hphase : w.phase <;> simp only [step, hphase, reduceCtorEq] at h
    split_ifs at h with hempty
    cases h
    exact .syncs hphase hempty
  | crash =>
    cases h
    exact .crashes

/-- A stream is opened from the saved offset. -/
theorem World.Inv.start (h : w.Inv cfg log t₀) {watch watchAgain : WatchOutcome}
    (hidle : w.phase = .idle) {p : PullState K D V}
    (hstart : startPull cfg log w.lastOffset watch watchAgain = some (.ok p)) :
    World.Inv cfg log t₀ { w with phase := .pulling p } := by
  obtain ⟨t, ht, hcovers⟩ := h.offset
  rw [ht] at hstart
  rcases startPull_cases hstart with ⟨err, herr⟩ | ⟨pipeline, opts, cs, hpipeline, hp, hopened⟩
  · cases herr
  · cases hp
    rw [← append_nil w.synced] at hcovers
    refine ⟨h.offset, fun p hp => ?_, nofun, ?_⟩
    · cases hp
      rcases hopened with hresumed | ⟨-, time, hdecoded, hstarted⟩
      · exact ⟨⟨nofun, fun hne => absurd rfl hne⟩, hpipeline, hresumed.reading hpipeline hcovers,
          hresumed.ahead, rfl⟩
      · exact ⟨⟨nofun, fun hne => absurd rfl hne⟩, hpipeline,
          hstarted.reading hpipeline hcovers hdecoded, hstarted.ahead, rfl⟩
    · have horder := h.order
      rw [emitted_eq, hidle] at horder
      rw [emitted_eq]
      exact horder

section TurnStep

variable {p : PullState K D V} {r : Turned K D V}
  (h : w.Inv cfg log t₀) (hphase : w.phase = .pulling p)
  (hkeeps : TurnKeeps cfg log t₀ w.synced p r)

include h

theorem World.Inv.saves (hkeeps : TurnKeeps cfg log t₀ w.synced p r) :
    ∃ t, r.saved.or w.lastOffset = some t ∧
      Covers ChangeEvent.token log.events (Kept cfg t₀ w.synced) t := by
  cases hsaved : r.saved with
  | none => exact h.offset
  | some t => exact ⟨t, rfl, hkeeps.saved t hsaved⟩

include hphase hkeeps

/-- What a turn emits comes after all that is due in front of it. -/
theorem World.Inv.emits :
    Gapless ChangeEvent.token log.events (Due cfg t₀)
      (w.past.flatMap Call.events ++ r.state.events) := by
  have horder := h.order
  rw [emitted_eq, hphase] at horder
  rcases hkeeps.emits with hsame | ⟨e, hnew, hbefore⟩
  · rw [hsame]
    exact horder
  · rw [hnew, ← append_assoc]
    refine Gapless.snoc horder fun x hx hdue hlt => ?_
    rcases mem_append.mp (hbefore x hx hdue hlt) with hsynced | hbatch
    · exact mem_append_left _ (synced_subset w x hsynced)
    · exact mem_append_right _ hbatch

end TurnStep

theorem step_inv {a : Action} (h : w.Inv cfg log t₀) (hstep : step cfg log w a = some w') :
    w'.Inv cfg log t₀ := by
  cases step_cases hstep with
  | fails => exact h
  | opens hidle hstart => exact h.start hidle hstart
  | goes hphase hturn =>
    have hkeeps := (h.pulling _ hphase).turn hturn
    refine ⟨h.saves hkeeps, fun q hq => ?_, nofun, emitted_eq _ ▸ h.emits hphase hkeeps⟩
    cases hq
    exact hkeeps.goes rfl
  | returns hphase hturn =>
    have hkeeps := (h.pulling _ hphase).turn hturn
    refine ⟨h.saves hkeeps, nofun, fun q hq => ?_, emitted_eq _ ▸ h.emits hphase hkeeps⟩
    cases hq
    exact hkeeps.state
  | @syncs p hphase hrecords =>
    have hcheckpointed := h.returned p hphase
    obtain ⟨c, hc⟩ := Option.isSome_iff_exists.mp (hcheckpointed.stamped hrecords)
    refine ⟨⟨c, hc, ?_⟩, nofun, nofun, close_emitted w _ _ ▸ h.order⟩
    rw [close_synced, hphase]
    exact hcheckpointed.covers c hc
  | crashes =>
    refine ⟨?_, nofun, nofun, close_emitted w _ _ ▸ h.order⟩
    rw [close_synced, if_neg Bool.false_ne_true, append_nil]
    exact h.offset

/-- Every record was made of its event. -/
def World.Made (cfg : PullConfig K D V) (w : World K D V) : Prop :=
  ∀ c ∈ w.calls, ∀ x ∈ c.records, handleEvent cfg x.1 = .ok (some x.2)

theorem made_iff : w.Made cfg ↔
    (∀ c ∈ w.past, ∀ x ∈ c.records, handleEvent cfg x.1 = .ok (some x.2)) ∧
      ∀ x ∈ w.phase.records, handleEvent cfg x.1 = .ok (some x.2) := by
  rw [World.Made, World.calls, forall_mem_append, forall_mem_singleton]

theorem TurnCase.made {p : PullState K D V} {i : TurnInput} {r : Turned K D V}
    (h : TurnCase cfg log p i r) (hp : ∀ x ∈ p.records, handleEvent cfg x.1 = .ok (some x.2)) :
    ∀ x ∈ r.state.records, handleEvent cfg x.1 = .ok (some x.2) := by
  cases h with
  | stops hrecords => rwa [hrecords]
  | quiet | breaks =>
    rw [checkpoint_eq]
    exact hp
  | resumes | restarts | skips => exact hp
  | adds _ hhandled => exact forall_mem_append.mpr ⟨hp, forall_mem_singleton.mpr hhandled⟩

theorem step_made {a : Action} (h : w.Made cfg) (hinv : w.Inv cfg log t₀)
    (hstep : step cfg log w a = some w') : w'.Made cfg := by
  rw [made_iff] at h ⊢
  cases step_cases hstep with
  | fails => exact h
  | opens _ hstart =>
    obtain ⟨t, ht, -⟩ := hinv.offset
    rw [ht] at hstart
    rcases startPull_cases hstart with ⟨err, herr⟩ | ⟨pipeline, opts, cs, -, hp, -⟩
    · cases herr
    · cases hp
      exact ⟨h.1, forall_mem_nil _⟩
  | goes hphase hturn | returns hphase hturn =>
    rw [hphase] at h
    exact ⟨h.1, hturn.made h.2⟩
  | syncs | crashes =>
    exact ⟨forall_mem_append.mpr ⟨h.1, forall_mem_singleton.mpr h.2⟩, forall_mem_nil _⟩

end Worlds

end Safety

/-! ### What is emitted again -/

section Once

variable {cfg : PullConfig K D V} {log : Oplog K D} {t₀ t : Token} {p : PullState K D V}
  {w w' : World K D V}

/-- The server does not know a token any more. -/
def Action.losesToken : Action → Prop
  | .start watch _ => watch = .resumeTokenNotFound
  | .turn i => ∃ moved, i.next = .resumeTokenNotFound moved
  | .sync => False
  | .crash => False

/-- The batch of a call that started after `t`, in order. -/
structure Sent (t : Token) (p : PullState K D V) : Prop where
  after : ∀ e ∈ p.events, t < e.token
  rising : p.events.Pairwise fun a b => a.token < b.token
  stamp : ∀ c ∈ p.lastCheckpointText, ∀ e ∈ p.events, e.token ≤ c

/-- A call that goes on behind its batch. -/
structure Fresh (t : Token) (p : PullState K D V) : Prop extends Sent t p where
  pending : ∀ e ∈ p.changeStream.pending, t < e.token
  behind : ∀ e ∈ p.events, ∀ x ∈ p.changeStream.pending, e.token < x.token
  token : ∃ r, p.changeStream.resumeToken = some r ∧ t ≤ r ∧ ∀ e ∈ p.events, e.token ≤ r

theorem Sent.of_nil (h : p.records = []) : Sent t p := by
  have hevents : p.events = [] := by rw [PullState.events, h, map_nil]
  constructor <;> simp [hevents]

/-- A stream that resumed after the offset, or later, has only events behind it. -/
theorem Fresh.of_resumed {pipeline : Pipeline} {rt : Token}
    (h : Resumed log pipeline rt p.changeStream) (hrecords : p.records = []) (hle : t ≤ rt) :
    Fresh t p := by
  have hevents : p.events = [] := by rw [PullState.events, hrecords, map_nil]
  obtain ⟨r, hr, hafter⟩ := h.after
  refine ⟨Sent.of_nil hrecords, fun e he => ?_, by simp [hevents], r, hr, hle.trans hafter,
    by simp [hevents]⟩
  rw [h.pending] at he
  exact lt_of_le_of_lt hle (of_decide_eq_true (mem_filter.mp he).2)

theorem Fresh.add (h : Fresh t p)
    (hsorted : p.changeStream.pending.Pairwise fun a b => a.token < b.token)
    {e : ChangeEvent K D} {pending : List (ChangeEvent K D)}
    (hnext : p.changeStream.pending = e :: pending) (record : Record V) :
    Fresh t (p.added e pending record) := by
  obtain ⟨⟨hafter, hrising, -⟩, hpending, hbehind, -⟩ := h
  rw [hnext] at hpending hbehind hsorted
  have hevents := added_events p e pending record
  have hahead := (pairwise_cons.mp hsorted).1
  have hupto : ∀ x ∈ (p.added e pending record).events, x.token ≤ e.token := by
    rw [hevents]
    grind
  refine ⟨⟨by rw [hevents]; grind, by rw [hevents]; grind, fun c hc => ?_⟩, ?_,
    fun x hx y hy => lt_of_le_of_lt (hupto x hx) (hahead y hy), e.token, rfl,
    (hpending e mem_cons_self).le, hupto⟩
  · cases hc
    exact hupto
  · exact fun x hx => hpending x (mem_cons_of_mem e hx)

theorem Fresh.skip (h : Fresh t p) {e : ChangeEvent K D} {pending : List (ChangeEvent K D)}
    (hnext : p.changeStream.pending = e :: pending) :
    Fresh t { p with changeStream := ⟨pending, some e.token⟩ } := by
  have hpending := h.pending
  have hbehind := h.behind
  rw [hnext] at hpending hbehind
  refine ⟨⟨h.after, h.rising, h.stamp⟩, fun x hx => ?_, fun x hx y hy => ?_, e.token, rfl,
    (hpending e mem_cons_self).le, fun x hx => ?_⟩
  · exact hpending x (mem_cons_of_mem e hx)
  · exact hbehind x hx y (mem_cons_of_mem e hy)
  · exact (hbehind x hx e mem_cons_self).le

/-- **One turn.**  A checkpoint that is saved is ahead of the offset, and what the call
goes on to read is ahead of the checkpoint. -/
theorem Fresh.turn {synced : List (ChangeEvent K D)} (h : Fresh t p)
    (hload : Loading cfg log t₀ synced p) {i : TurnInput} {r : Turned K D V}
    (hfound : ¬ (Action.turn i).losesToken) (hturn : TurnCase cfg log p i r) :
    ∃ t', r.saved.or (some t) = some t' ∧ t ≤ t' ∧ Sent t' r.state ∧
      (r.returned = none → Fresh t' r.state) := by
  obtain ⟨last, hlast, htlast, hbatch⟩ := h.token
  cases hturn with
  | @stops p' result hrecords hcheckpoint =>
    have hevents : p'.events = p.events := by rw [PullState.events, hrecords, PullState.events]
    refine ⟨t, rfl, le_rfl, ⟨?_, ?_, ?_⟩, nofun⟩
    · exact hevents ▸ h.after
    · exact hevents ▸ h.rising
    · simpa only [hevents, hcheckpoint] using h.stamp
  | @quiet cs hadvanced =>
    obtain ⟨rt, hrt, hle⟩ := hadvanced.after hlast
    refine ⟨t, rfl, le_rfl, ?_, nofun⟩
    rw [checkpoint_eq]
    refine ⟨h.after, h.rising, fun c hc e he => ?_⟩
    have hc' : cs.resumeToken.or p.lastCheckpointText = some c := hc
    rw [hrt, Option.some_or] at hc'
    cases hc'
    exact (hbatch e he).trans hle
  | @breaks cs saved err hadvanced hempty hsave =>
    obtain ⟨rt, hrt, hle⟩ := hadvanced.after hlast
    have hnil := hload.events_nil hempty
    have hsent : ∀ t', Sent t' ({ p with changeStream := cs }.checkpoint) := by
      intro t'
      rw [checkpoint_eq]
      exact Sent.of_nil hnil
    cases saved with
    | none => exact ⟨t, rfl, le_rfl, hsent t, nofun⟩
    | some t' =>
      obtain rfl := Option.some.inj (hrt.symm.trans (hsave t' rfl))
      exact ⟨rt, rfl, htlast.trans hle, hsent rt, nofun⟩
  | @resumes cs cs' opts saved rt _ hadvanced hempty hrt hsave hresumed =>
    obtain ⟨rt', hrt', hle⟩ := hadvanced.after hlast
    obtain rfl := Option.some.inj (hrt.symm.trans hrt')
    have hfresh : ∀ t', t' ≤ rt → Fresh t' { p with
        changeStreamOpts := opts, changeStream := cs', lastCheckpointText := some rt } :=
      fun t' ht' => Fresh.of_resumed hresumed (hload.events_nil hempty) ht'
    cases saved with
    | none =>
      have hkept := hfresh t (htlast.trans hle)
      exact ⟨t, rfl, le_rfl, hkept.toSent, fun _ => hkept⟩
    | some t' =>
      obtain rfl := hsave t' rfl
      exact ⟨t', rfl, htlast.trans hle, (hfresh t' le_rfl).toSent, fun _ => hfresh t' le_rfl⟩
  | restarts hnext => exact absurd ⟨_, hnext⟩ hfound
  | skips hnext =>
    have hfresh := h.skip hnext
    exact ⟨t, rfl, le_rfl, hfresh.toSent, fun _ => hfresh⟩
  | @adds e pending record hnext =>
    have hfresh := h.add hload.reading.sorted hnext record
    exact ⟨t, rfl, le_rfl, hfresh.toSent, fun _ => hfresh⟩

/-- Synced batches are behind the offset, and the calls after them are ahead of it. -/
structure World.Once (w : World K D V) : Prop where
  offset : ∃ t, w.lastOffset = some t ∧
    (∀ c ∈ w.past, c.synced = true → ∀ e ∈ c.events, e.token ≤ t) ∧
    (∀ p, w.phase = .pulling p → Fresh t p) ∧ ∀ p, w.phase = .returned p → Sent t p
  apart : w.past.Pairwise fun c c' =>
    c.synced = true → ∀ e ∈ c.events, ∀ x ∈ c'.events, e.token < x.token
  rising : ∀ c ∈ w.past, c.events.Pairwise fun a b => a.token < b.token

theorem once_setup : (World.setup t₀ : World K D V).Once where
  offset := ⟨t₀, rfl, fun _ hc => absurd hc not_mem_nil, nofun, nofun⟩
  apart := List.Pairwise.nil
  rising _ hc := absurd hc not_mem_nil

/-- What the present call has emitted is in order, and ahead of the offset. -/
theorem World.Once.present (h : w.Once) : ∃ t, w.lastOffset = some t ∧
    (∀ c ∈ w.past, c.synced = true → ∀ e ∈ c.events, e.token ≤ t) ∧
    (∀ e ∈ w.phase.records.map Prod.fst, t < e.token) ∧
    (w.phase.records.map Prod.fst).Pairwise fun a b => a.token < b.token := by
  obtain ⟨t, ht, hpast, hpulling, hreturned⟩ := h.offset
  refine ⟨t, ht, hpast, ?_⟩
  cases hphase : w.phase with
  | idle => exact ⟨by simp [Phase.records], List.Pairwise.nil⟩
  | pulling p => exact ⟨(hpulling p hphase).after, (hpulling p hphase).rising⟩
  | returned p => exact ⟨(hreturned p hphase).after, (hreturned p hphase).rising⟩

theorem World.Once.calls_apart (h : w.Once) (synced : Bool) :
    (w.past ++ [(⟨w.phase.records, synced⟩ : Call K D V)]).Pairwise (fun c c' =>
      c.synced = true → ∀ e ∈ c.events, ∀ x ∈ c'.events, e.token < x.token) ∧
    ∀ c ∈ (w.past ++ [⟨w.phase.records, synced⟩] : List (Call K D V)),
      c.events.Pairwise fun a b => a.token < b.token := by
  obtain ⟨t, -, hpast, hahead, hrising⟩ := h.present
  constructor
  · rw [pairwise_append]
    refine ⟨h.apart, pairwise_singleton _ _, fun c hc c' hc' hsynced e he x hx => ?_⟩
    rw [mem_singleton.mp hc'] at hx
    exact lt_of_le_of_lt (hpast c hc hsynced e he) (hahead x hx)
  · intro c hc
    rcases mem_append.mp hc with hc | hc
    · exact h.rising c hc
    · rw [mem_singleton.mp hc]
      exact hrising

theorem step_once {a : Action} (h : w.Once) (hinv : w.Inv cfg log t₀) (hfound : ¬ a.losesToken)
    (hstep : step cfg log w a = some w') : w'.Once := by
  obtain ⟨t, ht, hpast, hpulling, hreturned⟩ := h.offset
  cases step_cases hstep with
  | fails => exact h
  | opens hidle hstart =>
    rw [ht] at hstart
    refine ⟨⟨t, ht, hpast, fun q hq => ?_, nofun⟩, h.apart, h.rising⟩
    cases hq
    rcases startPull_cases hstart with ⟨err, herr⟩ |
      ⟨pipeline, opts, cs, hpipeline, hp, hresumed | ⟨hwatch, -⟩⟩
    · cases herr
    · cases hp
      exact Fresh.of_resumed hresumed rfl le_rfl
    · exact absurd hwatch hfound
  | @goes i p p' saved hphase hturn =>
    obtain ⟨t', ht', hle, -, hfresh⟩ := (hpulling p hphase).turn (hinv.pulling p hphase)
      hfound hturn
    refine ⟨⟨t', ?_, fun c hc hs e he => (hpast c hc hs e he).trans hle, fun q hq => ?_,
      nofun⟩, h.apart, h.rising⟩
    · rw [← ht', ← ht]
    · cases hq
      exact hfresh rfl
  | @returns i p p' saved result hphase hturn =>
    obtain ⟨t', ht', hle, hsent, -⟩ := (hpulling p hphase).turn (hinv.pulling p hphase)
      hfound hturn
    refine ⟨⟨t', ?_, fun c hc hs e he => (hpast c hc hs e he).trans hle,
      nofun, fun q hq => ?_⟩, h.apart, h.rising⟩
    · rw [← ht', ← ht]
    · cases hq
      exact hsent
  | @syncs p hphase hrecords =>
    have hsent := hreturned p hphase
    obtain ⟨c₀, hc₀⟩ := Option.isSome_iff_exists.mp
      ((hinv.returned p hphase).stamped hrecords)
    -- the checkpoint is not before the batch, which is ahead of the old offset
    obtain ⟨e₀, he₀⟩ : ∃ e, e ∈ p.events := by
      obtain ⟨x, hx⟩ := exists_mem_of_ne_nil _ hrecords
      exact ⟨x.1, mem_map_of_mem hx⟩
    have hle : t ≤ c₀ := (hsent.after e₀ he₀).le.trans (hsent.stamp c₀ hc₀ e₀ he₀)
    have hcalls := h.calls_apart true
    refine ⟨⟨c₀, hc₀, fun c hc hs e he => ?_, nofun,
      nofun⟩, hcalls.1, hcalls.2⟩
    rcases mem_append.mp hc with hc | hc
    · exact (hpast c hc hs e he).trans hle
    · rw [mem_singleton.mp hc, Call.events, hphase] at he
      exact hsent.stamp c₀ hc₀ e he
  | crashes =>
    have hcalls := h.calls_apart false
    refine ⟨⟨t, ht, fun c hc hs e he => ?_, nofun, nofun⟩,
      hcalls.1, hcalls.2⟩
    rcases mem_append.mp hc with hc | hc
    · exact hpast c hc hs e he
    · rw [mem_singleton.mp hc] at hs
      cases hs

end Once

/-! ### What is emitted at all -/

section Progress

variable (cfg : PullConfig K D V) (log : Oplog K D) {t₀ t : Token} {w : World K D V}

/-- `Next` returns an event, and the record can be added. -/
def readEvent : Action := .turn { next := .event }

theorem turn_skip {p : PullState K D V} {e : ChangeEvent K D} {pending : List (ChangeEvent K D)}
    (hphase : w.phase = .pulling p) (hcount : p.recordCount < cfg.maxBatchSize)
    (hnext : p.changeStream.pending = e :: pending) (hskip : handleEvent cfg e = .ok none) :
    step cfg log w readEvent = some { w with
      phase := .pulling { p with changeStream := ⟨pending, some e.token⟩ } } := by
  simp [step, readEvent, hphase, pullTurn, hcount, ChangeStream.next, hnext, hskip]

theorem turn_add {p : PullState K D V} {e : ChangeEvent K D} {pending : List (ChangeEvent K D)}
    {record : Record V} (hphase : w.phase = .pulling p)
    (hcount : p.recordCount < cfg.maxBatchSize) (hnext : p.changeStream.pending = e :: pending)
    (hhandled : handleEvent cfg e = .ok (some record)) :
    step cfg log w readEvent =
      some { w with phase := .pulling (p.added e pending record) } := by
  simp [step, readEvent, hphase, pullTurn, hcount, ChangeStream.next, hnext, hhandled,
    PullState.checkpoint, PullState.added]

theorem runs_skips {x : ChangeEvent K D} {rest : List (ChangeEvent K D)} :
    ∀ {skip : List (ChangeEvent K D)} {p : PullState K D V} {w : World K D V},
      w.phase = .pulling p → p.recordCount < cfg.maxBatchSize →
      p.changeStream.pending = skip ++ x :: rest → (∀ e ∈ skip, handleEvent cfg e = .ok none) →
      ∃ cs, runs (step cfg log) w (List.replicate skip.length readEvent) =
          some { w with phase := .pulling { p with changeStream := cs } } ∧
        cs.pending = x :: rest := by
  intro skip
  induction skip with
  | nil =>
    intro p w hphase _ hpending _
    refine ⟨p.changeStream, ?_, hpending⟩
    show some w = _
    rw [← hphase]
  | cons e skip ih =>
    intro p w hphase hcount hpending hskip
    have hstep := turn_skip cfg log hphase hcount hpending (hskip e mem_cons_self)
    obtain ⟨cs, hruns, hcs⟩ := ih (w := { w with
      phase := .pulling { p with changeStream := ⟨skip ++ x :: rest, some e.token⟩ } }) rfl hcount
      rfl fun e' he' => hskip e' (mem_cons_of_mem e he')
    refine ⟨cs, ?_, hcs⟩
    rw [length_cons, replicate_succ, runs_cons, hstep]
    exact hruns

/-- A call that has a record can be ended and synced, and the offset is at the record. -/
theorem runs_finish {p : PullState K D V} {e : ChangeEvent K D}
    (hphase : w.phase = .pulling p) (hcount : 0 < p.recordCount) (hrecords : p.records ≠ [])
    (htoken : p.changeStream.resumeToken = some e.token)
    (hcheckpoint : p.lastCheckpointText = some e.token) :
    ∃ w', runs (step cfg log) w [.turn { next := .deadline none }, .sync] = some w' ∧
      w'.lastOffset = some e.token := by
  obtain ⟨p', hturn, hrecords', hcheckpoint'⟩ : ∃ p',
      step cfg log w (.turn { next := .deadline none }) =
        some { w with phase := .returned p' } ∧
      p'.records = p.records ∧ p'.lastCheckpointText = some e.token := by
    by_cases hmore : p.recordCount < cfg.maxBatchSize
    · refine ⟨{ p with lastCheckpointText := some e.token }, ?_, rfl, rfl⟩
      simp [step, hphase, pullTurn, hmore, hcount, ChangeStream.next, ChangeStream.advance,
        PullState.checkpoint, htoken]
    · refine ⟨p, ?_, rfl, hcheckpoint⟩
      simp [step, hphase, pullTurn, hmore]
  refine ⟨({ w with phase := .returned p' } : World K D V).close p'.lastCheckpointText true, ?_,
    hcheckpoint'⟩
  rw [runs_cons, hturn]
  show runs (step cfg log) { w with phase := .returned p' } [.sync] = _
  simp [step, hrecords', hrecords]

theorem exists_first {e : ChangeEvent K D} {record : Record V}
    (he : handleEvent cfg e = .ok (some record)) :
    ∀ {pending : List (ChangeEvent K D)}, e ∈ pending →
      (pending.Pairwise fun a b => a.token < b.token) →
      (∀ x ∈ pending, x.token ≤ e.token → ∃ made, handleEvent cfg x = .ok made) →
      ∃ skip x rest record, pending = skip ++ x :: rest ∧
        (∀ y ∈ skip, handleEvent cfg y = .ok none) ∧ handleEvent cfg x = .ok (some record) ∧
        x.token ≤ e.token := by
  intro pending
  induction pending with
  | nil => exact fun hmem => absurd hmem not_mem_nil
  | cons y pending ih =>
    intro hmem hsorted hmade
    rcases mem_cons.mp hmem with rfl | hmem
    · exact ⟨[], e, pending, record, rfl, by simp, he, le_rfl⟩
    · have hle : y.token ≤ e.token := (rel_of_pairwise_cons hsorted hmem).le
      obtain ⟨made, hy⟩ := hmade y mem_cons_self hle
      cases made with
      | some record' => exact ⟨[], y, pending, record', rfl, by simp, hy, hle⟩
      | none =>
        obtain ⟨skip, x, rest, record', rfl, hskip, hx, hxe⟩ := ih hmem hsorted.of_cons
          fun z hz => hmade z (mem_cons_of_mem y hz)
        exact ⟨y :: skip, x, rest, record', rfl, forall_mem_cons.mpr ⟨hy, hskip⟩, hx, hxe⟩

section Due

variable {cfg} {log}
variable (hmax : 1 ≤ cfg.maxBatchSize) {pipeline : Pipeline}
  (hpipeline : createPipeline (some cfg.tableNameMapping) cfg.excludedOps = .ok pipeline)
  {e : ChangeEvent K D} (he : e ∈ log.events) (hdue : Due cfg t₀ e)
  (hmade : ∀ x ∈ log.events, x.token ≤ e.token → ∃ made, handleEvent cfg x = .ok made)

include hmax hpipeline he hdue hmade

/-- Wherever the world is, the worker may crash and a call may get one record further. -/
theorem offset_moves (ht : w.lastOffset = some t) (hlt : t < e.token) :
    ∃ as w' x, runs (step cfg log) w as = some w' ∧ w'.lastOffset = some x.token ∧
      x ∈ log.events ∧ t < x.token ∧ x.token ≤ e.token := by
  obtain ⟨made, hmadeE⟩ := hmade e he le_rfl
  have hsome : ∃ record, handleEvent cfg e = .ok (some record) := by
    cases made with
    | some record => exact ⟨record, hmadeE⟩
    | none =>
      have hwanted := hdue.1
      rw [PullConfig.wanted, (handleEvent_none_iff cfg).mp hmadeE] at hwanted
      cases hwanted
  obtain ⟨record, hrecord⟩ := hsome
  -- the first event of the new stream that gives a record
  set pending := (log.events.filter pipeline.passes).filter fun x => decide (t < x.token)
    with hpending
  have hin : ∀ x ∈ pending, x ∈ log.events ∧ t < x.token := fun x hx =>
    ⟨(mem_filter.mp (mem_filter.mp hx).1).1,
      of_decide_eq_true (mem_filter.mp hx).2⟩
  have hmem : e ∈ pending := mem_filter.mpr ⟨mem_filter.mpr ⟨he,
    passes_of_wanted cfg (log.dotless e he) hpipeline hdue.1⟩, decide_eq_true hlt⟩
  obtain ⟨skip, x, rest, recordX, hsplit, hskip, hx, hxe⟩ := exists_first cfg hrecord hmem
    ((log.increasing.filter _).filter _) fun x hx => hmade x (hin x hx).1
  have hxin := hin x (by rw [hsplit]; simp)
  set w₁ := w.close w.lastOffset false with hw₁
  have ht₁ : w₁.lastOffset = some t := ht
  have hidle : w₁.phase = .idle := rfl
  set p₀ : PullState K D V :=
    { pipeline, changeStreamOpts := { resumeAfter := some t }
      changeStream := ⟨pending, some t⟩ } with hp₀
  have hstart : step cfg log w₁ (.start (.ok none 0) (.failed "")) =
      some { w₁ with phase := .pulling p₀ } := by
    simp [step, hidle, ht₁, startPull, hpipeline, createChangeStream,
      ChangeStreamOpts.pending, ChangeStream.advance, hp₀, hpending]
  obtain ⟨cs, hskips, hcs⟩ := runs_skips cfg log
    (w := { w₁ with phase := .pulling p₀ }) rfl (by exact hmax) hsplit hskip
  have hadd := turn_add cfg log
    (w := { w₁ with phase := .pulling { p₀ with changeStream := cs } }) rfl
    (by exact hmax) hcs hx
  obtain ⟨w₃, hfinish, ht₃⟩ := runs_finish cfg log (e := x)
    (w := { w₁ with phase := .pulling ({ p₀ with changeStream := cs }.added x rest recordX) })
    rfl Nat.one_pos (append_ne_nil_of_right_ne_nil _ (cons_ne_nil _ _)) rfl rfl
  refine ⟨.crash :: .start (.ok none 0) (.failed "") ::
    (List.replicate skip.length readEvent ++
      [readEvent, .turn { next := .deadline none }, .sync]), w₃, x, ?_, ht₃, hxin.1, hxin.2, hxe⟩
  have hcrash : step cfg log w .crash = some w₁ := rfl
  rw [runs_cons, hcrash, Option.bind_some, runs_cons, hstart, Option.bind_some, runs_append,
    hskips, Option.bind_some, runs_cons, hadd, Option.bind_some]
  exact hfinish

/-- **Progress.**  Wherever the world is, an event that is due can still be emitted, if records
can be made for it and for the events in front of it. -/
theorem emits_later :
    ∀ (n : ℕ) (w : World K D V) (t : Token), w.Inv cfg log t₀ → w.lastOffset = some t →
      (log.events.filter fun x => decide (t < x.token)).length = n →
      ∃ as w', runs (step cfg log) w as = some w' ∧ e ∈ w'.emitted := by
  intro n
  induction n using Nat.strong_induction_on with
  | _ n ih =>
    intro w t hinv ht hn
    rcases le_or_gt e.token t with hle | hlt
    · -- the offset is behind the event, so it was emitted before
      obtain ⟨t', ht', hcovers⟩ := hinv.offset
      obtain rfl := Option.some.inj (ht.symm.trans ht')
      refine ⟨[], w, rfl, ?_⟩
      rw [emitted_eq]
      exact mem_append_left _ (synced_subset w e (hcovers e he hle hdue))
    · obtain ⟨as, w', x, hrun, ht', hx, htx, -⟩ := offset_moves hmax hpipeline he hdue hmade ht hlt
      have hinv' := runs_keeps (World.Inv cfg log t₀) (fun _ _ _ => step_inv) hinv hrun
      have hfewer : (log.events.filter fun y => decide (x.token < y.token)).length < n := by
        have hsub : (log.events.filter fun y => decide (x.token < y.token)) =
            (log.events.filter fun y => decide (t < y.token)).filter
              fun y => decide (x.token < y.token) := by
          rw [filter_filter]
          refine filter_congr fun y _ => ?_
          rw [← Bool.decide_and, decide_eq_decide]
          exact ⟨fun h => ⟨h, htx.trans h⟩, fun h => h.1⟩
        rw [hsub, ← hn, length_filter_lt_length_iff_exists]
        exact ⟨x, by simp [hx, htx]⟩
      obtain ⟨bs, w'', hrun', hemitted⟩ := ih _ hfewer w' x.token hinv' ht' rfl
      exact ⟨as ++ bs, w'', by rw [runs_append, hrun]; exact hrun', hemitted⟩

end Due

end Progress

end Delivery

/-! ### Two changes of an order -/

def ordersPull : PullConfig ℕ ℕ ℕ where
  tableNameMapping := [("shop.orders", { name := "orders" })]
  maxBatchSize := 2
  qValueStringFromId := .ok
  qValueJSONFromDocument := .ok
  emptyDocument := 0

/-- A token of the first second, with the number of the operation behind the time. -/
def orderToken (counter number : Fin 256) : Token :=
  [kTimestamp, 0, 0, 0, 1, 0, 0, 0, counter, number]

/-- Order 7 is inserted and deleted at one time. -/
def orderEvent (op : OperationType) (number : Fin 256) : ChangeEvent ℕ ℕ where
  token := orderToken 1 number
  ns := ⟨"shop", "orders"⟩
  operationType := op
  documentKey := some (some 7)
  clusterTime := ⟨1, 1⟩

def ordersLog : Oplog ℕ ℕ where
  events := [orderEvent .insert 1, orderEvent .delete 2]
  increasing := by decide
  timed := by
    intro e he
    simp only [List.mem_cons, List.not_mem_nil, or_false] at he
    rcases he with rfl | rfl <;> rfl
  dotless := by
    intro e he
    simp only [List.mem_cons, List.not_mem_nil, or_false] at he
    rcases he with rfl | rfl <;> decide

end Mongo
