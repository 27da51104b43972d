/-
Pulling a change stream (`MongoConnector.PullRecords`, `connectors/mongo/cdc.go`).

A call opens a change stream after the token it was given, or at the time of that token
if the server does not know it any more, and reads until the batch is full or the
stream is quiet.  Meanwhile the stream may be torn down and opened again: after the token
it had when a deadline passes without a record, at the time of the token when the token
is not found.

The server, the clock and the catalog are the inputs of a turn (`TurnInput`).  What the
server may answer is in `ChangeStream.advance`, `ChangeStream.next` and
`ChangeStreamOpts.pending`: a stream that resumes after a token has exactly the events
after it, one that starts at a time has every event of that time or later; after an event
the resume token is the event's, and otherwise it may move on as long as no event that
is still to come is at or before it.
-/
import PeerDB.Mongo.Event

namespace Mongo

/-- The operations of the source, in the order of their tokens. -/
structure Oplog (K D : Type) where
  events : List (ChangeEvent K D)
  increasing : events.Pairwise fun a b => a.token < b.token
  timed : ∀ e ∈ events, decodeTimestampFromResumeToken e.token = .ok e.clusterTime
  /-- the name of a database has no dot -/
  dotless : ∀ e ∈ events, '.' ∉ e.ns.db.toList

section Pull

variable {K D V : Type}

/-! ### Change streams -/

/-- `options.ChangeStreamOptions`, the two that say where to start. -/
structure ChangeStreamOpts where
  resumeAfter : Option Token := none
  startAtOperationTime : Option Timestamp := none

/-- A change stream: what it has not returned yet, and `ResumeToken()`. -/
structure ChangeStream (K D : Type) where
  pending : List (ChangeEvent K D)
  resumeToken : Option Token

/-- A token the stream may move on to without passing an event. -/
def ChangeStream.Allows (cs : ChangeStream K D) (t : Token) : Prop :=
  (∀ last ∈ cs.resumeToken, last ≤ t) ∧ ∀ e ∈ cs.pending, t < e.token

instance (cs : ChangeStream K D) (t : Token) : Decidable (cs.Allows t) :=
  inferInstanceAs (Decidable ((∀ last ∈ cs.resumeToken, last ≤ t) ∧ ∀ e ∈ cs.pending, t < e.token))

/-- The resume token moves on, or stays. -/
def ChangeStream.advance (cs : ChangeStream K D) : Option Token → Option (ChangeStream K D)
  | none => some cs
  | some t => if cs.Allows t then some { cs with resumeToken := some t } else none

/-- What a stream with these options returns; `now` counts the events that are over when it is
opened.  The server does not take both options. -/
def ChangeStreamOpts.pending (opts : ChangeStreamOpts) (log : Oplog K D) (pipeline : Pipeline)
    (now : ℕ) : Option (List (ChangeEvent K D)) :=
  let passed := log.events.filter pipeline.passes
  match opts.resumeAfter, opts.startAtOperationTime with
  | some t, none => some (passed.filter fun e => decide (t < e.token))
  | none, some time => some (passed.filter fun e => decide (time ≤ e.clusterTime))
  | none, none => some (passed.drop now)
  | some _, some _ => none

/-- What the server answers when a stream is opened. -/
inductive WatchOutcome where
  | ok (moved : Option Token) (now : ℕ)
  | resumeTokenNotFound
  | failed (err : String)

/-- The error of `createChangeStream`. -/
inductive WatchError where
  | resumeTokenNotFound
  | other (err : String)

def WatchError.text : WatchError → String
  | .resumeTokenNotFound => "cannot resume stream; the resume token was not found."
  | .other err => err

/-- `createChangeStream`; `none` if the server cannot answer so. -/
def createChangeStream (log : Oplog K D) (pipeline : Pipeline) (opts : ChangeStreamOpts) :
    WatchOutcome → Option (Except WatchError (ChangeStream K D))
  | .resumeTokenNotFound => some (.error .resumeTokenNotFound)
  | .failed err => some (.error (.other err))
  | .ok moved now =>
    match opts.pending log pipeline now with
    | none => none
    | some pending =>
      match (ChangeStream.mk pending opts.resumeAfter).advance moved with
      | none => none
      | some cs => some (.ok cs)

/-- What `Next` runs into. -/
inductive NextOutcome where
  | event
  | deadline (moved : Option Token)
  | resumeTokenNotFound (moved : Option Token)
  | failed (err : Option String)

/-- What `Next` leaves: the current event, or the error of the stream. -/
inductive Polled (K D : Type) where
  | event (e : ChangeEvent K D)
  | deadlineExceeded
  | resumeTokenNotFound
  | failed (err : Option String)

/-- `ChangeStream.Next`; `none` if the server cannot answer so. -/
def ChangeStream.next (cs : ChangeStream K D) :
    NextOutcome → Option (ChangeStream K D × Polled K D)
  | .event =>
    match cs.pending with
    | [] => none
    | e :: pending => some (⟨pending, some e.token⟩, .event e)
  | .deadline moved => (cs.advance moved).map fun cs => (cs, .deadlineExceeded)
  | .resumeTokenNotFound moved => (cs.advance moved).map fun cs => (cs, .resumeTokenNotFound)
  | .failed err => some (cs, .failed err)

/-! ### A call -/

/-- The variables of a call, with its record stream; a record is kept with its event. -/
structure PullState (K D V : Type) where
  pipeline : Pipeline
  changeStreamOpts : ChangeStreamOpts
  changeStream : ChangeStream K D
  recordCount : ℕ := 0
  records : List (ChangeEvent K D × Record V) := []
  lastCheckpointText : Option Token := none

def PullState.checkpoint (p : PullState K D V) : PullState K D V :=
  match p.changeStream.resumeToken with
  | none => p
  | some rt => { p with lastCheckpointText := some rt }

/-- What the server, the catalog and the record stream answer in a turn. -/
structure TurnInput where
  next : NextOutcome
  /-- whether `SetLastOffset` succeeds -/
  saves : Bool := true
  /-- the error of `Close` -/
  closeErr : Option String := none
  watch : WatchOutcome := .failed ""
  /-- the error of `AddRecord` -/
  addErr : Option String := none

/-- What a turn does: the call after it, the offset it saved in the catalog, and what the call
returned if it did. -/
structure Turned (K D V : Type) where
  state : PullState K D V
  saved : Option Token := none
  returned : Option (Except String Unit) := none

def recreateChangeStream (log : Oplog K D) (useOperationTime : Bool) (p : PullState K D V)
    (i : TurnInput) : Option (Except String (PullState K D V)) :=
  match p.changeStream.resumeToken with
  | none => some (.error "resume token is nil")
  | some resumeToken =>
    match i.closeErr with
    | some err => some (.error s!"failed to close change stream: {err}")
    | none =>
      let opts : Except String ChangeStreamOpts :=
        if useOperationTime then
          (decodeTimestampFromResumeToken resumeToken).map fun timestamp =>
            { resumeAfter := none, startAtOperationTime := some timestamp }
        else .ok { resumeAfter := some resumeToken, startAtOperationTime := none }
      match opts with
      | .error err => some (.error s!"failed to decode resume token: {err}")
      | .ok opts =>
        (createChangeStream log p.pipeline opts i.watch).map fun result =>
          match result with
          | .error err => .error err.text
          | .ok cs => .ok { p with changeStreamOpts := opts, changeStream := cs }

/-- The turn goes on with a new stream, or returns the error. -/
def Turned.recreated (p : PullState K D V) (saved : Option Token) :
    Except String (PullState K D V) → Turned K D V
  | .error err => { state := p, saved, returned := some (.error
      s!"failed to recreate change stream: {err}") }
  | .ok p' => { state := p', saved }

def addError (record : Record V) (err : String) : String :=
  match record with
  | .insert .. => s!"failed to add insert record: {err}"
  | .delete .. => s!"failed to add delete record: {err}"
  | _ => s!"failed to add update record: {err}"

/-- One turn of the loop of `PullRecords`. -/
def pullTurn (cfg : PullConfig K D V) (log : Oplog K D) (p : PullState K D V) (i : TurnInput) :
    Option (Turned K D V) :=
  if p.recordCount < cfg.maxBatchSize then
    match p.changeStream.next i.next with
    | none => none
    | some (cs, polled) =>
      let p := { p with changeStream := cs }
      match polled with
      | .failed none =>
        some { state := p, returned := some (.error ("unexpected: changestream.Next() returned " ++
          "false but no change stream error was recorded")) }
      | .failed (some err) =>
        some { state := p, returned := some (.error s!"change stream error: {err}") }
      | .deadlineExceeded =>
        if 0 < p.recordCount then some { state := p.checkpoint, returned := some (.ok ()) }
        else
          -- nothing was handed on, so the offset may go to the catalog at once
          let saved := if i.saves then cs.resumeToken else none
          (recreateChangeStream log false p.checkpoint i).map (Turned.recreated p.checkpoint saved)
      | .resumeTokenNotFound =>
        (recreateChangeStream log true p i).map (Turned.recreated p none)
      | .event e =>
        match handleEvent cfg e with
        | .error err => some { state := p, returned := some (.error err) }
        | .ok none => some { state := p }
        | .ok (some record) =>
          let p := { p with recordCount := p.recordCount + 1 }
          match i.addErr with
          | some err => some { state := p, returned := some (.error (addError record err)) }
          | none =>
            some { state := { p with records := p.records ++ [(e, record)] }.checkpoint }
  else some { state := p, returned := some (.ok ()) }

/-- `PullRecords` up to its loop: the first stream is opened after the last offset, or at its
time. -/
def startPull (cfg : PullConfig K D V) (log : Oplog K D) (lastOffset : Option Token)
    (watch watchAgain : WatchOutcome) : Option (Except String (PullState K D V)) :=
  match createPipeline (some cfg.tableNameMapping) cfg.excludedOps with
  | .error err => some (.error err)
  | .ok pipeline =>
    let opts : ChangeStreamOpts := { resumeAfter := lastOffset }
    match createChangeStream log pipeline opts watch, lastOffset with
    | none, _ => none
    | some (.ok cs), _ =>
      some (.ok { pipeline, changeStreamOpts := opts, changeStream := cs })
    | some (.error .resumeTokenNotFound), some resumeToken =>
      match decodeTimestampFromResumeToken resumeToken with
      | .error err => some (.error s!"failed to decode resume token: {err}")
      | .ok timestamp =>
        let opts : ChangeStreamOpts := { startAtOperationTime := some timestamp }
        (createChangeStream log pipeline opts watchAgain).map fun result =>
          match result with
          | .error err => .error s!"failed to recreate change stream: {err.text}"
          | .ok cs => .ok { pipeline, changeStreamOpts := opts, changeStream := cs }
    | some (.error err), _ => some (.error s!"failed to create change stream: {err.text}")

/-! ### What streams can do -/

section Streams

variable {log : Oplog K D} {pipeline : Pipeline} {cs cs' : ChangeStream K D}

/-- No event that is still to come is at or before the resume token. -/
def ChangeStream.Ahead (cs : ChangeStream K D) : Prop :=
  ∀ r ∈ cs.resumeToken, ∀ e ∈ cs.pending, r < e.token

/-- The resume token moved on, or stayed. -/
structure ChangeStream.Advanced (cs cs' : ChangeStream K D) : Prop where
  pending : cs'.pending = cs.pending
  token : ∀ r ∈ cs'.resumeToken, r ∈ cs.resumeToken ∨ cs.Allows r
  kept : cs.resumeToken.isSome → cs'.resumeToken.isSome

theorem ChangeStream.Advanced.ahead (h : cs.Advanced cs') (hahead : cs.Ahead) : cs'.Ahead := by
  intro r hr
  rw [h.pending]
  rcases h.token r hr with hr | hallows
  · exact hahead r hr
  · exact hallows.2

/-- A resume token never goes back. -/
theorem ChangeStream.Advanced.after (h : cs.Advanced cs') {t : Token}
    (ht : cs.resumeToken = some t) : ∃ r, cs'.resumeToken = some r ∧ t ≤ r := by
  obtain ⟨r, hr⟩ := Option.isSome_iff_exists.mp (h.kept (ht ▸ rfl))
  refine ⟨r, hr, ?_⟩
  rcases h.token r hr with hsame | hallows
  · rw [ht] at hsame
    exact (Option.some.inj hsame).le
  · exact hallows.1 t ht

theorem advance_spec {moved : Option Token} (h : cs.advance moved = some cs') :
    cs.Advanced cs' := by
  cases moved with
  | none =>
    cases h
    exact ⟨rfl, fun r hr => Or.inl hr, id⟩
  | some t =>
    rw [ChangeStream.advance] at h
    split_ifs at h with hallows
    cases h
    refine ⟨rfl, fun r hr => Or.inr ?_, fun _ => rfl⟩
    cases hr
    exact hallows

/-- A stream that resumed after a token. -/
structure Resumed (log : Oplog K D) (pipeline : Pipeline) (t : Token) (cs : ChangeStream K D) :
    Prop where
  pending : cs.pending = (log.events.filter pipeline.passes).filter fun e => decide (t < e.token)
  ahead : cs.Ahead
  after : ∃ r, cs.resumeToken = some r ∧ t ≤ r

/-- A stream that started at a time. -/
structure Started (log : Oplog K D) (pipeline : Pipeline) (time : Timestamp)
    (cs : ChangeStream K D) : Prop where
  pending : cs.pending =
    (log.events.filter pipeline.passes).filter fun e => decide (time ≤ e.clusterTime)
  ahead : cs.Ahead

theorem createChangeStream_ok {opts : ChangeStreamOpts} {w : WatchOutcome}
    (h : createChangeStream log pipeline opts w = some (.ok cs)) :
    ∃ now pending, opts.pending log pipeline now = some pending ∧
      ChangeStream.Advanced ⟨pending, opts.resumeAfter⟩ cs := by
  cases w with
  | resumeTokenNotFound | failed => cases h
  | ok moved now =>
    rw [createChangeStream] at h
    cases hpending : opts.pending log pipeline now with
    | none =>
      rw [hpending] at h
      cases h
    | some pending =>
      simp only [hpending] at h
      cases hadvance : (ChangeStream.mk pending opts.resumeAfter).advance moved with
      | none =>
        rw [hadvance] at h
        cases h
      | some cs₁ =>
        rw [hadvance] at h
        cases h
        exact ⟨now, pending, hpending, advance_spec hadvance⟩

theorem createChangeStream_resumed {t : Token} {w : WatchOutcome}
    (h : createChangeStream log pipeline { resumeAfter := some t } w = some (.ok cs)) :
    Resumed log pipeline t cs := by
  obtain ⟨now, pending, hpending, hadvanced⟩ := createChangeStream_ok h
  cases hpending
  refine ⟨hadvanced.pending, hadvanced.ahead ?_, hadvanced.after rfl⟩
  intro r hr e he
  cases hr
  exact of_decide_eq_true (List.mem_filter.mp he).2

theorem createChangeStream_started {time : Timestamp} {w : WatchOutcome}
    (h : createChangeStream log pipeline { startAtOperationTime := some time } w =
      some (.ok cs)) : Started log pipeline time cs := by
  obtain ⟨now, pending, hpending, hadvanced⟩ := createChangeStream_ok h
  cases hpending
  refine ⟨hadvanced.pending, hadvanced.ahead ?_⟩
  intro r hr
  cases hr

end Streams

/-! ### What a turn can do -/

section Turns

variable {cfg : PullConfig K D V} {log : Oplog K D} {p : PullState K D V} {i : TurnInput}

/-- The call after a record was added. -/
def PullState.added (p : PullState K D V) (e : ChangeEvent K D)
    (pending : List (ChangeEvent K D)) (record : Record V) : PullState K D V :=
  { p with
    changeStream := ⟨pending, some e.token⟩
    recordCount := p.recordCount + 1
    records := p.records ++ [(e, record)]
    lastCheckpointText := some e.token }

/-- The ways of a turn. -/
inductive TurnCase (cfg : PullConfig K D V) (log : Oplog K D) (p : PullState K D V)
    (i : TurnInput) : Turned K D V → Prop where
  /-- the call returns as it is -/
  | stops {p' : PullState K D V} {result : Except String Unit} (records : p'.records = p.records)
      (checkpoint : p'.lastCheckpointText = p.lastCheckpointText) :
      TurnCase cfg log p i ⟨p', none, some result⟩
  /-- the batch ends because the stream is quiet -/
  | quiet {cs : ChangeStream K D} (advanced : p.changeStream.Advanced cs) :
      TurnCase cfg log p i ⟨{ p with changeStream := cs }.checkpoint, none, some (.ok ())⟩
  /-- the stream is quiet without a record, and cannot be opened again -/
  | breaks {cs : ChangeStream K D} {saved : Option Token} {err : String}
      (advanced : p.changeStream.Advanced cs) (empty : p.recordCount = 0)
      (save : ∀ t ∈ saved, t ∈ cs.resumeToken) :
      TurnCase cfg log p i ⟨{ p with changeStream := cs }.checkpoint, saved, some (.error err)⟩
  /-- the same, and it is opened after the token it had -/
  | resumes {cs cs' : ChangeStream K D} {opts : ChangeStreamOpts} {saved : Option Token}
      {rt : Token} {moved : Option Token} (advanced : p.changeStream.Advanced cs)
      (empty : p.recordCount = 0) (token : cs.resumeToken = some rt)
      (save : ∀ t ∈ saved, t = rt) (resumed : Resumed log p.pipeline rt cs')
      (outcome : i.next = .deadline moved) :
      TurnCase cfg log p i ⟨{ p with
        changeStreamOpts := opts, changeStream := cs', lastCheckpointText := some rt }, saved, none⟩
  /-- the token is not found, and a stream is started at its time -/
  | restarts {cs cs' : ChangeStream K D} {opts : ChangeStreamOpts} {rt : Token}
      {time : Timestamp} {moved : Option Token} (outcome : i.next = .resumeTokenNotFound moved)
      (advanced : p.changeStream.Advanced cs) (token : cs.resumeToken = some rt)
      (decoded : decodeTimestampFromResumeToken rt = .ok time)
      (started : Started log p.pipeline time cs') :
      TurnCase cfg log p i
        ⟨{ p with changeStreamOpts := opts, changeStream := cs' }, none, none⟩
  /-- an event is passed over -/
  | skips {e : ChangeEvent K D} {pending : List (ChangeEvent K D)}
      (next : p.changeStream.pending = e :: pending) (skipped : handleEvent cfg e = .ok none)
      (outcome : i.next = .event) :
      TurnCase cfg log p i ⟨{ p with changeStream := ⟨pending, some e.token⟩ }, none, none⟩
  /-- a record is added -/
  | adds {e : ChangeEvent K D} {pending : List (ChangeEvent K D)} {record : Record V}
      (next : p.changeStream.pending = e :: pending)
      (handled : handleEvent cfg e = .ok (some record)) (outcome : i.next = .event) :
      TurnCase cfg log p i ⟨p.added e pending record, none, none⟩

theorem recreateChangeStream_cases {useOperationTime : Bool}
    {result : Except String (PullState K D V)}
    (h : recreateChangeStream log useOperationTime p i = some result) :
    (∃ err, result = .error err) ∨
    ∃ rt opts cs, p.changeStream.resumeToken = some rt ∧
      result = .ok { p with changeStreamOpts := opts, changeStream := cs } ∧
      if useOperationTime then
        ∃ time, decodeTimestampFromResumeToken rt = .ok time ∧ Started log p.pipeline time cs
      else Resumed log p.pipeline rt cs := by
  rw [recreateChangeStream] at h
  cases hrt : p.changeStream.resumeToken with
  | none =>
    rw [hrt] at h
    exact Or.inl ⟨_, (Option.some.inj h).symm⟩
  | some rt =>
    simp only [hrt] at h
    cases hclose : i.closeErr with
    | some err =>
      rw [hclose] at h
      exact Or.inl ⟨_, (Option.some.inj h).symm⟩
    | none =>
      simp only [hclose] at h
      cases useOperationTime with
      | false =>
        obtain ⟨opened, hopened, rfl⟩ := Option.map_eq_some_iff.mp h
        cases opened with
        | error err => exact Or.inl ⟨_, rfl⟩
        | ok cs => exact Or.inr ⟨rt, _, cs, rfl, rfl, createChangeStream_resumed hopened⟩
      | true =>
        cases hdecode : decodeTimestampFromResumeToken rt with
        | error err =>
          rw [hdecode] at h
          exact Or.inl ⟨_, (Option.some.inj h).symm⟩
        | ok time =>
          rw [hdecode] at h
          obtain ⟨opened, hopened, rfl⟩ := Option.map_eq_some_iff.mp h
          cases opened with
          | error err => exact Or.inl ⟨_, rfl⟩
          | ok cs =>
            exact Or.inr ⟨rt, _, cs, rfl, rfl, time, hdecode, createChangeStream_started hopened⟩

/-- `checkpoint` only moves the checkpoint. -/
theorem checkpoint_eq (p : PullState K D V) :
    p.checkpoint =
      { p with lastCheckpointText := p.changeStream.resumeToken.or p.lastCheckpointText } := by
  rw [PullState.checkpoint]
  split
  · rename_i hnone
    rw [hnone]
    rfl
  · rename_i rt hrt
    rw [hrt]
    rfl

theorem deadline_cases {moved : Option Token} {cs : ChangeStream K D} {r : Turned K D V}
    (hcount : p.recordCount < cfg.maxBatchSize) (hnext : i.next = .deadline moved)
    (hadvance : p.changeStream.advance moved = some cs) (h : pullTurn cfg log p i = some r) :
    TurnCase cfg log p i r := by
  have hadvanced := advance_spec hadvance
  simp only [pullTurn, if_pos hcount, hnext, ChangeStream.next, hadvance, Option.map_some] at h
  by_cases hrecords : 0 < p.recordCount
  · rw [if_pos hrecords] at h
    obtain rfl := Option.some.inj h
    exact .quiet hadvanced
  · rw [if_neg hrecords] at h
    have hempty : p.recordCount = 0 := by omega
    have hsaved : ∀ t ∈ (if i.saves then cs.resumeToken else none), t ∈ cs.resumeToken := by
      intro t ht
      by_cases hsaves : i.saves = true
      · rw [if_pos hsaves] at ht
        exact ht
      · rw [if_neg hsaves] at ht
        cases ht
    obtain ⟨result, hresult, rfl⟩ := Option.map_eq_some_iff.mp h
    rcases recreateChangeStream_cases hresult with ⟨err, rfl⟩ |
      ⟨rt, opts, cs', hrt, rfl, hresumed⟩
    · exact .breaks hadvanced hempty hsaved
    · rw [checkpoint_eq] at hrt hresumed ⊢
      have hrt' : cs.resumeToken = some rt := hrt
      simp only [Turned.recreated, hrt', Option.some_or]
      refine .resumes hadvanced hempty hrt' (fun t ht => ?_) hresumed hnext
      have hmem := hsaved t (hrt' ▸ ht)
      rw [hrt'] at hmem
      exact (Option.some.inj hmem).symm

theorem event_cases {e : ChangeEvent K D} {pending : List (ChangeEvent K D)} {r : Turned K D V}
    (hcount : p.recordCount < cfg.maxBatchSize) (hnext : i.next = .event)
    (hpending : p.changeStream.pending = e :: pending) (h : pullTurn cfg log p i = some r) :
    TurnCase cfg log p i r := by
  simp only [pullTurn, if_pos hcount, hnext, ChangeStream.next, hpending] at h
  cases hhandled : handleEvent cfg e with
  | error err =>
    rw [hhandled] at h
    cases h
    exact .stops rfl rfl
  | ok made =>
    rw [hhandled] at h
    cases made with
    | none =>
      cases h
      exact .skips hpending hhandled hnext
    | some record =>
      cases hadd : i.addErr with
      | some err =>
        simp only [hadd] at h
        cases h
        exact .stops rfl rfl
      | none =>
        simp only [hadd] at h
        cases h
        exact .adds hpending hhandled hnext

/-- **A turn goes one of these ways.** -/
theorem pullTurn_cases {r : Turned K D V} (h : pullTurn cfg log p i = some r) :
    TurnCase cfg log p i r := by
  by_cases hcount : p.recordCount < cfg.maxBatchSize
  · cases hnext : i.next with
    | failed err =>
      simp only [pullTurn, if_pos hcount, hnext, ChangeStream.next] at h
      cases err with
      | none | some _ =>
        cases h
        exact .stops rfl rfl
    | event =>
      cases hpending : p.changeStream.pending with
      | nil =>
        simp only [pullTurn, if_pos hcount, hnext, ChangeStream.next, hpending] at h
        cases h
      | cons e pending => exact event_cases hcount hnext hpending h
    | resumeTokenNotFound moved =>
      simp only [pullTurn, if_pos hcount, hnext, ChangeStream.next] at h
      cases hadvance : p.changeStream.advance moved with
      | none =>
        rw [hadvance] at h
        cases h
      | some cs =>
        simp only [hadvance, Option.map_some] at h
        obtain ⟨result, hresult, rfl⟩ := Option.map_eq_some_iff.mp h
        rcases recreateChangeStream_cases hresult with ⟨err, rfl⟩ |
          ⟨rt, opts, cs', hrt, rfl, time, hdecoded, hstarted⟩
        · exact .stops rfl rfl
        · exact .restarts hnext (advance_spec hadvance) hrt hdecoded hstarted
    | deadline moved =>
      cases hadvance : p.changeStream.advance moved with
      | none =>
        simp only [pullTurn, if_pos hcount, hnext, ChangeStream.next, hadvance] at h
        cases h
      | some cs => exact deadline_cases hcount hnext hadvance h
  · rw [pullTurn, if_neg hcount] at h
    cases h
    exact .stops rfl rfl

/-- A call starts after the last offset, or at its time. -/
theorem startPull_cases {t : Token} {watch watchAgain : WatchOutcome}
    {result : Except String (PullState K D V)}
    (h : startPull cfg log (some t) watch watchAgain = some result) :
    (∃ err, result = .error err) ∨
    ∃ pipeline opts cs,
      createPipeline (some cfg.tableNameMapping) cfg.excludedOps = .ok pipeline ∧
      result = .ok { pipeline, changeStreamOpts := opts, changeStream := cs } ∧
      (Resumed log pipeline t cs ∨ (watch = .resumeTokenNotFound ∧
        ∃ time, decodeTimestampFromResumeToken t = .ok time ∧ Started log pipeline time cs)) := by
  rw [startPull] at h
  cases hpipeline : createPipeline (some cfg.tableNameMapping) cfg.excludedOps with
  | error err =>
    rw [hpipeline] at h
    exact Or.inl ⟨_, (Option.some.inj h).symm⟩
  | ok pipeline =>
    simp only [hpipeline] at h
    cases hopened : createChangeStream log pipeline { resumeAfter := some t } watch with
    | none =>
      rw [hopened] at h
      cases h
    | some opened =>
      rw [hopened] at h
      cases opened with
      | ok cs =>
        cases h
        exact Or.inr ⟨pipeline, _, cs, rfl, rfl, Or.inl (createChangeStream_resumed hopened)⟩
      | error err =>
        cases err with
        | other err => exact Or.inl ⟨_, (Option.some.inj h).symm⟩
        | resumeTokenNotFound =>
          have hwatch : watch = .resumeTokenNotFound := by
            cases watch with
            | resumeTokenNotFound => rfl
            | failed err => cases hopened
            | ok moved now =>
              rw [createChangeStream] at hopened
              split at hopened
              · cases hopened
              · split at hopened
                all_goals cases hopened
          cases hdecode : decodeTimestampFromResumeToken t with
          | error err =>
            simp only [hdecode] at h
            exact Or.inl ⟨_, (Option.some.inj h).symm⟩
          | ok time =>
            simp only [hdecode] at h
            obtain ⟨again, hagain, rfl⟩ := Option.map_eq_some_iff.mp h
            cases again with
            | error err => exact Or.inl ⟨_, rfl⟩
            | ok cs =>
              exact Or.inr ⟨pipeline, _, cs, rfl, rfl,
                Or.inr ⟨hwatch, time, rfl, createChangeStream_started hagain⟩⟩

end Turns

end Pull

end Mongo
