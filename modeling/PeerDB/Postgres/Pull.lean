/-
The pull loop of the Postgres source: `PullCdcRecords`.

One `Turn` is one iteration of the `for` loop: the response owed to an earlier
keepalive, the exit checks, the idle deadline, and one `ReceiveMessage`.  Time
enters only through the outcome of the comparisons with it, so every pattern
of timeouts and deadlines is some list of turns.

The loop has one effect outside its own state: `updateConsumedOffset` persists
`clientXLogPos` as the last offset while no record has been pulled.  The offsets
it persisted are logged in `PullState.saved`, oldest first.
-/
import PeerDB.Lib.Loop
import PeerDB.Postgres.Message

open Loop

/-- What one `ReceiveMessage` gives, after `ParsePrimaryKeepaliveMessage` or
`ParseXLogData`. -/
inductive Received (D : Type) where
  | preempted
  | timeout
  | failed
  | errorResponse
  | keepalive (serverWALEnd : LSN) (replyRequested throttleElapsed : Bool)
  | xLogData (walStart : LSN) (msg : LogicalMsg D)
  | unparsable
  | other

/-- One iteration: whether the catalog and the replication connection accepted
what was sent to them, whether `nextRecordDeadline` has passed, and what was
received. -/
structure Turn (D : Type) where
  saveOk : Bool := true
  standbyOk : Bool := true
  deadlinePassed : Bool := false
  recv : Received D

/-- The fields of `PullRecordsRequest` the loop reads. -/
structure PullRequest where
  lastOffset : LSN := 0
  maxBatchSize : ℕ
  cdcStoreEnabled : Bool := true

structure PullState (V H : Type) where
  src : SourceState
  records : CDCStream V
  clientXLogPos : LSN
  consumedOffset : LSN
  saved : List LSN
  store : Option (Store V H)
  totalRecords : ℕ
  waitingForCommit : Bool
  pkmRequiresResponse : Bool

/-- How `PullCdcRecords` ends: `return nil`, or `return err`. -/
inductive PullExit (V H : Type) where
  | returned (s : PullState V H)
  | failed (s : PullState V H) (err : String)

namespace PullState

variable {V H : Type}

/-- The state before the first iteration. -/
def init (req : PullRequest) (src : SourceState) : PullState V H where
  src := src
  records := {}
  clientXLogPos := req.lastOffset
  consumedOffset := req.lastOffset
  saved := []
  store := if req.cdcStoreEnabled then some Store.new else none
  totalRecords := 0
  waitingForCommit := false
  pkmRequiresResponse := false

/-- `if pos > clientXLogPos { clientXLogPos = pos }`. -/
def advance (s : PullState V H) (pos : LSN) : PullState V H :=
  { s with clientXLogPos := max s.clientXLogPos pos }

/-- `updateConsumedOffset` under its guards: nothing pulled yet, and the offset
is new. -/
def updateConsumedOffset (s : PullState V H) (saveOk : Bool) :
    Flow (PullExit V H) (PullState V H) :=
  if s.totalRecords = 0 ∧ s.consumedOffset < s.clientXLogPos then
    if saveOk then
      .next { s with saved := s.saved ++ [s.clientXLogPos], consumedOffset := s.clientXLogPos }
    else .leave (.failed s "failed to update last offset")
  else .next s

/-- The loop head: answer a keepalive that asked for it. -/
def respondKeepalive (s : PullState V H) (t : Bool × Bool) :
    Flow (PullExit V H) (PullState V H) :=
  if s.pkmRequiresResponse then
    match s.updateConsumedOffset t.1 with
    | .leave r => .leave r
    | .next s =>
      if t.2 then .next { s with pkmRequiresResponse := false }
      else .leave (.failed s "[pkm-response] SendStandbyStatusUpdate failed")
  else .next s

variable [DecidableEq H]

def addRecordWithKey (s : PullState V H) (key : TableWithPkey H) (rec : Record V) :
    PullState V H :=
  let records := s.records.addRecord rec
  { s with
    store := s.store.map (·.set key rec)
    records := if s.totalRecords = 0 then records.signalAsNotEmpty else records
    totalRecords := s.totalRecords + 1 }

/-- The latest record of the batch under a store key. -/
def latest (s : PullState V H) (key : TableWithPkey H) : Option (Record V) :=
  s.store.bind (·.get key)

end PullState

section Pull

variable {D V H : Type} [DecidableEq H] (cfg : CDCConfig D V H)

/-- Fill the unchanged TOAST columns of an update from the latest record of the
same key. -/
def backfillUpdate (latest : Option (Record V)) (newItems : Items V) (unchanged : List String) :
    Items V × List String :=
  match latest with
  | none => (newItems, unchanged)
  | some latestRecord =>
    (newItems.updateIfNotExists latestRecord.getItems,
      unchanged.filter fun col => !newItems.updatedCols latestRecord.getItems col)

/-- Fill a delete from the latest record of the same key; a delete with nothing
to fill it from is marked so that no update statement selects it. -/
def backfillDelete (latest : Option (Record V)) (items : Items V) : Items V × List String :=
  match latest with
  | none => (items, ["_peerdb_not_backfilled_delete"])
  | some (.update _ _ newItems unchanged _ _) => (newItems, unchanged)
  | some latestRecord => (latestRecord.getItems, ["_peerdb_not_backfilled_delete"])

/-- The row cases of the record switch. -/
def handleRow (s : PullState V H) (rec : Record V) : Except String (PullState V H) :=
  match cfg.tableNameSchemaMapping rec.getDestinationTableName with
  -- the schema pointer is dereferenced without a check
  | none => .error s!"nil table schema for {rec.getDestinationTableName}"
  | some schema =>
    if schema.isReplicaIdentityFull then .ok (s.addRecordWithKey none rec)
    else do
      let key ← recToTablePKey cfg.codec schema.primaryKeyColumns rec
      match rec with
      | .update base oldItems newItems unchanged srcTable dstTable =>
        let (newItems, unchanged) := backfillUpdate (s.latest key) newItems unchanged
        return s.addRecordWithKey key (.update base oldItems newItems unchanged srcTable dstTable)
      | .delete base items _ srcTable dstTable =>
        let (items, unchanged) := backfillDelete (s.latest key) items
        -- a delete is never stored: only an insert can follow it
        return s.addRecordWithKey none (.delete base items unchanged srcTable dstTable)
      | rec => return s.addRecordWithKey key rec

/-- The record switch after `processMessage`. -/
def handleRecord (s : PullState V H) (saveOk : Bool) (rec : Record V) :
    Flow (PullExit V H) (PullState V H) :=
  match rec with
  | .relation _ delta =>
    if delta.addedColumns.length > 0 then
      .next { s with records := s.records.addSchemaDelta delta }
    else .next s
  | .message .. =>
    if s.totalRecords = 0 then s.updateConsumedOffset saveOk
    else .next { s with records := s.records.addRecord rec }
  | rec =>
    match handleRow cfg s rec with
    | .error e => .leave (.failed s e)
    | .ok s => .next s

/-- `ReceiveMessage` and the message switch. -/
def receive (s : PullState V H) (t : Turn D) : Flow (PullExit V H) (PullState V H) :=
  match t.recv with
  | .preempted => .leave (.failed s "consumeStream preempted")
  | .timeout =>
    if t.standbyOk then .next s
    else .leave (.failed s "[receive-timeout] SendStandbyStatusUpdate failed")
  | .failed => .leave (.failed s "ReceiveMessage failed")
  | .errorResponse => .leave (.failed s "received error response")
  | .unparsable => .leave (.failed s "ParseXLogData failed")
  | .other => .next s
  | .keepalive serverWALEnd replyRequested throttleElapsed =>
    let s := s.advance serverWALEnd
    .next (if replyRequested || throttleElapsed then { s with pkmRequiresResponse := true } else s)
  | .xLogData walStart msg =>
    match processMessage cfg s.src s.records walStart s.clientXLogPos msg with
    | .error e => .leave (.failed s e)
    | .ok (src, records, rec?) =>
      let s := { s with src := src, records := records }.advance walStart
      match rec? with
      | none => .next s
      | some rec => handleRecord cfg s t.saveOk rec

/-- The exits of the loop head: the batch is full, or the commit that was
waited for has come, or the idle deadline has passed with records pulled; all
of them only while no transaction is open. -/
def batchDone (req : PullRequest) (s : PullState V H) (deadlinePassed : Bool) : Bool :=
  s.src.commitLock.isNone &&
    (decide (req.maxBatchSize ≤ s.totalRecords) || s.waitingForCommit ||
      (deadlinePassed && decide (s.totalRecords ≠ 0)))

/-- The deadline passed inside a transaction: leave as soon as it commits. -/
def markWaiting (s : PullState V H) (deadlinePassed : Bool) : PullState V H :=
  if deadlinePassed && decide (s.totalRecords ≠ 0) then { s with waitingForCommit := true } else s

/-- One iteration of the loop of `PullCdcRecords`. -/
def pullTurn (req : PullRequest) (s : PullState V H) (t : Turn D) :
    Flow (PullExit V H) (PullState V H) :=
  match s.respondKeepalive (t.saveOk, t.standbyOk) with
  | .leave r => .leave r
  | .next s =>
    if batchDone req s t.deadlinePassed then .leave (.returned s)
    else receive cfg (markWaiting s t.deadlinePassed) t

/-- `PullCdcRecords` on the turns it takes. -/
def pullCdcRecords (req : PullRequest) (src : SourceState) (turns : List (Turn D)) :
    Flow (PullExit V H) (PullState V H) :=
  iterate (pullTurn cfg req) (PullState.init req src) turns

/-! ### What one turn can do

`Progress` is what a reader of the messages alone can know about a pull: the
open transaction, the partition map, the row records, the stream checkpoint and
the position.  `Progress.after` says how a received message changes it, and
`pullTurn_next` that the loop follows it.  The invariants of the later files use
these lemmas and never unfold the loop. -/

structure Progress where
  commitLock : Option BeginMessage
  children : ℕ → Option ℕ
  rows : List RowTag
  checkpoint : LSN
  position : LSN

/-- The effect of one logical message. -/
def Progress.logical (p : Progress) (walStart : LSN) : LogicalMsg D → Progress
  | .begin msg => { p with commitLock := some msg }
  | .row change =>
    { p with rows := p.rows ++ (rowTag cfg p.children p.commitLock walStart change).toList }
  | .commit commitLSN _ =>
    { p with commitLock := none, checkpoint := max p.checkpoint commitLSN }
  | .relation msg =>
    { p with children := (checkIfUnknownTableInherits cfg p.children msg.relationID).2.2 }
  | .message transactional lsn _ _ =>
    { p with checkpoint := if transactional then p.checkpoint else max p.checkpoint lsn }
  | .unhandled => p
  | .unparsable => p

/-- The effect of one received message. -/
def Progress.after (p : Progress) : Received D → Progress
  | .keepalive serverWALEnd _ _ => { p with position := max p.position serverWALEnd }
  | .xLogData walStart msg =>
    { p.logical cfg walStart msg with position := max p.position walStart }
  | _ => p

omit [DecidableEq H] in
/-- Row records are only ever added. -/
theorem Progress.rows_length_after (p : Progress) (r : Received D) :
    p.rows.length ≤ (p.after cfg r).rows.length := by
  cases r with
  | xLogData walStart msg =>
    cases msg with
    | row change =>
      simp only [Progress.after, Progress.logical, List.length_append]
      exact Nat.le_add_right _ _
    | begin | commit | relation | message | unhandled | unparsable => exact le_rfl
  | preempted | timeout | failed | errorResponse | keepalive | unparsable | other => exact le_rfl

def PullState.progress (s : PullState V H) : Progress where
  commitLock := s.src.commitLock
  children := s.src.childToParentRelIDMapping
  rows := s.records.rows.map Record.tag
  checkpoint := s.records.lastCheckpointID
  position := s.clientXLogPos

/-- `totalRecords` counts the row records. -/
def PullState.Counted (s : PullState V H) : Prop :=
  s.totalRecords = s.progress.rows.length

/-- The only way the loop persists an offset: nothing has been pulled, and what
is persisted is the position `pos`. -/
def SavesOnly (s s' : PullState V H) (pos : LSN) : Prop :=
  (s'.saved = s.saved ∧ s'.consumedOffset = s.consumedOffset) ∨
    (s.totalRecords = 0 ∧ s.consumedOffset < pos ∧ s'.saved = s.saved ++ [pos] ∧
      s'.consumedOffset = pos)

/-- A piece of the loop that receives nothing. -/
structure Quiet (s s' : PullState V H) : Prop where
  progress : s'.progress = s.progress
  totalRecords : s'.totalRecords = s.totalRecords
  saved : SavesOnly s s' s.clientXLogPos

variable {cfg}

omit [DecidableEq H] in
theorem Quiet.refl (s : PullState V H) : Quiet s s := ⟨rfl, rfl, Or.inl ⟨rfl, rfl⟩⟩

variable {s s' : PullState V H} {saveOk : Bool}

omit [DecidableEq H] in
theorem updateConsumedOffset_next (h : s.updateConsumedOffset saveOk = .next s') :
    Quiet s s' ∧ s'.src = s.src ∧ s'.waitingForCommit = s.waitingForCommit := by
  unfold PullState.updateConsumedOffset at h
  split_ifs at h with hguard <;> cases h
  · exact ⟨⟨rfl, rfl, Or.inr ⟨hguard.1, hguard.2, rfl, rfl⟩⟩, rfl, rfl⟩
  · exact ⟨Quiet.refl s, rfl, rfl⟩

omit [DecidableEq H] in
theorem updateConsumedOffset_leave {r : PullExit V H}
    (h : s.updateConsumedOffset saveOk = .leave r) :
    ∃ e, r = .failed s e := by
  unfold PullState.updateConsumedOffset at h
  split_ifs at h
  cases h
  exact ⟨_, rfl⟩

omit [DecidableEq H] in
/-- The loop head answers a keepalive, or has nothing to answer. -/
theorem respondKeepalive_next {t : Bool × Bool} (h : s.respondKeepalive t = .next s') :
    Quiet s s' ∧ s'.src = s.src ∧ s'.waitingForCommit = s.waitingForCommit ∧
      (s' = s ∨ s.pkmRequiresResponse = true) := by
  unfold PullState.respondKeepalive at h
  split at h
  case isTrue hpkm =>
    split at h
    · cases h
    · split at h <;> cases h
      obtain ⟨hquiet, hsrc, hwait⟩ := updateConsumedOffset_next ‹_›
      exact ⟨⟨hquiet.progress, hquiet.totalRecords, hquiet.saved⟩, hsrc, hwait, Or.inr hpkm⟩
  case isFalse =>
    cases h
    exact ⟨Quiet.refl s, rfl, rfl, Or.inl rfl⟩

omit [DecidableEq H] in
theorem respondKeepalive_leave {t : Bool × Bool} {r : PullExit V H}
    (h : s.respondKeepalive t = .leave r) :
    ∃ s₁ e, r = .failed s₁ e ∧ Quiet s s₁ ∧ s.pkmRequiresResponse = true := by
  unfold PullState.respondKeepalive at h
  split at h
  case isTrue hpkm =>
    split at h
    · cases h
      obtain ⟨e, he⟩ := updateConsumedOffset_leave ‹_›
      exact ⟨s, e, he, Quiet.refl s, hpkm⟩
    · split at h <;> cases h
      exact ⟨_, _, rfl, (updateConsumedOffset_next ‹_›).1, hpkm⟩
  case isFalse => cases h

variable {rec : Record V}

omit [DecidableEq H] in
theorem recToTablePKey_table {codec : KeyCodec V H} {pk : List String} {key : TableWithPkey H}
    (h : recToTablePKey codec pk rec = .ok key) :
    ∃ hash, key = some (rec.getDestinationTableName, hash) := by
  rw [recToTablePKey] at h
  obtain ⟨cols, -, hkey⟩ := bind_eq_ok h
  cases hkey
  exact ⟨_, rfl⟩

/-- Backfilling changes the values of a row record, never what it stands for; it is
stored under a key of its own table or not at all. -/
theorem handleRow_ok (h : handleRow cfg s rec = .ok s') :
    ∃ key rec', rec'.tag = rec.tag ∧ (∀ k, key = some k → k.1 = rec.getDestinationTableName) ∧
      s' = s.addRecordWithKey key rec' := by
  unfold handleRow at h
  split at h
  · cases h
  · split_ifs at h
    · cases h
      exact ⟨none, rec, rfl, nofun, rfl⟩
    · obtain ⟨key, hkey, h⟩ := bind_eq_ok h
      obtain ⟨hash, rfl⟩ := recToTablePKey_table hkey
      cases rec with
      | delete =>
        cases h
        refine ⟨none, _, ?_, nofun, rfl⟩
        rfl
      | _ =>
        cases h
        refine ⟨_, _, ?_, fun k hk => (Option.some.inj hk) ▸ rfl, rfl⟩
        rfl

omit [DecidableEq H] in
theorem Record.kind_eq_of_tag {r r' : Record V} (h : r.tag = r'.tag) : r.kind = r'.kind :=
  congrArg RowTag.kind h

theorem addRecordWithKey_progress (s : PullState V H) (key : TableWithPkey H)
    (hrow : rec.isRow = true) :
    (s.addRecordWithKey key rec).progress =
      { s.progress with rows := s.progress.rows ++ [rec.tag] } := by
  have hadd := s.records.rows_addRecord rec
  rw [if_pos hrow] at hadd
  have hrows : (s.addRecordWithKey key rec).records.rows = s.records.rows ++ [rec] := by
    unfold PullState.addRecordWithKey
    split_ifs <;> exact hadd
  have hckpt : (s.addRecordWithKey key rec).records.lastCheckpointID =
      s.records.lastCheckpointID := by
    unfold PullState.addRecordWithKey
    split_ifs <;> simp
  unfold PullState.progress
  rw [hrows, hckpt, List.map_append]
  rfl

/-- What the record switch does to everything but the row records. -/
structure Switched (s s' : PullState V H) : Prop where
  src : s'.src = s.src
  waitingForCommit : s'.waitingForCommit = s.waitingForCommit
  counted : s.Counted → s'.Counted

theorem handleRow_of_handleRecord (hrow : rec.isRow = true)
    (h : handleRecord cfg s saveOk rec = .next s') :
    handleRow cfg s rec = .ok s' := by
  cases rec with
  | relation | message => cases hrow
  | insert _ _ _ _ | update _ _ _ _ _ _ | delete _ _ _ _ _ =>
    simp only [handleRecord] at h
    split at h <;> cases h
    assumption

variable {t : Turn D}

/-- A row message of a table that is not mirrored is passed over; the others go through the
row cases. -/
theorem receive_row_cases {walStart : LSN} {change : RowChange D}
    (hrecv : t.recv = .xLogData walStart (.row change)) (h : receive cfg s t = .next s') :
    (processRowMessage cfg s.src walStart change = .ok none ∧ s' = s.advance walStart) ∨
    ∃ rec, processRowMessage cfg s.src walStart change = .ok (some rec) ∧
      handleRow cfg (s.advance walStart) rec = .ok s' := by
  cases hproc : processRowMessage cfg s.src walStart change with
  | error e =>
    simp only [receive, hrecv, processMessage, hproc] at h
    cases h
  | ok rec? =>
    simp only [receive, hrecv, processMessage, hproc] at h
    cases rec? with
    | none =>
      cases h
      exact Or.inl ⟨rfl, rfl⟩
    | some rec =>
      exact Or.inr ⟨rec, rfl, handleRow_of_handleRecord (processRowMessage_isRow hproc) h⟩

/-- A row message that is decoded to a record goes through the row cases. -/
theorem receive_row {walStart : LSN} {change : RowChange D}
    (hrecv : t.recv = .xLogData walStart (.row change))
    (hrec : processRowMessage cfg s.src walStart change = .ok (some rec))
    (h : receive cfg s t = .next s') : handleRow cfg (s.advance walStart) rec = .ok s' := by
  rcases receive_row_cases hrecv h with ⟨hnone, -⟩ | ⟨rec', hrec', hhandle⟩
  · rw [hrec] at hnone
    cases hnone
  · obtain rfl := Option.some.inj (Except.ok.inj (hrec.symm.trans hrec'))
    exact hhandle

/-- A row record is appended; nothing is persisted. -/
theorem handleRecord_row (hrow : rec.isRow = true) (h : handleRecord cfg s saveOk rec = .next s') :
    Switched s s' ∧ s'.saved = s.saved ∧
      s'.progress = { s.progress with rows := s.progress.rows ++ [rec.tag] } := by
  have hhandle := handleRow_of_handleRecord hrow h
  obtain ⟨key, rec', htag, -, rfl⟩ := handleRow_ok hhandle
  have hrow' : rec'.isRow = true := by
    rw [Record.isRow_congr (Record.kind_eq_of_tag htag)]
    exact hrow
  have hprogress := addRecordWithKey_progress s key hrow'
  rw [htag] at hprogress
  refine ⟨⟨rfl, rfl, fun hcount => ?_⟩, rfl, hprogress⟩
  have hcount' : s.totalRecords = s.progress.rows.length := hcount
  show s.totalRecords + 1 = _
  rw [hprogress, List.length_append, hcount']
  rfl

/-- A relation or message record is not a row; a message record may persist the
position while nothing has been pulled. -/
theorem handleRecord_other (hrow : rec.isRow = false)
    (h : handleRecord cfg s saveOk rec = .next s') :
    Switched s s' ∧ s'.progress = s.progress ∧
      (s'.saved = s.saved ∨ (rec.kind = .message ∧ SavesOnly s s' s.clientXLogPos)) := by
  cases rec with
  | insert | update | delete => cases hrow
  | relation base delta =>
    simp only [handleRecord] at h
    split at h <;> cases h <;> exact ⟨⟨rfl, rfl, id⟩, rfl, Or.inl rfl⟩
  | message base pfx content =>
    simp only [handleRecord] at h
    split at h
    · obtain ⟨hquiet, hsrc, hwait⟩ := updateConsumedOffset_next h
      refine ⟨⟨hsrc, hwait, fun hcount => ?_⟩, hquiet.progress, Or.inr ⟨rfl, hquiet.saved⟩⟩
      unfold PullState.Counted
      rw [hquiet.totalRecords, hquiet.progress]
      exact hcount
    · cases h
      have hrows : (s.records.addRecord (.message base pfx content)).rows = s.records.rows := by
        rw [CDCStream.rows_addRecord]
        rfl
      have hprogress : ({ s with records := s.records.addRecord (.message base pfx content) } :
          PullState V H).progress = s.progress := by
        unfold PullState.progress
        simp only [hrows, CDCStream.addRecord_lastCheckpointID]
      refine ⟨⟨rfl, rfl, fun hcount => ?_⟩, hprogress, Or.inl rfl⟩
      unfold PullState.Counted
      rw [hprogress]
      exact hcount

/-- What one received message does to the loop. -/
structure Receives (cfg : CDCConfig D V H) (s s' : PullState V H) (r : Received D) : Prop where
  progress : s'.progress = s.progress.after cfg r
  waitingForCommit : s'.waitingForCommit = s.waitingForCommit
  counted : s.Counted → s'.Counted
  saved : s'.saved = s.saved ∨
    ∃ walStart transactional lsn pfx content,
      r = .xLogData walStart (.message transactional lsn pfx content) ∧
      SavesOnly s s' (max s.clientXLogPos walStart)

/-- A logical message, by its kind. -/
private theorem receive_xLogData {walStart : LSN} {msg : LogicalMsg D}
    (hrecv : t.recv = .xLogData walStart msg) (h : receive cfg s t = .next s') :
    Receives cfg s s' (.xLogData walStart msg) := by
  unfold receive at h
  simp only [hrecv] at h
  cases hproc : processMessage cfg s.src s.records walStart s.clientXLogPos msg with
  | error e =>
    rw [hproc] at h
    cases h
  | ok out =>
    obtain ⟨src, records, rec?⟩ := out
    rw [hproc] at h
    simp only at h
    cases msg with
    | begin _ | commit _ _ | unhandled =>
      cases hproc
      cases h
      exact ⟨rfl, rfl, id, Or.inl rfl⟩
    | unparsable => cases hproc
    | row change =>
      obtain ⟨_, hrow, hrest⟩ := bind_eq_ok hproc
      have htag := processRowMessage_ok hrow
      cases hrest
      cases rec? with
      | none =>
        cases h
        refine ⟨?_, rfl, id, Or.inl rfl⟩
        simp only [Progress.after, Progress.logical, PullState.progress, PullState.advance,
          ← htag]
        simp
      | some rec =>
        obtain ⟨hsw, hsaved, hprogress⟩ := handleRecord_row (processRowMessage_isRow hrow) h
        refine ⟨?_, hsw.waitingForCommit, hsw.counted, Or.inl hsaved⟩
        rw [hprogress]
        simp only [Progress.after, Progress.logical, PullState.progress, PullState.advance,
          ← htag]
        rfl
    | relation m =>
      obtain ⟨⟨_, _⟩, hrel, hrest⟩ := bind_eq_ok hproc
      obtain ⟨hlock, hchildren, hrecs⟩ := processRelation_ok hrel
      cases hrest
      cases rec? with
      | none =>
        cases h
        refine ⟨?_, rfl, id, Or.inl rfl⟩
        simp only [Progress.after, Progress.logical, PullState.progress, PullState.advance,
          hlock, hchildren]
      | some rec =>
        obtain ⟨base, delta, rfl⟩ := hrecs rec rfl
        obtain ⟨hsw, hprogress, hsaved⟩ := handleRecord_other rfl h
        refine ⟨?_, hsw.waitingForCommit, hsw.counted, ?_⟩
        · rw [hprogress]
          simp only [Progress.after, Progress.logical, PullState.progress, PullState.advance,
            hlock, hchildren]
        · rcases hsaved with hsaved | ⟨hkind, -⟩
          · exact Or.inl hsaved
          · cases hkind
    | message transactional lsn pfx content =>
      cases hproc
      obtain ⟨hsw, hprogress, hsaved⟩ := handleRecord_other rfl h
      refine ⟨?_, hsw.waitingForCommit, fun hcount => hsw.counted ?_, ?_⟩
      · rw [hprogress]
        cases transactional <;> rfl
      · cases transactional <;> exact hcount
      · rcases hsaved with hsaved | ⟨-, hsaved⟩
        · exact Or.inl hsaved
        · exact Or.inr ⟨walStart, transactional, lsn, pfx, content, rfl, hsaved⟩

theorem receive_next (h : receive cfg s t = .next s') :
    Receives cfg s s' t.recv := by
  cases hrecv : t.recv with
  | xLogData walStart msg => exact receive_xLogData hrecv h
  | preempted | failed | errorResponse | unparsable => simp [receive, hrecv] at h
  | other =>
    simp only [receive, hrecv] at h
    cases h
    exact ⟨rfl, rfl, id, Or.inl rfl⟩
  | timeout =>
    simp only [receive, hrecv] at h
    split at h <;> cases h
    exact ⟨rfl, rfl, id, Or.inl rfl⟩
  | keepalive serverWALEnd replyRequested throttleElapsed =>
    simp only [receive, hrecv] at h
    cases h
    split <;> exact ⟨rfl, rfl, id, Or.inl rfl⟩

theorem receive_leave {r : PullExit V H} (h : receive cfg s t = .leave r) :
    ∃ s₁ e, r = .failed s₁ e ∧ s₁.saved = s.saved := by
  unfold receive at h
  split at h
  case h_2 =>
    split_ifs at h
    cases h
    exact ⟨s, _, rfl, rfl⟩
  case h_6 | h_7 => cases h
  case h_8 =>
    split at h
    · cases h
      exact ⟨s, _, rfl, rfl⟩
    · simp only at h
      split at h
      · cases h
      · unfold handleRecord at h
        split at h <;> split at h
        case h_2.isTrue =>
          obtain ⟨e, rfl⟩ := updateConsumedOffset_leave h
          exact ⟨_, e, rfl, rfl⟩
        all_goals cases h
        exact ⟨_, _, rfl, rfl⟩
  all_goals
    cases h
    exact ⟨s, _, rfl, rfl⟩

omit [DecidableEq H] in
theorem markWaiting_quiet (s : PullState V H) (d : Bool) :
    (markWaiting s d).progress = s.progress ∧ (markWaiting s d).totalRecords = s.totalRecords ∧
      (markWaiting s d).saved = s.saved ∧
      (markWaiting s d).consumedOffset = s.consumedOffset := by
  unfold markWaiting
  split <;> exact ⟨rfl, rfl, rfl, rfl⟩

omit [DecidableEq H] in
/-- The deadline makes the loop wait for a commit only once records were
pulled. -/
theorem markWaiting_waiting {d : Bool} (h : (markWaiting s d).waitingForCommit = true) :
    s.waitingForCommit = true ∨ s.totalRecords ≠ 0 := by
  unfold markWaiting at h
  split at h
  case isTrue hd =>
    simp only [Bool.and_eq_true, decide_eq_true_eq] at hd
    exact Or.inr hd.2
  case isFalse => exact Or.inl h

/-- The offsets a turn may persist: the position, to answer a keepalive, and the
position moved by a logical message; both only while nothing has been pulled. -/
def PullState.offers (s : PullState V H) (recv : Received D) : List LSN :=
  (if s.pkmRequiresResponse ∧ s.totalRecords = 0 ∧ s.consumedOffset < s.clientXLogPos then
    [s.clientXLogPos] else []) ++
  match recv with
  | .xLogData walStart (.message ..) =>
    if s.totalRecords = 0 ∧ s.consumedOffset < max s.clientXLogPos walStart then
      [max s.clientXLogPos walStart] else []
  | _ => []

omit [DecidableEq H] in
/-- What the loop head persists is offered. -/
private theorem Quiet.mem_offers (hquiet : Quiet s s')
    (hpkm : s' = s ∨ s.pkmRequiresResponse = true) (recv : Received D) {o : LSN}
    (ho : o ∈ s'.saved) :
    o ∈ s.saved ∨ o ∈ s.offers recv := by
  rcases hquiet.saved with ⟨hsame, -⟩ | ⟨hzero, hlt, happ, -⟩
  · exact Or.inl (hsame ▸ ho)
  · rcases hpkm with rfl | hpkm
    · exact Or.inl ho
    · rw [happ, List.mem_append, List.mem_singleton] at ho
      rcases ho with ho | rfl
      · exact Or.inl ho
      · right
        unfold PullState.offers
        rw [if_pos ⟨hpkm, hzero, hlt⟩]
        exact List.mem_append_left _ (List.mem_singleton_self _)

/-- What one turn that goes round does. -/
structure TurnStep (cfg : CDCConfig D V H) (s s' : PullState V H) (t : Turn D) : Prop where
  progress : s'.progress = s.progress.after cfg t.recv
  counted : s.Counted → s'.Counted
  waiting : s'.waitingForCommit = true → s.waitingForCommit = true ∨ s.totalRecords ≠ 0
  saved : ∀ o ∈ s'.saved, o ∈ s.saved ∨ o ∈ s.offers t.recv

theorem pullTurn_next {req : PullRequest} (h : pullTurn cfg req s t = .next s') :
    TurnStep cfg s s' t := by
  unfold pullTurn at h
  cases hhead : s.respondKeepalive (t.saveOk, t.standbyOk) with
  | leave r =>
    rw [hhead] at h
    cases h
  | next s₁ =>
    rw [hhead] at h
    simp only at h
    split at h
    · cases h
    · obtain ⟨hquiet, -, hwait, hpkm⟩ := respondKeepalive_next hhead
      obtain ⟨hprogress, htotal, hsaved, hconsumed⟩ := markWaiting_quiet s₁ t.deadlinePassed
      have hrecv := receive_next h
      refine ⟨?_, ?_, ?_, ?_⟩
      · rw [hrecv.progress, hprogress, hquiet.progress]
      · intro hcount
        apply hrecv.counted
        unfold PullState.Counted
        rw [hprogress, htotal, hquiet.progress, hquiet.totalRecords]
        exact hcount
      · intro hw
        rw [hrecv.waitingForCommit] at hw
        rw [← hwait, ← hquiet.totalRecords]
        exact markWaiting_waiting hw
      · intro o ho
        have hs₁ : o ∈ s₁.saved → o ∈ s.saved ∨ o ∈ s.offers t.recv :=
          fun ho => hquiet.mem_offers hpkm t.recv ho
        rcases hrecv.saved with hsame | ⟨walStart, tr, lsn, pfx, content, hmsg, hsave⟩
        · rw [hsame, hsaved] at ho
          exact hs₁ ho
        · rcases hsave with ⟨hsame, -⟩ | ⟨hzero, hlt, happ, -⟩
          · rw [hsame, hsaved] at ho
            exact hs₁ ho
          · rw [happ, List.mem_append, hsaved, List.mem_singleton] at ho
            rcases ho with ho | rfl
            · exact hs₁ ho
            · -- the message persisted the position, possibly after the loop head did
              have hpos : (markWaiting s₁ t.deadlinePassed).clientXLogPos = s.clientXLogPos :=
                congrArg Progress.position (hprogress.trans hquiet.progress)
              rw [hpos, hconsumed] at hlt
              rw [htotal, hquiet.totalRecords] at hzero
              have hbefore : s.consumedOffset < max s.clientXLogPos walStart := by
                rcases hquiet.saved with ⟨-, hc⟩ | ⟨-, hc, -, -⟩
                · rw [← hc]
                  exact hlt
                · exact lt_of_lt_of_le hc (le_max_left _ _)
              right
              unfold PullState.offers
              rw [hmsg, hpos]
              simp only [if_pos (And.intro hzero hbefore)]
              exact List.mem_append_right _ (List.mem_singleton_self _)

/-- The loop returns only outside a transaction, and it persists at most what
its head offered. -/
theorem pullTurn_returned {req : PullRequest} (h : pullTurn cfg req s t = .leave (.returned s')) :
    s'.progress = s.progress ∧ s'.totalRecords = s.totalRecords ∧ s'.src.commitLock = none ∧
      (req.maxBatchSize ≤ s.totalRecords ∨ s.waitingForCommit = true ∨ s.totalRecords ≠ 0) ∧
      ∀ o ∈ s'.saved, o ∈ s.saved ∨ o ∈ s.offers t.recv := by
  unfold pullTurn at h
  split at h
  case h_1 hhead =>
    cases h
    obtain ⟨s₁, e, hr, -⟩ := respondKeepalive_leave hhead
    cases hr
  case h_2 hhead =>
    obtain ⟨hquiet, hsrc, hwait, hpkm⟩ := respondKeepalive_next hhead
    split_ifs at h with hdone
    · cases h
      simp only [batchDone, Bool.and_eq_true, Bool.or_eq_true, decide_eq_true_eq,
        Option.isNone_iff_eq_none, hwait, hquiet.totalRecords] at hdone
      refine ⟨hquiet.progress, hquiet.totalRecords, hdone.1, ?_,
        fun o ho => hquiet.mem_offers hpkm t.recv ho⟩
      rcases hdone.2 with (hmax | hwaiting) | ⟨-, htotal⟩
      · exact Or.inl hmax
      · exact Or.inr (Or.inl hwaiting)
      · exact Or.inr (Or.inr htotal)
    · obtain ⟨s₂, e, hr, -⟩ := receive_leave h
      cases hr

theorem pullTurn_failed {req : PullRequest} {e : String}
    (h : pullTurn cfg req s t = .leave (.failed s' e)) :
    ∀ o ∈ s'.saved, o ∈ s.saved ∨ o ∈ s.offers t.recv := by
  unfold pullTurn at h
  intro o ho
  split at h
  case h_1 hhead =>
    cases h
    obtain ⟨s₁, e', hr, hquiet, hpkm⟩ := respondKeepalive_leave hhead
    cases hr
    exact hquiet.mem_offers (Or.inr hpkm) t.recv ho
  case h_2 hhead =>
    obtain ⟨hquiet, -, -, hpkm⟩ := respondKeepalive_next hhead
    split_ifs at h
    · cases h
    · obtain ⟨s₂, e', hr, hsame⟩ := receive_leave h
      cases hr
      rw [hsame, (markWaiting_quiet _ t.deadlinePassed).2.2.1] at ho
      exact hquiet.mem_offers hpkm t.recv ho

end Pull
