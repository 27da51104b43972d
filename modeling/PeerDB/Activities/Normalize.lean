/-
Sync and normalize (`activities`): `SyncFlow`, `pullAndSyncCore`, `normalizeLoop` and
`startNormalize`.

Two goroutines hand batch numbers to each other over two `LastChan`s.  The sync
goroutine updates `normRequests` with every batch it has synced, and waits on
`normResponses` while normalize is more than a buffer behind.  The normalize goroutine
waits on `normRequests` for a batch above the last one it took, normalizes, and updates
`normResponses`.  `step` interleaves their atomic steps.

A goroutine may block although the value it waits for is there and nobody will say so
again (`update_missed`): the other one completes an `Update` between its `Load` and its
`Wait`.  If no channel is swapped between a waiter's `Load` and its `Wait` while the
value is one the waiter waits for, no wake-up is lost (`no_missed_wakeup`).
-/
import PeerDB.Lib.Loop
import PeerDB.Concurrency.LastChan

open Loop

namespace Normalize

/-- The sync goroutine. -/
inductive SyncPC where
  /-- pulling and syncing a batch -/
  | syncing
  /-- in `normRequests.Update` -/
  | requesting (batchID : ℤ) (w : ChanWriter)
  /-- about to compare the response with the threshold -/
  | checking (normWaitThreshold : ℤ)
  | throttled (normWaitThreshold : ℤ) (r : ChanReader)
  | closingRequests (w : ChanWriter)
  | closingResponses (w : ChanWriter)
  | done
  deriving DecidableEq, Repr

/-- The normalize goroutine. -/
inductive NormPC where
  | waiting (r : ChanReader)
  /-- in `startNormalize` -/
  | normalizing (reqBatchID : ℤ)
  /-- in `normalizeResponses.Update`; `ok` unless `startNormalize` fails after it -/
  | responding (reqBatchID endBatchID : ℤ) (ok : Bool) (w : ChanWriter)
  /-- `startNormalize` has failed -/
  | retrying
  | done
  deriving DecidableEq, Repr

structure State where
  normRequests : LastChan := .new
  normResponses : LastChan := .new
  sync : SyncPC := .syncing
  norm : NormPC := .waiting .loading
  normalizingBatchID : ℤ := 0
  syncDone : Bool := false
  ctxDone : Bool := false

inductive Action where
  /-- the next atomic step of the sync goroutine -/
  | sync
  /-- the next atomic step of the normalize goroutine -/
  | norm
  /-- a batch was synced -/
  | synced (batchID : ℤ) (needsNormalize : Bool)
  /-- the sync goroutine ends: its loop is over, or it failed -/
  | leave
  | cancel
  /-- `NormalizeRecords` returns -/
  | normalized (endBatchID : ℤ)
  /-- the destination has no normalize; storing the end time may fail -/
  | unsupported (ok : Bool)
  | normalizeFails
  | retry
  /-- the normalize goroutine sees `syncDone` or the cancelled context -/
  | normLeave
  deriving DecidableEq, Repr

def syncStep (normBufferSize : ℤ) (s : State) : Option State :=
  match s.sync with
  | .requesting batchID w =>
    let r := s.normRequests.write w
    some { s with
      normRequests := r.1
      sync := if r.2 = .idle then .checking (batchID - normBufferSize)
        else .requesting batchID r.2 }
  | .checking bound =>
    some { s with
      sync := if s.normResponses.val ≤ bound then .throttled bound .loading else .syncing }
  | .throttled bound .loading =>
    some { s with
      sync := if s.normResponses.val ≤ bound then .throttled bound .waiting else .syncing }
  | .throttled bound .waiting =>
    match s.normResponses.cond with
    | some ch => some { s with sync := .throttled bound (.blocked ch) }
    | none => some { s with sync := .throttled bound .stuck }
  | .throttled bound (.blocked ch) =>
    if s.normResponses.isClosed ch then some { s with sync := .throttled bound .loading } else none
  | .closingRequests w =>
    let r := s.normRequests.write w
    some { s with
      normRequests := r.1
      sync := if r.2 = .idle then .closingResponses .closing else .closingRequests r.2 }
  | .closingResponses w =>
    let r := s.normResponses.write w
    some { s with
      normResponses := r.1
      sync := if r.2 = .idle then .done else .closingResponses r.2 }
  | _ => none

def normStep (s : State) : Option State :=
  match s.norm with
  | .waiting .loading =>
    if s.normRequests.val ≤ s.normalizingBatchID then some { s with norm := .waiting .waiting }
    else some { s with
      normalizingBatchID := s.normRequests.val
      norm := .normalizing s.normRequests.val }
  | .waiting .waiting =>
    match s.normRequests.cond with
    | some ch => some { s with norm := .waiting (.blocked ch) }
    -- lastChan closed
    | none => some { s with norm := .done }
  | .waiting (.blocked ch) =>
    if s.normRequests.isClosed ch then some { s with norm := .waiting .loading } else none
  | .responding reqBatchID endBatchID ok w =>
    let r := s.normResponses.write w
    some { s with
      normResponses := r.1
      norm :=
        if r.2 = .idle then
          if ok = false then .retrying
          else if endBatchID ≥ reqBatchID then .waiting .loading
          else .normalizing reqBatchID
        else .responding reqBatchID endBatchID ok r.2 }
  | _ => none

def step (normBufferSize : ℤ) (s : State) : Action → Option State
  | .sync => syncStep normBufferSize s
  | .norm => normStep s
  | .synced batchID needsNormalize =>
    match s.sync with
    | .syncing =>
      if needsNormalize then some { s with sync := .requesting batchID (.storing batchID) }
      else some s
    | _ => none
  | .leave =>
    match s.sync with
    | .syncing => some { s with sync := .closingRequests .closing, syncDone := true }
    | .throttled _ (.blocked _) | .throttled _ .stuck =>
      if s.ctxDone then some { s with sync := .closingRequests .closing, syncDone := true }
      else none
    | _ => none
  | .cancel => some { s with ctxDone := true }
  | .normalized endBatchID =>
    match s.norm with
    | .normalizing reqBatchID =>
      some { s with norm := .responding reqBatchID endBatchID true (.storing endBatchID) }
    | _ => none
  | .unsupported ok =>
    match s.norm with
    | .normalizing reqBatchID =>
      some { s with norm := .responding reqBatchID reqBatchID ok (.storing reqBatchID) }
    | _ => none
  | .normalizeFails =>
    match s.norm with
    | .normalizing _ => some { s with norm := .retrying }
    | _ => none
  | .retry =>
    match s.norm with
    | .retrying => some { s with
        normalizingBatchID := s.normRequests.val
        norm := .normalizing s.normRequests.val }
    | _ => none
  | .normLeave =>
    if s.syncDone || s.ctxDone then
      match s.norm with
      | .waiting (.blocked _) | .retrying => some { s with norm := .done }
      | _ => none
    else none

/-- The goroutines are started; a normalized batch is known from earlier runs. -/
def State.init (lastNormBatchID : ℤ) : State :=
  if lastNormBatchID > 0 then
    { normResponses := LastChan.new.update lastNormBatchID
      normalizingBatchID := lastNormBatchID }
  else {}

/-! ### Who writes and who waits -/

namespace State

def reqWriter (s : State) : ChanWriter :=
  match s.sync with
  | .requesting _ w | .closingRequests w => w
  | _ => .idle

def reqReader (s : State) : ChanReader :=
  match s.norm with
  | .waiting r => r
  | _ => .away

def respWriter (s : State) : ChanWriter :=
  match s.norm with
  | .responding _ _ _ w => w
  | _ => .idle

def respReader (s : State) : ChanReader :=
  match s.sync with
  | .throttled _ r => r
  | _ => .away

def respBound (s : State) : ℤ :=
  match s.sync with
  | .throttled bound _ => bound
  | _ => 0

/-- The sync goroutine has begun to close `normResponses`. -/
def closes (s : State) : Bool :=
  match s.sync with
  | .closingResponses _ | .done => true
  | _ => false

/-- A waiter has lost its wake-up. -/
def LostWakeup (s : State) : Prop :=
  Missed s.normRequests s.normalizingBatchID s.reqWriter s.reqReader ∨
    Missed s.normResponses s.respBound s.respWriter s.respReader

end State

/-- The condition on a step: a channel is not swapped between a waiter's `Load` and its
`Wait` while the value is one it waits for. -/
def Fetched (s : State) : Action → Prop
  | .sync => s.reqWriter = .stored → s.reqReader = .waiting →
      s.normRequests.val ≤ s.normalizingBatchID
  | .norm => s.respWriter = .stored → s.respReader = .waiting →
      s.normResponses.val ≤ s.respBound
  | _ => True

instance (s : State) (act : Action) : Decidable (Fetched s act) := by
  unfold Fetched
  split <;> infer_instance

structure Inv (s : State) : Prop where
  requests : Woken s.normRequests s.normalizingBatchID s.reqWriter s.reqReader
  responses : Woken s.normResponses s.respBound s.respWriter s.respReader
  opened : s.closes = false → s.normResponses.cond ≠ none
  updates : s.respWriter ≠ .closing

/-! ### What one step does -/

def SyncPC.threshold? : SyncPC → Option ℤ
  | .checking bound | .throttled bound _ => some bound
  | _ => none

/-- The effect of a step, by cases. -/
inductive Move (normBufferSize : ℤ) (s : State) : Action → State → Prop
  | request {batchID : ℤ} {w : ChanWriter} (hsync : s.sync = .requesting batchID w) :
    Move normBufferSize s .sync { s with
      normRequests := (s.normRequests.write w).1
      sync := .requesting batchID (s.normRequests.write w).2 }
  | requested {batchID : ℤ} {w : ChanWriter} (hsync : s.sync = .requesting batchID w)
    (hidle : (s.normRequests.write w).2 = .idle) :
    Move normBufferSize s .sync { s with
      normRequests := (s.normRequests.write w).1
      sync := .checking (batchID - normBufferSize) }
  | throttle {bound : ℤ} {r : ChanReader} (hbound : s.sync.threshold? = some bound)
    (hread : ReadStep s.normResponses bound s.respReader r) :
    Move normBufferSize s .sync { s with sync := .throttled bound r }
  /-- `Wait` on a channel that was closed -/
  | stick {bound : ℤ} (hbound : s.sync.threshold? = some bound)
    (hcond : s.normResponses.cond = none) :
    Move normBufferSize s .sync { s with sync := .throttled bound .stuck }
  | release {bound : ℤ} (hbound : s.sync.threshold? = some bound) :
    Move normBufferSize s .sync { s with sync := .syncing }
  | closeRequests {w : ChanWriter} (hsync : s.sync = .closingRequests w) :
    Move normBufferSize s .sync { s with
      normRequests := (s.normRequests.write w).1
      sync := .closingRequests (s.normRequests.write w).2 }
  | closedRequests {w : ChanWriter} (hsync : s.sync = .closingRequests w)
    (hidle : (s.normRequests.write w).2 = .idle) :
    Move normBufferSize s .sync { s with
      normRequests := (s.normRequests.write w).1
      sync := .closingResponses .closing }
  | closeResponses {w : ChanWriter} (hsync : s.sync = .closingResponses w) :
    Move normBufferSize s .sync { s with
      normResponses := (s.normResponses.write w).1
      sync := .closingResponses (s.normResponses.write w).2 }
  | closedResponses {w : ChanWriter} (hsync : s.sync = .closingResponses w) :
    Move normBufferSize s .sync { s with
      normResponses := (s.normResponses.write w).1
      sync := .done }
  | synced (batchID : ℤ) (hsync : s.sync = .syncing) :
    Move normBufferSize s (.synced batchID true)
      { s with sync := .requesting batchID (.storing batchID) }
  | unneeded (batchID : ℤ) : Move normBufferSize s (.synced batchID false) s
  | leave (hidle : s.reqWriter = .idle) (hopen : s.closes = false) :
    Move normBufferSize s .leave { s with sync := .closingRequests .closing, syncDone := true }
  | cancel : Move normBufferSize s .cancel { s with ctxDone := true }
  | wait {r r' : ChanReader} (hnorm : s.norm = .waiting r)
    (hread : ReadStep s.normRequests s.normalizingBatchID r r') :
    Move normBufferSize s .norm { s with norm := .waiting r' }
  | take (act : Action) (hidle : s.respWriter = .idle) :
    Move normBufferSize s act { s with
      normalizingBatchID := s.normRequests.val
      norm := .normalizing s.normRequests.val }
  | answer (act : Action) {reqBatchID : ℤ} (hnorm : s.norm = .normalizing reqBatchID)
    (endBatchID : ℤ) (ok : Bool) :
    Move normBufferSize s act
      { s with norm := .responding reqBatchID endBatchID ok (.storing endBatchID) }
  | respond {reqBatchID endBatchID : ℤ} {ok : Bool} {w : ChanWriter}
    (hnorm : s.norm = .responding reqBatchID endBatchID ok w) :
    Move normBufferSize s .norm { s with
      normResponses := (s.normResponses.write w).1
      norm := .responding reqBatchID endBatchID ok (s.normResponses.write w).2 }
  /-- the response is out: normalize fails after it, waits again, or goes on with the batch -/
  | responded {reqBatchID endBatchID : ℤ} {ok : Bool} {w : ChanWriter} {pc : NormPC}
    (hnorm : s.norm = .responding reqBatchID endBatchID ok w)
    (hidle : (s.normResponses.write w).2 = .idle)
    (hpc : pc = .retrying ∨ (endBatchID ≥ reqBatchID ∧ pc = .waiting .loading) ∨
      pc = .normalizing reqBatchID) :
    Move normBufferSize s .norm { s with normResponses := (s.normResponses.write w).1, norm := pc }
  | giveUp (act : Action) {pc : NormPC} (hidle : s.respWriter = .idle)
    (hpc : pc = .retrying ∨ pc = .done) : Move normBufferSize s act { s with norm := pc }

section Spec

variable {normBufferSize : ℤ} {s s' : State}

theorem syncStep_move (hstep : syncStep normBufferSize s = some s') :
    Move normBufferSize s .sync s' := by
  simp only [syncStep] at hstep
  split at hstep
  case h_1 hsync =>
    split_ifs at hstep with hidle <;> cases hstep
    · exact .requested hsync hidle
    · exact .request hsync
  case h_2 hsync =>
    split_ifs at hstep <;> cases hstep
    · exact .throttle (by rw [hsync]; rfl) (.again _)
    · exact .release (by rw [hsync]; rfl)
  case h_3 hsync =>
    split_ifs at hstep with hle <;> cases hstep
    · refine .throttle (by rw [hsync]; rfl) ?_
      rw [State.respReader, hsync]
      exact .below hle
    · exact .release (by rw [hsync]; rfl)
  case h_4 hsync =>
    split at hstep <;> cases hstep
    · refine .throttle (by rw [hsync]; rfl) ?_
      rw [State.respReader, hsync]
      exact .wait ‹_›
    · exact .stick (by rw [hsync]; rfl) ‹_›
  case h_5 hsync =>
    split_ifs at hstep
    cases hstep
    exact .throttle (by rw [hsync]; rfl) (.again _)
  case h_6 hsync =>
    split_ifs at hstep with hidle <;> cases hstep
    · exact .closedRequests hsync hidle
    · exact .closeRequests hsync
  case h_7 hsync =>
    split_ifs at hstep <;> cases hstep
    · exact .closedResponses hsync
    · exact .closeResponses hsync
  case h_8 => cases hstep

theorem normStep_move (hstep : normStep s = some s') : Move normBufferSize s .norm s' := by
  simp only [normStep] at hstep
  split at hstep
  case h_1 hnorm =>
    split_ifs at hstep with hle <;> cases hstep
    · exact .wait hnorm (.below hle)
    · exact .take _ (by rw [State.respWriter, hnorm])
  case h_2 hnorm =>
    split at hstep <;> cases hstep
    · exact .wait hnorm (.wait ‹_›)
    · exact .giveUp _ (by rw [State.respWriter, hnorm]) (Or.inr rfl)
  case h_3 hnorm =>
    split_ifs at hstep
    cases hstep
    exact .wait hnorm (.again _)
  case h_4 hnorm =>
    split_ifs at hstep with hidle hok hend <;> cases hstep
    · exact .responded hnorm hidle (Or.inl rfl)
    · exact .responded hnorm hidle (Or.inr (Or.inl ⟨hend, rfl⟩))
    · exact .responded hnorm hidle (Or.inr (Or.inr rfl))
    · exact .respond hnorm
  case h_5 => cases hstep

theorem step_move {act : Action} (hstep : step normBufferSize s act = some s') :
    Move normBufferSize s act s' := by
  cases act <;> simp only [step] at hstep
  case sync => exact syncStep_move hstep
  case norm => exact normStep_move hstep
  case synced batchID needsNormalize =>
    split at hstep
    · split_ifs at hstep with hneeds <;> cases hstep
      · exact hneeds ▸ .synced batchID ‹_›
      · exact Bool.eq_false_iff.mpr hneeds ▸ .unneeded batchID
    · cases hstep
  case leave =>
    split at hstep
    case h_1 hsync =>
      cases hstep
      exact .leave (by rw [State.reqWriter, hsync]) (by rw [State.closes, hsync])
    case h_2 hsync | h_3 hsync =>
      split_ifs at hstep
      cases hstep
      exact .leave (by rw [State.reqWriter, hsync]) (by rw [State.closes, hsync])
    case h_4 => cases hstep
  case cancel =>
    cases hstep
    exact .cancel
  case normalized | unsupported =>
    split at hstep <;> cases hstep
    exact .answer _ ‹_› _ _
  case normalizeFails =>
    split at hstep <;> cases hstep
    exact .giveUp _ (by simp [State.respWriter, *]) (Or.inl rfl)
  case retry =>
    split at hstep <;> cases hstep
    exact .take _ (by simp [State.respWriter, *])
  case normLeave =>
    split_ifs at hstep
    split at hstep <;> cases hstep
    all_goals exact .giveUp _ (by simp [State.respWriter, *]) (Or.inr rfl)

/-- In its loop on `normResponses` the sync goroutine neither writes nor has closed
anything, and its bound is the threshold. -/
theorem idle_of_threshold {bound : ℤ} (h : s.sync.threshold? = some bound) :
    s.reqWriter = .idle ∧ s.closes = false ∧ (s.respReader = .away ∨ s.respBound = bound) := by
  unfold State.reqWriter State.closes State.respReader State.respBound
  cases hsync : s.sync <;> rw [hsync] at h <;> cases h
  · exact ⟨rfl, rfl, Or.inl rfl⟩
  · exact ⟨rfl, rfl, Or.inr rfl⟩

end Spec

/-! ### No lost wake-up -/

variable {s : State}

/-- Only `normRequests` and the program counter of the sync goroutine change, and it
waits for nothing. -/
theorem Inv.setRequests (h : Inv s) {lc : LastChan} {pc : SyncPC}
    (hrequests : Woken lc s.normalizingBatchID (State.reqWriter { s with sync := pc }) s.reqReader)
    (haway : State.respReader { s with sync := pc } = .away)
    (hcloses : State.closes { s with sync := pc } = false → s.closes = false) :
    Inv { s with normRequests := lc, sync := pc } := by
  refine ⟨hrequests, ?_, fun hc => h.opened (hcloses hc), h.updates⟩
  show Woken s.normResponses _ s.respWriter (State.respReader { s with sync := pc })
  rw [haway]
  trivial

/-- A step of `normRequests.Update` or `Close`. -/
theorem Inv.write (h : Inv s) (hfetched : Fetched s .sync) {w : ChanWriter}
    (hw : s.reqWriter = w) : Woken (s.normRequests.write w).1 s.normalizingBatchID
      (s.normRequests.write w).2 s.reqReader :=
  hw ▸ Woken.write h.requests hfetched

/-- The sync goroutine moves on without touching a channel. -/
theorem Inv.setSync (h : Inv s) {pc : SyncPC} (hidle : s.reqWriter = .idle)
    (hwoken : Woken s.normResponses (State.respBound { s with sync := pc }) s.respWriter
      (State.respReader { s with sync := pc })) (hcloses : s.closes = false) :
    Inv { s with sync := pc } := by
  refine ⟨?_, hwoken, fun _ => h.opened hcloses, h.updates⟩
  have hrequests := h.requests
  rw [hidle] at hrequests
  exact hrequests.of_idle _

/-- The sync goroutine, the only one to wait on responses, closes them past its loop. -/
theorem Inv.closeResponses (h : Inv s) {w : ChanWriter} {lc : LastChan} {pc : SyncPC}
    (hsync : s.sync = .closingResponses w) (hpc : pc = .done ∨ ∃ w', pc = .closingResponses w') :
    Inv { s with normResponses := lc, sync := pc } := by
  have hrequests := h.requests
  rw [State.reqWriter, hsync] at hrequests
  rcases hpc with rfl | ⟨w', rfl⟩ <;> exact ⟨hrequests, trivial, nofun, h.updates⟩

/-- The normalize goroutine is not waiting any more. -/
theorem Inv.setNorm (h : Inv s) {pc : NormPC} (batchID : ℤ) (hidle : s.respWriter = .idle)
    (haway : State.reqReader { s with norm := pc } = .away)
    (hupdates : State.respWriter { s with norm := pc } ≠ .closing) :
    Inv { s with norm := pc, normalizingBatchID := batchID } := by
  refine ⟨?_, ?_, h.opened, hupdates⟩
  · show Woken s.normRequests batchID s.reqWriter (State.reqReader { s with norm := pc })
    rw [haway]
    trivial
  · have hresponses := h.responses
    rw [hidle] at hresponses
    exact hresponses.of_idle _

/-- A step of `normResponses.Update`. -/
theorem Inv.respond (h : Inv s) (hfetched : Fetched s .norm) {w : ChanWriter} {pc : NormPC}
    (hw : s.respWriter = w)
    (hnext : State.respWriter { s with norm := pc } = (s.normResponses.write w).2)
    (hread : Woken s.normRequests s.normalizingBatchID s.reqWriter
      (State.reqReader { s with norm := pc })) :
    Inv { s with normResponses := (s.normResponses.write w).1, norm := pc } := by
  have hwrite := Woken.write h.responses hfetched
  rw [hw, ← hnext] at hwrite
  refine ⟨hread, hwrite, fun hopen => ?_, ?_⟩
  · refine LastChan.write_cond (h.opened hopen) ?_
    rw [← hw]
    exact h.updates
  · show State.respWriter { s with norm := pc } ≠ .closing
    rw [hnext]
    exact LastChan.write_ne_closing s.normResponses w

/-- **Step.**  Every step that meets the condition keeps the waiters woken. -/
theorem step_inv {normBufferSize : ℤ} {s s' : State} {act : Action} (h : Inv s)
    (hfetched : Fetched s act) (hstep : step normBufferSize s act = some s') : Inv s' := by
  cases step_move hstep with
  | request hsync | closeRequests hsync =>
    have hwrite := h.write hfetched (by rw [State.reqWriter, hsync])
    exact h.setRequests hwrite rfl fun _ => by rw [State.closes, hsync]
  | requested hsync hidle =>
    have hwrite := h.write hfetched (by rw [State.reqWriter, hsync])
    rw [hidle] at hwrite
    exact h.setRequests hwrite rfl fun _ => by rw [State.closes, hsync]
  | closedRequests hsync hidle =>
    have hwrite := h.write hfetched (by rw [State.reqWriter, hsync])
    rw [hidle] at hwrite
    exact h.setRequests hwrite rfl nofun
  | @throttle bound r hbound hread =>
    obtain ⟨hidle, hopen, hreader⟩ := idle_of_threshold hbound
    refine h.setSync hidle (Woken.read ?_ hread) hopen
    rcases hreader with haway | rfl
    · rw [haway]
      trivial
    · exact h.responses
  | stick hbound hcond => exact absurd hcond (h.opened (idle_of_threshold hbound).2.1)
  | release hbound =>
    obtain ⟨hidle, hopen, -⟩ := idle_of_threshold hbound
    exact h.setSync hidle trivial hopen
  | closeResponses hsync => exact h.closeResponses hsync (Or.inr ⟨_, rfl⟩)
  | closedResponses hsync => exact h.closeResponses hsync (Or.inl rfl)
  | synced batchID hsync =>
    exact h.setSync (by rw [State.reqWriter, hsync]) trivial (by rw [State.closes, hsync])
  | unneeded => exact h
  | leave hidle hopen =>
    have hclosing : Inv { s with sync := .closingRequests .closing } :=
      h.setSync hidle trivial hopen
    exact ⟨hclosing.requests, hclosing.responses, hclosing.opened, hclosing.updates⟩
  | cancel => exact ⟨h.requests, h.responses, h.opened, h.updates⟩
  | @wait r r' hnorm hread =>
    have hrequests := h.requests
    have hresponses := h.responses
    rw [State.reqReader, hnorm] at hrequests
    rw [State.respWriter, hnorm] at hresponses
    exact ⟨hrequests.read hread, hresponses, h.opened, nofun⟩
  | take _ hidle => exact h.setNorm s.normRequests.val hidle rfl nofun
  | answer _ hnorm endBatchID ok =>
    exact h.setNorm s.normalizingBatchID (by rw [State.respWriter, hnorm]) rfl nofun
  | respond hnorm => exact h.respond hfetched (by rw [State.respWriter, hnorm]) rfl trivial
  | responded hnorm hidle hpc =>
    have hw := State.respWriter.eq_def s
    rw [hnorm] at hw
    rcases hpc with rfl | ⟨-, rfl⟩ | rfl <;>
      exact h.respond hfetched hw hidle.symm trivial
  | giveUp _ hidle hpc =>
    rcases hpc with rfl | rfl <;> exact h.setNorm s.normalizingBatchID hidle rfl nofun

theorem inv_init (lastNormBatchID : ℤ) : Inv (State.init lastNormBatchID) := by
  rw [State.init]
  split_ifs <;> exact ⟨trivial, trivial, nofun, nofun⟩

/-- **No lost wake-up.**  In every run in which no channel is swapped between a waiter's
`Load` and its `Wait` while the value is one it waits for, no state reached has a waiter
blocked on an open channel while no `Update` is in progress and the value is above its
bound. -/
theorem no_missed_wakeup {normBufferSize lastNormBatchID : ℤ} {acts : List Action} {s : State}
    (hfetched : Along (step normBufferSize) Fetched (State.init lastNormBatchID) acts)
    (hrun : runs (step normBufferSize) (State.init lastNormBatchID) acts = some s) :
    ¬ s.LostWakeup := by
  have hinv : Inv s :=
    runs_invariant Inv (fun _ _ _ hs hf hstep => step_inv hs hf hstep) (inv_init lastNormBatchID)
      hfetched hrun
  rintro (hmissed | hmissed)
  · exact hinv.requests.not_missed hmissed
  · exact hinv.responses.not_missed hmissed

/-- One batch is requested, normalized and answered, and the next one is awaited. -/
def oneBatch : List Action :=
  [.norm, .norm, .synced 1 true, .sync, .sync, .sync, .sync, .norm, .norm, .normalized 1,
    .norm, .norm, .norm, .norm, .norm]

theorem oneBatch_no_missed_wakeup :
    ∃ s, runs (step 2) (State.init 0) oneBatch = some s ∧ s.norm = .waiting (.blocked 1) ∧
      ¬ s.LostWakeup := by
  have hfetched : Along (step 2) Fetched (State.init 0) oneBatch := along_of_check (by decide)
  have heval : (runs (step 2) (State.init 0) oneBatch).map State.norm =
      some (.waiting (.blocked 1)) := by decide
  obtain ⟨s, hrun, hnorm⟩ := Option.map_eq_some_iff.mp heval
  exact ⟨s, hrun, hnorm, no_missed_wakeup hfetched hrun⟩

/-- The normalize goroutine has loaded the request when two batches are requested; then
it calls `Wait`, and the sync goroutine waits for the response. -/
def updatesBetween : List Action :=
  [.norm, .synced 1 true, .sync, .sync, .sync, .sync, .synced 2 true, .sync, .sync, .sync,
    .norm, .sync, .sync, .sync]

theorem update_missed :
    ∃ s, runs (step 2) (State.init 0) updatesBetween = some s ∧ s.LostWakeup ∧
      normStep s = none ∧ syncStep 2 s = none := by
  have heval : (runs (step 2) (State.init 0) updatesBetween).map (fun s =>
      (decide (Missed s.normRequests s.normalizingBatchID s.reqWriter s.reqReader),
        (normStep s).isNone, (syncStep 2 s).isNone)) = some (true, true, true) := by decide
  obtain ⟨s, hrun, hs⟩ := Option.map_eq_some_iff.mp heval
  simp only [Prod.mk.injEq, decide_eq_true_eq, Option.isNone_iff_eq_none] at hs
  exact ⟨s, hrun, Or.inl hs.1, hs.2⟩

end Normalize
