/-
Restarting Postgres replication from the persisted offset.

The source is a list of transactions in commit order.  A replication session
(`Walsender`) streams the transactions from the requested start position on,
and never reports a position beyond the commit record of the transaction it has
not committed yet.  `step` composes it with the pull loop, the end of a batch
(`FinishBatch`), and crashes at any point.

An offset `o` that is persisted makes `MaybeStartReplication` ask for `o + 1`.
The server's reports are bounded by the next commit position `c`, but they may
reach it: the record before the commit record may end exactly where the commit
record starts.  Persisting `o = c` skips the transaction
(`persisted_skips_transaction`).  As long as the persisted offsets are not such
a position, no restart skips anything (`restart_skips_nothing`).
-/
import PeerDB.Postgres.Batch

open Loop

namespace Restart

open List

/-- A source transaction: its commit record's position, and its row changes with
the positions of their records. -/
structure Txn (D : Type) where
  commitLSN : LSN
  rows : List (LSN × RowChange D)
  xid : ℕ := 0

/-- A replication session: the transactions whose Commit is still to be sent,
and, once the Begin of the first was sent, its remaining row changes. -/
structure Walsender (D : Type) where
  todo : List (Txn D)
  sending : Option (List (LSN × RowChange D))

/-- What the session does next.  A logical message carries the position of its
own record. -/
inductive ServerMove (D : Type) where
  | keepalive (serverWALEnd : LSN) (replyRequested throttleElapsed : Bool)
  | begin (walStart : LSN)
  | row
  | commit (walStart transactionEndLSN : LSN)
  | relation (walStart : LSN) (msg : RelationMessage)
  | message (walStart : LSN) (transactional : Bool) (pfx content : String)
  | unhandled (walStart : LSN)
  | timeout
  | broken

/-- `pos` does not lie beyond the next commit record. -/
def within {D : Type} (todo : List (Txn D)) (pos : LSN) : Bool :=
  match todo with
  | [] => true
  | t :: _ => decide (pos ≤ t.commitLSN)

/-- The message a move sends, the session after it, and the transactions it
completes; `none` if the session cannot make the move. -/
def Walsender.emit {D : Type} (w : Walsender D) :
    ServerMove D → Option (Received D × Walsender D × List (Txn D))
  | .keepalive pos reply throttle =>
    if within w.todo pos then some (.keepalive pos reply throttle, w, []) else none
  | .begin pos =>
    match w.todo, w.sending with
    | t :: _, none =>
      if within w.todo pos then
        some (.xLogData pos (.begin ⟨t.commitLSN, 0, t.xid⟩), { w with sending := some t.rows }, [])
      else none
    | _, _ => none
  | .row =>
    match w.sending with
    | some ((pos, change) :: rest) =>
      if within w.todo pos then
        some (.xLogData pos (.row change), { w with sending := some rest }, [])
      else none
    | _ => none
  | .commit pos endLSN =>
    match w.todo, w.sending with
    | t :: ts, some [] =>
      if within ts pos then
        some (.xLogData pos (.commit t.commitLSN endLSN), ⟨ts, none⟩, [t])
      else none
    | _, _ => none
  | .relation pos msg =>
    if within w.todo pos then some (.xLogData pos (.relation msg), w, []) else none
  | .message pos transactional pfx content =>
    if within w.todo pos then
      some (.xLogData pos (.message transactional pos pfx content), w, [])
    else none
  | .unhandled pos =>
    if within w.todo pos then some (.xLogData pos .unhandled, w, []) else none
  | .timeout => some (.timeout, w, [])
  | .broken => some (.failed, w, [])

/-- Where the mirror stands.  `batch` lists the transactions committed into the
running batch. -/
inductive Phase (D V H : Type) where
  | down
  | pulling (w : Walsender D) (batch : List (Txn D)) (s : PullState V H)
  | returned (w : Walsender D) (batch : List (Txn D)) (s : PullState V H)
  | idle (w : Walsender D) (replOffset : LSN) (rels : ℕ → Option RelationMessage)

/-- The persisted last offset, the commit positions of the transactions of the
batches that were returned and synced, and the phase. -/
structure World (D V H : Type) where
  persisted : LSN := 0
  delivered : List LSN := []
  phase : Phase D V H := .down

inductive Action (D : Type) where
  /-- a new connection starts replication -/
  | start
  /-- one iteration of the pull loop -/
  | turn (saveOk standbyOk deadlinePassed : Bool) (move : ServerMove D)
  /-- the destination synced the returned batch and stored its checkpoint -/
  | finishBatch
  /-- the next pull on the same connection -/
  | nextPull
  | crash

/-- The start position `MaybeStartReplication` asks for. -/
def startLSN (lastOffset : LSN) : LSN := if lastOffset > 0 then lastOffset + 1 else 0

section System

variable {D V H : Type} [DecidableEq H] (cfg : CDCConfig D V H) (req : PullRequest)
  (txns : List (Txn D))

def pullFrom (lastOffset : LSN) (rels : ℕ → Option RelationMessage) : PullState V H :=
  PullState.init { req with lastOffset := lastOffset } (cfg.newSource rels)

/-- `SetLastOffset` keeps the greatest offset. -/
def persistAll (persisted : LSN) (saved : List LSN) : LSN := saved.foldl max persisted

def step (x : World D V H) : Action D → Option (World D V H)
  | .start =>
    match x.phase with
    | .down =>
      let todo := txns.filter fun t => decide (startLSN x.persisted ≤ t.commitLSN)
      some { x with phase := .pulling ⟨todo, none⟩ [] (pullFrom cfg req x.persisted fun _ => none) }
    | _ => none
  | .turn saveOk standbyOk deadlinePassed move =>
    match x.phase with
    | .pulling w batch s =>
      match w.emit move with
      | none => none
      | some (recv, w', done) =>
        match pullTurn cfg req s ⟨saveOk, standbyOk, deadlinePassed, recv⟩ with
        | .next s' =>
          some { x with
            persisted := persistAll x.persisted s'.saved
            phase := .pulling w' (batch ++ done) s' }
        -- the loop left before it received anything
        | .leave (.returned s') =>
          some { x with
            persisted := persistAll x.persisted s'.saved
            phase := .returned w batch s' }
        | .leave (.failed s' _) =>
          some { x with persisted := persistAll x.persisted s'.saved, phase := .down }
    | _ => none
  | .finishBatch =>
    match x.phase with
    | .returned w batch s =>
      some { persisted := max x.persisted s.records.lastCheckpointID
             delivered := x.delivered ++ batch.map Txn.commitLSN
             phase := .idle w s.records.lastCheckpointID s.src.relationMessageMapping }
    | _ => none
  | .nextPull =>
    match x.phase with
    | .idle w replOffset rels =>
      -- a connection whose offset is not the persisted one is reset
      if replOffset = x.persisted then
        some { x with phase := .pulling w [] (pullFrom cfg req x.persisted rels) }
      else some { x with phase := .down }
    | _ => none
  | .crash => some { x with phase := .down }

/-- A row change of a mirrored table, by the partition map of the catalog. -/
def mirroredRow (r : LSN × RowChange D) : Bool :=
  (cfg.mirroredTable cfg.getChildToParentRelIDMap r.2.relationID).isSome

def Txn.mirrored (t : Txn D) : Bool := t.rows.any (mirroredRow cfg)

/-- The commit positions delivered so far, with those of a batch that has been
returned and is being synced. -/
def World.handedOver (x : World D V H) : List LSN :=
  match x.phase with
  | .returned _ batch _ => x.delivered ++ batch.map Txn.commitLSN
  | _ => x.delivered

/-- A restart from the persisted offset resends every transaction with a
mirrored row change that no synced batch contains. -/
def World.Safe (x : World D V H) : Prop :=
  ∀ t ∈ txns, t.mirrored cfg = true → t.commitLSN ∉ x.delivered →
    startLSN x.persisted ≤ t.commitLSN

/-- The offsets an action may persist. -/
def World.offers (x : World D V H) (a : Action D) : List LSN :=
  match x.phase, a with
  | .pulling w _ s, .turn _ _ _ move =>
    match w.emit move with
    | some (recv, _, _) => s.offers recv
    | none => []
  | .returned _ _ s, .finishBatch => [s.records.lastCheckpointID]
  | _, _ => []

/-- No offset the action may persist is the commit position of a transaction
with a mirrored row change that has not been handed over. -/
def World.Clear (x : World D V H) (a : Action D) : Prop :=
  ∀ o ∈ x.offers a, ∀ t ∈ txns, t.mirrored cfg = true → t.commitLSN ∉ x.handedOver →
    o ≠ t.commitLSN

instance (x : World D V H) (a : Action D) : Decidable (x.Clear cfg txns a) :=
  inferInstanceAs (Decidable (∀ o ∈ x.offers a, ∀ t ∈ txns, t.mirrored cfg = true →
    t.commitLSN ∉ x.handedOver → o ≠ t.commitLSN))

end System

/-! ### One session and the batch pulled from it -/

section Session

variable {D V H : Type} {cfg : CDCConfig D V H}

/-- What holds between a session and the progress of the pull it feeds. -/
structure Session (cfg : CDCConfig D V H) (w : Walsender D) (batch : List (Txn D))
    (p : Progress) : Prop where
  ordered : w.todo.Pairwise fun a b => a.commitLSN < b.commitLSN
  position : ∀ t ∈ w.todo, p.position ≤ t.commitLSN
  checkpoint : ∀ t ∈ w.todo, p.checkpoint ≤ t.commitLSN
  lock : p.commitLock.isSome = w.sending.isSome
  children : ∀ k, cfg.mirroredTable p.children k =
    cfg.mirroredTable cfg.getChildToParentRelIDMap k
  /-- the mirrored row changes sent so far are in the batch -/
  sent : ∀ rest, w.sending = some rest → ∃ t ts sent, w.todo = t :: ts ∧
    t.rows = sent ++ rest ∧ (sent.any (mirroredRow cfg) = true → p.rows ≠ [])
  batched : ∀ t ∈ batch, t.mirrored cfg = true → p.rows ≠ []

variable {pos : LSN}

theorem within_le {todo : List (Txn D)} (hord : todo.Pairwise fun a b => a.commitLSN < b.commitLSN)
    (h : within todo pos = true) :
    ∀ t ∈ todo, pos ≤ t.commitLSN := by
  cases todo with
  | nil =>
    intro t ht
    cases ht
  | cons t₀ ts =>
    have hhead : pos ≤ t₀.commitLSN := of_decide_eq_true h
    intro t ht
    rcases mem_cons.mp ht with rfl | ht
    · exact hhead
    · exact le_trans hhead (le_of_lt (rel_of_pairwise_cons hord ht))

/-- The partition map grows only at relations of unmirrored tables, and there it
agrees with the catalog. -/
theorem mirroredTable_checkIfUnknown {children : ℕ → Option ℕ}
    (h : ∀ k, cfg.mirroredTable children k = cfg.mirroredTable cfg.getChildToParentRelIDMap k)
    (relID k : ℕ) :
    cfg.mirroredTable (checkIfUnknownTableInherits cfg children relID).2.2 k =
      cfg.mirroredTable cfg.getChildToParentRelIDMap k := by
  rcases @checkIfUnknownTableInherits_children _ _ _ cfg children relID k with
    hsame | ⟨hnone, -, hparent⟩
  · rw [← h k]
    unfold CDCConfig.mirroredTable getParentRelIDIfPartitioned
    rw [hsame]
  · unfold CDCConfig.mirroredTable getParentRelIDIfPartitioned CDCConfig.getChildToParentRelIDMap
    rw [hparent]
    cases hp : cfg.inhParent k with
    | none => rfl
    | some parent =>
      cases hmir : cfg.srcTableIDNameMapping parent with
      | some table => simp [Option.filter, hmir]
      | none => simp [Option.filter, hmir, hnone]

/-- What a session can send, with the bound on the position it reports. -/
inductive EmitCase (w : Walsender D) : Received D → Walsender D → List (Txn D) → Prop
  | timeout : EmitCase w .timeout w []
  | broken : EmitCase w .failed w []
  | keepalive {pos : LSN} (reply throttle : Bool) (hpos : within w.todo pos = true) :
    EmitCase w (.keepalive pos reply throttle) w []
  | begin {pos : LSN} {t : Txn D} {ts : List (Txn D)} (htodo : w.todo = t :: ts)
    (hsending : w.sending = none) (hpos : within w.todo pos = true) :
    EmitCase w (.xLogData pos (.begin ⟨t.commitLSN, 0, t.xid⟩))
      { w with sending := some t.rows } []
  | row {pos : LSN} {change : RowChange D} {rest : List (LSN × RowChange D)}
    (hsending : w.sending = some ((pos, change) :: rest)) (hpos : within w.todo pos = true) :
    EmitCase w (.xLogData pos (.row change)) { w with sending := some rest } []
  | commit {pos : LSN} (endLSN : LSN) {t : Txn D} {ts : List (Txn D)} (htodo : w.todo = t :: ts)
    (hsending : w.sending = some []) (hpos : within ts pos = true) :
    EmitCase w (.xLogData pos (.commit t.commitLSN endLSN)) ⟨ts, none⟩ [t]
  | relation {pos : LSN} (msg : RelationMessage) (hpos : within w.todo pos = true) :
    EmitCase w (.xLogData pos (.relation msg)) w []
  | message {pos : LSN} (transactional : Bool) (pfx content : String)
    (hpos : within w.todo pos = true) :
    EmitCase w (.xLogData pos (.message transactional pos pfx content)) w []
  | unhandled {pos : LSN} (hpos : within w.todo pos = true) :
    EmitCase w (.xLogData pos .unhandled) w []

variable {done batch ts : List (Txn D)} {w w' : Walsender D}

theorem emit_cases {move : ServerMove D} {recv : Received D}
    (h : w.emit move = some (recv, w', done)) : EmitCase w recv w' done := by
  cases move <;> simp only [Walsender.emit] at h
  case timeout =>
    cases h
    exact .timeout
  case broken =>
    cases h
    exact .broken
  case keepalive =>
    split_ifs at h with hpos
    cases h
    exact .keepalive _ _ hpos
  case relation =>
    split_ifs at h with hpos
    cases h
    exact .relation _ hpos
  case message =>
    split_ifs at h with hpos
    cases h
    exact .message _ _ _ hpos
  case unhandled =>
    split_ifs at h with hpos
    cases h
    exact .unhandled hpos
  case begin =>
    split at h
    · split_ifs at h with hpos
      cases h
      exact .begin ‹_› ‹_› hpos
    · cases h
  case row =>
    split at h
    · split_ifs at h with hpos
      cases h
      exact .row ‹_› hpos
    · cases h
  case commit =>
    split at h
    · split_ifs at h with hpos
      cases h
      exact .commit _ ‹_› ‹_› hpos
    · cases h

variable {p : Progress}

theorem Session.report {p p' : Progress} (h : Session cfg w batch p)
    (hpos : within w.todo pos = true) (hposition : p'.position = max p.position pos)
    (hckpt : p'.checkpoint ≤ max p.checkpoint pos) (hlock : p'.commitLock = p.commitLock)
    (hrows : p'.rows = p.rows)
    (hchildren : ∀ k, cfg.mirroredTable p'.children k =
      cfg.mirroredTable cfg.getChildToParentRelIDMap k) :
    Session cfg w (batch ++ []) p' := by
  have hle := within_le h.ordered hpos
  rw [append_nil]
  refine ⟨h.ordered, fun t ht => ?_, fun t ht => ?_, hlock ▸ h.lock, hchildren, ?_, ?_⟩
  · rw [hposition]
    exact max_le (h.position t ht) (hle t ht)
  · exact le_trans hckpt (max_le (h.checkpoint t ht) (hle t ht))
  · rw [hrows]
    exact h.sent
  · rw [hrows]
    exact h.batched

/-- A Begin: the rows of the next transaction are still to be sent. -/
theorem Session.begins {t : Txn D} (h : Session cfg w batch p) (htodo : w.todo = t :: ts)
    (hpos : within w.todo pos = true) :
    Session cfg { w with sending := some t.rows } batch
      (p.after cfg (.xLogData pos (.begin ⟨t.commitLSN, 0, t.xid⟩))) := by
  have hle := within_le h.ordered hpos
  refine ⟨h.ordered, fun t' ht' => max_le (h.position t' ht') (hle t' ht'), h.checkpoint,
    rfl, h.children, fun rest hrest => ?_, h.batched⟩
  cases hrest
  exact ⟨t, ts, [], htodo, rfl, fun hany => by cases hany⟩

theorem rows_after_row {change : RowChange D}
    (hchildren : ∀ k, cfg.mirroredTable p.children k =
      cfg.mirroredTable cfg.getChildToParentRelIDMap k)
    (hm : mirroredRow cfg (pos, change) = true) :
    (p.after cfg (.xLogData pos (.row change))).rows ≠ [] := by
  unfold mirroredRow at hm
  rw [← hchildren] at hm
  obtain ⟨table, htable⟩ := Option.isSome_iff_exists.mp hm
  intro hnil
  have htag : rowTag cfg p.children p.commitLock pos change = none :=
    Option.toList_eq_nil_iff.mp (append_eq_nil_iff.mp hnil).2
  unfold rowTag at htag
  rw [show cfg.mirroredTable p.children change.relationID = some table from htable] at htag
  cases htag

/-- A row change of the transaction that is being sent. -/
theorem Session.row {change : RowChange D} {rest : List (LSN × RowChange D)}
    (h : Session cfg w batch p) (hsending : w.sending = some ((pos, change) :: rest))
    (hpos : within w.todo pos = true) :
    Session cfg { w with sending := some rest } batch
      (p.after cfg (.xLogData pos (.row change))) := by
  have hle := within_le h.ordered hpos
  have hgrow : p.rows ≠ [] → (p.after cfg (.xLogData pos (.row change))).rows ≠ [] := by
    intro hne hnil
    exact hne (append_eq_nil_iff.mp hnil).1
  refine ⟨h.ordered, fun t' ht' => max_le (h.position t' ht') (hle t' ht'), h.checkpoint,
    ?_, h.children, fun rest' hrest => ?_, fun t ht hm => hgrow (h.batched t ht hm)⟩
  · have hlock := h.lock
    rw [hsending] at hlock
    exact hlock
  · cases hrest
    obtain ⟨t, ts, sent, htodo, hrows, hsent⟩ := h.sent _ hsending
    refine ⟨t, ts, sent ++ [(pos, change)], htodo, by simp [hrows], fun hany => ?_⟩
    rw [any_append, Bool.or_eq_true] at hany
    rcases hany with hany | hany
    · exact hgrow (hsent hany)
    · rw [any_cons, any_nil, Bool.or_false] at hany
      exact rows_after_row h.children hany

theorem Session.commits {t : Txn D} (h : Session cfg w batch p) (endLSN : LSN)
    (htodo : w.todo = t :: ts) (hsending : w.sending = some []) (hpos : within ts pos = true) :
    Session cfg ⟨ts, none⟩ (batch ++ [t])
      (p.after cfg (.xLogData pos (.commit t.commitLSN endLSN))) := by
  have hord := h.ordered
  rw [htodo] at hord
  have hsub : ∀ t' ∈ ts, t' ∈ w.todo := fun t' ht' => htodo ▸ mem_cons_of_mem t ht'
  have hle := within_le (List.Pairwise.of_cons hord) hpos
  refine ⟨List.Pairwise.of_cons hord,
    fun t' ht' => max_le (h.position t' (hsub t' ht')) (hle t' ht'),
    fun t' ht' => max_le (h.checkpoint t' (hsub t' ht'))
      (le_of_lt (rel_of_pairwise_cons hord ht')),
    rfl, h.children, fun rest hrest => (by cases hrest), fun t' ht' hm => ?_⟩
  rcases mem_append.mp ht' with ht' | ht'
  · exact h.batched t' ht' hm
  · -- all of its rows were sent
    rw [mem_singleton] at ht'
    subst ht'
    obtain ⟨t₀, ts₀, sent, htodo₀, hrows, hsent⟩ := h.sent _ hsending
    rw [htodo] at htodo₀
    cases htodo₀
    rw [append_nil] at hrows
    exact hsent (hrows ▸ hm)

/-- **One message.**  Whatever the session sends, the pull stays in step with
it, and no transaction is dropped between the session and the batch. -/
theorem Session.after {move : ServerMove D} {recv : Received D} (h : Session cfg w batch p)
    (hemit : w.emit move = some (recv, w', done)) :
    Session cfg w' (batch ++ done) (p.after cfg recv) ∧ w.todo = done ++ w'.todo := by
  cases emit_cases hemit with
  | timeout | broken =>
    rw [append_nil]
    exact ⟨h, rfl⟩
  | keepalive _ _ hpos | unhandled hpos =>
    exact ⟨h.report hpos rfl (le_max_left _ _) rfl rfl h.children, rfl⟩
  | relation msg hpos =>
    exact ⟨h.report hpos rfl (le_max_left _ _) rfl rfl
      (mirroredTable_checkIfUnknown h.children msg.relationID), rfl⟩
  | message transactional pfx content hpos =>
    refine ⟨h.report hpos rfl ?_ rfl rfl h.children, rfl⟩
    cases transactional with
    | true => exact le_max_left _ _
    | false => exact le_rfl
  | begin htodo hsending hpos =>
    rw [append_nil]
    exact ⟨h.begins htodo hpos, rfl⟩
  | row hsending hpos =>
    rw [append_nil]
    exact ⟨h.row hsending hpos, rfl⟩
  | commit endLSN htodo hsending hpos => exact ⟨h.commits endLSN htodo hsending hpos, htodo⟩

end Session

/-! ### Whole runs -/

section Run

variable {D V H : Type} [DecidableEq H] {cfg : CDCConfig D V H} {req : PullRequest}
  {txns : List (Txn D)}

/-- Every transaction that still has to be delivered is in the session or in the
batch, and the persisted offset has not passed what the session will send. -/
structure Covers (cfg : CDCConfig D V H) (txns : List (Txn D)) (x : World D V H)
    (todo batch : List (Txn D)) : Prop where
  pending : ∀ t ∈ txns, t.mirrored cfg = true → t.commitLSN ∉ x.delivered →
    t ∈ todo ∨ t ∈ batch
  bound : ∀ t ∈ todo, x.persisted ≤ t.commitLSN

/-- The invariant of the phases. -/
def PhaseInv (cfg : CDCConfig D V H) (txns : List (Txn D)) (x : World D V H) : Prop :=
  match x.phase with
  | .down => True
  | .pulling w batch s =>
    Session cfg w batch s.progress ∧ s.Counted ∧ (∀ o ∈ s.saved, o ≤ x.persisted) ∧
      Covers cfg txns x w.todo batch
  | .returned w batch s =>
    Session cfg w batch s.progress ∧ s.src.commitLock = none ∧ Covers cfg txns x w.todo batch
  | .idle w _ _ =>
    w.todo.Pairwise (fun a b => a.commitLSN < b.commitLSN) ∧ w.sending = none ∧
      Covers cfg txns x w.todo []

structure Inv (cfg : CDCConfig D V H) (txns : List (Txn D)) (x : World D V H) : Prop where
  safe : x.Safe cfg txns
  phase : PhaseInv cfg txns x

variable {o o' c persisted : LSN}

theorem startLSN_mono (h : o ≤ o') : startLSN o ≤ startLSN o' := by
  unfold startLSN
  split
  · rw [if_pos (by exact lt_of_lt_of_le ‹_› h)]
    exact Nat.succ_le_succ h
  · exact Nat.zero_le _

theorem startLSN_le (h : o ≤ c) (hne : o ≠ c) : startLSN o ≤ c := by
  unfold startLSN
  split
  · exact Nat.lt_of_le_of_ne h hne
  · exact Nat.zero_le c

theorem startLSN_max (h : startLSN o ≤ c) (h' : startLSN o' ≤ c) :
    startLSN (max o o') ≤ c := by
  rcases le_total o o' with hle | hle
  · rwa [max_eq_right hle]
  · rwa [max_eq_left hle]

theorem le_of_startLSN_le (h : startLSN o ≤ c) : o ≤ c := by
  unfold startLSN at h
  split at h
  case isTrue => exact le_trans (Nat.le_succ o) h
  case isFalse hzero =>
    have : o = 0 := Nat.eq_zero_of_not_pos hzero
    rw [this]
    exact Nat.zero_le c

variable {saved : List LSN}

theorem persistAll_le (h : persisted ≤ c) (hs : ∀ o ∈ saved, o ≤ c) :
    persistAll persisted saved ≤ c := by
  induction saved generalizing persisted with
  | nil => exact h
  | cons o saved ih =>
    exact ih (max_le h (hs o mem_cons_self)) fun o' ho' => hs o' (mem_cons_of_mem o ho')

theorem persistAll_startLSN (h : startLSN persisted ≤ c) (hs : ∀ o ∈ saved, startLSN o ≤ c) :
    startLSN (persistAll persisted saved) ≤ c := by
  induction saved generalizing persisted with
  | nil => exact h
  | cons o saved ih =>
    exact ih (startLSN_max h (hs o mem_cons_self))
      fun o' ho' => hs o' (mem_cons_of_mem o ho')

theorem le_persistAll_of_le (h : o ≤ persisted) :
    o ≤ persistAll persisted saved := by
  induction saved generalizing persisted with
  | nil => exact h
  | cons o' saved ih => exact ih (le_trans h (le_max_left _ _))

theorem le_persistAll (h : o ∈ saved) :
    o ≤ persistAll persisted saved := by
  induction saved generalizing persisted with
  | nil => cases h
  | cons o' saved ih =>
    rcases mem_cons.mp h with rfl | h
    · show o ≤ persistAll (max persisted o) saved
      exact le_persistAll_of_le (le_max_right _ _)
    · exact ih h

variable {w w' : Walsender D} {batch done : List (Txn D)} {s : PullState V H}

omit [DecidableEq H] in
/-- An offset a turn may persist: nothing has been pulled, and the offset has not
passed the next commit record. -/
theorem offers_le {move : ServerMove D} {recv : Received D} (h : Session cfg w batch s.progress)
    (hemit : w.emit move = some (recv, w', done)) (ho : o ∈ s.offers recv) :
    s.totalRecords = 0 ∧ ∀ t ∈ w.todo, o ≤ t.commitLSN := by
  unfold PullState.offers at ho
  rcases mem_append.mp ho with ho | ho
  · split at ho
    case isFalse => cases ho
    case isTrue hguard =>
      rw [mem_singleton] at ho
      subst ho
      exact ⟨hguard.2.1, h.position⟩
  · split at ho
    case h_2 => cases ho
    case h_1 pos transactional lsn pfx content =>
      split at ho
      case isFalse => cases ho
      case isTrue hguard =>
        rw [mem_singleton] at ho
        subst ho
        -- a logical message reports a position within the session's bound
        cases emit_cases hemit with
        | message _ _ _ hpos =>
          have hle := within_le h.ordered hpos
          exact ⟨hguard.1, fun t ht => max_le (h.position t ht) (hle t ht)⟩

omit [DecidableEq H] in
/-- What a turn persists keeps the persisted offset below every transaction that
still has to be delivered. -/
theorem turn_persists {x : World D V H} {move : ServerMove D} {recv : Received D}
    (hsafe : x.Safe cfg txns) (hsess : Session cfg w batch s.progress) (hcount : s.Counted)
    (hold : ∀ o ∈ s.saved, o ≤ x.persisted) (hcov : Covers cfg txns x w.todo batch)
    (hclear : ∀ o ∈ s.offers recv, ∀ t ∈ txns, t.mirrored cfg = true →
      t.commitLSN ∉ x.delivered → o ≠ t.commitLSN) (hemit : w.emit move = some (recv, w', done))
    (hnew : ∀ o ∈ saved, o ∈ s.saved ∨ o ∈ s.offers recv) :
    (∀ t ∈ txns, t.mirrored cfg = true → t.commitLSN ∉ x.delivered →
      startLSN (persistAll x.persisted saved) ≤ t.commitLSN) ∧
    ∀ t ∈ w.todo, persistAll x.persisted saved ≤ t.commitLSN := by
  constructor
  · intro t ht hm hdel
    refine persistAll_startLSN (hsafe t ht hm hdel) fun o ho => ?_
    rcases hnew o ho with ho | ho
    · exact le_trans (startLSN_mono (hold o ho)) (hsafe t ht hm hdel)
    · obtain ⟨hzero, hle⟩ := offers_le hsess hemit ho
      -- an empty batch holds no mirrored transaction, so `t` is still in the session
      have hrows : s.progress.rows = [] := by
        have hlen : s.totalRecords = s.progress.rows.length := hcount
        rw [hzero] at hlen
        exact length_eq_zero_iff.mp hlen.symm
      have hbatch : t ∉ batch := fun hb => hsess.batched t hb hm hrows
      rcases hcov.pending t ht hm hdel with htodo | hb
      · exact startLSN_le (hle t htodo) (hclear o ho t ht hm hdel)
      · exact absurd hb hbatch
  · intro t ht
    refine persistAll_le (hcov.bound t ht) fun o ho => ?_
    rcases hnew o ho with ho | ho
    · exact le_trans (hold o ho) (hcov.bound t ht)
    · exact (offers_le hsess hemit ho).2 t ht

omit [DecidableEq H] in
/-- A pull that has just begun. -/
theorem session_init (rels : ℕ → Option RelationMessage)
    (hord : w.todo.Pairwise fun a b => a.commitLSN < b.commitLSN)
    (hbound : ∀ t ∈ w.todo, persisted ≤ t.commitLSN) (hsending : w.sending = none) :
    Session cfg w [] (pullFrom cfg req persisted rels : PullState V H).progress :=
  ⟨hord, hbound, fun _ _ => Nat.zero_le _, by rw [hsending]; rfl, fun _ => rfl,
    fun rest hrest => (by rw [hsending] at hrest; cases hrest), fun t ht => (by cases ht)⟩

omit [DecidableEq H] in
/-- A new connection: the session resends everything from the start position on. -/
theorem start_inv (hsorted : txns.Pairwise fun a b => a.commitLSN < b.commitLSN)
    {x : World D V H} (hsafe : x.Safe cfg txns) :
    Inv cfg txns { x with
      phase := .pulling ⟨txns.filter fun t => decide (startLSN x.persisted ≤ t.commitLSN), none⟩ []
        (pullFrom cfg req x.persisted fun _ => none) } := by
  have hbound : ∀ t ∈ txns.filter (fun t => decide (startLSN x.persisted ≤ t.commitLSN)),
      x.persisted ≤ t.commitLSN := fun t ht =>
    le_of_startLSN_le (of_decide_eq_true (mem_filter.mp ht).2)
  refine ⟨hsafe, session_init _ (hsorted.sublist filter_sublist) hbound rfl, rfl,
    fun o ho => (by cases ho), ⟨fun t ht hm hdel => Or.inl ?_, hbound⟩⟩
  exact mem_filter.mpr ⟨ht, decide_eq_true (hsafe t ht hm hdel)⟩

omit [DecidableEq H] in
/-- The end of a batch: its transactions are delivered, and the offset that is
stored has not passed what is left in the session. -/
theorem finishBatch_inv {x : World D V H} (hsafe : x.Safe cfg txns)
    (hsess : Session cfg w batch s.progress) (hlock : s.src.commitLock = none)
    (hcov : Covers cfg txns x w.todo batch)
    (hclear : ∀ t ∈ txns, t.mirrored cfg = true →
      t.commitLSN ∉ x.delivered ++ batch.map Txn.commitLSN →
      s.records.lastCheckpointID ≠ t.commitLSN) :
    Inv cfg txns
      { persisted := max x.persisted s.records.lastCheckpointID
        delivered := x.delivered ++ batch.map Txn.commitLSN
        phase := .idle w s.records.lastCheckpointID s.src.relationMessageMapping } := by
  have hnotIn : ∀ {t : Txn D}, t.commitLSN ∉ x.delivered ++ batch.map Txn.commitLSN →
      t.commitLSN ∉ x.delivered ∧ t ∉ batch := by
    intro t ht
    rw [mem_append, not_or] at ht
    exact ⟨ht.1, fun hb => ht.2 (mem_map_of_mem hb)⟩
  refine ⟨fun t ht hm hdel' => ?_, hsess.ordered, ?_, ⟨fun t ht hm hdel => ?_, fun t ht => ?_⟩⟩
  · obtain ⟨hdel, hb⟩ := hnotIn hdel'
    have htodo : t ∈ w.todo := (hcov.pending t ht hm hdel).resolve_right hb
    exact startLSN_max (hsafe t ht hm hdel)
      (startLSN_le (hsess.checkpoint t htodo) (hclear t ht hm hdel'))
  · have hopen := hsess.lock
    rw [show s.progress.commitLock = none from hlock] at hopen
    exact Option.not_isSome_iff_eq_none.mp fun hsome => by rw [hsome] at hopen; cases hopen
  · obtain ⟨hdel, hb⟩ := hnotIn hdel
    exact Or.inl ((hcov.pending t ht hm hdel).resolve_right hb)
  · exact max_le (hcov.bound t ht) (hsess.checkpoint t ht)

/-- One iteration of the pull loop, whichever way it leaves the pull. -/
theorem turn_inv {x x' : World D V H} {saveOk standbyOk deadlinePassed : Bool} {move : ServerMove D}
    (hphase : x.phase = .pulling w batch s) (hinv : Inv cfg txns x)
    (hclear : x.Clear cfg txns (.turn saveOk standbyOk deadlinePassed move))
    (hstep : step cfg req txns x (.turn saveOk standbyOk deadlinePassed move) = some x') :
    Inv cfg txns x' := by
  obtain ⟨persisted, delivered, phase⟩ := x
  subst hphase
  obtain ⟨hsafe, hsess, hcount, hold, hcov⟩ := hinv
  simp only [step] at hstep
  split at hstep
  case h_1 => cases hstep
  case h_2 recv w' done hemit =>
    have hclear' : ∀ o ∈ s.offers recv, ∀ t ∈ txns, t.mirrored cfg = true →
        t.commitLSN ∉ delivered → o ≠ t.commitLSN := by
      intro o ho
      refine hclear o ?_
      simp only [World.offers, hemit]
      exact ho
    have hpersists {saved : List LSN} (hnew : ∀ o ∈ saved, o ∈ s.saved ∨ o ∈ s.offers recv) :=
      turn_persists hsafe hsess hcount hold hcov hclear' hemit hnew
    split at hstep <;> cases hstep
    case h_1 s' hturn =>
      have hts := pullTurn_next hturn
      obtain ⟨hsafe', hbound'⟩ := hpersists hts.saved
      obtain ⟨hsess', htodo⟩ := hsess.after hemit
      refine ⟨hsafe', hts.progress ▸ hsess', hts.counted hcount,
        fun o ho => le_persistAll ho, ⟨fun t ht hm hdel => ?_, fun t ht => ?_⟩⟩
      · have hin := hcov.pending t ht hm hdel
        rw [htodo, mem_append] at hin
        rw [mem_append]
        tauto
      · exact hbound' t (htodo ▸ mem_append_right done ht)
    case h_2 s' hturn =>
      -- nothing was received, so the session and the batch are as before the turn
      obtain ⟨hprogress, -, hlock, -, hnew⟩ := pullTurn_returned hturn
      obtain ⟨hsafe', hbound'⟩ := hpersists hnew
      exact ⟨hsafe', hprogress ▸ hsess, hlock, ⟨hcov.pending, hbound'⟩⟩
    case h_3 s' e hturn => exact ⟨(hpersists (pullTurn_failed hturn)).1, trivial⟩

/-- **One action keeps the invariant**, if what it may persist is clear. -/
theorem step_inv (hsorted : txns.Pairwise fun a b => a.commitLSN < b.commitLSN)
    (x : World D V H) (a : Action D) (x' : World D V H) (hinv : Inv cfg txns x)
    (hclear : x.Clear cfg txns a) (hstep : step cfg req txns x a = some x') :
    Inv cfg txns x' := by
  obtain ⟨persisted, delivered, phase⟩ := x
  obtain ⟨hsafe, hphase⟩ := hinv
  cases a with
  | crash =>
    cases hstep
    exact ⟨hsafe, trivial⟩
  | start =>
    cases phase with
    | pulling _ _ _ | returned _ _ _ | idle _ _ _ => cases hstep
    | down =>
      cases hstep
      exact start_inv hsorted hsafe
  | nextPull =>
    cases phase with
    | down | pulling _ _ _ | returned _ _ _ => cases hstep
    | idle w offset rels =>
      simp only [step] at hstep
      split at hstep <;> cases hstep
      · obtain ⟨hord, hsending, hcov⟩ := hphase
        exact ⟨hsafe, session_init rels hord hcov.bound hsending, rfl, fun o ho => (by cases ho),
          ⟨hcov.pending, hcov.bound⟩⟩
      · exact ⟨hsafe, trivial⟩
  | finishBatch =>
    cases phase with
    | down | pulling _ _ _ | idle _ _ _ => cases hstep
    | returned w batch s =>
      cases hstep
      obtain ⟨hsess, hlock, hcov⟩ := hphase
      exact finishBatch_inv hsafe hsess hlock hcov (hclear _ (mem_singleton_self _))
  | turn saveOk standbyOk deadlinePassed move =>
    cases phase with
    | down | returned _ _ _ | idle _ _ _ => cases hstep
    | pulling w batch s => exact turn_inv rfl ⟨hsafe, hphase⟩ hclear hstep

/-- **A restart skips nothing** in a run that persists no offset equal to the
commit position of a transaction still to be handed over: in every state it
reaches, crashed or not, the start position requested for the persisted offset
is at or before every undelivered transaction with a mirrored row change. -/
theorem restart_skips_nothing (cfg : CDCConfig D V H) (req : PullRequest) (txns : List (Txn D))
    (hsorted : txns.Pairwise fun a b => a.commitLSN < b.commitLSN)
    (actions : List (Action D)) (x : World D V H)
    (hclear : Along (step cfg req txns) (fun x a => x.Clear cfg txns a) {} actions)
    (hrun : runs (step cfg req txns) {} actions = some x) : x.Safe cfg txns := by
  have hinit : Inv cfg txns ({} : World D V H) := ⟨fun t _ _ _ => Nat.zero_le _, trivial⟩
  exact (runs_invariant (Inv cfg txns) (step_inv hsorted) hinit hclear hrun).safe

end Run

/-! ### Two runs of the mirror of `public.orders` -/

/-- One transaction that inserts a row; its commit record is at 100. -/
def ordersTxns : List (Txn String) := [⟨100, [(90, .insert 1 [.text "1"])], 7⟩]

/-- The transaction is delivered; the position saved before it is 95. -/
def ordersDelivered : List (Action String) :=
  [.start,
   .turn true true false (.keepalive 95 true false),
   .turn true true false (.relation 96 ⟨1, [{ name := "id" }]⟩),
   .turn true true false (.begin 96),
   .turn true true false .row,
   .turn true true false (.commit 120 121),
   .turn true true true .timeout,
   .finishBatch,
   .nextPull]

theorem ordersDelivered_skips_nothing :
    ∃ x, runs (step ordersMirror { maxBatchSize := 5 } ordersTxns) {} ordersDelivered = some x ∧
      x.persisted = 100 ∧ x.Safe ordersMirror ordersTxns := by
  have hrun : ((runs (step ordersMirror { maxBatchSize := 5 } ordersTxns) {}
      ordersDelivered).map World.persisted) = some 100 := by decide +kernel
  obtain ⟨x, hx, hpersisted⟩ := Option.map_eq_some_iff.mp hrun
  have hclear : alongCheck (step ordersMirror { maxBatchSize := 5 } ordersTxns)
      (fun x a => x.Clear ordersMirror ordersTxns a) {} ordersDelivered = true := by
    decide +kernel
  exact ⟨x, hx, hpersisted, restart_skips_nothing ordersMirror { maxBatchSize := 5 } ordersTxns
    (pairwise_singleton _ _) ordersDelivered x (along_of_check hclear) hx⟩

/-- The server reports position 100, where the commit record starts, and asks
for a reply; the next turn persists it. -/
def ordersSkipped : List (Action String) :=
  [.start,
   .turn true true false (.keepalive 100 true false),
   .turn true true false .timeout]

/-- **The transaction is lost**: 100 is persisted before anything of it was
received, and the session that starts at 101 after a crash has nothing to
send. -/
theorem persisted_skips_transaction :
    (∃ x, runs (step ordersMirror { maxBatchSize := 5 } ordersTxns) {} ordersSkipped = some x ∧
      x.persisted = 100 ∧ ¬ x.Safe ordersMirror ordersTxns) ∧
    ∃ x w s, runs (step ordersMirror { maxBatchSize := 5 } ordersTxns) {}
        (ordersSkipped ++ [.crash, .start]) = some x ∧
      x.phase = .pulling w [] s ∧ w.todo = [] ∧ x.delivered = [] := by
  constructor
  · have hrun : ((runs (step ordersMirror { maxBatchSize := 5 } ordersTxns) {}
        ordersSkipped).map fun x => (x.persisted, x.delivered)) = some (100, []) := by
      decide +kernel
    obtain ⟨x, hx, hfields⟩ := Option.map_eq_some_iff.mp hrun
    obtain ⟨hpersisted, hdelivered⟩ := Prod.mk.inj hfields
    refine ⟨x, hx, hpersisted, fun hsafe => ?_⟩
    have hstart := hsafe ⟨100, [(90, .insert 1 [.text "1"])], 7⟩ (mem_singleton_self _)
      (by decide) (by rw [hdelivered]; exact not_mem_nil)
    rw [hpersisted] at hstart
    exact absurd hstart (by decide)
  · exact ⟨_, _, _, rfl, rfl, rfl, rfl⟩

end Restart
