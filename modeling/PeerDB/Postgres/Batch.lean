/-
A batch of the Postgres source is made of whole transactions.

`Feed` reads the received messages by themselves, with no batch sizes, timeouts
or deadlines: it groups the row changes of mirrored tables by transaction and
collects the commit positions.  The pull loop agrees with it at every turn
(`pullTurn_matches`), so whatever made the loop return, the batch consists of
the transactions the feed has closed.
-/
import PeerDB.Postgres.Pull

open Loop

/-- The messages received so far, grouped by transaction. -/
structure Feed where
  /-- the mirrored row changes of the transactions whose Commit was received -/
  closed : List (List RowTag)
  /-- the open transaction and its mirrored row changes so far -/
  current : Option (BeginMessage × List RowTag)
  /-- the partition map, which relation messages extend -/
  children : ℕ → Option ℕ
  /-- CommitLSNs and LSNs of non-transactional messages -/
  positions : List LSN

namespace Feed

variable {D V H : Type} (cfg : CDCConfig D V H)

def start : Feed := ⟨[], none, cfg.getChildToParentRelIDMap, []⟩

def logical (f : Feed) (walStart : LSN) : LogicalMsg D → Feed
  | .begin msg => { f with current := some (msg, []) }
  | .row change =>
    match f.current with
    | some (msg, rows) =>
      let rows := rows ++ (rowTag cfg f.children (some msg) walStart change).toList
      { f with current := some (msg, rows) }
    | none => f
  | .commit commitLSN _ =>
    { f with
      closed := f.closed ++ [(f.current.map Prod.snd).getD []]
      current := none
      positions := f.positions ++ [commitLSN] }
  | .relation msg =>
    { f with children := (checkIfUnknownTableInherits cfg f.children msg.relationID).2.2 }
  | .message transactional lsn _ _ =>
    if transactional then f else { f with positions := f.positions ++ [lsn] }
  | .unhandled => f
  | .unparsable => f

def after (f : Feed) : Received D → Feed
  | .xLogData walStart msg => f.logical cfg walStart msg
  | _ => f

end Feed

def feed {D V H : Type} (cfg : CDCConfig D V H) (msgs : List (Received D)) : Feed :=
  msgs.foldl (Feed.after cfg) (Feed.start cfg)

/-- The bracketing of the protocol: whether a transaction is open after a
message, and `none` for a row change or Commit outside one or a Begin inside
one. -/
def bracket {D : Type} (inTx : Bool) : Received D → Option Bool
  | .xLogData _ (.begin _) => if inTx then none else some true
  | .xLogData _ (.row _) => if inTx then some true else none
  | .xLogData _ (.commit _ _) => if inTx then some false else none
  | _ => some inTx

/-- Row changes occur only between a Begin and its Commit. -/
def WellBracketed {D : Type} (msgs : List (Received D)) : Prop :=
  (runs bracket false msgs).isSome

section Batch

variable {D V H : Type} {cfg : CDCConfig D V H}

/-- `cp` is the maximum of `positions`, and `0` while there are none. -/
structure IsCheckpoint (positions : List ℕ) (cp : ℕ) : Prop where
  bound : ∀ q ∈ positions, q ≤ cp
  attained : cp ∈ positions ∨ (positions = [] ∧ cp = 0)

theorem IsCheckpoint.snoc {positions : List ℕ} {cp : ℕ} (h : IsCheckpoint positions cp)
    (pos : ℕ) : IsCheckpoint (positions ++ [pos]) (max cp pos) := by
  constructor
  · intro q hq
    rw [List.mem_append, List.mem_singleton] at hq
    rcases hq with hq | rfl
    · exact le_trans (h.bound q hq) (le_max_left _ _)
    · exact le_max_right _ _
  · left
    rw [List.mem_append, List.mem_singleton]
    rcases le_total cp pos with hle | hle
    · exact Or.inr (max_eq_right hle)
    · rw [max_eq_left hle]
      rcases h.attained with hat | ⟨-, hcp⟩
      · exact Or.inl hat
      · right
        omega

/-- The feed and the progress of a pull say the same. -/
structure Feed.Agrees (f : Feed) (p : Progress) : Prop where
  commitLock : p.commitLock = f.current.map Prod.fst
  children : p.children = f.children
  rows : p.rows = f.closed.flatten ++ (f.current.map Prod.snd).getD []
  checkpoint : IsCheckpoint f.positions p.checkpoint
  committed : f.closed ≠ [] → f.positions ≠ []

/-- One message keeps the feed and the progress in agreement. -/
theorem Feed.Agrees.after {f : Feed} {p : Progress} {r : Received D} {inTx' : Bool}
    (h : f.Agrees p) (hr : bracket f.current.isSome r = some inTx') :
    (f.after cfg r).Agrees (p.after cfg r) ∧ (f.after cfg r).current.isSome = inTx' := by
  obtain ⟨hlock, hchildren, hrows, hcp, hcom⟩ := h
  cases r with
  | preempted | timeout | failed | errorResponse | unparsable | other | keepalive =>
    exact ⟨⟨hlock, hchildren, hrows, hcp, hcom⟩, Option.some.inj hr⟩
  | xLogData w msg =>
    cases msg with
    | begin m =>
      -- a Begin is received outside a transaction, so no rows are pending
      cases hcur : f.current with
      | some c => simp [bracket, hcur] at hr
      | none =>
        rw [hcur] at hrows hr
        cases hr
        exact ⟨⟨rfl, hchildren, hrows, hcp, hcom⟩, rfl⟩
    | row change =>
      cases hcur : f.current with
      | none => simp [bracket, hcur] at hr
      | some c =>
        obtain ⟨m, rows⟩ := c
        rw [hcur] at hlock hrows hr
        cases hr
        simp only [Feed.after, Feed.logical, Progress.after, Progress.logical, hcur]
        refine ⟨⟨hlock, hchildren, ?_, hcp, hcom⟩, rfl⟩
        simp only [Option.map_some, Option.getD_some] at hrows hlock ⊢
        rw [hrows, hchildren, hlock, List.append_assoc]
    | commit c e =>
      cases hcur : f.current with
      | none => simp [bracket, hcur] at hr
      | some b =>
        obtain ⟨m, rows⟩ := b
        rw [hcur] at hrows hr
        cases hr
        simp only [Feed.after, Feed.logical, Progress.after, Progress.logical, hcur]
        refine ⟨⟨rfl, hchildren, ?_, hcp.snoc c, fun _ => by simp⟩, rfl⟩
        simp only [Option.map_some, Option.getD_some] at hrows ⊢
        rw [hrows]
        simp
    | relation m =>
      cases hr
      refine ⟨⟨hlock, ?_, hrows, hcp, hcom⟩, rfl⟩
      simp only [Feed.after, Feed.logical, Progress.after, Progress.logical, hchildren]
    | message transactional lsn pfx content =>
      cases hr
      cases transactional with
      | true => exact ⟨⟨hlock, hchildren, hrows, hcp, hcom⟩, rfl⟩
      | false =>
        refine ⟨⟨hlock, hchildren, hrows, hcp.snoc lsn, fun _ => ?_⟩, rfl⟩
        simp [Feed.after, Feed.logical]
    | unhandled | unparsable => exact ⟨⟨hlock, hchildren, hrows, hcp, hcom⟩, Option.some.inj hr⟩

variable [DecidableEq H]

/-- The state of the loop and the messages it has received. -/
structure PullState.Matches (cfg : CDCConfig D V H) (s : PullState V H)
    (msgs : List (Received D)) : Prop where
  agrees : (feed cfg msgs).Agrees s.progress
  counted : s.Counted
  waiting : s.waitingForCommit = true → s.totalRecords ≠ 0

omit [DecidableEq H] in
theorem PullState.matches_init (req : PullRequest) (rels : ℕ → Option RelationMessage) :
    (PullState.init req (cfg.newSource rels) : PullState V H).Matches cfg [] := by
  refine ⟨⟨rfl, rfl, rfl, ⟨by simp [feed, Feed.start], Or.inr ⟨rfl, rfl⟩⟩, fun h => absurd rfl h⟩,
    rfl, fun h => by cases h⟩

omit [DecidableEq H] in
theorem feed_snoc (msgs : List (Received D)) (r : Received D) :
    feed cfg (msgs ++ [r]) = (feed cfg msgs).after cfg r := by
  unfold feed
  rw [List.foldl_append]
  rfl

/-- One turn keeps the loop in step with the feed. -/
theorem pullTurn_matches {req : PullRequest} {s s' : PullState V H} {t : Turn D}
    {msgs : List (Received D)} {inTx' : Bool} (h : s.Matches cfg msgs)
    (hr : bracket (feed cfg msgs).current.isSome t.recv = some inTx')
    (hturn : pullTurn cfg req s t = .next s') :
    s'.Matches cfg (msgs ++ [t.recv]) ∧
      (feed cfg (msgs ++ [t.recv])).current.isSome = inTx' := by
  have hstep := pullTurn_next hturn
  obtain ⟨hagrees, hopen⟩ := Feed.Agrees.after h.agrees hr
  rw [← feed_snoc, ← hstep.progress] at hagrees
  rw [← feed_snoc] at hopen
  refine ⟨⟨hagrees, hstep.counted h.counted, fun hw => ?_⟩, hopen⟩
  -- rows are only ever added, so a count that was positive stays so
  have hpos : s.totalRecords ≠ 0 := by
    rcases hstep.waiting hw with hw | hne
    · exact h.waiting hw
    · exact hne
  have hmono : s.progress.rows.length ≤ s'.progress.rows.length := by
    rw [hstep.progress]
    exact Progress.rows_length_after cfg s.progress t.recv
  have hcount : s.totalRecords = s.progress.rows.length := h.counted
  have hcount' : s'.totalRecords = s'.progress.rows.length := hstep.counted h.counted
  omega

/-- **The loop follows the feed** on every well-bracketed run that goes round. -/
theorem pullCdcRecords_matches {req : PullRequest} {rels : ℕ → Option RelationMessage}
    {turns : List (Turn D)} {s : PullState V H} {inTx : Bool}
    (hb : runs bracket false (turns.map Turn.recv) = some inTx)
    (h : pullCdcRecords cfg req (cfg.newSource rels) turns = .next s) :
    s.Matches cfg (turns.map Turn.recv) := by
  refine (iterate_history (fun pre s => ∀ b, runs bracket false (pre.map Turn.recv) = some b →
    s.Matches cfg (pre.map Turn.recv) ∧ (feed cfg (pre.map Turn.recv)).current.isSome = b)
    ?_ ?_ h inTx hb).1
  · intro b hb
    cases hb
    exact ⟨PullState.matches_init req rels, rfl⟩
  · intro pre t s s' _ ih hturn b hb
    rw [List.map_append, runs_append] at hb
    obtain ⟨b₀, hb₀, hlast⟩ := Option.bind_eq_some_iff.mp hb
    obtain ⟨hmatch, hopen⟩ := ih b₀ hb₀
    simp only [List.map_cons, List.map_nil, runs_cons, runs_nil, Option.bind_fun_some] at hlast
    rw [List.map_append]
    exact pullTurn_matches hmatch (hopen ▸ hlast) hturn

/-- What a returned batch is, given the messages `msgs` received for it. -/
structure WholeTransactions (cfg : CDCConfig D V H) (msgs : List (Received D))
    (s : PullState V H) : Prop where
  /-- the row records are those of the received transactions, in order and complete -/
  rows : s.records.rows.map Record.tag = (feed cfg msgs).closed.flatten
  /-- no received transaction is open -/
  ended : s.src.commitLock = none ∧ (feed cfg msgs).current = none
  nonempty : s.records.rows ≠ []
  /-- the stream checkpoint is the largest position received -/
  checkpoint : s.records.lastCheckpointID ∈ (feed cfg msgs).positions ∧
    ∀ q ∈ (feed cfg msgs).positions, q ≤ s.records.lastCheckpointID

/-- **Batches are whole transactions.**  However the turns mix messages, receive
timeouts and deadlines, a pull that returns has received the messages of the
turns before the last one it made, and its batch is exactly the transactions
among them.  Records are compared by their tags: kind, position, transaction and tables,
not the values of their columns. -/
theorem pullCdcRecords_wholeTransactions (cfg : CDCConfig D V H) (req : PullRequest)
    (rels : ℕ → Option RelationMessage) (turns : List (Turn D)) (s : PullState V H)
    (hmax : 1 ≤ req.maxBatchSize) (hwb : WellBracketed (turns.map Turn.recv))
    (h : pullCdcRecords cfg req (cfg.newSource rels) turns = .leave (.returned s)) :
    ∃ pre t post s₀, turns = pre ++ t :: post ∧
      pullCdcRecords cfg req (cfg.newSource rels) pre = .next s₀ ∧
      pullTurn cfg req s₀ t = .leave (.returned s) ∧
      WholeTransactions cfg (pre.map Turn.recv) s := by
  obtain ⟨pre, t, post, s₀, hsplit, hpre, hleave⟩ := leave_of_iterate h
  refine ⟨pre, t, post, s₀, hsplit, hpre, hleave, ?_⟩
  -- the messages before the exit are well bracketed too
  obtain ⟨inTx, hb⟩ : ∃ b, runs bracket false (pre.map Turn.recv) = some b := by
    unfold WellBracketed at hwb
    rw [hsplit, List.map_append, runs_append, Option.isSome_bind] at hwb
    cases hb : runs bracket false (pre.map Turn.recv) with
    | none => simp [hb] at hwb
    | some b => exact ⟨b, rfl⟩
  have hmatch : s₀.Matches cfg (pre.map Turn.recv) := pullCdcRecords_matches hb hpre
  obtain ⟨hprogress, htotal, hlock, hexit, -⟩ := pullTurn_returned hleave
  have hagrees := hmatch.agrees
  rw [← hprogress] at hagrees
  -- outside a transaction the feed has no open transaction either
  have hcur : (feed cfg (pre.map Turn.recv)).current = none := by
    have hmap := hagrees.commitLock
    rw [show s.progress.commitLock = none from hlock] at hmap
    exact Option.map_eq_none_iff.mp hmap.symm
  have hrows : s.records.rows.map Record.tag = (feed cfg (pre.map Turn.recv)).closed.flatten := by
    have hrows := hagrees.rows
    rw [hcur, Option.map_none, Option.getD_none, List.append_nil] at hrows
    exact hrows
  -- every exit needs a row: the batch size is positive, and waiting starts after one
  have hne : s.records.rows ≠ [] := by
    have hpos : s₀.totalRecords ≠ 0 := by
      rcases hexit with hfull | hwait | hne
      · omega
      · exact hmatch.waiting hwait
      · exact hne
    have hcount : s₀.totalRecords = s₀.progress.rows.length := hmatch.counted
    rw [← hprogress] at hcount
    intro hnil
    have hzero : s.progress.rows.length = 0 := by
      show (s.records.rows.map Record.tag).length = 0
      rw [hnil]
      rfl
    omega
  refine ⟨hrows, ⟨hlock, hcur⟩, hne, ?_, hagrees.checkpoint.bound⟩
  rcases hagrees.checkpoint.attained with hat | ⟨hnil, -⟩
  · exact hat
  · have hclosed : (feed cfg (pre.map Turn.recv)).closed ≠ [] := by
      intro hnil'
      rw [hnil', List.flatten_nil, List.map_eq_nil_iff] at hrows
      exact hne hrows
    exact absurd hnil (hagrees.committed hclosed)

end Batch

/-! ### A mirror of one table -/

/-- Relation 1 is `public.orders`, mirrored to `orders` with primary key `id`. -/
def ordersMirror : CDCConfig String String (List UInt8) where
  proc := pgProcessor
  codec := ⟨fun v => (v.getD "").toList.map fun c => c.toNat.toUInt8, id⟩
  srcTableIDNameMapping relID := if relID = 1 then some "public.orders" else none
  tableNameMapping name := if name = "public.orders" then some { name := "orders" } else none
  tableNameSchemaMapping name :=
    if name = "orders" then some { columns := [⟨"id", "int4", -1, false, "", none⟩],
                                   primaryKeyColumns := ["id"] }
    else none

def returned? {V H : Type} : Flow (PullExit V H) (PullState V H) → Option (PullState V H)
  | .leave (.returned s) => some s
  | _ => none

theorem eq_of_returned? {V H : Type} {f : Flow (PullExit V H) (PullState V H)}
    {s : PullState V H} (h : returned? f = some s) : f = .leave (.returned s) := by
  unfold returned? at h
  split at h <;> cases h
  rfl

/-- Two transactions around a keepalive; the deadline passes inside the second. -/
def ordersTurns : List (Turn String) :=
  [{ recv := .xLogData 10 (.relation ⟨1, [{ name := "id" }]⟩) },
   { recv := .xLogData 11 (.begin ⟨20, 0, 7⟩) },
   { recv := .xLogData 12 (.row (.insert 1 [.text "1"])) },
   { recv := .xLogData 20 (.commit 20 21) },
   { recv := .keepalive 25 true false },
   { recv := .xLogData 26 (.begin ⟨40, 0, 8⟩) },
   { recv := .xLogData 27 (.row (.insert 1 [.text "2"])) },
   { recv := .timeout, deadlinePassed := true },
   { recv := .xLogData 40 (.commit 40 41) },
   { recv := .timeout }]

/-- The theorem at a run that waits for the second commit. -/
theorem ordersTurns_wholeTransactions :
    ∃ s, pullCdcRecords ordersMirror { maxBatchSize := 5 } (ordersMirror.newSource fun _ => none)
        ordersTurns = .leave (.returned s) ∧
      ∃ pre t post s₀, ordersTurns = pre ++ t :: post ∧
        pullCdcRecords ordersMirror { maxBatchSize := 5 } (ordersMirror.newSource fun _ => none)
          pre = .next s₀ ∧
        pullTurn ordersMirror { maxBatchSize := 5 } s₀ t = .leave (.returned s) ∧
        WholeTransactions ordersMirror (pre.map Turn.recv) s := by
  have hret : (returned? (pullCdcRecords ordersMirror { maxBatchSize := 5 }
      (ordersMirror.newSource fun _ => none) ordersTurns)).isSome = true := by decide +kernel
  obtain ⟨s, hs⟩ := Option.isSome_iff_exists.mp hret
  have hwb : WellBracketed (ordersTurns.map Turn.recv) := by
    unfold WellBracketed
    decide
  exact ⟨s, eq_of_returned? hs, pullCdcRecords_wholeTransactions ordersMirror
    { maxBatchSize := 5 } (fun _ => none) ordersTurns s (by decide) hwb (eq_of_returned? hs)⟩
