/-
A session of the puller with the server.

`Located` relates the position of the puller to that of the server while the
server sends entries: in file position mode the puller never runs ahead of it.
What the server makes up (heartbeats and artificial rotate events) changes
nothing.  `Binlog.Pulls.history` is the invariant rule for runs of `PullRecords`
against the server: one obligation for a received entry, one for a deadline.
-/
import PeerDB.MySQL.Binlog

open Loop

namespace MySQL

/-! ### Positions -/

section Position

variable {U D V : Type}

/-- Where an entry ends, read in a file of the given name. -/
def Entry.endPos (name : String) (e : Entry U D) : Position :=
  match e.ev.event with
  | .rotate next q => ⟨next, q⟩
  | _ => ⟨name, e.ev.logPos⟩

theorem endPos_plain {name : String} {e : Entry U D}
    (h : ∀ next q, e.ev.event ≠ .rotate next q) : e.endPos name = ⟨name, e.ev.logPos⟩ := by
  unfold Entry.endPos
  split
  case h_1 next q hev => exact absurd hev (h next q)
  case h_2 => rfl

variable {fileName : ℕ → String}

theorem endPos_eq {p p' : ℕ × ℕ} {e : Entry U D} (hreal : e.isReal = true)
    (h : posStep fileName p e = some p') :
    e.endPos (fileName p.1) = posAt fileName p' := by
  by_cases hrot : ∃ next q, e.ev.event = .rotate next q
  · obtain ⟨next, q, hrot⟩ := hrot
    obtain ⟨rfl, hnext, -⟩ := posStep_rotate hreal hrot h
    unfold Entry.endPos
    rw [hrot, hnext]
    rfl
  · have hplain : ∀ next q, e.ev.event ≠ .rotate next q := fun next q heq => hrot ⟨next, q, heq⟩
    obtain ⟨rfl, -, -⟩ := posStep_plain hreal hplain h
    exact endPos_plain hplain

theorem posStep_artificial {p p' : ℕ × ℕ} {e : Entry U D} (hart : e.isReal = false)
    (h : posStep fileName p e = some p') :
    p' = p ∧ (e.ev.event = .benign ∨
      ∃ q, e.ev.event = .rotate (fileName p.1) q ∧ e.ev.timestamp = 0) := by
  have hrole : e.role = .artificial := by
    cases hrole : e.role with
    | artificial => rfl
    | between | inside u | last u | alone u => simp [Entry.isReal, hrole] at hart
  unfold posStep at h
  rw [hrole] at h
  cases hev : e.ev.event with
  | benign =>
    rw [hev] at h
    cases h
    exact ⟨rfl, Or.inl rfl⟩
  | rotate name q =>
    rw [hev] at h
    obtain ⟨⟨htime, rfl⟩, hp⟩ := Option.ite_none_right_eq_some.mp h
    cases hp
    exact ⟨rfl, Or.inr ⟨q, rfl, htime⟩⟩
  | xid _ | query _ _ _ | tableMap _ | rows _ _ _ _ | incident _ | partialRowData _ _ =>
    rw [hev] at h
    cases h

/-- What the server makes up does not move its position. -/
theorem runs_posStep_filter : ∀ {es : List (Entry U D)} {p p' : ℕ × ℕ},
    runs (posStep fileName) p es = some p' →
    runs (posStep fileName) p (es.filter Entry.isReal) = some p' := by
  intro es
  induction es with
  | nil => exact fun h => h
  | cons e es ih =>
    intro p p' h
    obtain ⟨p₁, hp₁, hrest⟩ := Option.bind_eq_some_iff.mp h
    cases hreal : e.isReal with
    | true =>
      rw [List.filter_cons_of_pos hreal, runs_cons, hp₁]
      exact ih hrest
    | false =>
      rw [(posStep_artificial hreal hp₁).1] at hrest
      rw [List.filter_cons_of_neg (by simp [hreal])]
      exact ih hrest

theorem posAt_inj (hinj : Function.Injective fileName) {p p' : ℕ × ℕ}
    (h : posAt fileName p = posAt fileName p') : p = p' :=
  Prod.ext (hinj (congrArg Position.name h)) (congrArg Position.pos h)

end Position

/-! ### Following the server -/

section Located

variable {U D V : Type} [DecidableEq U] (B : Binlog U D)

/-- How the position of the puller relates to that of the server. -/
def Binlog.Located (offset : ReplicationOffset U) (es : List (Entry U D)) (s : PullState U V) :
    Prop :=
  match offset with
  | .filePos pos => s.gset = none ∧ ∃ p₀ p, posAt B.fileName p₀ = pos ∧
      runs (posStep B.fileName) p₀ es = some p ∧ s.pos.name = B.fileName p.1 ∧ s.pos.pos ≤ p.2
  | .gtid _ => s.gset.isSome = true

variable {B} {cfg : Config U D V}

variable {offset : ReplicationOffset U} {served es r : List (Entry U D)}

theorem Binlog.serve_subset (h : B.serve offset = some served) : served ⊆ B.entries := by
  cases offset with
  | filePos pos =>
    obtain ⟨pre, p, hsplit, -, -⟩ := suffixFrom_some h
    rw [hsplit]
    exact List.subset_append_right pre served
  | gtid gset =>
    rw [← Option.some.inj h]
    exact List.filter_subset_self B.entries

theorem Binlog.Follows.left {served es es' : List (Entry U D)}
    (h : B.Follows offset served (es ++ es')) : B.Follows offset served es := by
  obtain ⟨hserved, hmode⟩ := h
  refine ⟨?_, ?_⟩
  · rw [List.filter_append] at hserved
    exact (List.prefix_append _ _).trans hserved
  · cases offset with
    | filePos pos =>
      obtain ⟨p, hp, hruns⟩ := hmode
      refine ⟨p, hp, ?_⟩
      rw [runs_append] at hruns
      exact Option.isSome_of_isSome_bind hruns
    | gtid gset => exact fun e he => hmode e (List.mem_append_left es' he)


variable {e : Entry U D} {s s' : PullState U V}

/-- In file position mode the entry after `es` moves the server on. -/
theorem Binlog.Located.next_pos {pos : Position} (h : B.Located (.filePos pos) es s)
    (hfollows : B.Follows (.filePos pos) served (es ++ [e])) :
    ∃ p₀ p p', posAt B.fileName p₀ = pos ∧ runs (posStep B.fileName) p₀ es = some p ∧
      s.pos.name = B.fileName p.1 ∧ s.pos.pos ≤ p.2 ∧ posStep B.fileName p e = some p' := by
  obtain ⟨-, p₀, p, hpos, hruns, hname, hle⟩ := h
  obtain ⟨-, p₁, hpos₁, hruns₁⟩ := hfollows
  have heq : p₁ = p₀ := posAt_inj B.fileName_inj (hpos₁.trans hpos.symm)
  rw [heq, runs_append, hruns] at hruns₁
  have hone : (runs (posStep B.fileName) p [e]).isSome = true := hruns₁
  obtain ⟨p', hp'⟩ := Option.isSome_iff_exists.mp (Option.isSome_of_isSome_bind hone)
  exact ⟨p₀, p, p', hpos, hruns, hname, hle, hp'⟩

theorem Binlog.Located.rotates (h : B.Located offset es s) (hreal : e.isReal = true)
    (hfollows : B.Follows offset served (es ++ [e])) (hgset : s.gset = none) :
    ∀ next q, e.ev.event = .rotate next q → next ≠ s.pos.name := by
  intro next q hev
  cases offset with
  | gtid gset =>
    have hsome : s.gset.isSome = true := h
    rw [hgset] at hsome
    cases hsome
  | filePos pos =>
    obtain ⟨p₀, p, p', -, -, hname, -, hp'⟩ := h.next_pos hfollows
    obtain ⟨-, hnext, -⟩ := posStep_rotate hreal hev hp'
    rw [hname, hnext]
    exact fun heq => absurd (B.fileName_inj heq) (Nat.succ_ne_self p.1)

/-- Any other entry ends behind the position of the puller. -/
theorem Binlog.Located.later (h : B.Located offset es s) (hreal : e.isReal = true)
    (hfollows : B.Follows offset served (es ++ [e])) (hgset : s.gset = none)
    (hplain : ∀ next q, e.ev.event ≠ .rotate next q) : s.pos.pos < e.ev.logPos := by
  cases offset with
  | gtid gset =>
    have hsome : s.gset.isSome = true := h
    rw [hgset] at hsome
    cases hsome
  | filePos pos =>
    obtain ⟨p₀, p, p', -, -, -, hle, hp'⟩ := h.next_pos hfollows
    obtain ⟨-, hlt, -⟩ := posStep_plain hreal hplain hp'
    omega

theorem Binlog.Located.endPos {pos : Position} (h : B.Located (.filePos pos) es s)
    (hreal : e.isReal = true)
    (hserved : B.serve (.filePos pos) = some (es.filter Entry.isReal ++ e :: r))
    (hfollows : B.Follows (.filePos pos) served (es ++ [e])) :
    ∃ pre p', B.entries = pre ++ r ∧ runs (posStep B.fileName) B.start pre = some p' ∧
      e.endPos s.pos.name = posAt B.fileName p' := by
  obtain ⟨p₀, p, p', hpos, hruns, hname, -, hp'⟩ := h.next_pos hfollows
  obtain ⟨pre, p₁, hsplit, hpre, hpos₁⟩ := suffixFrom_some hserved
  have heq : p₁ = p₀ := posAt_inj B.fileName_inj (hpos₁.trans hpos.symm)
  refine ⟨pre ++ es.filter Entry.isReal ++ [e], p', ?_, ?_, ?_⟩
  · rw [hsplit]
    simp
  · rw [runs_append, runs_append, hpre, heq]
    show ((runs (posStep B.fileName) p₀ (es.filter Entry.isReal)).bind _) = some p'
    rw [runs_posStep_filter hruns]
    show (posStep B.fileName p e).bind _ = some p'
    rw [hp']
    rfl
  · rw [hname, endPos_eq hreal hp']

/-- The puller moves to the end of the entry, or stays behind. -/
theorem Binlog.Located.step (h : B.Located offset es s) (hreal : e.isReal = true)
    (hfollows : B.Follows offset served (es ++ [e])) (hgset : s'.gset.isSome = s.gset.isSome)
    (hpos : s.gset = none → s'.pos = e.endPos s.pos.name ∨
      (s'.pos = s.pos ∧ ∀ next q, e.ev.event ≠ .rotate next q)) :
    B.Located offset (es ++ [e]) s' := by
  cases offset with
  | gtid gset => exact hgset.trans h
  | filePos pos =>
    obtain ⟨p₀, p, p', hstart, hruns, hname, hle, hp'⟩ := h.next_pos hfollows
    have hnone : s.gset = none := h.1
    have hnone' : s'.gset = none := by
      rw [hnone] at hgset
      exact Option.not_isSome_iff_eq_none.mp (by rw [hgset]; simp)
    have hnext : runs (posStep B.fileName) p₀ (es ++ [e]) = some p' := by
      rw [runs_append, hruns]
      show (posStep B.fileName p e).bind _ = some p'
      rw [hp']
      rfl
    rcases hpos hnone with hmoved | ⟨hsame, hplain⟩
    · rw [hname, endPos_eq hreal hp'] at hmoved
      refine ⟨hnone', p₀, p', hstart, hnext, ?_, ?_⟩
      · rw [hmoved]
        rfl
      · rw [hmoved]
        exact Nat.le_refl p'.2
    · obtain ⟨hp, hlt, -⟩ := posStep_plain hreal hplain hp'
      refine ⟨hnone', p₀, p', hstart, hnext, ?_, ?_⟩
      · rw [hsame, hname, hp]
      · rw [hsame, hp]
        show s.pos.pos ≤ e.ev.logPos
        omega

/-- What the server makes up is a heartbeat, or a rotate event that names the
current file: the puller ignores it. -/
theorem Binlog.Located.artificial (h : B.Located offset es s) (hart : e.isReal = false)
    (hfollows : B.Follows offset served (es ++ [e]))
    (hstep : processEvent cfg s (e.toEvent offset.startSet) = .ok s') :
    s' = s ∧ e.ev.event.isBetween = true ∧ B.Located offset (es ++ [e]) s := by
  cases offset with
  | filePos pos =>
    obtain ⟨p₀, p, p', hpos, hruns, hname, hle, hp'⟩ := h.next_pos hfollows
    obtain ⟨hsame, hevent⟩ := posStep_artificial hart hp'
    have hloc : B.Located (.filePos pos) (es ++ [e]) s := by
      refine ⟨h.1, p₀, p, hpos, ?_, hname, hle⟩
      rw [runs_append, hruns]
      show (posStep B.fileName p e).bind _ = some p
      rw [hp', hsame]
      rfl
    rcases hevent with hev | ⟨q, hev, htime⟩
    · simp only [processEvent, Entry.toEvent, hev, Event.withGSet] at hstep
      exact ⟨(Except.ok.inj hstep).symm, by rw [hev]; rfl, hloc⟩
    · simp [processEvent, Entry.toEvent, hev, Event.withGSet, htime, hname] at hstep
      exact ⟨hstep.symm, by rw [hev]; rfl, hloc⟩
  | gtid gset =>
    have hbetween : e.ev.event.isBetween = true := hfollows.2 e (by simp) hart
    obtain ⟨g, hgset⟩ := Option.isSome_iff_exists.mp h
    refine ⟨?_, hbetween, h⟩
    cases hev : e.ev.event with
    | benign =>
      simp only [processEvent, Entry.toEvent, hev, Event.withGSet] at hstep
      exact (Except.ok.inj hstep).symm
    | rotate name q =>
      simp [processEvent, Entry.toEvent, hev, Event.withGSet, hgset] at hstep
      exact hstep.symm
    | xid _ | query _ _ _ | tableMap _ | rows _ _ _ _ | incident _ | partialRowData _ _ =>
      rw [hev] at hbetween
      cases hbetween

theorem Binlog.located_start (hserve : B.serve offset = some served) :
    B.Located offset [] (PullState.start cfg offset) := by
  cases offset with
  | filePos pos =>
    obtain ⟨pre, p, -, -, hp⟩ := suffixFrom_some hserve
    refine ⟨rfl, p, p, hp, rfl, ?_, ?_⟩
    · exact (congrArg Position.name hp).symm
    · exact Nat.le_of_eq (congrArg Position.pos hp).symm
  | gtid gset => rfl

theorem Binlog.Follows.next (h : B.Follows offset served (es ++ [e])) (hreal : e.isReal = true)
    (hserve : B.serve offset = some served)
    (hserved : B.serve offset = some (es.filter Entry.isReal ++ r)) : ∃ r', r = e :: r' := by
  have hsplit : served = es.filter Entry.isReal ++ r :=
    Option.some.inj (hserve.symm.trans hserved)
  have hnext : es.filter Entry.isReal ++ [e] <+: es.filter Entry.isReal ++ r := by
    rw [← hsplit]
    simpa [hreal] using h.1
  obtain ⟨r', hr'⟩ := (List.prefix_append_right_inj _).mp hnext
  exact ⟨r', hr'.symm⟩

end Located

/-! ### Runs -/

section Runs

variable {U D V : Type} {cfg : Config U D V} {maxBatchSize : ℕ}

theorem pullTurn_leaves {s : PullState U V} {t : Turn U D}
    {x : PullExit U V} (h : pullTurn cfg maxBatchSize s t = .leave x) :
    stateOf (.leave x) = s := by
  unfold pullTurn onDeadline at h
  (repeat' split at h) <;> cases h <;> rfl

/-- A run goes on after a deadline inside a transaction, or with nothing read; only then
may it persist its offset. -/
theorem onDeadline_next {s s' : PullState U V} {stale saveOk : Bool}
    (h : onDeadline s stale saveOk = .next s') :
    (s.recordCount ≠ 0 ∧ s.inTx = true ∧ s' = { s with overtime := true }) ∨
      s.recordCount = 0 ∧ (s' = s ∨ s.updatedOffset ≠ "" ∧ saveOk = true ∧
        s' = { s with saved := s.saved ++ [s.updatedOffset], updatedOffset := "" }) := by
  unfold onDeadline at h
  split at h
  case isFalse => cases h
  case isTrue hgo =>
    split at h
    case isTrue => cases h
    case isFalse =>
      split at h
      case isFalse hcount =>
        cases h
        exact .inl ⟨hcount, hgo.resolve_left hcount, rfl⟩
      case isTrue hcount =>
        split at h <;> rename_i hsave <;> cases h
        · exact .inr ⟨hcount, .inr ⟨hsave.1, hsave.2, rfl⟩⟩
        · exact .inr ⟨hcount, .inl rfl⟩

variable [DecidableEq U] {B : Binlog U D}

/-- `Inv` holds of the state the run is in or was left in, with the part of what was
received until then and with what was left to be served. -/
def RunInv (cfg : Config U D V) (maxBatchSize : ℕ)
    (Inv : ReplicationOffset U → List (Entry U D) → List (Entry U D) → PullState U V → Prop)
    (text : String) (ds : List (Delivery U D)) (out : Flow (PullExit U V) (PullState U V)) :
    Prop :=
  ∃ offset batch r, parseReplicationOffsetText cfg.codec text = .ok offset ∧ batch <+: ds ∧
    Inv offset (batch.flatMap Delivery.taken) r (stateOf out) ∧
    (∀ s, out = .next s → batch = ds) ∧
    ∀ s, out = .leave (.returned s) → ∃ t : Turn U D,
      pullTurn cfg maxBatchSize s t = .leave (.returned s)

/-- **Invariant rule for a run.** -/
theorem Binlog.Pulls.history {text : String} {ds : List (Delivery U D)}
    {out : Flow (PullExit U V) (PullState U V)}
    {Inv : ReplicationOffset U → List (Entry U D) → List (Entry U D) → PullState U V → Prop}
    (h : B.Pulls cfg maxBatchSize text ds out)
    (hserved : ∀ {offset es r s}, Inv offset es r s →
      B.serve offset = some (es.filter Entry.isReal ++ r))
    (hstart : ∀ {offset served}, B.serve offset = some served →
      Inv offset [] served (PullState.start cfg offset))
    (hreceive : ∀ {offset served es e r s s'}, Inv offset es (e :: r) s → e.isReal = true →
      B.Follows offset served (es ++ [e]) →
      processEvent cfg s (e.toEvent offset.startSet) = .ok s' → Inv offset (es ++ [e]) r s')
    (hignore : ∀ {offset served es e r s s'}, Inv offset es r s → e.isReal = false →
      B.Follows offset served (es ++ [e]) →
      processEvent cfg s (e.toEvent offset.startSet) = .ok s' → Inv offset (es ++ [e]) r s')
    (hdeadline : ∀ {offset pre stale saveOk r s s'},
      parseReplicationOffsetText cfg.codec text = .ok offset →
      pre ++ [.deadline stale saveOk] <+: ds → B.Pulls cfg maxBatchSize text pre (.next s) →
      Inv offset (pre.flatMap Delivery.taken) r s → onDeadline s stale saveOk = .next s' →
      Inv offset (pre.flatMap Delivery.taken) r s') :
    RunInv cfg maxBatchSize Inv text ds out := by
  obtain ⟨offset, served, hparse, hserve, hfollows, hpull⟩ := h
  -- what was received is received turn by turn
  have hpart : ∀ {pre : List (Delivery U D)}, pre <+: ds →
      B.Follows offset served (pre.flatMap Delivery.taken) := by
    rintro pre ⟨post, rfl⟩
    rw [List.flatMap_append] at hfollows
    exact hfollows.left
  have hevents : ∀ {new es : List (Entry U D)} {s s' : PullState U V},
      B.Follows offset served (es ++ new) → (∃ r, Inv offset es r s) →
      (new.map (Entry.toEvent offset.startSet)).foldlM (processEvent cfg) s = .ok s' →
      ∃ r, Inv offset (es ++ new) r s' := by
    intro new es s s' hnew hs hfold
    rw [List.foldlM_map] at hfold
    refine foldlM_history
      (fun part s₁ => B.Follows offset served (es ++ part) → ∃ r, Inv offset (es ++ part) r s₁)
      (fun _ => by simpa using hs) ?_ hfold hnew
    intro part e s₁ s₂ ih hstep hpart
    rw [← List.append_assoc] at hpart ⊢
    obtain ⟨r, hinv⟩ := ih hpart.left
    cases hreal : e.isReal with
    | false => exact ⟨r, hignore hinv hreal hpart hstep⟩
    | true =>
      obtain ⟨r', rfl⟩ := hpart.next hreal hserve (hserved hinv)
      exact ⟨r', hreceive hinv hreal hpart hstep⟩
  -- the turns that go on, by induction on what has been received
  have hruns : ∀ {pre : List (Delivery U D)} {s : PullState U V}, pre <+: ds →
      iterate (pullTurn cfg maxBatchSize) (PullState.start cfg offset)
        (pre.map (Delivery.toTurn offset.startSet)) = .next s →
      ∃ r, Inv offset (pre.flatMap Delivery.taken) r s := by
    intro pre s hpre hrun
    rw [iterate_map] at hrun
    refine iterate_history
      (fun part s₁ => part <+: ds → ∃ r, Inv offset (part.flatMap Delivery.taken) r s₁)
      (fun _ => ⟨served, hstart hserve⟩) ?_ hrun hpre
    intro part d s₁ s₂ hreach ih hstep hnew
    have hold : part <+: ds := (List.prefix_append part [d]).trans hnew
    have hfollows' := hpart hnew
    have hs₁ := ih hold
    simp only [List.flatMap_append, List.flatMap_cons, List.flatMap_nil,
      List.append_nil] at hfollows' ⊢
    unfold pullTurn at hstep
    split at hstep
    case isFalse => cases hstep
    case isTrue =>
      cases d with
      | entries new =>
        simp only [Delivery.toTurn] at hstep
        split at hstep
        case h_1 hfold =>
          cases hstep
          exact hevents hfollows' hs₁ hfold
        case h_2 => cases hstep
      | deadline stale saveOk =>
        rw [show part.flatMap Delivery.taken ++
          (Delivery.deadline stale saveOk : Delivery U D).taken = part.flatMap Delivery.taken from
            List.append_nil _]
        have hreached : B.Pulls cfg maxBatchSize text part (.next s₁) := by
          refine ⟨offset, served, hparse, hserve, hpart hold, ?_⟩
          unfold pullRecords
          rw [hparse, ← hreach, ← iterate_map]
          rfl
        obtain ⟨r, hinv⟩ := hs₁
        exact ⟨r, hdeadline hparse hnew hreached hinv hstep⟩
      | cancelled | failed err => cases hstep
  unfold pullRecords at hpull
  rw [hparse] at hpull
  have hrun := Except.ok.inj hpull
  cases out with
  | next s =>
    obtain ⟨r, hinv⟩ := hruns List.prefix_rfl hrun
    exact ⟨offset, ds, r, hparse, List.prefix_rfl, hinv, fun _ _ => rfl, nofun⟩
  | leave x =>
    -- the turn that leaves changes nothing, so the state is the one before it
    rw [iterate_map] at hrun
    obtain ⟨batch, d, post, s, rfl, hbatch, hleave⟩ := leave_of_iterate hrun
    rw [← iterate_map] at hbatch
    have hprefix : batch <+: batch ++ d :: post := List.prefix_append _ _
    obtain ⟨r, hinv⟩ := hruns hprefix hbatch
    refine ⟨offset, batch, r, hparse, hprefix, (pullTurn_leaves hleave).symm ▸ hinv, nofun, ?_⟩
    intro s' hs'
    cases hs'
    obtain rfl : s' = s := pullTurn_leaves hleave
    exact ⟨_, hleave⟩

end Runs

end MySQL
