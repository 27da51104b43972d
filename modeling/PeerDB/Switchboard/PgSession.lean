/-
A Postgres session, as far as its read-only mode is concerned.

The session has a default mode for new transactions, and a transaction has a mode of its
own, which BEGIN, SET TRANSACTION and SET transaction_read_only change.  A change of the
default is undone by a rollback, one with LOCAL also by a commit, and savepoints restore
both.

* `exec_guarded` — a harmless statement keeps every mode of a read-only session, the saved
  ones included, at read-only;
* `runStmts_guarded` — so does a query, and all of its statements run read-only.
-/
import Mathlib.Data.List.Basic

namespace Switchboard.Postgres

/-- The statements that matter, with access modes in the order in which they are written:
true for READ ONLY and false for READ WRITE. -/
inductive Stmt where
  | begin (modes : List Bool)
  | commit (chain : Bool)
  | rollback (chain : Bool)
  | rollbackTo (name : List Char)
  | savepoint (name : List Char)
  | release (name : List Char)
  | setTransaction (modes : List Bool)
  | setCharacteristics (isLocal : Bool) (modes : List Bool)
  | set (isLocal : Bool) (var : List Char) (value : Bool)
  | reset (var : List Char)
  | resetAll
  | discardAll
  | other
  deriving DecidableEq, Repr

def defaultTransactionReadOnly : List Char := "default_transaction_read_only".toList

def transactionReadOnly : List Char := "transaction_read_only".toList

/-- What a savepoint restores. -/
structure Savepoint where
  name : List Char
  readOnly : Bool
  defaultReadOnly : Bool
  afterCommit : Bool
  deriving DecidableEq, Repr

/-- A transaction: a block that BEGIN opened, or the transaction of a query string.
`atStart` is the default that a rollback restores, `afterCommit` the one that a commit
leaves. -/
structure Xact where
  isBlock : Bool
  readOnly : Bool
  queried : Bool
  failed : Bool
  atStart : Bool
  afterCommit : Bool
  savepoints : List Savepoint
  deriving DecidableEq, Repr

structure Session where
  defaultReadOnly : Bool
  xact : Option Xact
  deriving DecidableEq, Repr

/-- A transaction starts in the default mode. -/
def startXact (defaultReadOnly : Bool) : Xact where
  isBlock := false
  readOnly := defaultReadOnly
  queried := false
  failed := false
  atStart := defaultReadOnly
  afterCommit := defaultReadOnly
  savepoints := []

/-- A change of the mode; READ WRITE is only allowed in a read-only transaction before its
first query and not below a savepoint. -/
def setReadOnly (x : Xact) (readOnly : Bool) : Option Xact :=
  if readOnly then some { x with readOnly := true }
  else if x.readOnly && (!x.savepoints.isEmpty || x.queried) then none
  else some { x with readOnly := false }

def setModes (x : Xact) (modes : List Bool) : Option Xact := modes.foldlM setReadOnly x

/-- The savepoint with the name, and those that are older. -/
def findSavepoint (name : List Char) : List Savepoint → Option (Savepoint × List Savepoint)
  | [] => none
  | sp :: older => if sp.name = name then some (sp, older) else findSavepoint name older

/-- The end of a transaction; AND CHAIN opens the next one in the same mode. -/
def endXact (x : Xact) (chain defaultReadOnly : Bool) : Option (Bool × Option Xact) :=
  if chain then
    if x.isBlock then
      some (defaultReadOnly,
        some { startXact defaultReadOnly with isBlock := true, readOnly := x.readOnly })
    else none
  else some (defaultReadOnly, none)

/-- A change of the default. -/
def setDefault (x : Xact) (isLocal value : Bool) : Bool × Option Xact :=
  (value, some (if isLocal then x else { x with afterCommit := value }))

/-- A statement in a transaction: the default and the transaction after it, or none if
Postgres rejects it. -/
def exec (d : Bool) (x : Xact) : Stmt → Option (Bool × Option Xact)
  | .begin modes => (setModes { x with isBlock := true } modes).map fun x => (d, some x)
  | .commit chain => endXact x chain (if x.failed then x.atStart else x.afterCommit)
  | .rollback chain => endXact x chain x.atStart
  | .savepoint name =>
    if x.isBlock then
      some (d, some { x with savepoints := ⟨name, x.readOnly, d, x.afterCommit⟩ :: x.savepoints })
    else none
  | .release name =>
    (findSavepoint name x.savepoints).map fun (sp, older) =>
      (d, some { x with readOnly := sp.readOnly, savepoints := older })
  | .rollbackTo name =>
    (findSavepoint name x.savepoints).map fun (sp, older) =>
      (sp.defaultReadOnly,
        some { x with
          readOnly := sp.readOnly
          afterCommit := sp.afterCommit
          failed := false
          savepoints := sp :: older })
  | .setTransaction modes => (setModes x modes).map fun x => (d, some x)
  | .setCharacteristics isLocal modes => some (setDefault x isLocal (modes.getLast?.getD d))
  | .set isLocal var value =>
    if var = defaultTransactionReadOnly then some (setDefault x isLocal value)
    else if var = transactionReadOnly then (setReadOnly x value).map fun x => (d, some x)
    else some (d, some x)
  | .reset var =>
    if var = defaultTransactionReadOnly then some (setDefault x false false)
    else if var = transactionReadOnly then (setReadOnly x false).map fun x => (d, some x)
    else some (d, some x)
  | .resetAll => some (setDefault x false false)
  | .discardAll => if x.isBlock then none else some (setDefault x false false)
  | .other => some (d, some { x with queried := true })

/-- The statements that a failed transaction still takes. -/
def Stmt.endsFailure : Stmt → Bool
  | .commit _ | .rollback _ | .rollbackTo _ => true
  | _ => false

/-- What an error leaves: a block waits for its end, any other transaction is rolled
back. -/
def abort (d : Bool) (x : Xact) : Session :=
  if x.isBlock then ⟨d, some { x with failed := true }⟩ else ⟨x.atStart, none⟩

def Session.current (s : Session) : Xact := s.xact.getD (startXact s.defaultReadOnly)

/-- One statement, which may end in an error of its own (`fails`): the session after it,
and whether it succeeded. -/
def step (s : Session) (stmt : Stmt) (fails : Bool) : Session × Bool :=
  let x := s.current
  let result :=
    if fails || (x.failed && !stmt.endsFailure) then none else exec s.defaultReadOnly x stmt
  match result with
  | some (d, x') => (⟨d, x'⟩, true)
  | none => (abort s.defaultReadOnly x, false)

/-- The end of a query string: a transaction that is no block is committed. -/
def finish (s : Session) : Session :=
  match s.xact with
  | some x => if x.isBlock then s else ⟨x.afterCommit, none⟩
  | none => s

/-- The statements of a query string, up to the first error: the session after them, and
the mode in which each of them ran. -/
def runStmts (s : Session) : List (Stmt × Bool) → Session × List Bool
  | [] => (finish s, [])
  | (stmt, fails) :: rest =>
    let mode := s.current.readOnly
    let (s', ok) := step s stmt fails
    if ok then
      let (s'', modes) := runStmts s' rest
      (s'', mode :: modes)
    else (finish s', [mode])

/-- The session of `NewPostgresUpstream`: the server's default is off, and the initial SQL
sets it for a read-only session. -/
def newPostgresUpstream (readOnly : Bool) : Session :=
  let init : List (Stmt × Bool) :=
    [(.set false "statement_timeout".toList false, false),
      (.set false "idle_in_transaction_session_timeout".toList false, false)]
  (runStmts ⟨false, none⟩
    (if readOnly then init ++ [(.set false defaultTransactionReadOnly true, false)]
      else init)).1

/-! ### Harmless statements -/

def Savepoint.Guarded (sp : Savepoint) : Prop :=
  sp.readOnly = true ∧ sp.defaultReadOnly = true ∧ sp.afterCommit = true

/-- Every mode that the transaction has or can return to is read-only. -/
structure Xact.Guarded (x : Xact) : Prop where
  readOnly : x.readOnly = true
  atStart : x.atStart = true
  afterCommit : x.afterCommit = true
  savepoints : ∀ sp ∈ x.savepoints, sp.Guarded

structure Session.Guarded (s : Session) : Prop where
  defaultReadOnly : s.defaultReadOnly = true
  xact : ∀ x, s.xact = some x → x.Guarded

theorem newPostgresUpstream_guarded : (newPostgresUpstream true).Guarded :=
  ⟨rfl, nofun⟩

/-- The statement does not ask for READ WRITE and leaves the default alone. -/
def Stmt.Harmless : Stmt → Prop
  | .begin modes | .setTransaction modes | .setCharacteristics _ modes => ∀ m ∈ modes, m = true
  | .set _ var value =>
    var = defaultTransactionReadOnly ∨ var = transactionReadOnly → value = true
  | .reset var => var ≠ defaultTransactionReadOnly ∧ var ≠ transactionReadOnly
  | .resetAll | .discardAll => False
  | _ => True

theorem startXact_guarded : (startXact true).Guarded := ⟨rfl, rfl, rfl, nofun⟩

theorem current_guarded {s : Session} (h : s.Guarded) : s.current.Guarded := by
  rw [Session.current]
  cases hx : s.xact with
  | some x => exact h.xact x hx
  | none =>
    rw [h.defaultReadOnly]
    exact startXact_guarded

theorem setReadOnly_guarded {x x' : Xact} (h : x.Guarded) (hset : setReadOnly x true = some x') :
    x'.Guarded := by
  cases hset
  exact ⟨rfl, h.atStart, h.afterCommit, h.savepoints⟩

theorem setModes_guarded {modes : List Bool} (hmodes : ∀ m ∈ modes, m = true) :
    ∀ {x x' : Xact}, x.Guarded → setModes x modes = some x' → x'.Guarded := by
  induction modes with
  | nil =>
    intro x x' h hset
    cases hset
    exact h
  | cons m modes ih =>
    intro x x' h hset
    rw [setModes, List.foldlM_cons, hmodes m List.mem_cons_self] at hset
    obtain ⟨y, hy, hset⟩ := Option.bind_eq_some_iff.mp hset
    exact ih (fun m hm => hmodes m (List.mem_cons_of_mem _ hm)) (setReadOnly_guarded h hy) hset

theorem findSavepoint_guarded {name : List Char} {sps : List Savepoint} :
    ∀ {sp : Savepoint} {older : List Savepoint}, (∀ sp ∈ sps, sp.Guarded) →
      findSavepoint name sps = some (sp, older) → sp.Guarded ∧ ∀ sp ∈ older, sp.Guarded := by
  induction sps with
  | nil =>
    intro sp older _ hfind
    cases hfind
  | cons sp' sps ih =>
    intro sp older h hfind
    rw [List.forall_mem_cons] at h
    rw [findSavepoint] at hfind
    split at hfind
    · cases hfind
      exact h
    · exact ih h.2 hfind

/-- The default and the transaction after a statement are guarded. -/
def GuardedResult (r : Bool × Option Xact) : Prop := r.1 = true ∧ ∀ x, r.2 = some x → x.Guarded

theorem guardedResult_some {x : Xact} (h : x.Guarded) : GuardedResult (true, some x) := by
  refine ⟨rfl, fun y hy => ?_⟩
  cases hy
  exact h

theorem setDefault_guarded {x : Xact} (h : x.Guarded) (isLocal : Bool) :
    GuardedResult (setDefault x isLocal true) := by
  cases isLocal with
  | true => exact guardedResult_some h
  | false => exact guardedResult_some ⟨h.readOnly, h.atStart, rfl, h.savepoints⟩

theorem endXact_guarded {x : Xact} (h : x.Guarded) {chain : Bool} {r : Bool × Option Xact}
    (hend : endXact x chain true = some r) : GuardedResult r := by
  rw [endXact] at hend
  split at hend
  · split at hend
    · cases hend
      exact guardedResult_some ⟨h.readOnly, rfl, rfl, nofun⟩
    · cases hend
  · cases hend
    exact ⟨rfl, nofun⟩

theorem map_guarded {x' : Option Xact} {r : Bool × Option Xact}
    (h : x'.map (fun x => (true, some x)) = some r) (hx : ∀ x, x' = some x → x.Guarded) :
    GuardedResult r := by
  obtain ⟨x, hsome, rfl⟩ := Option.map_eq_some_iff.mp h
  exact guardedResult_some (hx x hsome)

/-- **One step**: a harmless statement keeps a guarded transaction guarded. -/
theorem exec_guarded {x : Xact} (h : x.Guarded) {stmt : Stmt} (hstmt : stmt.Harmless)
    {r : Bool × Option Xact} (hexec : exec true x stmt = some r) : GuardedResult r := by
  cases stmt with
  | begin modes =>
    have hblock : Xact.Guarded { x with isBlock := true } :=
      ⟨h.readOnly, h.atStart, h.afterCommit, h.savepoints⟩
    exact map_guarded hexec fun y hy => setModes_guarded hstmt hblock hy
  | setTransaction modes =>
    exact map_guarded hexec fun y hy => setModes_guarded hstmt h hy
  | commit chain =>
    have hdefault : (if x.failed then x.atStart else x.afterCommit) = true := by
      rw [h.atStart, h.afterCommit, ite_self]
    rw [exec, hdefault] at hexec
    exact endXact_guarded h hexec
  | rollback chain =>
    rw [exec, h.atStart] at hexec
    exact endXact_guarded h hexec
  | savepoint name =>
    rw [exec] at hexec
    split at hexec <;> cases hexec
    refine guardedResult_some ⟨h.readOnly, h.atStart, h.afterCommit, ?_⟩
    exact List.forall_mem_cons.mpr ⟨⟨h.readOnly, rfl, h.afterCommit⟩, h.savepoints⟩
  | release name =>
    obtain ⟨⟨sp, older⟩, hfind, rfl⟩ := Option.map_eq_some_iff.mp hexec
    obtain ⟨hsp, holder⟩ := findSavepoint_guarded h.savepoints hfind
    exact guardedResult_some ⟨hsp.1, h.atStart, h.afterCommit, holder⟩
  | rollbackTo name =>
    obtain ⟨⟨sp, older⟩, hfind, rfl⟩ := Option.map_eq_some_iff.mp hexec
    obtain ⟨hsp, holder⟩ := findSavepoint_guarded h.savepoints hfind
    dsimp only
    rw [hsp.2.1]
    exact guardedResult_some
      ⟨hsp.1, h.atStart, hsp.2.2, List.forall_mem_cons.mpr ⟨hsp, holder⟩⟩
  | setCharacteristics isLocal modes =>
    have hlast : modes.getLast?.getD true = true := by
      cases hm : modes.getLast? with
      | none => rfl
      | some m => exact hstmt m (List.mem_of_getLast? hm)
    rw [exec, hlast] at hexec
    cases hexec
    exact setDefault_guarded h isLocal
  | set isLocal var value =>
    rw [exec] at hexec
    split at hexec
    · rename_i hvar
      rw [hstmt (.inl hvar)] at hexec
      cases hexec
      exact setDefault_guarded h isLocal
    · split at hexec
      · rename_i hvar
        rw [hstmt (.inr hvar)] at hexec
        exact map_guarded hexec fun y hy => setReadOnly_guarded h hy
      · cases hexec
        exact guardedResult_some h
  | reset var =>
    rw [exec, if_neg hstmt.1, if_neg hstmt.2] at hexec
    cases hexec
    exact guardedResult_some h
  | resetAll | discardAll => exact hstmt.elim
  | other =>
    cases hexec
    exact guardedResult_some ⟨h.readOnly, h.atStart, h.afterCommit, h.savepoints⟩

theorem abort_guarded {x : Xact} (h : x.Guarded) : (abort true x).Guarded := by
  rw [abort]
  split
  · refine ⟨rfl, fun y hy => ?_⟩
    cases hy
    exact ⟨h.readOnly, h.atStart, h.afterCommit, h.savepoints⟩
  · exact ⟨h.atStart, nofun⟩

theorem step_guarded {s : Session} (h : s.Guarded) {stmt : Stmt} (hstmt : stmt.Harmless)
    (fails : Bool) : (step s stmt fails).1.Guarded := by
  have hx := current_guarded h
  unfold step
  dsimp only
  rw [h.defaultReadOnly]
  split
  · rename_i d x' hresult
    split at hresult
    · cases hresult
    · have hguard := exec_guarded hx hstmt hresult
      exact ⟨hguard.1, hguard.2⟩
  · exact abort_guarded hx

theorem finish_guarded {s : Session} (h : s.Guarded) : (finish s).Guarded := by
  rw [finish]
  split
  · rename_i x hx
    split
    · exact h
    · exact ⟨(h.xact x hx).afterCommit, nofun⟩
  · exact h

/-- **One query**: harmless statements all run read-only, and leave the session guarded. -/
theorem runStmts_guarded {stmts : List (Stmt × Bool)} (hstmts : ∀ st ∈ stmts, st.1.Harmless) :
    ∀ {s : Session}, s.Guarded →
      (runStmts s stmts).1.Guarded ∧ ∀ mode ∈ (runStmts s stmts).2, mode = true := by
  induction stmts with
  | nil =>
    intro s h
    exact ⟨finish_guarded h, nofun⟩
  | cons st stmts ih =>
    intro s h
    obtain ⟨stmt, fails⟩ := st
    rw [List.forall_mem_cons] at hstmts
    have hmode : s.current.readOnly = true := (current_guarded h).readOnly
    have hnext := step_guarded h hstmts.1 fails
    rw [runStmts]
    dsimp only
    split
    · obtain ⟨hfinal, hrest⟩ := ih hstmts.2 hnext
      exact ⟨hfinal, List.forall_mem_cons.mpr ⟨hmode, hrest⟩⟩
    · refine ⟨finish_guarded hnext, ?_⟩
      intro mode hm
      rw [List.mem_singleton.mp hm]
      exact hmode

end Switchboard.Postgres
