/-
Schema transfer by `pg_dump` (`connectors/postgres/pgdump_schema.go`).

`runPipeline` starts `psql` and `pg_dump`, joins them by two pipes with a filter between
them, and waits for both.  If `pg_dump` fails, `psql` is to be killed before it commits.

The processes, the filter, the two goroutines that wait and `runPipeline` itself take
their steps in any order (`Pipeline.step`).  A reader sees the end of a pipe when its
last writer is gone, whether the writer has finished or has failed; so `psql` may
commit what there is of a dump before `runPipeline` hears of the failure
(`failedDump_committed`).  It cannot if its input is only closed behind a `pg_dump` that
has succeeded, or when it is gone itself (`failedDump_rolled_back`).  A success
that is reported is always one (`success_committed`).
-/
import PeerDB.Lib.Loop

open Loop

namespace PgDump

/-! ### The commands -/

/-- The fields of `protos.PostgresConfig` the arguments are made of. -/
structure PostgresConfig where
  port : ℕ
  database : String
  user : String

def buildPsqlArgs (config : PostgresConfig) (host : String) : List String :=
  let port := if config.port = 0 then 5432 else config.port
  let args := ["-h", host, "-p", toString port, "-d", config.database, "--single-transaction",
    "-v", "ON_ERROR_STOP=1", "--quiet"]
  if config.user ≠ "" then args ++ ["-U", config.user] else args

/-- Whether `psql` wraps its input in one transaction. -/
def singleTransaction (args : List String) : Bool := decide ("--single-transaction" ∈ args)

/-- Whether `psql` stops at the first error. -/
def onErrorStop (args : List String) : Bool := decide ("ON_ERROR_STOP=1" ∈ args)

theorem buildPsqlArgs_singleTransaction (config : PostgresConfig) (host : String) :
    singleTransaction (buildPsqlArgs config host) = true := by
  rw [singleTransaction, buildPsqlArgs]
  split <;> simp

theorem buildPsqlArgs_onErrorStop (config : PostgresConfig) (host : String) :
    onErrorStop (buildPsqlArgs config host) = true := by
  rw [onErrorStop, buildPsqlArgs]
  split <;> simp

/-! ### The filter -/

/-- `\s` of the regular expression. -/
def isSpace (c : Char) : Bool :=
  c = ' ' || c = '\t' || c = '\n' || c = '\r' || c = Char.ofNat 12

/-- What follows a text. -/
def stripText (text : String) (line : List Char) : Option (List Char) :=
  if text.toList.isPrefixOf line then some (line.drop text.length) else none

/-- `incompatibleLineRE`: `SET transaction_timeout =`, `\restrict` and `\unrestrict`. -/
def incompatibleLine (line : List Char) : Bool :=
  let set :=
    match stripText "SET" line with
    | some (c :: rest) =>
      isSpace c &&
        match stripText "transaction_timeout" (rest.dropWhile isSpace) with
        | some rest => (rest.dropWhile isSpace).head? = some '='
        | none => false
    | _ => false
  let restrict :=
    match (stripText "\\restrict" line).or (stripText "\\unrestrict" line) with
    | some [] => true
    | some (c :: _) => isSpace c
    | none => false
  set || restrict

/-- Where the filter goroutine stands.  Behind the text that it writes comes its next line, or
the error it returns with (`some none` is the end of the input). -/
inductive FilterState where
  | unstarted
  | reading (line : List Char)
  | writing (text : List Char) (ends : Option (Option String))
  | closingSrcR (err : Option String)
  | closingDstW (err : Option String)
  | sending (err : Option String)
  | sent
  deriving DecidableEq, Repr

/-- A line was read, or what there is of one in front of the end. -/
def FilterState.ofLine (line : List Char) (ends : Option (Option String)) : FilterState :=
  .writing (if incompatibleLine line then [] else line) ends

/-! ### Processes -/

inductive ExitStatus where
  | code (n : ℕ)
  | signal (name : String)
  deriving DecidableEq, Repr

/-- The error of `Cmd.Wait`: the process did not succeed, or the context was cancelled. -/
inductive WaitError where
  | exit (status : ExitStatus)
  | cancelled
  deriving DecidableEq, Repr

/-- A command: its process, whether `ProcessState` is set, and its channel. -/
structure Cmd where
  started : Bool := false
  status : Option ExitStatus := none
  cancelled : Bool := false
  reaped : Bool := false
  done : Option (Option WaitError) := none
  deriving DecidableEq, Repr

namespace Cmd

def running (c : Cmd) : Bool := c.started && c.status.isNone

/-- A process ends once. -/
def exit (c : Cmd) (status : ExitStatus) : Cmd :=
  if c.running then { c with status := some status } else c

/-- `Process.Kill` on a process that was not waited for yet. -/
def kill (c : Cmd) : Cmd := c.exit (.signal "killed")

/-- What `Wait` returns. -/
def waitErr (c : Cmd) : Option WaitError :=
  match c.status with
  | none => none
  | some (.code 0) => if c.cancelled then some .cancelled else none
  | some status => some (.exit status)

end Cmd

/-- What `psql` has done. -/
structure Psql where
  input : List Char := []
  failed : Bool := false
  finished : Bool := false
  committed : Bool := false
  deriving DecidableEq, Repr

/-! ### The pipeline -/

/-- The error of `runPipeline`. -/
inductive PipelineError where
  | startDst
  | startSrc
  | dstFailed (err : WaitError)
  | srcFailed (err : WaitError)
  | filterFailed (err : String)
  deriving DecidableEq, Repr

/-- Where `runPipeline` stands. -/
inductive MainState where
  | startingDst
  | closingDstR
  | startingSrc
  /-- `srcCmd.Start` failed -/
  | droppingSrcW
  | droppingDstW
  | droppingSrcR
  | droppingDst
  | awaitingDst
  | closingSrcW
  /-- the loop, with the number of turns left -/
  | selecting (turns : ℕ)
  | killingDst (turns : ℕ)
  | killingSrc (turns : ℕ)
  | awaitingFilter
  | returned (result : Except PipelineError Unit)

/-- The two pipes, the two processes and the goroutines.  `srcW`, `srcR`, `dstW` and `dstR` tell
which ends are open in the parent. -/
structure Pipeline where
  src : Cmd := {}
  dst : Cmd := {}
  psql : Psql := {}
  srcPipe : List Char := []
  dstPipe : List Char := []
  srcW : Bool := true
  srcR : Bool := true
  dstW : Bool := true
  dstR : Bool := true
  filter : FilterState := .unstarted
  filterDone : Option (Option String) := none
  /-- whether the goroutines that wait were started -/
  waiting : Bool := false
  srcErr : Option (Option WaitError) := none
  dstErr : Option (Option WaitError) := none
  srcKilled : Bool := false
  dstKilled : Bool := false
  main : MainState := .startingDst

/-- The end of `runPipeline`: the original cause, not the side that was killed for it. -/
def pipelineResult (srcErr dstErr : Option WaitError) (srcKilled dstKilled : Bool)
    (filterErr : Option String) : Except PipelineError Unit :=
  match dstErr, dstKilled with
  | some err, false => .error (.dstFailed err)
  | _, _ =>
    match srcErr, srcKilled with
    | some err, false => .error (.srcFailed err)
    | _, _ =>
      match filterErr with
      | some err => .error (.filterFailed err)
      | none =>
        match srcErr with
        | some err => .error (.srcFailed err)
        | none =>
          match dstErr with
          | some err => .error (.dstFailed err)
          | none => .ok ()

def MainState.next : ℕ → MainState
  | 0 => .awaitingFilter
  | turns + 1 => .selecting (turns + 1)

/-- One step of `runPipeline`; `ok` tells whether `Start` succeeds. -/
def mainStep (s : Pipeline) (ok : Bool) : Option Pipeline :=
  match s.main with
  | .startingDst =>
    if ok then some { s with dst := { s.dst with started := true }, main := .closingDstR }
    else some { s with
      srcR := false, srcW := false, dstR := false, dstW := false
      main := .returned (.error .startDst) }
  | .closingDstR => some { s with dstR := false, main := .startingSrc }
  | .startingSrc =>
    if ok then some { s with src := { s.src with started := true }, main := .closingSrcW }
    else some { s with main := .droppingSrcW }
  | .droppingSrcW => some { s with srcW := false, main := .droppingDstW }
  | .droppingDstW => some { s with dstW := false, main := .droppingSrcR }
  | .droppingSrcR => some { s with srcR := false, main := .droppingDst }
  | .droppingDst => some { s with dst := s.dst.kill, main := .awaitingDst }
  | .awaitingDst =>
    if s.dst.status.isSome then
      some { s with
        dst := { s.dst with reaped := true }, main := .returned (.error .startSrc) }
    else none
  | .closingSrcW =>
    some { s with
      srcW := false, filter := .reading [], waiting := true, main := .selecting 2 }
  | .selecting _ => none
  | .killingDst turns =>
    if s.dst.reaped then some { s with main := .next turns }
    else some { s with dst := s.dst.kill, dstKilled := true, main := .next turns }
  | .killingSrc turns =>
    if s.src.reaped then some { s with main := .next turns }
    else some { s with src := s.src.kill, srcKilled := true, main := .next turns }
  | .awaitingFilter =>
    match s.filterDone with
    | none => none
    | some filterErr =>
      some { s with
        main := .returned (pipelineResult s.srcErr.join s.dstErr.join s.srcKilled s.dstKilled
          filterErr) }
  | .returned _ => none

/-- `case err := <-srcDone`: `psql` is killed if it was not waited for yet. -/
def receiveSrc (s : Pipeline) : Option Pipeline :=
  match s.main, s.src.done, s.srcErr with
  | .selecting (turns + 1), some err, none =>
    some { s with
      srcErr := some err
      main := if err.isSome && !s.dst.reaped then .killingDst turns else .next turns }
  | _, _, _ => none

/-- `case err := <-dstDone`: `pg_dump` is killed if it was not waited for yet. -/
def receiveDst (s : Pipeline) : Option Pipeline :=
  match s.main, s.dst.done, s.dstErr with
  | .selecting (turns + 1), some err, none =>
    some { s with
      dstErr := some err
      main := if s.src.reaped then .next turns else .killingSrc turns }
  | _, _, _ => none

/-- One step of the filter goroutine, over `filterIncompatibleLines`; `readErr` is an error of the
pipe that is not its end. -/
def filterStep (s : Pipeline) (readErr : Option String) : Option Pipeline :=
  match s.filter with
  | .unstarted => none
  | .reading line =>
    match readErr with
    | some err => some { s with filter := .ofLine line (some (some err)) }
    | none =>
      match s.srcPipe with
      | c :: rest =>
        let line := line ++ [c]
        some { s with
          srcPipe := rest
          filter := if c = '\n' then .ofLine line none else .reading line }
      | [] =>
        -- the end of the input: no writer is left
        if s.srcW || s.src.running then none
        else some { s with filter := .ofLine line (some none) }
  | .writing [] none => some { s with filter := .reading [] }
  | .writing [] (some err) => some { s with filter := .closingSrcR err }
  | .writing (c :: text) ends =>
    if s.dstR || s.dst.running then
      some { s with dstPipe := s.dstPipe ++ [c], filter := .writing text ends }
    else some { s with filter := .closingSrcR (some "broken pipe") }
  | .closingSrcR err => some { s with srcR := false, filter := .closingDstW err }
  | .closingDstW err => some { s with dstW := false, filter := .sending err }
  | .sending err => some { s with filterDone := some err, filter := .sent }
  | .sent => none

/-- `pg_dump` writes a character, and is stopped by a signal if no reader is left. -/
def dumpWrite (s : Pipeline) (c : Char) : Option Pipeline :=
  if s.src.running then
    if s.srcR then some { s with srcPipe := s.srcPipe ++ [c] }
    else some { s with src := s.src.exit (.signal "broken pipe") }
  else none

/-- `pg_dump` exits. -/
def dumpExit (s : Pipeline) (n : ℕ) : Option Pipeline :=
  if s.src.running then some { s with src := s.src.exit (.code n) } else none

/-- `psql` reads its input.  Without one transaction around it, statements take effect at once. -/
def psqlRead (args : List String) (s : Pipeline) : Option Pipeline :=
  match s.dstPipe with
  | [] => none
  | c :: rest =>
    if s.dst.running && !s.psql.finished then
      some { s with
        dstPipe := rest
        psql := { s.psql with
          input := s.psql.input ++ [c]
          committed := s.psql.committed || !singleTransaction args } }
    else none

/-- `psql` runs into an error, and stops if it is told to. -/
def psqlError (args : List String) (s : Pipeline) (n : ℕ) : Option Pipeline :=
  if s.dst.running && !s.psql.finished then
    some { s with
      psql := { s.psql with failed := true }
      dst := if onErrorStop args then s.dst.exit (.code (n + 1)) else s.dst }
  else none

/-- `psql` reads the end of its input, and commits unless there was an error. -/
def psqlEnd (s : Pipeline) : Option Pipeline :=
  if s.dst.running && !s.psql.finished && s.dstPipe.isEmpty && !s.dstW then
    some { s with
      psql := { s.psql with
        finished := true, committed := s.psql.committed || !s.psql.failed } }
  else none

def psqlExit (s : Pipeline) : Option Pipeline :=
  if s.psql.finished && s.dst.running then some { s with dst := s.dst.exit (.code 0) } else none

/-- The two commands. -/
inductive Side where
  | src
  | dst
  deriving DecidableEq, Repr

def Pipeline.cmd (s : Pipeline) : Side → Cmd
  | .src => s.src
  | .dst => s.dst

def Pipeline.setCmd (s : Pipeline) (c : Cmd) : Side → Pipeline
  | .src => { s with src := c }
  | .dst => { s with dst := c }

/-- `Wait`: the process is waited for, and `ProcessState` is set. -/
def reap (s : Pipeline) (side : Side) : Option Pipeline :=
  let c := s.cmd side
  if s.waiting && c.status.isSome && !c.reaped then
    some (s.setCmd { c with reaped := true } side)
  else none

/-- The goroutine that waits sends what `Wait` returned. -/
def sendDone (s : Pipeline) (side : Side) : Option Pipeline :=
  let c := s.cmd side
  if s.waiting && c.reaped && c.done.isNone then
    some (s.setCmd { c with done := some c.waitErr } side)
  else none

/-- The context is cancelled, and `exec.CommandContext` kills the process. -/
def cancel (s : Pipeline) (side : Side) : Option Pipeline :=
  let c := s.cmd side
  if c.started && !c.reaped then some (s.setCmd { c.kill with cancelled := true } side) else none

inductive Action where
  | main (ok : Bool)
  | receiveSrc
  | receiveDst
  | filter (readErr : Option String)
  | dumpWrite (c : Char)
  | dumpExit (n : ℕ)
  | psqlRead
  | psqlError (n : ℕ)
  | psqlEnd
  | psqlExit
  | reap (side : Side)
  | sendDone (side : Side)
  | cancel (side : Side)

/-- Every party takes a step when it can. -/
def Pipeline.step (args : List String) (s : Pipeline) : Action → Option Pipeline
  | .main ok => mainStep s ok
  | .receiveSrc => PgDump.receiveSrc s
  | .receiveDst => PgDump.receiveDst s
  | .filter readErr => filterStep s readErr
  | .dumpWrite c => PgDump.dumpWrite s c
  | .dumpExit n => PgDump.dumpExit s n
  | .psqlRead => PgDump.psqlRead args s
  | .psqlError n => PgDump.psqlError args s n
  | .psqlEnd => PgDump.psqlEnd s
  | .psqlExit => PgDump.psqlExit s
  | .reap side => PgDump.reap s side
  | .sendDone side => PgDump.sendDone s side
  | .cancel side => PgDump.cancel s side

/-! ### What a process can become -/

/-- A command is waited for when it has ended, and what was reported of it, by the goroutine that
waits or as the error that was received, is what `Wait` returned. -/
structure Cmd.Honest (c : Cmd) (err : Option (Option WaitError)) : Prop where
  reaped : c.reaped = true → c.status ≠ none
  unstarted : c.started = false → c.status = none
  reported : ∀ e, c.done = some e ∨ err = some e → c.reaped = true ∧ c.waitErr = e

/-- What stays of a command. -/
structure Cmd.Later (c c' : Cmd) : Prop where
  status : ∀ st, c.status = some st → c'.status = some st
  running : c.running = false → c'.running = false
  started : c'.started = c.started
  honest : ∀ err, c.Honest err → c'.Honest err

namespace Cmd

variable {c : Cmd}

theorem Later.refl (c : Cmd) : c.Later c :=
  ⟨fun _ h => h, id, rfl, fun _ h => h⟩

theorem Later.exit (c : Cmd) (st : ExitStatus) : c.Later (c.exit st) := by
  rw [Cmd.exit]
  split_ifs with hrunning
  · have ⟨hstarted, hnone⟩ := Bool.and_eq_true_iff.mp hrunning
    rw [Option.isNone_iff_eq_none] at hnone
    -- a process that runs was not waited for, so that nothing was reported of it
    refine ⟨fun st h => ?_, fun h => absurd (hrunning.symm.trans h) (by decide), rfl, fun err h =>
      ⟨fun hreaped => absurd hnone (h.reaped hreaped),
        fun hs => absurd (hstarted.symm.trans hs) (by decide),
        fun e he => absurd hnone (h.reaped (h.reported e he).1)⟩⟩
    rw [hnone] at h
    cases h
  · exact refl c

theorem Later.reap (h : c.status ≠ none) : c.Later { c with reaped := true } :=
  ⟨fun _ h => h, id, rfl, fun _ hc => ⟨fun _ => h, hc.unstarted, fun e he =>
    ⟨rfl, (hc.reported e he).2⟩⟩⟩

theorem Later.send (h : c.reaped = true) : c.Later { c with done := some c.waitErr } :=
  ⟨fun _ h => h, id, rfl, fun _ hc => ⟨hc.reaped, hc.unstarted, fun e he =>
    he.elim (fun hdone => ⟨h, Option.some.inj hdone⟩) fun herr => hc.reported e (Or.inr herr)⟩⟩

theorem Later.cancel (h : c.reaped = false) : c.Later { c.kill with cancelled := true } := by
  have hkill := Later.exit c (.signal "killed")
  refine ⟨hkill.status, hkill.running, hkill.started, fun err hc =>
    ⟨(hkill.honest err hc).reaped, (hkill.honest err hc).unstarted, fun e he => ?_⟩⟩
  have hdone : (c.exit (.signal "killed")).done = c.done := by
    rw [Cmd.exit]
    split <;> rfl
  exact absurd (h.symm.trans (hc.reported e (he.imp_left hdone.symm.trans)).1) (by decide)

/-- What was sent is received. -/
theorem Honest.receive {e : Option WaitError} (h : c.Honest none) (hdone : c.done = some e) :
    c.Honest (some e) :=
  ⟨h.reaped, h.unstarted, fun e' he => h.reported e' (Or.inl (he.elim id hdone.trans))⟩

theorem exit_zero (h : (c.exit (.signal "killed")).status = some (.code 0)) :
    c.status = some (.code 0) := by
  rw [exit] at h
  split_ifs at h
  · cases h
  · exact h

/-- `Wait` returns an exit error only for a process that has failed. -/
theorem waitErr_exit {st : ExitStatus} (h : c.waitErr = some (.exit st)) :
    c.status ≠ some (.code 0) := by
  intro hzero
  rw [waitErr, hzero] at h
  split_ifs at h
  cases h

/-- A process that has ended and of which `Wait` returns no error has succeeded. -/
theorem waitErr_none (h : c.waitErr = none) (hended : c.status ≠ none) :
    c.status = some (.code 0) := by
  unfold waitErr at h
  split at h
  · exact absurd ‹_› hended
  · assumption
  · cases h

end Cmd

/-! ### When the transaction is safe -/

/-- The steps that close the input of `psql`. -/
def closesInput (s : Pipeline) : Action → Bool
  | .main ok =>
    match s.main with
    | .startingDst => !ok
    | .droppingDstW => true
    | _ => false
  | .filter _ =>
    match s.filter with
    | .closingDstW _ => true
    | _ => false
  | _ => false

/-- The input is closed behind a `pg_dump` that has succeeded, or without a `psql`. -/
def ClosedLate (s : Pipeline) (a : Action) : Prop :=
  closesInput s a = true → s.src.status = some (.code 0) ∨ s.dst.running = false

instance (s : Pipeline) (a : Action) : Decidable (ClosedLate s a) :=
  inferInstanceAs (Decidable (closesInput s a = true →
    s.src.status = some (.code 0) ∨ s.dst.running = false))

/-- `runPipeline` has returned an error because `pg_dump` failed. -/
def MainState.blamesDump : MainState → Bool
  | .returned (.error .startSrc) => true
  | .returned (.error (.srcFailed (.exit _))) => true
  | _ => false

/-! ### What every step keeps -/

/-- What `runPipeline` knows at each place: `pg_dump` was not started, or what was received. -/
def MainState.Sound (started : Bool) (srcErr dstErr : Option (Option WaitError)) : MainState → Prop
  | .startingDst | .closingDstR | .startingSrc => started = false
  | .droppingSrcW | .droppingDstW | .droppingSrcR | .droppingDst | .awaitingDst => started = false
  | .selecting turns | .killingDst turns | .killingSrc turns =>
    (turns < 2 → srcErr ≠ none ∨ dstErr ≠ none) ∧ (turns < 1 → srcErr ≠ none ∧ dstErr ≠ none)
  | .awaitingFilter => srcErr ≠ none ∧ dstErr ≠ none
  | .returned (.error .startSrc) => started = false
  | .returned (.error (.srcFailed err)) => srcErr = some (some err)
  | .returned (.ok ()) => srcErr = some none ∧ dstErr = some none
  | _ => True

/-- What holds in every interleaving, and what holds besides while the input is closed late. -/
structure Inv (late : Prop) (s : Pipeline) : Prop where
  finished : s.psql.finished = true → s.psql.committed = true ∧ s.psql.failed = false
  failed : s.psql.failed = true → s.dst.status ≠ none
  exited : s.dst.status = some (.code 0) → s.psql.finished = true
  src : s.src.Honest s.srcErr
  dst : s.dst.Honest s.dstErr
  early : s.main = .startingDst → s.dstW = true ∧ s.filter = .unstarted
  main : s.main.Sound s.src.started s.srcErr s.dstErr
  committed : late → s.psql.committed = true → s.src.status = some (.code 0)
  closed : late → s.dstW = false → s.src.status = some (.code 0) ∨ s.dst.running = false

theorem inv_start (late : Prop) : Inv late {} :=
  ⟨nofun, nofun, nofun, ⟨nofun, fun _ => rfl, nofun⟩, ⟨nofun, fun _ => rfl, nofun⟩,
    fun _ => ⟨rfl, rfl⟩, rfl, nofun, nofun⟩

section Steps

variable {late : Prop} {args : List String} {s s' : Pipeline} {a : Action} {c : Cmd}
  {started : Bool} {srcErr dstErr : Option (Option WaitError)} {turns : ℕ}

theorem Inv.setSrc (h : Inv late s) (hc : s.src.Later c) : Inv late { s with src := c } where
  finished := h.finished
  failed := h.failed
  exited := h.exited
  src := hc.honest _ h.src
  dst := h.dst
  early := h.early
  main := hc.started ▸ h.main
  committed hlate hcommitted := hc.status _ (h.committed hlate hcommitted)
  closed hlate hw := (h.closed hlate hw).imp_left (hc.status _)

/-- `psql` changes without exiting with success. -/
theorem Inv.setDst (h : Inv late s) (hc : s.dst.Later c)
    (hzero : c.status = some (.code 0) → s.dst.status = some (.code 0)) :
    Inv late { s with dst := c } where
  finished := h.finished
  failed hfailed := by
    obtain ⟨st, hst⟩ := Option.ne_none_iff_exists'.mp (h.failed hfailed)
    exact Option.ne_none_iff_exists'.mpr ⟨st, hc.status st hst⟩
  exited hc := h.exited (hzero hc)
  src := h.src
  dst := hc.honest _ h.dst
  early := h.early
  main := h.main
  committed := h.committed
  closed hlate hw := (h.closed hlate hw).imp_right hc.running

/-- The pipes, the filter and the flags change. -/
theorem Inv.pipes (h : Inv late s) {srcPipe dstPipe : List Char}
    {srcW srcR dstW dstR waiting srcKilled dstKilled : Bool} {filter : FilterState}
    {filterDone : Option (Option String)}
    (hearly : s.main = .startingDst → dstW = true ∧ filter = .unstarted)
    (hclosed : late → dstW = false → s.src.status = some (.code 0) ∨ s.dst.running = false) :
    Inv late { s with
      srcPipe := srcPipe, dstPipe := dstPipe, srcW := srcW, srcR := srcR, dstW := dstW
      dstR := dstR, filter := filter, filterDone := filterDone, waiting := waiting
      srcKilled := srcKilled, dstKilled := dstKilled } :=
  ⟨h.finished, h.failed, h.exited, h.src, h.dst, hearly, h.main, h.committed, hclosed⟩

/-- `runPipeline` moves on to `m`. -/
theorem Inv.moves (h : Inv late s) (m : MainState) {srcW srcR dstW dstR waiting srcKilled
    dstKilled : Bool} {filter : FilterState} (hm : m ≠ .startingDst)
    (hsound : m.Sound s.src.started s.srcErr s.dstErr)
    (hclosed : late → dstW = false → s.src.status = some (.code 0) ∨ s.dst.running = false) :
    Inv late { s with
      srcW := srcW, srcR := srcR, dstW := dstW, dstR := dstR, filter := filter
      waiting := waiting, srcKilled := srcKilled, dstKilled := dstKilled, main := m } :=
  ⟨h.finished, h.failed, h.exited, h.src, h.dst, fun he => absurd he hm, hsound, h.committed,
    hclosed⟩

theorem next_ne (turns : ℕ) : MainState.next turns ≠ .startingDst := by
  cases turns <;> exact nofun

theorem sound_next : (MainState.next turns).Sound started srcErr dstErr ↔
    (MainState.selecting turns).Sound started srcErr dstErr := by
  cases turns with
  | zero => exact ⟨fun h => ⟨fun _ => Or.inl h.1, fun _ => h⟩, fun h => h.2 Nat.zero_lt_one⟩
  | succ n => exact Iff.rfl

/-- The loop ends with the error of a process that was received, or of the filter. -/
theorem sound_result (hsrc : srcErr ≠ none) (hdst : dstErr ≠ none) (srcKilled dstKilled : Bool)
    (filterErr : Option String) :
    (MainState.returned (pipelineResult srcErr.join dstErr.join srcKilled dstKilled
      filterErr)).Sound started srcErr dstErr := by
  rcases srcErr with _ | _ | _ <;> rcases dstErr with _ | _ | _ <;> cases srcKilled <;>
    cases dstKilled <;> cases filterErr <;> simp_all [pipelineResult, MainState.Sound]

theorem sound_receiveSrc (e : Option WaitError)
    (h : (MainState.selecting (turns + 1)).Sound started none dstErr) :
    (MainState.selecting turns).Sound started (some e) dstErr :=
  ⟨fun _ => Or.inl (Option.some_ne_none e), fun hlast =>
    ⟨Option.some_ne_none e, (h.1 (by omega)).resolve_left fun hne => hne rfl⟩⟩

theorem sound_receiveDst (e : Option WaitError)
    (h : (MainState.selecting (turns + 1)).Sound started srcErr none) :
    (MainState.selecting turns).Sound started srcErr (some e) :=
  ⟨fun _ => Or.inr (Option.some_ne_none e), fun hlast =>
    ⟨(h.1 (by omega)).resolve_right fun hne => hne rfl, Option.some_ne_none e⟩⟩

theorem mainStep_inv {ok : Bool} (h : Inv late s) (hlate : late → ClosedLate s (.main ok))
    (hstep : mainStep s ok = some s') : Inv late s' := by
  have hmain := h.main
  unfold mainStep at hstep
  split at hstep
  case h_1 hm =>
    rw [hm] at hmain
    split_ifs at hstep with hok <;> cases hstep
    · -- the input of `psql` is still open
      have hopen (hw : s.dstW = false) := (h.early hm).1.symm.trans hw
      exact ⟨h.finished, h.failed, h.exited, h.src, ⟨h.dst.reaped, nofun, h.dst.reported⟩, nofun,
        hmain, h.committed, fun _ hw => absurd (hopen hw) (by decide)⟩
    · exact h.moves (.returned _) nofun trivial fun hl _ =>
        hlate hl (by simp [closesInput, hm, hok])
  case h_2 hm =>
    rw [hm] at hmain
    cases hstep
    exact h.moves .startingSrc nofun hmain h.closed
  case h_3 hm =>
    rw [hm] at hmain
    split_ifs at hstep <;> cases hstep
    · exact ⟨h.finished, h.failed, h.exited, ⟨h.src.reaped, nofun, h.src.reported⟩, h.dst, nofun,
        trivial, h.committed, h.closed⟩
    · exact h.moves .droppingSrcW nofun hmain h.closed
  case h_4 hm =>
    rw [hm] at hmain
    cases hstep
    exact h.moves .droppingDstW nofun hmain h.closed
  case h_5 hm =>
    rw [hm] at hmain
    cases hstep
    exact h.moves .droppingSrcR nofun hmain fun hl _ => hlate hl (by simp [closesInput, hm])
  case h_6 hm =>
    rw [hm] at hmain
    cases hstep
    exact h.moves .droppingDst nofun hmain h.closed
  case h_7 hm =>
    rw [hm] at hmain
    cases hstep
    have hkill := h.setDst (.exit _ (.signal "killed")) Cmd.exit_zero
    exact hkill.moves .awaitingDst nofun hmain hkill.closed
  case h_8 hm =>
    rw [hm] at hmain
    split_ifs at hstep with hended
    cases hstep
    have hreap := h.setDst (.reap (Option.isSome_iff_ne_none.mp hended)) id
    exact hreap.moves (.returned (.error .startSrc)) nofun hmain hreap.closed
  case h_9 =>
    cases hstep
    exact h.moves (.selecting 2) nofun (by simp [MainState.Sound]) h.closed
  case h_11 hm =>
    rw [hm] at hmain
    split_ifs at hstep <;> cases hstep
    · exact h.moves _ (next_ne _) (sound_next.mpr hmain) h.closed
    · have hkill := h.setDst (.exit _ (.signal "killed")) Cmd.exit_zero
      exact hkill.moves _ (next_ne _) (sound_next.mpr hmain) hkill.closed
  case h_12 hm =>
    rw [hm] at hmain
    split_ifs at hstep <;> cases hstep
    · exact h.moves _ (next_ne _) (sound_next.mpr hmain) h.closed
    · have hkill := h.setSrc (.exit _ (.signal "killed"))
      have hlater := Cmd.Later.exit s.src (.signal "killed")
      exact hkill.moves _ (next_ne _) (sound_next.mpr (hlater.started ▸ hmain)) hkill.closed
  case h_13 hm =>
    rw [hm] at hmain
    split at hstep <;> cases hstep
    exact h.moves (.returned _) nofun (sound_result hmain.1 hmain.2 _ _ _) h.closed
  case h_10 | h_14 => cases hstep

theorem receiveSrc_inv (h : Inv late s) (hstep : receiveSrc s = some s') : Inv late s' := by
  have ⟨hsrc, hmain⟩ := And.intro h.src h.main
  unfold receiveSrc at hstep
  split at hstep <;> cases hstep
  rename_i turns e hm hdone hnone
  rw [hm, hnone] at hmain
  rw [hnone] at hsrc
  have hreceived := sound_receiveSrc e hmain
  refine ⟨h.finished, h.failed, h.exited, hsrc.receive hdone, h.dst, fun he => ?_, ?_,
    h.committed, h.closed⟩
  · dsimp only at he
    split_ifs at he
    exact absurd he (next_ne _)
  · dsimp only
    split_ifs
    · exact hreceived
    · exact sound_next.mpr hreceived

theorem receiveDst_inv (h : Inv late s) (hstep : receiveDst s = some s') : Inv late s' := by
  have ⟨hdst, hmain⟩ := And.intro h.dst h.main
  unfold receiveDst at hstep
  split at hstep <;> cases hstep
  rename_i turns e hm hdone hnone
  rw [hm, hnone] at hmain
  rw [hnone] at hdst
  have hreceived := sound_receiveDst e hmain
  refine ⟨h.finished, h.failed, h.exited, h.src, hdst.receive hdone, fun he => ?_, ?_,
    h.committed, h.closed⟩
  · dsimp only at he
    split_ifs at he
    exact absurd he (next_ne _)
  · dsimp only
    split_ifs
    · exact sound_next.mpr hreceived
    · exact hreceived

/-- The filter goroutine touches the pipes only, and closes the input of `psql` in one place. -/
theorem filterStep_frame {readErr : Option String} (hstep : filterStep s readErr = some s') :
    ∃ srcPipe dstPipe srcR dstW filter filterDone,
      s' = { s with
        srcPipe := srcPipe, dstPipe := dstPipe, srcR := srcR, dstW := dstW, filter := filter
        filterDone := filterDone } ∧ s.filter ≠ .unstarted ∧
      (dstW = s.dstW ∨ ∃ err, s.filter = .closingDstW err) := by
  unfold filterStep at hstep
  split at hstep
  case h_7 err hfilter =>
    cases hstep
    exact ⟨_, _, _, _, _, _, rfl, by simp [hfilter], Or.inr ⟨err, hfilter⟩⟩
  all_goals repeat' split at hstep
  all_goals cases hstep
  all_goals exact ⟨_, _, _, _, _, _, rfl, by simp [*], Or.inl rfl⟩

theorem filterStep_inv {readErr : Option String} (h : Inv late s)
    (hlate : late → ClosedLate s (.filter readErr)) (hstep : filterStep s readErr = some s') :
    Inv late s' := by
  obtain ⟨_, _, _, dstW, _, _, rfl, hstarted, hdstW⟩ := filterStep_frame hstep
  -- the filter is started later than `psql`
  refine h.pipes (fun he => absurd (h.early he).2 hstarted) fun hl hw => ?_
  rcases hdstW with rfl | ⟨err, hclosing⟩
  · exact h.closed hl hw
  · exact hlate hl (by simp [closesInput, hclosing])

/-- A command changes as it may while it is waited for. -/
theorem Inv.setCmd (h : Inv late s) {side : Side} (hlater : (s.cmd side).Later c)
    (hzero : c.status = some (.code 0) → (s.cmd side).status = some (.code 0)) :
    Inv late (s.setCmd c side) := by
  cases side with
  | src => exact h.setSrc hlater
  | dst => exact h.setDst hlater hzero

theorem psqlError_inv {n : ℕ} (hstop : onErrorStop args = true) (h : Inv late s)
    (hstep : psqlError args s n = some s') : Inv late s' := by
  simp only [psqlError, if_pos hstop] at hstep
  split_ifs at hstep with hguard
  cases hstep
  simp only [Bool.and_eq_true, Bool.not_eq_true'] at hguard
  have hlater := Cmd.Later.exit s.dst (.code (n + 1))
  have hstatus : (s.dst.exit (.code (n + 1))).status = some (.code (n + 1)) := by
    rw [Cmd.exit, if_pos hguard.1]
  refine ⟨fun hfinished => ?_, fun _ => ?_, fun hzero => ?_, h.src, hlater.honest _ h.dst,
    h.early, h.main, h.committed, fun hl hw => (h.closed hl hw).imp_right hlater.running⟩
  · exact absurd (hguard.2.symm.trans hfinished) (by decide)
  · rw [hstatus]
    exact Option.some_ne_none _
  · cases hstatus.symm.trans hzero

/-- `psql` stops at an error, so that there was none, and commits at the end of its input. -/
theorem psqlEnd_inv (h : Inv late s) (hstep : psqlEnd s = some s') : Inv late s' := by
  unfold psqlEnd at hstep
  split_ifs at hstep with hguard
  cases hstep
  simp only [Bool.and_eq_true, Bool.not_eq_true'] at hguard
  have hrunning := hguard.1.1.1
  have hfailed : s.psql.failed = false := Bool.eq_false_iff.mpr fun hfailed =>
    h.failed hfailed (Option.isNone_iff_eq_none.mp (Bool.and_eq_true_iff.mp hrunning).2)
  refine ⟨fun _ => ⟨by simp [hfailed], hfailed⟩, h.failed, fun _ => rfl, h.src, h.dst, h.early,
    h.main, fun hl _ => ?_, h.closed⟩
  exact (h.closed hl hguard.2).resolve_right (by simp [hrunning])

theorem step_inv (hargs : singleTransaction args = true) (hstop : onErrorStop args = true)
    (h : Inv late s) (hlate : late → ClosedLate s a) (hstep : Pipeline.step args s a = some s') :
    Inv late s' := by
  cases a with
  | main ok => exact mainStep_inv h hlate hstep
  | receiveSrc => exact receiveSrc_inv h hstep
  | receiveDst => exact receiveDst_inv h hstep
  | filter readErr => exact filterStep_inv h hlate hstep
  | psqlError n => exact psqlError_inv hstop h hstep
  | psqlEnd => exact psqlEnd_inv h hstep
  | dumpWrite ch =>
    simp only [Pipeline.step, dumpWrite] at hstep
    split_ifs at hstep <;> cases hstep
    · exact h.pipes h.early h.closed
    · exact h.setSrc (.exit _ _)
  | dumpExit n =>
    simp only [Pipeline.step, dumpExit] at hstep
    split_ifs at hstep
    cases hstep
    exact h.setSrc (.exit _ _)
  | psqlRead =>
    simp only [Pipeline.step, psqlRead] at hstep
    split at hstep
    · cases hstep
    · split_ifs at hstep with hguard
      cases hstep
      simp only [Bool.and_eq_true, Bool.not_eq_true'] at hguard
      refine ⟨fun hfinished => ?_, h.failed, h.exited, h.src, h.dst, h.early, h.main,
        fun hl hc => h.committed hl ?_, h.closed⟩
      · exact absurd (hguard.2.symm.trans hfinished) (by decide)
      · simpa [hargs] using hc
  | psqlExit =>
    simp only [Pipeline.step, psqlExit] at hstep
    split_ifs at hstep with hguard
    cases hstep
    simp only [Bool.and_eq_true] at hguard
    have hok := (h.finished hguard.1).2
    have hlater := Cmd.Later.exit s.dst (.code 0)
    exact ⟨h.finished, fun hfailed => absurd (hok.symm.trans hfailed) (by decide),
      fun _ => hguard.1, h.src, hlater.honest _ h.dst, h.early, h.main, h.committed,
      fun hl hw => (h.closed hl hw).imp_right hlater.running⟩
  | reap side =>
    simp only [Pipeline.step, reap] at hstep
    split_ifs at hstep with hguard
    cases hstep
    simp only [Bool.and_eq_true] at hguard
    exact h.setCmd (.reap (Option.isSome_iff_ne_none.mp hguard.1.2)) id
  | sendDone side =>
    simp only [Pipeline.step, sendDone] at hstep
    split_ifs at hstep with hguard
    cases hstep
    simp only [Bool.and_eq_true] at hguard
    exact h.setCmd (.send hguard.1.2) id
  | cancel side =>
    simp only [Pipeline.step, cancel] at hstep
    split_ifs at hstep with hguard
    cases hstep
    simp only [Bool.and_eq_true, Bool.not_eq_true'] at hguard
    exact h.setCmd (.cancel hguard.2) Cmd.exit_zero

end Steps

/-- **All or nothing, if the input is closed late.**  In every interleaving in which the input of
`psql` is only closed behind a `pg_dump` that has succeeded, or when `psql` is not running: if
`runPipeline` returns an error because `pg_dump` failed, the transaction is not committed. -/
theorem failedDump_rolled_back {config : PostgresConfig} {host : String} {as : List Action}
    {s : Pipeline}
    (hlate : Along (Pipeline.step (buildPsqlArgs config host)) ClosedLate {} as)
    (hrun : runs (Pipeline.step (buildPsqlArgs config host)) {} as = some s)
    (hblames : s.main.blamesDump = true) : s.psql.committed = false := by
  have h := runs_invariant (Inv True) (fun _ _ _ h hl hs =>
    step_inv (buildPsqlArgs_singleTransaction config host) (buildPsqlArgs_onErrorStop config host)
      h (fun _ => hl) hs) (inv_start True) hlate hrun
  by_contra hcommitted
  rw [Bool.not_eq_false] at hcommitted
  have hok := h.committed trivial hcommitted
  have hknown := h.main
  cases hmain : s.main with
  | returned result =>
    rw [hmain] at hknown
    cases result with
    | ok _ => simp [hmain, MainState.blamesDump] at hblames
    | error err =>
      cases err with
      | startSrc => cases hok.symm.trans (h.src.unstarted hknown)
      | srcFailed err =>
        cases err with
        | cancelled => simp [hmain, MainState.blamesDump] at hblames
        | exit st => exact Cmd.waitErr_exit (h.src.reported _ (Or.inr hknown)).2 hok
      | _ => simp [hmain, MainState.blamesDump] at hblames
  | _ => simp [hmain, MainState.blamesDump] at hblames

/-- `pg_dump` fails in the middle of a line, and `psql` is killed before the filter sees the end. -/
def killedFirst : List Action :=
  [.main true, .main true, .main true, .main true, .dumpWrite 'S', .dumpWrite ';', .dumpExit 1,
    .reap .src, .sendDone .src, .receiveSrc, .main true] ++
  List.replicate 7 (.filter none) ++
  [.reap .dst, .sendDone .dst, .receiveDst, .main true]

theorem killedFirst_rolled_back :
    ∃ s, runs (Pipeline.step (buildPsqlArgs ⟨0, "app", ""⟩ "db")) {} killedFirst = some s ∧
      s.main = .returned (.error (.srcFailed (.exit (.code 1)))) ∧
      s.psql.committed = false := by
  have hrun : runs (Pipeline.step (buildPsqlArgs ⟨0, "app", ""⟩ "db")) {} killedFirst =
    some _ := rfl
  exact ⟨_, hrun, rfl, failedDump_rolled_back (along_of_check (by decide +kernel)) hrun rfl⟩

/-- `pg_dump` fails after a line, and `psql` reads the line and the end of its input before
`runPipeline` receives the failure. -/
def committedFirst : List Action :=
  [.main true, .main true, .main true, .main true, .dumpWrite 'S', .dumpWrite ';',
    .dumpWrite '\n', .dumpExit 1] ++
  List.replicate 12 (.filter none) ++
  [.psqlRead, .psqlRead, .psqlRead, .psqlEnd, .psqlExit, .reap .src, .sendDone .src, .receiveSrc,
    .main true, .reap .dst, .sendDone .dst, .receiveDst, .main true]

theorem failedDump_committed :
    ∃ s, runs (Pipeline.step (buildPsqlArgs ⟨0, "app", ""⟩ "db")) {} committedFirst = some s ∧
      s.main = .returned (.error (.srcFailed (.exit (.code 1)))) ∧
      s.psql.committed = true ∧ s.psql.input = ['S', ';', '\n'] := by
  exact ⟨_, rfl, rfl, rfl, rfl⟩

/-! ### What success means -/

/-- **Success is never reported in vain.**  In every interleaving, if `runPipeline` returns
without an error, `pg_dump` and `psql` have exited with status zero, and `psql` has read its input
to the end without an error and committed it. -/
theorem success_committed {config : PostgresConfig} {host : String} {as : List Action}
    {s : Pipeline} (hrun : runs (Pipeline.step (buildPsqlArgs config host)) {} as = some s)
    (hok : s.main = .returned (.ok ())) :
    s.src.status = some (.code 0) ∧ s.dst.status = some (.code 0) ∧
      s.psql.finished = true ∧ s.psql.committed = true ∧ s.psql.failed = false := by
  have h := runs_keeps (Inv False) (fun _ _ _ h hs =>
    step_inv (buildPsqlArgs_singleTransaction config host) (buildPsqlArgs_onErrorStop config host)
      h nofun hs) (inv_start False) hrun
  have hmain := h.main
  rw [hok] at hmain
  have hsucceeded {c : Cmd} {err : Option (Option WaitError)} (hc : c.Honest err)
      (herr : err = some none) : c.status = some (.code 0) :=
    Cmd.waitErr_none (hc.reported _ (Or.inr herr)).2 (hc.reaped (hc.reported _ (Or.inr herr)).1)
  have hzero := hsucceeded h.dst hmain.2
  exact ⟨hsucceeded h.src hmain.1, hzero, h.exited hzero, h.finished (h.exited hzero)⟩

/-- A dump of one character. -/
theorem success_committed_short :
    ∃ as s, runs (Pipeline.step (buildPsqlArgs ⟨0, "app", ""⟩ "db")) {} as = some s ∧
      s.psql.input = [';'] ∧ s.psql.committed = true := by
  have hrun : runs (Pipeline.step (buildPsqlArgs ⟨0, "app", ""⟩ "db")) {}
      (List.replicate 4 (.main true) ++ [.dumpWrite ';', .dumpExit 0] ++
        List.replicate 7 (.filter none) ++ [.psqlRead, .psqlEnd, .psqlExit, .reap .src,
          .sendDone .src, .receiveSrc, .reap .dst, .sendDone .dst, .receiveDst, .main true]) =
      some _ := rfl
  exact ⟨_, _, hrun, rfl, (success_committed hrun rfl).2.2.2.1⟩

end PgDump
