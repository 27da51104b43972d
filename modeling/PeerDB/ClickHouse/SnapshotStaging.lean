/-
Staging a snapshot for ClickHouse (`SyncQRepRecords`, `pushDataToStagingForSnapshot`,
`writeToAvroFile`, `writeRecordsToOCFWriter`, `QRecordStream`).

The records of one partition arrive on a stream and are written to Avro files of about
`bytesPerAvroFile` bytes each.  For each file a goroutine, the reader, passes records on to
a substream until the size counter has reached the limit; another, the writer, takes them
from the substream, writes them and adds to the counter; `Upload` copies the file to the
stage.  Only when the reader saw the stream closed is `done` set.

The goroutines, the producer of the stream and a cancellation of the context take their
steps in any order, and the counter is read and written at any time.  What one step can be
is said once, in `ReaderMove`, `ChunkMove`, `MainMove` and `step_cases`; that no record is
lost is proved from these in `SnapshotSync`.

`Upload` is assumed to return without error only after it has read the file to its end; the
guard of the step `.upload none` is this assumption.
-/
import Mathlib.Algebra.GroupWithZero.Nat
import PeerDB.Lib.Loop
import Mathlib.Data.Nat.Notation
import Mathlib.Tactic.Common

open Loop

namespace SnapshotStaging

variable {R : Type}

/-! ### The stream -/

/-- Where the producer of a stream is; `Close` sets the error and then closes the
channel. -/
inductive Producer
  | sending
  | errSet
  | closed
deriving DecidableEq

structure Config where
  /-- The buffer of the stream's channel. -/
  buffer : ℕ
  /-- The error with which the stream is closed. -/
  err : Option String
  bytesPerAvroFile : Int64

inductive OutsideAction
  | produce
  | setErr
  | close
  | cancel
deriving DecidableEq

/-- What the goroutines share: the stream, the context and `done`. -/
structure Shared (R : Type) where
  /-- What the producer has still to send. -/
  unsent : List R
  /-- What is in the channel. -/
  queue : List R
  producer : Producer
  cancelled : Bool
  done : Bool
  unsent_nil : producer ≠ .sending → unsent = []

namespace Shared

variable (sh : Shared R)

/-- The records that nobody has received yet. -/
def left : List R :=
  sh.queue ++ sh.unsent

/-- The channel is closed and empty, which ends a `range` over it. -/
def drained : Bool :=
  sh.producer == .closed && sh.queue.isEmpty

/-- `Send` by the producer, into the buffer. -/
def produce (buffer : ℕ) : Option (Shared R) :=
  match h : sh.unsent with
  | x :: unsent =>
    if sh.queue.length < buffer then
      some { sh with
        unsent := unsent
        queue := sh.queue ++ [x]
        unsent_nil := fun hp => by simp [sh.unsent_nil hp] at h }
    else none
  | [] => none

/-- `Close`: the error is set. -/
def setErr : Option (Shared R) :=
  match sh.producer with
  | .sending =>
    if h : sh.unsent = [] then some { sh with producer := .errSet, unsent_nil := fun _ => h }
    else none
  | _ => none

/-- `Close`: the channel is closed. -/
def close : Option (Shared R) :=
  match h : sh.producer with
  | .errSet =>
    some { sh with producer := .closed, unsent_nil := fun _ => sh.unsent_nil (by simp [h]) }
  | _ => none

def cancel : Option (Shared R) :=
  if sh.cancelled then none else some { sh with cancelled := true }

/-- A step of the stream's producer or of the context. -/
def step (cfg : Config) : OutsideAction → Option (Shared R)
  | .produce => sh.produce cfg.buffer
  | .setErr => sh.setErr
  | .close => sh.close
  | .cancel => sh.cancel

/-- A record is received from the channel's buffer or, if that is empty, from a producer
that is waiting to send. -/
def receive : Option (R × Shared R) :=
  match h : sh.queue, h' : sh.unsent with
  | x :: queue, _ => some (x, { sh with queue := queue })
  | [], x :: unsent =>
    some (x, { sh with
      unsent := unsent
      unsent_nil := fun hp => by simp [sh.unsent_nil hp] at h' })
  | [], [] => none

def store (recordsDone : Bool) : Shared R :=
  { sh with done := sh.done || recordsDone }

/-- `Err`.  A goroutine that saw the channel closed sees the error; any other may see it
as soon as it is set, or not. -/
def readErr (cfg : Config) (seen : Bool) : Option String :=
  match sh.producer with
  | .sending => none
  | _ => if seen then cfg.err else none

end Shared

/-! ### One file -/

/-- The goroutine of `createChunkedSubstream`. -/
inductive Reader (R : Type)
  | receiving
  | sending (record : R)
  /-- A record was sent, and the size counter is read next. -/
  | checking
  /-- The loop is left. -/
  | stopping (recordsDone : Bool)
  | closing (recordsDone : Bool)
  /-- The substream is closed with this error. -/
  | ended (recordsDone : Bool) (err : Option String)

/-- Where the writer gets its records: from the stream itself, or from a substream with a
reader and a `sizeTracker`. -/
inductive Feed (R : Type)
  | stream
  | substream (reader : Reader R) (bytes : Int64)

/-- The goroutine that runs `WriteOCF`. -/
inductive Writer (R : Type)
  | starting
  | receiving
  | got (record : R)
  | converting (record : R)
  /-- A record was written, and its size is added next. -/
  | adding (size : Int64)
  | ended (err : Option String)

/-- `writeToAvroFile` under way. -/
structure Chunk (R : Type) where
  feed : Feed R
  writer : Writer R
  /-- The records in the file. -/
  written : List R

inductive WriteOutcome
  | written (size : Int64)
  | convertFailed (err : String)
  | encodeFailed (err : String)
  | panicked (value : String)
deriving DecidableEq

inductive ReaderAction
  | readRecord
  | readEnd
  | sendCancelled
  | checkSize
  | storeDone
  | closeSubstream (seen : Bool)
deriving DecidableEq

inductive ChunkAction
  | reader (a : ReaderAction)
  /-- A record goes over the substream's channel, which has no buffer. -/
  | handOver
  | startWriter (err : Option String)
  | takeRecord
  | endRecords
  | checkCtx
  | write (outcome : WriteOutcome)
  | addSize
deriving DecidableEq

def readerStep (cfg : Config) (sh : Shared R) (bytes : Int64) :
    Reader R → ReaderAction → Option (Shared R × Reader R)
  | .receiving, .readRecord => sh.receive.map fun x => (x.2, .sending x.1)
  | .receiving, .readEnd => if sh.drained then some (sh, .stopping true) else none
  | .sending _, .sendCancelled => if sh.cancelled then some (sh, .stopping false) else none
  | .checking, .checkSize =>
    if cfg.bytesPerAvroFile ≤ bytes then some (sh, .stopping false) else some (sh, .receiving)
  | .stopping recordsDone, .storeDone => some (sh.store recordsDone, .closing recordsDone)
  | .closing recordsDone, .closeSubstream seen =>
    some (sh, .ended recordsDone (sh.readErr cfg (recordsDone || seen)))
  | _, _ => none

def ocfError (err : String) : String :=
  "failed to write records to OCF writer: " ++ err

def streamError (err : String) : String :=
  ocfError ("failed to get record from stream: " ++ err)

def ctxErr : String := "context canceled"

def WriteOutcome.writer : WriteOutcome → Writer R
  | .written size => .adding size
  | .convertFailed err =>
    .ended (some (ocfError ("failed to convert QRecord to Avro compatible map: " ++ err)))
  | .encodeFailed err => .ended (some (ocfError ("failed to write record to OCF: " ++ err)))
  | .panicked value => .ended (some ("panic occurred during WriteOCF: " ++ value))

def WriteOutcome.append (record : R) (file : List R) : WriteOutcome → List R
  | .written _ => file ++ [record]
  | _ => file

/-- The error with which the writer's source of records ended, once it has. -/
def Feed.endErr (cfg : Config) (sh : Shared R) : Feed R → Option (Option String)
  | .stream => if sh.drained then some cfg.err else none
  | .substream (.ended _ err) _ => some err
  | .substream _ _ => none

def Feed.addSize (size : Int64) : Feed R → Feed R
  | .stream => .stream
  | .substream reader bytes => .substream reader (bytes + size)

def chunkStep (cfg : Config) (sh : Shared R) (c : Chunk R) :
    ChunkAction → Option (Shared R × Chunk R)
  | .reader a =>
    match c.feed with
    | .substream reader bytes =>
      (readerStep cfg sh bytes reader a).map fun x =>
        (x.1, { c with feed := .substream x.2 bytes })
    | .stream => none
  | .handOver =>
    match c.feed, c.writer with
    | .substream (.sending x) bytes, .receiving =>
      some (sh, { c with feed := .substream .checking bytes, writer := .got x })
    | _, _ => none
  | .startWriter err =>
    match c.writer with
    | .starting =>
      some (sh, { c with writer := (err.map fun e => .ended (some e)).getD .receiving })
    | _ => none
  | .takeRecord =>
    match c.feed, c.writer with
    | .stream, .receiving => sh.receive.map fun x => (x.2, { c with writer := .got x.1 })
    | _, _ => none
  | .endRecords =>
    match c.writer with
    | .receiving =>
      (c.feed.endErr cfg sh).map fun err => (sh, { c with writer := .ended (err.map streamError) })
    | _ => none
  | .checkCtx =>
    match c.writer with
    | .got x =>
      if sh.cancelled then some (sh, { c with writer := .ended (some (ocfError ctxErr)) })
      else some (sh, { c with writer := .converting x })
    | _ => none
  | .write outcome =>
    match c.writer with
    | .converting x =>
      some (sh, { c with writer := outcome.writer, written := outcome.append x c.written })
    | _ => none
  | .addSize =>
    match c.writer with
    | .adding size => some (sh, { c with feed := c.feed.addSize size, writer := .receiving })
    | _ => none

/-! ### The call -/

/-- Where `SyncQRepRecords` is. -/
inductive Main (R : Type)
  | schema
  | prepare
  /-- The condition of the loop. -/
  | loop
  /-- `ctx.Err()` at the start of a turn. -/
  | check
  | uploading (c : Chunk R)
  /-- `ctx.Err()` after the loop. -/
  | final
  | push
  | finish
  | returned (result : Except String ℕ)

structure State (R : Type) where
  shared : Shared R
  /-- The files of the stage. -/
  files : List (List R)
  main : Main R
  /-- What `pushDataToStagingForSnapshot` has returned. -/
  staged : Option (Except String (List (List R)))
  /-- The partition is recorded as synced. -/
  finished : Bool

def State.init (records : List R) : State R where
  shared :=
    { unsent := records, queue := [], producer := .sending, cancelled := false, done := false
      unsent_nil := fun h => absurd rfl h }
  files := []
  main := .schema
  staged := none
  finished := false

inductive MainAction
  | schema (seen : Bool)
  /-- `getAvroSchema` and `PeerDBS3BytesPerAvroFile`. -/
  | prepare (err : Option String)
  | loadDone
  | checkCtx
  | upload (err : Option String)
  | finalCtx
  | push (err : Option String)
  | finish (err : Option String)
deriving DecidableEq

inductive Action
  | outside (a : OutsideAction)
  | chunk (a : ChunkAction)
  | main (a : MainAction)
deriving DecidableEq

namespace State

variable (s : State R)

/-- The staging fails, and with it the call. -/
def fail (err : String) : State R :=
  { s with staged := some (.error err), main := .returned (.error err) }

/-- The staging returns its files. -/
def stage (files : List (List R)) : State R :=
  { s with files := files, staged := some (.ok files), main := .push }

end State

/-- A new chunk: `createChunkedSubstream` and the start of `writeToAvroFile`. -/
def newChunk : Chunk R :=
  ⟨.substream .receiving 0, .starting, []⟩

/-- `writeToAvroFile` on the stream itself. -/
def wholeStream : Chunk R :=
  ⟨.stream, .starting, []⟩

def mainStep (cfg : Config) (s : State R) : Main R → MainAction → Option (State R)
  | .schema, .schema seen =>
    match s.shared.readErr cfg seen with
    | some err => some { s with main := .returned (.error err) }
    | none => some { s with main := .prepare }
  | .prepare, .prepare (some err) => some (s.fail err)
  | .prepare, .prepare none =>
    if cfg.bytesPerAvroFile ≠ 0 then some { s with main := .loop }
    else some { s with main := .uploading wholeStream }
  | .loop, .loadDone =>
    if s.shared.done then some { s with main := .final } else some { s with main := .check }
  | .check, .checkCtx =>
    if s.shared.cancelled then some (s.fail ctxErr)
    else some { s with main := .uploading newChunk }
  | .uploading _, .upload (some err) => some (s.fail ("failed to upload to staging: " ++ err))
  | .uploading c, .upload none =>
    -- assumed: the upload has read the file to its end, so the writer has returned
    match c.writer, c.feed with
    | .ended (some err), _ => some (s.fail err)
    | .ended none, .stream => some (s.stage (s.files ++ [c.written]))
    | .ended none, .substream _ _ =>
      some { s with files := s.files ++ [c.written], main := .loop }
    | _, _ => none
  | .final, .finalCtx =>
    if s.shared.cancelled then some (s.fail ctxErr) else some (s.stage s.files)
  | .push, .push (some err) => some { s with main := .returned (.error err) }
  | .push, .push none => some { s with main := .finish }
  | .finish, .finish (some err) => some { s with main := .returned (.error err) }
  | .finish, .finish none =>
    some { s with finished := true, main := .returned (.ok (s.files.map List.length).sum) }
  | _, _ => none

/-- One step of one of the parties; none is taken after the call has returned. -/
def step (cfg : Config) (s : State R) (a : Action) : Option (State R) :=
  match s.main, a with
  | .returned _, _ => none
  | _, .outside a => (s.shared.step cfg a).map fun sh => { s with shared := sh }
  | .uploading c, .chunk a =>
    (chunkStep cfg s.shared c a).map fun x => { s with shared := x.1, main := .uploading x.2 }
  | _, .chunk _ => none
  | main, .main a => mainStep cfg s main a

/-! ### What a step can be -/

/-- The steps of the reader. -/
inductive ReaderMove (cfg : Config) (sh : Shared R) : Reader R → Shared R → Reader R → Prop
  | read {x : R} {sh' : Shared R} (h : sh.receive = some (x, sh')) :
    ReaderMove cfg sh .receiving sh' (.sending x)
  | drained (h : sh.drained = true) : ReaderMove cfg sh .receiving sh (.stopping true)
  | cancelled {x : R} (h : sh.cancelled = true) :
    ReaderMove cfg sh (.sending x) sh (.stopping false)
  | full : ReaderMove cfg sh .checking sh (.stopping false)
  | again : ReaderMove cfg sh .checking sh .receiving
  | store (recordsDone : Bool) :
    ReaderMove cfg sh (.stopping recordsDone) (sh.store recordsDone) (.closing recordsDone)
  | close (recordsDone seen : Bool) :
    ReaderMove cfg sh (.closing recordsDone) sh
      (.ended recordsDone (sh.readErr cfg (recordsDone || seen)))

theorem readerStep_move {cfg : Config} {sh sh' : Shared R} {bytes : Int64}
    {reader reader' : Reader R} {a : ReaderAction}
    (h : readerStep cfg sh bytes reader a = some (sh', reader')) :
    ReaderMove cfg sh reader sh' reader' := by
  unfold readerStep at h
  split at h
  · obtain ⟨⟨x, sh₁⟩, hreceive, heq⟩ := Option.map_eq_some_iff.mp h
    cases heq
    exact .read hreceive
  · split_ifs at h with hdrained
    cases h
    exact .drained hdrained
  · split_ifs at h with hcancelled
    cases h
    exact .cancelled hcancelled
  · split_ifs at h <;> cases h
    · exact .full
    · exact .again
  · cases h
    exact .store _
  · cases h
    exact .close _ _
  · cases h

/-- The steps of the reader and the writer of a file. -/
inductive ChunkMove (cfg : Config) (sh : Shared R) (c : Chunk R) : Shared R → Chunk R → Prop
  | reader {reader reader' : Reader R} {bytes : Int64} {sh' : Shared R}
    (hfeed : c.feed = .substream reader bytes) (h : ReaderMove cfg sh reader sh' reader') :
    ChunkMove cfg sh c sh' { c with feed := .substream reader' bytes }
  | handOver {x : R} {bytes : Int64} (hfeed : c.feed = .substream (.sending x) bytes)
    (hwriter : c.writer = .receiving) :
    ChunkMove cfg sh c sh { c with feed := .substream .checking bytes, writer := .got x }
  | start (hwriter : c.writer = .starting) : ChunkMove cfg sh c sh { c with writer := .receiving }
  | take {x : R} {sh' : Shared R} (hfeed : c.feed = .stream) (hwriter : c.writer = .receiving)
    (h : sh.receive = some (x, sh')) : ChunkMove cfg sh c sh' { c with writer := .got x }
  | finish (hwriter : c.writer = .receiving) (h : c.feed.endErr cfg sh = some none) :
    ChunkMove cfg sh c sh { c with writer := .ended none }
  | fail (hwriter : ∀ err, c.writer ≠ .ended err) (err : String) :
    ChunkMove cfg sh c sh { c with writer := .ended (some err) }
  | convert {x : R} (hwriter : c.writer = .got x) :
    ChunkMove cfg sh c sh { c with writer := .converting x }
  | write {x : R} (hwriter : c.writer = .converting x) (size : Int64) :
    ChunkMove cfg sh c sh { c with writer := .adding size, written := c.written ++ [x] }
  | addSize {size : Int64} (hwriter : c.writer = .adding size) :
    ChunkMove cfg sh c sh { c with feed := c.feed.addSize size, writer := .receiving }

theorem chunkStep_move {cfg : Config} {sh sh' : Shared R} {c c' : Chunk R} {a : ChunkAction}
    (h : chunkStep cfg sh c a = some (sh', c')) : ChunkMove cfg sh c sh' c' := by
  cases a <;> simp only [chunkStep] at h
  case reader a =>
    split at h
    · obtain ⟨⟨sh₁, reader'⟩, hreader, heq⟩ := Option.map_eq_some_iff.mp h
      cases heq
      exact .reader ‹_› (readerStep_move hreader)
    · cases h
  case handOver =>
    split at h <;> cases h
    exact .handOver ‹_› ‹_›
  case startWriter err =>
    split at h <;> cases h
    cases err with
    | none => exact .start ‹_›
    | some e => exact .fail (by simp [*]) e
  case takeRecord =>
    split at h
    · obtain ⟨⟨x, sh₁⟩, hreceive, heq⟩ := Option.map_eq_some_iff.mp h
      cases heq
      exact .take ‹_› ‹_› hreceive
    · cases h
  case endRecords =>
    split at h
    · obtain ⟨err, herr, heq⟩ := Option.map_eq_some_iff.mp h
      cases heq
      cases err with
      | none => exact .finish ‹_› herr
      | some e => exact .fail (by simp [*]) (streamError e)
    · cases h
  case checkCtx =>
    split at h
    · split_ifs at h <;> cases h
      · exact .fail (by simp [*]) _
      · exact .convert ‹_›
    · cases h
  case write outcome =>
    split at h <;> cases h
    cases outcome with
    | written size => exact .write ‹_› size
    | _ => exact .fail (by simp [*]) _
  case addSize =>
    split at h <;> cases h
    exact .addSize ‹_›

/-- The steps of the call. -/
inductive MainMove (cfg : Config) (s : State R) : Main R → State R → Prop
  | abort {m : Main R} (hm : ∀ r, m ≠ .returned r) (err : String) :
    MainMove cfg s m { s with main := .returned (.error err) }
  | fail {m : Main R} (hm : ∀ r, m ≠ .returned r) (err : String) : MainMove cfg s m (s.fail err)
  | prepare : MainMove cfg s .schema { s with main := .prepare }
  | loop : MainMove cfg s .prepare { s with main := .loop }
  | whole : MainMove cfg s .prepare { s with main := .uploading wholeStream }
  | leave (h : s.shared.done = true) : MainMove cfg s .loop { s with main := .final }
  | again (h : s.shared.done = false) : MainMove cfg s .loop { s with main := .check }
  | chunk (h : s.shared.cancelled ≠ true) :
    MainMove cfg s .check { s with main := .uploading newChunk }
  | wholeDone {c : Chunk R} (hwriter : c.writer = .ended none) (hfeed : c.feed = .stream) :
    MainMove cfg s (.uploading c) (s.stage (s.files ++ [c.written]))
  | chunkDone {c : Chunk R} {reader : Reader R} {bytes : Int64} (hwriter : c.writer = .ended none)
    (hfeed : c.feed = .substream reader bytes) :
    MainMove cfg s (.uploading c) { s with files := s.files ++ [c.written], main := .loop }
  | stage : MainMove cfg s .final (s.stage s.files)
  | push : MainMove cfg s .push { s with main := .finish }
  | finish : MainMove cfg s .finish
    { s with finished := true, main := .returned (.ok (s.files.map List.length).sum) }

theorem mainStep_move {cfg : Config} {s s' : State R} {m : Main R} {a : MainAction}
    (h : mainStep cfg s m a = some s') : MainMove cfg s m s' := by
  unfold mainStep at h
  split at h
  case h_1 =>
    split at h <;> cases h
    · exact .abort (by simp) _
    · exact .prepare
  case h_3 =>
    split_ifs at h <;> cases h
    · exact .loop
    · exact .whole
  case h_4 =>
    split_ifs at h with hdone <;> cases h
    · exact .leave hdone
    · exact .again (by simpa using hdone)
  case h_5 =>
    split_ifs at h with hcancelled <;> cases h
    · exact .fail (by simp) _
    · exact .chunk hcancelled
  case h_7 =>
    split at h <;> cases h
    · exact .fail (by simp) _
    · exact .wholeDone ‹_› ‹_›
    · exact .chunkDone ‹_› ‹_›
  case h_8 =>
    split_ifs at h <;> cases h
    · exact .fail (by simp) _
    · exact .stage
  case h_10 =>
    cases h
    exact .push
  case h_12 =>
    cases h
    exact .finish
  case h_2 | h_6 =>
    cases h
    exact .fail (by simp) _
  case h_9 | h_11 =>
    cases h
    exact .abort (by simp) _
  case h_13 => cases h

/-- What one step is: one of the producer or the context, one of the reader or the writer,
or one of the call. -/
theorem step_cases {cfg : Config} {s s' : State R} {a : Action} (h : step cfg s a = some s') :
    (∃ b sh, s.shared.step cfg b = some sh ∧ s' = { s with shared := sh }) ∨
    (∃ c sh c', s.main = .uploading c ∧ ChunkMove cfg s.shared c sh c' ∧
      s' = { s with shared := sh, main := .uploading c' }) ∨
    MainMove cfg s s.main s' := by
  cases hm : s.main with
  | returned r => simp [step, hm] at h
  | uploading c =>
    cases a with
    | outside b =>
      simp only [step, hm] at h
      obtain ⟨sh, hsh, rfl⟩ := Option.map_eq_some_iff.mp h
      exact Or.inl ⟨b, sh, hsh, rfl⟩
    | chunk b =>
      simp only [step, hm] at h
      obtain ⟨⟨sh, c'⟩, hchunk, rfl⟩ := Option.map_eq_some_iff.mp h
      exact Or.inr (Or.inl ⟨c, sh, c', rfl, chunkStep_move hchunk, rfl⟩)
    | main b =>
      simp only [step, hm] at h
      exact Or.inr (Or.inr (mainStep_move h))
  | _ =>
    cases a with
    | outside b =>
      simp only [step, hm] at h
      obtain ⟨sh, hsh, rfl⟩ := Option.map_eq_some_iff.mp h
      exact Or.inl ⟨b, sh, hsh, rfl⟩
    | chunk b => simp [step, hm] at h
    | main b =>
      simp only [step, hm] at h
      exact Or.inr (Or.inr (mainStep_move h))

/-! ### What the steps do to the stream -/

namespace Shared

variable {sh sh' : Shared R}

theorem drained_iff : sh.drained = true ↔ sh.producer = .closed ∧ sh.queue = [] := by
  rw [drained, Bool.and_eq_true_iff, beq_iff_eq, List.isEmpty_iff]

theorem left_of_drained (h : sh.drained = true) : sh.left = [] := by
  obtain ⟨hclosed, hqueue⟩ := drained_iff.mp h
  rw [left, hqueue, sh.unsent_nil (by simp [hclosed])]
  rfl

/-- The shared state `sh'` comes after `sh` without a goroutine of the call having taken a
step. -/
structure Le (sh sh' : Shared R) : Prop where
  left : sh'.left = sh.left
  done : sh'.done = sh.done
  drained : sh.drained = true → sh'.drained = true
  cancelled : sh.cancelled = true → sh'.cancelled = true

theorem produce_le {buffer : ℕ} (h : sh.produce buffer = some sh') : sh.Le sh' := by
  rw [produce] at h
  split at h
  · rename_i x unsent hunsent
    split_ifs at h
    cases h
    refine ⟨?_, rfl, fun hdrained => ?_, fun hc => hc⟩
    · simp [Shared.left, hunsent]
    · -- a closed stream has nothing to send
      have hleft := left_of_drained hdrained
      simp [Shared.left, hunsent] at hleft
  · cases h

theorem setErr_le (h : sh.setErr = some sh') : sh.Le sh' := by
  rw [setErr] at h
  split at h
  · rename_i hproducer
    split_ifs at h
    cases h
    refine ⟨rfl, rfl, fun hdrained => ?_, fun hc => hc⟩
    simp [drained_iff, hproducer] at hdrained
  · cases h

theorem close_le (h : sh.close = some sh') : sh.Le sh' := by
  rw [close] at h
  split at h
  · rename_i hproducer
    cases h
    refine ⟨rfl, rfl, fun hdrained => ?_, fun hc => hc⟩
    simp [drained_iff, hproducer] at hdrained
  · cases h

theorem cancel_le (h : sh.cancel = some sh') : sh.Le sh' := by
  rw [cancel] at h
  split_ifs at h
  cases h
  exact ⟨rfl, rfl, fun hdrained => hdrained, fun _ => rfl⟩

theorem step_le {cfg : Config} {a : OutsideAction} (h : sh.step cfg a = some sh') :
    sh.Le sh' := by
  cases a with
  | produce => exact produce_le h
  | setErr => exact setErr_le h
  | close => exact close_le h
  | cancel => exact cancel_le h

/-- A record that is received is the first of those that are left. -/
theorem receive_left {x : R} (h : sh.receive = some (x, sh')) :
    sh.left = x :: sh'.left ∧ sh'.done = sh.done := by
  rw [receive] at h
  split at h
  · rename_i y queue hqueue
    cases h
    simp [left, hqueue]
  · rename_i y unsent hqueue hunsent
    cases h
    simp [left, hqueue, hunsent]
  · cases h

end Shared

end SnapshotStaging
