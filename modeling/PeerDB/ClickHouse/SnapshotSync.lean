/-
The records of a snapshot reach the stage, each once and in order.

* `Reader.Sound` — where the records are, at each step of the reader;
* `Sound.step` — every step of every goroutine keeps account of them;
* `weight_step` — every step lowers a measure, and
  `exists_step` — until the call has returned there is a step that is not a failure;
* `staging_exact` — so the call returns under every schedule, the files it returns are the
  stream, and the partition is finished only if the stream ended without error.
-/
import PeerDB.ClickHouse.SnapshotStaging

open Loop

namespace SnapshotStaging

variable {R : Type}

/-! ### Where the records are -/

/-- The record a writer has received and not yet written. -/
def Writer.held : Writer R → List R
  | .got x => [x]
  | .converting x => [x]
  | _ => []

/-- With `taken` the records that have passed the reader: what is left of the stream comes
after them, unless a cancelled context made the reader drop a record.  A reader that saw
the end of the stream has passed on all of it. -/
def Reader.Sound (cfg : Config) (sh : Shared R) (records taken : List R) : Reader R → Prop
  | .receiving => sh.done = false ∧ taken ++ sh.left = records
  | .sending x => sh.done = false ∧ taken ++ x :: sh.left = records
  | .checking => sh.done = false ∧ taken ++ sh.left = records
  | .stopping true => sh.done = false ∧ sh.drained = true ∧ taken = records
  | .closing true => sh.done = true ∧ sh.drained = true ∧ taken = records
  | .ended true err => sh.done = true ∧ err = cfg.err ∧ taken = records
  | .stopping false => sh.done = false ∧ (sh.cancelled = true ∨ taken ++ sh.left = records)
  | .closing false => sh.done = false ∧ (sh.cancelled = true ∨ taken ++ sh.left = records)
  | .ended false _ => sh.done = false ∧ (sh.cancelled = true ∨ taken ++ sh.left = records)

def Feed.Sound (cfg : Config) (sh : Shared R) (records taken : List R) : Feed R → Prop
  | .stream => sh.done = false ∧ taken ++ sh.left = records
  | .substream reader _ => reader.Sound cfg sh records taken

/-- A writer that has failed makes the call fail, and nothing is said of its file; one that
has returned without error has seen its records end without error. -/
structure Chunk.Sound (cfg : Config) (sh : Shared R) (records : List R)
    (files : List (List R)) (c : Chunk R) : Prop where
  feed : (∀ e, c.writer ≠ .ended (some e)) →
    c.feed.Sound cfg sh records (files.flatten ++ (c.written ++ c.writer.held))
  ended : c.writer = .ended none → c.feed.endErr cfg sh = some none

section Environment

variable {cfg : Config} {sh sh' : Shared R} {records taken : List R}

theorem Reader.Sound.mono (hle : sh.Le sh') {reader : Reader R}
    (h : reader.Sound cfg sh records taken) : reader.Sound cfg sh' records taken := by
  cases reader with
  | receiving | sending | checking => exact ⟨hle.done.trans h.1, by rw [hle.left]; exact h.2⟩
  | stopping recordsDone =>
    cases recordsDone with
    | true => exact ⟨hle.done.trans h.1, hle.drained h.2.1, h.2.2⟩
    | false => exact ⟨hle.done.trans h.1, h.2.imp hle.cancelled fun heq => by rw [hle.left, heq]⟩
  | closing recordsDone =>
    cases recordsDone with
    | true => exact ⟨hle.done.trans h.1, hle.drained h.2.1, h.2.2⟩
    | false => exact ⟨hle.done.trans h.1, h.2.imp hle.cancelled fun heq => by rw [hle.left, heq]⟩
  | ended recordsDone err =>
    cases recordsDone with
    | true => exact ⟨hle.done.trans h.1, h.2⟩
    | false => exact ⟨hle.done.trans h.1, h.2.imp hle.cancelled fun heq => by rw [hle.left, heq]⟩

theorem Feed.Sound.mono (hle : sh.Le sh') {feed : Feed R}
    (h : feed.Sound cfg sh records taken) : feed.Sound cfg sh' records taken := by
  cases feed with
  | stream => exact ⟨hle.done.trans h.1, by rw [hle.left]; exact h.2⟩
  | substream reader bytes => exact Reader.Sound.mono hle h

theorem Feed.endErr_mono (hle : sh.Le sh') {feed : Feed R} {err : Option String}
    (h : feed.endErr cfg sh = some err) : feed.endErr cfg sh' = some err := by
  cases feed with
  | stream =>
    rw [endErr] at h ⊢
    split_ifs at h with hdrained
    rw [if_pos (hle.drained hdrained)]
    exact h
  | substream reader bytes => cases reader <;> exact h

theorem Chunk.Sound.mono (hle : sh.Le sh') {files : List (List R)} {c : Chunk R}
    (h : c.Sound cfg sh records files) : c.Sound cfg sh' records files where
  feed := fun hwriter => (h.feed hwriter).mono hle
  ended := fun hwriter => Feed.endErr_mono hle (h.ended hwriter)

/-- **A step of the reader keeps account of the records.** -/
theorem Reader.Sound.move {reader reader' : Reader R} (h : reader.Sound cfg sh records taken)
    (hmove : ReaderMove cfg sh reader sh' reader') : reader'.Sound cfg sh' records taken := by
  cases hmove with
  | read hreceive =>
    obtain ⟨hleft, hdone⟩ := Shared.receive_left hreceive
    refine ⟨hdone.trans h.1, ?_⟩
    rw [← hleft]
    exact h.2
  | drained hdrained =>
    refine ⟨h.1, hdrained, ?_⟩
    have hall := h.2
    rw [Shared.left_of_drained hdrained, List.append_nil] at hall
    exact hall
  | cancelled hcancelled => exact ⟨h.1, Or.inl hcancelled⟩
  | full => exact ⟨h.1, Or.inr h.2⟩
  | again => exact h
  | store recordsDone =>
    cases recordsDone with
    | true => exact ⟨Bool.or_true _, h.2⟩
    | false => exact ⟨by rw [Shared.store, h.1]; rfl, h.2⟩
  | close recordsDone seen =>
    cases recordsDone with
    | true =>
      -- the channel was seen closed, so the error of the stream is there to be read
      refine ⟨h.1, ?_, h.2.2⟩
      rw [Shared.readErr, (Shared.drained_iff.mp h.2.1).1, Bool.true_or]
      rfl
    | false => exact ⟨h.1, h.2⟩

/-- A reader that has ended takes no more steps. -/
theorem ReaderMove.not_ended {reader reader' : Reader R} {bytes : Int64} {err : Option String}
    (hmove : ReaderMove cfg sh reader sh' reader') :
    (Feed.substream reader bytes).endErr cfg sh ≠ some err := by
  cases hmove <;> simp [Feed.endErr]

theorem Feed.Sound.addSize {feed : Feed R} {size : Int64}
    (h : feed.Sound cfg sh records taken) : (feed.addSize size).Sound cfg sh records taken := by
  cases feed with
  | stream | substream => exact h

variable {files : List (List R)} {c c' : Chunk R}

theorem Chunk.Sound.of_failed {e : String} (hwriter : c.writer = .ended (some e)) :
    c.Sound cfg sh records files where
  feed := fun h => absurd hwriter (h e)
  ended := fun h => by simp [hwriter] at h

/-- The writer moves on, and the records that are in its file or in its hands stay the
same. -/
theorem Chunk.Sound.of_writer (h : c.Sound cfg sh records files)
    (hwriter : ∀ e, c.writer ≠ .ended e) {w : Writer R} {written : List R}
    (hw : w ≠ .ended none) (hheld : written ++ w.held = c.written ++ c.writer.held) :
    ({ c with writer := w, written := written } : Chunk R).Sound cfg sh records files where
  feed := by
    intro _
    show c.feed.Sound cfg sh records (files.flatten ++ (written ++ w.held))
    rw [hheld]
    exact h.feed fun e => hwriter (some e)
  ended := fun hended => absurd hended hw

/-- **A step of the reader or the writer keeps account of the records.** -/
theorem Chunk.Sound.move (h : c.Sound cfg sh records files) (hmove : ChunkMove cfg sh c sh' c') :
    c'.Sound cfg sh' records files := by
  cases hmove with
  | reader hfeed hreader =>
    refine ⟨fun hwriter => ?_, fun hwriter => ?_⟩
    · have hsound := h.feed hwriter
      rw [hfeed] at hsound
      exact Reader.Sound.move hsound hreader
    · have hended := h.ended hwriter
      rw [hfeed] at hended
      exact absurd hended hreader.not_ended
  | handOver hfeed hwriter =>
    refine ⟨fun _ => ?_, fun hended => by cases hended⟩
    have hsound := h.feed (by simp [hwriter])
    rw [hfeed, hwriter] at hsound
    refine ⟨hsound.1, ?_⟩
    simpa [Writer.held] using hsound.2
  | start hwriter => exact h.of_writer (by simp [hwriter]) (by simp) (by rw [hwriter]; rfl)
  | take hfeed hwriter hreceive =>
    obtain ⟨hleft, hdone⟩ := Shared.receive_left hreceive
    refine ⟨fun _ => ?_, fun hended => by cases hended⟩
    have hsound := h.feed (by simp [hwriter])
    rw [hfeed, hwriter] at hsound
    rw [hfeed]
    refine ⟨hdone.trans hsound.1, ?_⟩
    have hall := hsound.2
    rw [hleft] at hall
    simpa [Writer.held] using hall
  | finish hwriter hended =>
    refine ⟨fun _ => ?_, fun _ => hended⟩
    have hsound := h.feed (by simp [hwriter])
    rw [hwriter] at hsound
    exact hsound
  | fail hwriter err => exact Chunk.Sound.of_failed rfl
  | convert hwriter => exact h.of_writer (by simp [hwriter]) (by simp) (by rw [hwriter]; rfl)
  | write hwriter size =>
    refine h.of_writer (by simp [hwriter]) (by simp) ?_
    simp [hwriter, Writer.held]
  | addSize hwriter =>
    refine ⟨fun _ => ?_, fun hended => by cases hended⟩
    have hsound := h.feed (by simp [hwriter])
    rw [hwriter] at hsound
    exact hsound.addSize

end Environment

/-- What is known at each place of the call. -/
def Main.Sound (cfg : Config) (sh : Shared R) (records : List R) (files : List (List R))
    (staged : Option (Except String (List (List R)))) : Main R → Prop
  | .schema => files = [] ∧ sh.done = false ∧ sh.left = records
  | .prepare => files = [] ∧ sh.done = false ∧ sh.left = records
  | .loop =>
    (sh.done = true → files.flatten = records ∧ cfg.err = none) ∧
      (sh.done = false → sh.cancelled = true ∨ files.flatten ++ sh.left = records)
  | .check => sh.done = false ∧ (sh.cancelled = true ∨ files.flatten ++ sh.left = records)
  | .uploading c => c.Sound cfg sh records files
  | .final => files.flatten = records ∧ cfg.err = none
  | .push => staged = some (.ok files)
  | .finish => staged = some (.ok files)
  | .returned (.ok _) => ∃ files, staged = some (.ok files)
  | .returned (.error _) => True

structure Sound (cfg : Config) (records : List R) (s : State R) : Prop where
  main : s.main.Sound cfg s.shared records s.files s.staged
  staged : ∀ files, s.staged = some (.ok files) → files.flatten = records ∧ cfg.err = none
  finished : s.finished = true → ∃ n, s.main = .returned (.ok n)

namespace Sound

variable {cfg : Config} {records : List R} {s s' : State R}

theorem init (cfg : Config) (records : List R) : Sound cfg records (State.init records) where
  main := ⟨rfl, rfl, rfl⟩
  staged := by simp [State.init]
  finished := by simp [State.init]

/-- The producer or the context takes a step. -/
theorem mono (h : Sound cfg records s) {sh : Shared R} (hle : s.shared.Le sh) :
    Sound cfg records { s with shared := sh } where
  staged := h.staged
  finished := h.finished
  main := by
    have hmain := h.main
    show s.main.Sound cfg sh records s.files s.staged
    cases hm : s.main with
    | schema | prepare =>
      rw [hm] at hmain
      exact ⟨hmain.1, hle.done.trans hmain.2.1, hle.left.trans hmain.2.2⟩
    | loop =>
      rw [hm] at hmain
      refine ⟨fun hdone => hmain.1 (hle.done.symm.trans hdone), fun hdone => ?_⟩
      exact (hmain.2 (hle.done.symm.trans hdone)).imp hle.cancelled fun heq => by rw [hle.left, heq]
    | check =>
      rw [hm] at hmain
      exact ⟨hle.done.trans hmain.1, hmain.2.imp hle.cancelled fun heq => by rw [hle.left, heq]⟩
    | uploading c => rw [hm] at hmain; exact Chunk.Sound.mono hle hmain
    | final | push | finish => rw [hm] at hmain; exact hmain
    | returned r => rw [hm] at hmain; cases r <;> exact hmain

theorem not_finished (h : Sound cfg records s) (hmain : ∀ r, s.main ≠ .returned r) :
    s.finished ≠ true := by
  intro hfinished
  obtain ⟨n, hn⟩ := h.finished hfinished
  exact hmain _ hn

/-- The call moves on. -/
theorem move (h : Sound cfg records s) (hmain : ∀ r, s.main ≠ .returned r)
    {files : List (List R)} {m : Main R}
    (hm : m.Sound cfg s.shared records files s.staged) :
    Sound cfg records { s with files := files, main := m } where
  main := hm
  staged := h.staged
  finished := fun hfinished => absurd hfinished (h.not_finished hmain)

theorem fail (h : Sound cfg records s) (hmain : ∀ r, s.main ≠ .returned r) (err : String) :
    Sound cfg records (s.fail err) where
  main := trivial
  staged := by simp [State.fail]
  finished := fun hfinished => absurd hfinished (h.not_finished hmain)

theorem stage (h : Sound cfg records s) (hmain : ∀ r, s.main ≠ .returned r)
    {files : List (List R)} (hfiles : files.flatten = records) (herr : cfg.err = none) :
    Sound cfg records (s.stage files) where
  main := rfl
  staged := by
    intro files' hstaged
    cases hstaged
    exact ⟨hfiles, herr⟩
  finished := fun hfinished => absurd hfinished (h.not_finished hmain)

end Sound

section Files

variable {cfg : Config} {sh : Shared R} {records : List R} {files : List (List R)} {c : Chunk R}

/-- A writer that has returned without error has no record in its hands. -/
theorem Chunk.Sound.feed_of_ended (h : c.Sound cfg sh records files)
    (hwriter : c.writer = .ended none) :
    c.feed.Sound cfg sh records (files ++ [c.written]).flatten := by
  have hsound := h.feed (by simp [hwriter])
  have hheld : c.writer.held = [] := by rw [hwriter]; rfl
  rw [hheld, List.append_nil] at hsound
  simpa using hsound

/-- The file of a writer that read the stream itself completes the stream. -/
theorem Chunk.Sound.whole (h : c.Sound cfg sh records files) (hwriter : c.writer = .ended none)
    (hfeed : c.feed = .stream) : (files ++ [c.written]).flatten = records ∧ cfg.err = none := by
  have hended := h.ended hwriter
  have hsound := h.feed_of_ended hwriter
  rw [hfeed] at hsound
  rw [hfeed, Feed.endErr] at hended
  split_ifs at hended with hdrained
  refine ⟨?_, Option.some.inj hended⟩
  have hall := hsound.2
  rw [Shared.left_of_drained hdrained, List.append_nil] at hall
  exact hall

/-- After a chunk the loop ends with the whole stream, or goes on with what is left. -/
theorem Chunk.Sound.chunk (h : c.Sound cfg sh records files) (hwriter : c.writer = .ended none)
    {reader : Reader R} {bytes : Int64} (hfeed : c.feed = .substream reader bytes)
    {staged : Option (Except String (List (List R)))} :
    (Main.loop : Main R).Sound cfg sh records (files ++ [c.written]) staged := by
  have hended := h.ended hwriter
  have hsound := h.feed_of_ended hwriter
  rw [hfeed] at hended hsound
  cases reader with
  | ended recordsDone err =>
    cases hended
    cases recordsDone with
    | true =>
      obtain ⟨hdone, herr, hall⟩ := hsound
      exact ⟨fun _ => ⟨hall, herr.symm⟩, fun hnot => by simp [hdone] at hnot⟩
    | false =>
      obtain ⟨hdone, hall⟩ := hsound
      exact ⟨fun hnot => by simp [hdone] at hnot, fun _ => hall⟩
  | _ => cases hended

end Files

namespace Sound

variable {cfg : Config} {records : List R} {s s' : State R}

/-- **A step of the call itself keeps account of the records.** -/
theorem mainMove (h : Sound cfg records s) {m : Main R} (hm : s.main = m)
    (hmove : MainMove cfg s m s') : Sound cfg records s' := by
  have hmain := h.main
  rw [hm] at hmain
  cases hmove with
  | abort hne err => exact h.move (by rw [hm]; exact hne) trivial
  | fail hne err => exact h.fail (by rw [hm]; exact hne) err
  | prepare | push => exact h.move (by simp [hm]) hmain
  | loop =>
    obtain ⟨hfiles, hdone, hleft⟩ := hmain
    refine h.move (by simp [hm]) ⟨fun hnot => by simp [hdone] at hnot, fun _ => Or.inr ?_⟩
    rw [hfiles, hleft]
    rfl
  | whole =>
    obtain ⟨hfiles, hdone, hleft⟩ := hmain
    refine h.move (by simp [hm]) ⟨fun _ => ⟨hdone, ?_⟩, fun hw => by cases hw⟩
    rw [hfiles, hleft]
    rfl
  | leave hdone => exact h.move (by simp [hm]) (hmain.1 hdone)
  | again hdone => exact h.move (by simp [hm]) ⟨hdone, hmain.2 hdone⟩
  | chunk hcancelled =>
    -- the context is not cancelled, so no record was dropped
    obtain ⟨hdone, hall⟩ := hmain
    refine h.move (by simp [hm]) ⟨fun _ => ⟨hdone, ?_⟩, fun hw => by cases hw⟩
    simpa [newChunk, Writer.held] using hall.resolve_left hcancelled
  | wholeDone hwriter hfeed =>
    obtain ⟨hall, herr⟩ := Chunk.Sound.whole hmain hwriter hfeed
    exact h.stage (by simp [hm]) hall herr
  | chunkDone hwriter hfeed => exact h.move (by simp [hm]) (Chunk.Sound.chunk hmain hwriter hfeed)
  | stage => exact h.stage (by simp [hm]) hmain.1 hmain.2
  | finish => exact ⟨⟨s.files, hmain⟩, h.staged, fun _ => ⟨_, rfl⟩⟩

end Sound

/-- **Every step of every party keeps account of the records.** -/
theorem Sound.step {cfg : Config} {records : List R} {s s' : State R} {a : Action}
    (h : Sound cfg records s) (hstep : SnapshotStaging.step cfg s a = some s') :
    Sound cfg records s' := by
  rcases step_cases hstep with ⟨b, sh, hsh, rfl⟩ | ⟨c, sh, c', hm, hmove, rfl⟩ | hmove
  · exact h.mono (Shared.step_le hsh)
  · have hsound := h.main
    rw [hm] at hsound
    refine ⟨Chunk.Sound.move hsound hmove, h.staged, fun hfinished => ?_⟩
    exact absurd hfinished (h.not_finished (by simp [hm]))
  · exact h.mainMove rfl hmove

/-! ### Termination -/

def Producer.weight : Producer → ℕ
  | .sending => 2
  | .errSet => 1
  | .closed => 0

/-- A record pays for its own way and, if a chunk ends with it, for the next chunk. -/
def Shared.weight (sh : Shared R) : ℕ :=
  14 * sh.unsent.length + 13 * sh.queue.length + sh.producer.weight + (!sh.cancelled).toNat

def Reader.weight : Reader R → ℕ
  | .receiving => 3
  | .sending _ => 15
  | .checking => 11
  | .stopping recordsDone => if recordsDone then 2 else 10
  | .closing recordsDone => if recordsDone then 1 else 9
  | .ended recordsDone _ => if recordsDone then 0 else 8

def Feed.weight : Feed R → ℕ
  | .stream => 0
  | .substream reader _ => reader.weight

def Writer.weight : Writer R → ℕ
  | .starting => 2
  | .receiving => 1
  | .got _ => 4
  | .converting _ => 3
  | .adding _ => 2
  | .ended _ => 0

def Chunk.weight (c : Chunk R) : ℕ :=
  c.feed.weight + c.writer.weight

/-- While `done` is not set, another turn of the loop may follow. -/
def Main.weight (done : Bool) : Main R → ℕ
  | .schema => 15
  | .prepare => 14
  | .loop => if done then 5 else 13
  | .check => 12
  | .uploading c => 6 + c.weight
  | .final => 3
  | .push => 2
  | .finish => 1
  | .returned _ => 0

def State.weight (s : State R) : ℕ :=
  s.shared.weight + s.main.weight s.shared.done

section Weight

variable {cfg : Config} {sh sh' : Shared R}

theorem Shared.step_weight {a : OutsideAction} (h : sh.step cfg a = some sh') :
    sh'.weight < sh.weight := by
  cases a with
  | produce =>
    rw [Shared.step, produce] at h
    split at h
    · rename_i x unsent hunsent
      split_ifs at h
      cases h
      simp only [weight, hunsent, List.length_cons, List.length_append, List.length_nil]
      omega
    · cases h
  | setErr =>
    rw [Shared.step, setErr] at h
    split at h
    · rename_i hproducer
      split_ifs at h
      cases h
      simp only [weight, hproducer, Producer.weight]
      omega
    · cases h
  | close =>
    rw [Shared.step, close] at h
    split at h
    · rename_i hproducer
      cases h
      simp only [weight, hproducer, Producer.weight]
      omega
    · cases h
  | cancel =>
    rw [Shared.step, cancel] at h
    split_ifs at h with hcancelled
    cases h
    simp [weight, hcancelled]

theorem Shared.receive_weight {x : R} (h : sh.receive = some (x, sh')) :
    sh'.weight + 13 ≤ sh.weight := by
  rw [receive] at h
  split at h
  · rename_i y queue hqueue
    cases h
    simp only [weight, hqueue, List.length_cons]
    omega
  · rename_i y unsent hqueue hunsent
    cases h
    simp only [weight, hunsent, List.length_cons]
    omega
  · cases h

theorem ReaderMove.weight {reader reader' : Reader R}
    (h : ReaderMove cfg sh reader sh' reader') :
    sh'.weight + reader'.weight < sh.weight + reader.weight := by
  cases h with
  | read hreceive =>
    have hlt := Shared.receive_weight hreceive
    simp only [Reader.weight]
    omega
  | store recordsDone =>
    cases recordsDone <;> simp [Reader.weight, Shared.store, Shared.weight]
  | close recordsDone seen => cases recordsDone <;> simp [Reader.weight]
  | _ => simp [Reader.weight]

theorem Writer.weight_pos {w : Writer R} (h : ∀ err, w ≠ .ended err) : 0 < w.weight := by
  cases w with
  | ended err => exact absurd rfl (h err)
  | _ => simp [Writer.weight]

theorem ChunkMove.weight {c c' : Chunk R} (h : ChunkMove cfg sh c sh' c') :
    sh'.weight + c'.weight < sh.weight + c.weight := by
  cases h with
  | reader hfeed hreader =>
    have hlt := hreader.weight
    simp only [Chunk.weight, hfeed, Feed.weight]
    omega
  | handOver hfeed hwriter =>
    simp [Chunk.weight, hfeed, hwriter, Feed.weight, Reader.weight, Writer.weight]
  | take hfeed hwriter hreceive =>
    have hlt := Shared.receive_weight hreceive
    simp only [Chunk.weight, hwriter, Writer.weight]
    omega
  | fail hwriter err =>
    have hpos := Writer.weight_pos hwriter
    show sh.weight + (c.feed.weight + 0) < sh.weight + (c.feed.weight + c.writer.weight)
    omega
  | addSize hwriter =>
    cases hfeed : c.feed <;>
      simp [Chunk.weight, hfeed, hwriter, Feed.addSize, Feed.weight, Writer.weight]
  | start hwriter => simp [Chunk.weight, hwriter, Writer.weight]
  | finish hwriter hended => simp [Chunk.weight, hwriter, Writer.weight]
  | convert hwriter => simp [Chunk.weight, hwriter, Writer.weight]
  | write hwriter size => simp [Chunk.weight, hwriter, Writer.weight]

variable {records : List R} {s s' : State R}

/-- After a chunk, `done` says whether its reader saw the end of the stream. -/
theorem loop_weight_lt {files : List (List R)} {c : Chunk R} (h : c.Sound cfg sh records files)
    (hwriter : c.writer = .ended none) {reader : Reader R} {bytes : Int64}
    (hfeed : c.feed = .substream reader bytes) :
    (Main.loop : Main R).weight sh.done < (Main.uploading c).weight sh.done := by
  have hended := h.ended hwriter
  have hsound := h.feed_of_ended hwriter
  rw [hfeed] at hended hsound
  cases reader with
  | ended recordsDone err =>
    cases recordsDone with
    | true =>
      simp only [Main.weight, hsound.1, if_true]
      omega
    | false =>
      simp only [Main.weight, hsound.1, Chunk.weight, hfeed, Feed.weight, Reader.weight,
        Bool.false_eq_true, if_false]
      omega
  | _ => cases hended

theorem Main.weight_pos {m : Main R} (h : ∀ r, m ≠ .returned r) (done : Bool) :
    0 < m.weight done := by
  cases m with
  | returned r => exact absurd rfl (h r)
  | loop => cases done <;> simp [Main.weight]
  | uploading c =>
    simp only [Main.weight]
    omega
  | _ => simp [Main.weight]

theorem MainMove.weight {m : Main R} (hsound : m.Sound cfg s.shared records s.files s.staged)
    (h : MainMove cfg s m s') :
    s'.shared = s.shared ∧ s'.main.weight s.shared.done < m.weight s.shared.done := by
  cases h with
  | abort hm err => exact ⟨rfl, Main.weight_pos hm _⟩
  | fail hm err => exact ⟨rfl, Main.weight_pos hm _⟩
  | loop => exact ⟨rfl, by simp [Main.weight, hsound.2.1]⟩
  | whole =>
    exact ⟨rfl, by simp [Main.weight, wholeStream, Chunk.weight, Feed.weight, Writer.weight]⟩
  | leave hdone => exact ⟨rfl, by simp [Main.weight, hdone]⟩
  | again hdone => exact ⟨rfl, by simp [Main.weight, hdone]⟩
  | chunk hcancelled =>
    -- the reader and the writer start
    exact ⟨rfl, by simp [Main.weight, newChunk, Chunk.weight, Feed.weight, Reader.weight,
      Writer.weight]⟩
  | wholeDone hwriter hfeed =>
    refine ⟨rfl, ?_⟩
    simp only [State.stage, Main.weight]
    omega
  | chunkDone hwriter hfeed => exact ⟨rfl, loop_weight_lt hsound hwriter hfeed⟩
  | _ => exact ⟨rfl, by simp [State.stage, Main.weight]⟩

/-- **Every step lowers the measure.** -/
theorem weight_step {a : Action} (h : Sound cfg records s) (hstep : step cfg s a = some s') :
    s'.weight < s.weight := by
  rcases step_cases hstep with ⟨b, sh, hsh, rfl⟩ | ⟨c, sh, c', hm, hmove, rfl⟩ | hmove
  · have hlt := Shared.step_weight hsh
    have hdone := (Shared.step_le hsh).done
    simp only [State.weight, hdone]
    omega
  · have hlt := hmove.weight
    simp only [State.weight, hm, Main.weight]
    omega
  · obtain ⟨hshared, hlt⟩ := hmove.weight h.main
    simp only [State.weight, hshared]
    omega

end Weight

/-! ### Progress -/

/-- An action that something outside the goroutines brings about: the context is cancelled,
or an operation they call returns an error. -/
def Action.fails : Action → Bool
  | .outside .cancel => true
  | .chunk (.startWriter err) => err.isSome
  | .chunk (.write (.written _)) => false
  | .chunk (.write _) => true
  | .chunk (.reader .sendCancelled) => true
  | .main (.prepare err) => err.isSome
  | .main (.upload err) => err.isSome
  | .main (.push err) => err.isSome
  | .main (.finish err) => err.isSome
  | _ => false

/-- A stream has a record to be received, or has ended, or its producer goes on. -/
theorem Shared.exists_step (cfg : Config) (sh : Shared R) :
    sh.receive.isSome ∨ sh.drained = true ∨
      ∃ a, a ≠ OutsideAction.cancel ∧ (sh.step cfg a).isSome := by
  rcases hleft : sh.left with _ | ⟨x, rest⟩
  · obtain ⟨hqueue, hunsent⟩ := List.append_eq_nil_iff.mp hleft
    cases hproducer : sh.producer with
    | sending =>
      refine Or.inr (Or.inr ⟨.setErr, by simp, ?_⟩)
      rw [Shared.step, setErr, hproducer]
      simp [hunsent]
    | errSet =>
      refine Or.inr (Or.inr ⟨.close, by simp, ?_⟩)
      rw [Shared.step, close]
      split
      · rfl
      · rename_i hnot
        exact absurd hproducer hnot
    | closed => exact Or.inr (Or.inl (drained_iff.mpr ⟨hproducer, hqueue⟩))
  · left
    rw [receive]
    split
    · rfl
    · rfl
    · rename_i hqueue hunsent
      simp [left, hqueue, hunsent] at hleft

/-- While a file is being written, a goroutine has a step or the producer has. -/
theorem exists_chunkStep (cfg : Config) (sh : Shared R) {c : Chunk R}
    (hwriter : ∀ err, c.writer ≠ .ended err) :
    (∃ a, (Action.chunk a).fails = false ∧ (chunkStep cfg sh c a).isSome) ∨
      ∃ a, a ≠ OutsideAction.cancel ∧ (sh.step cfg a).isSome := by
  obtain ⟨feed, writer, written⟩ := c
  cases writer with
  | starting => exact Or.inl ⟨.startWriter none, rfl, rfl⟩
  | got x =>
    refine Or.inl ⟨.checkCtx, rfl, ?_⟩
    rw [chunkStep]
    split_ifs <;> rfl
  | converting x => exact Or.inl ⟨.write (.written 0), rfl, rfl⟩
  | adding size => exact Or.inl ⟨.addSize, rfl, rfl⟩
  | ended err => exact absurd rfl (hwriter err)
  | receiving =>
    cases feed with
    | stream =>
      rcases sh.exists_step cfg with hrecord | hdrained | houtside
      · exact Or.inl ⟨.takeRecord, rfl, by simpa [chunkStep] using hrecord⟩
      · exact Or.inl ⟨.endRecords, rfl, by simp [chunkStep, Feed.endErr, hdrained]⟩
      · exact Or.inr houtside
    | substream reader bytes =>
      cases reader with
      | receiving =>
        rcases sh.exists_step cfg with hrecord | hdrained | houtside
        · exact Or.inl ⟨.reader .readRecord, rfl, by simpa [chunkStep, readerStep] using hrecord⟩
        · exact Or.inl ⟨.reader .readEnd, rfl, by simp [chunkStep, readerStep, hdrained]⟩
        · exact Or.inr houtside
      | sending x => exact Or.inl ⟨.handOver, rfl, rfl⟩
      | checking =>
        refine Or.inl ⟨.reader .checkSize, rfl, ?_⟩
        simp only [chunkStep, readerStep]
        split_ifs <;> rfl
      | stopping recordsDone => exact Or.inl ⟨.reader .storeDone, rfl, rfl⟩
      | closing recordsDone => exact Or.inl ⟨.reader (.closeSubstream true), rfl, rfl⟩
      | ended recordsDone err => exact Or.inl ⟨.endRecords, rfl, rfl⟩

/-- **No deadlock.**  Until the call has returned, some party has a step that is not a
failure. -/
theorem exists_step (cfg : Config) {s : State R} (hmain : ∀ r, s.main ≠ .returned r) :
    ∃ a, a.fails = false ∧ (step cfg s a).isSome := by
  cases hm : s.main with
  | schema =>
    refine ⟨.main (.schema true), rfl, ?_⟩
    simp only [step, hm, mainStep]
    split <;> rfl
  | prepare =>
    refine ⟨.main (.prepare none), rfl, ?_⟩
    simp only [step, hm, mainStep]
    split_ifs <;> rfl
  | loop =>
    refine ⟨.main .loadDone, rfl, ?_⟩
    simp only [step, hm, mainStep]
    split_ifs <;> rfl
  | check =>
    refine ⟨.main .checkCtx, rfl, ?_⟩
    simp only [step, hm, mainStep]
    split_ifs <;> rfl
  | uploading c =>
    by_cases hw : ∃ err, c.writer = .ended err
    · -- the file has come to its end, and with it the upload
      obtain ⟨err, hw⟩ := hw
      refine ⟨.main (.upload none), rfl, ?_⟩
      simp only [step, hm, mainStep, hw]
      cases err <;> cases c.feed <;> rfl
    · rcases exists_chunkStep cfg s.shared (c := c) (fun err h => hw ⟨err, h⟩) with
        ⟨a, ha, hstep⟩ | ⟨a, ha, hstep⟩
      · exact ⟨.chunk a, ha, by simpa [step, hm] using hstep⟩
      · refine ⟨.outside a, ?_, by simpa [step, hm] using hstep⟩
        cases a with
        | cancel => exact absurd rfl ha
        | _ => rfl
  | final =>
    refine ⟨.main .finalCtx, rfl, ?_⟩
    simp only [step, hm, mainStep]
    split_ifs <;> rfl
  | push => exact ⟨.main (.push none), rfl, by simp [step, hm, mainStep]⟩
  | finish => exact ⟨.main (.finish none), rfl, by simp [step, hm, mainStep]⟩
  | returned r => exact absurd hm (hmain r)

/-! ### The whole call -/

/-- **Staging loses nothing.**  Whatever the order in which producer, reader, writer, upload
and call take their steps, when the size counter is updated, what fails, and for every
limit: the run is bounded and does not stop before the call has returned; files that are
returned hold the stream, each record once and in order, which then ended without error;
and after a stream that ended with an error the call returns an error and the partition
is not recorded as synced. -/
theorem staging_exact (cfg : Config) (records : List R) {acts : List Action} {s : State R}
    (hrun : runs (step cfg) (State.init records) acts = some s) :
    acts.length ≤ 14 * records.length + 18 ∧
      ((∀ r, s.main ≠ .returned r) → ∃ a, a.fails = false ∧ (step cfg s a).isSome) ∧
      (∀ files, s.staged = some (.ok files) → files.flatten = records ∧ cfg.err = none) ∧
      (∀ err, cfg.err = some err →
        (∀ r, s.main = .returned r → ∃ e, r = .error e) ∧ s.finished = false) := by
  have hsound : Sound cfg records s :=
    runs_keeps (Sound cfg records) (fun _ _ _ h hstep => h.step hstep) (Sound.init cfg records) hrun
  have hlength := runs_length_le State.weight (Sound cfg records)
    (fun _ _ _ h hstep => ⟨h.step hstep, weight_step h hstep⟩) (Sound.init cfg records) hrun
  have hinit : (State.init records).weight = 14 * records.length + 18 := rfl
  refine ⟨by omega, exists_step cfg, hsound.staged, fun err herr => ?_⟩
  -- a call that returned without error has staged the files
  have hok : ∀ n, s.main ≠ .returned (.ok n) := by
    intro n hn
    have hmain := hsound.main
    rw [hn] at hmain
    obtain ⟨files, hfiles⟩ := hmain
    have hnone := (hsound.staged files hfiles).2
    simp [herr] at hnone
  refine ⟨fun r hr => ?_, ?_⟩
  · cases r with
    | ok n => exact absurd hr (hok n)
    | error e => exact ⟨e, rfl⟩
  · by_contra hfinished
    obtain ⟨n, hn⟩ := hsound.finished (by simpa using hfinished)
    exact hok n hn

/-- Three records and files of ten bytes.  The counter is read before the size of the first
record is added, so that the second record is in the first file too. -/
def lateCounter : List Action :=
  [.main (.schema true), .main (.prepare none), .main .loadDone, .main .checkCtx,
    .chunk (.startWriter none), .outside .produce, .chunk (.reader .readRecord),
    .chunk .handOver, .chunk (.reader .checkSize), .chunk .checkCtx,
    .chunk (.write (.written 12)), .chunk (.reader .readRecord), .chunk .addSize,
    .chunk .handOver, .chunk (.reader .checkSize), .chunk (.reader .storeDone),
    .chunk (.reader (.closeSubstream false)), .chunk .checkCtx, .chunk (.write (.written 12)),
    .chunk .addSize, .chunk .endRecords, .main (.upload none), .main .loadDone, .main .checkCtx,
    .chunk (.startWriter none), .chunk (.reader .readRecord), .chunk .handOver, .outside .setErr,
    .outside .close, .chunk .checkCtx, .chunk (.write (.written 1)), .chunk .addSize,
    .chunk (.reader .checkSize), .chunk (.reader .readEnd), .chunk (.reader .storeDone),
    .chunk (.reader (.closeSubstream false)), .chunk .endRecords, .main (.upload none),
    .main .loadDone, .main .finalCtx, .main (.push none), .main (.finish none)]

theorem lateCounter_exact :
    ∃ s, runs (step ⟨1, none, 10⟩) (State.init [1, 2, 3]) lateCounter = some s ∧
      s.finished = true ∧ s.staged = some (.ok [[1, 2], [3]]) ∧
      lateCounter.length ≤ 14 * 3 + 18 ∧ [[1, 2], [3]].flatten = [1, 2, 3] := by
  have heval : (runs (step ⟨1, none, 10⟩) (State.init [1, 2, 3]) lateCounter).map
      (fun s => (s.finished, s.staged.bind Except.toOption)) =
      some (true, some [[1, 2], [3]]) := by decide +kernel
  obtain ⟨s, hrun, hs⟩ := Option.map_eq_some_iff.mp heval
  obtain ⟨hfinished, hfiles⟩ := Prod.mk.inj hs
  obtain ⟨result, hresult, hok⟩ := Option.bind_eq_some_iff.mp hfiles
  have hstaged : s.staged = some (.ok [[1, 2], [3]]) := by
    rw [hresult, toOption_eq_some hok]
  obtain ⟨hlength, -, hall, -⟩ := staging_exact ⟨1, none, 10⟩ [1, 2, 3] hrun
  exact ⟨s, hrun, hfinished, hstaged, hlength, (hall _ hstaged).1⟩

end SnapshotStaging
