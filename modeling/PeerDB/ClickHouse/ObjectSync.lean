/-
Batches of objects for one `INSERT` (`collectAndBatchObjects`).

A goroutine collects objects from a stream into batches and sends them over a channel.  A
turn of its loop is one branch of the `select`: cancellation, a tick, an object, or the end
of the stream.  A batch that is flushed is either taken by the receiver or, if the context
is cancelled first, not sent; the event says which.

* `Sound` — totals of a batch are those of its objects, and only a batch of one object
  may exceed a limit;
* `collect_sound` — in every run, cancelled or not, the batches that were sent are sound,
  and their objects are some of those received, in order;
* `collectAndBatchObjects_exact` — without cancellation they are all of them.

The totals are 64-bit integers and wrap around (`wrappingSizes_exceed`), so that the sums the
code compares with its limits have to fit (`SumsFit`).
-/
import PeerDB.Lib.Loop
import PeerDB.Lib.Word
import Mathlib.Algebra.Order.BigOperators.Group.List

open Loop

namespace ClickHouse

open List

/-! ### The model -/

structure Object where
  url : String
  size : Int64
deriving DecidableEq

/-- The URL plus its separator in the brace-expanded list. -/
def Object.urlBytes (o : Object) : Int64 := Int64.ofNat o.url.utf8ByteSize + 1

structure ObjectBatch where
  objects : List Object
  size : Int64
  urlBytes : Int64
deriving DecidableEq

structure BatchLimits where
  maxBatchSize : Int64
  maxURLBytes : Int64
  maxURLCount : Int64

namespace ObjectBatch

/-- A batch of one object, whatever the limits. -/
def single (o : Object) : ObjectBatch := ⟨[o], o.size, o.urlBytes⟩

/-- Does the batch stay within the limits with one more object? -/
def accepts (limits : BatchLimits) (b : ObjectBatch) (o : Object) : Bool :=
  b.size + o.size ≤ limits.maxBatchSize && (b.urlBytes + o.urlBytes ≤ limits.maxURLBytes &&
    Int64.ofNat b.objects.length < limits.maxURLCount)

def add (b : ObjectBatch) (o : Object) : ObjectBatch :=
  ⟨b.objects ++ [o], b.size + o.size, b.urlBytes + o.urlBytes⟩

end ObjectBatch

structure Collector where
  currentBatch : Option ObjectBatch := none
  /-- what was sent over the channel -/
  batches : List ObjectBatch := []

/-- A branch of the `select`.  `taken` says whether a batch that is flushed on the way is
taken by the receiver before the context is cancelled. -/
inductive CollectorEvent where
  | done
  | tick (taken : Bool)
  | object (o : Object) (taken : Bool)
  | closed (taken : Bool)

namespace Collector

/-- `flushCurrentBatch` -/
def flush (s : Collector) (taken : Bool) : Collector :=
  match s.currentBatch with
  | none => s
  | some b => if taken then ⟨none, s.batches ++ [b]⟩ else s

/-- An object goes to the current batch or starts the next one. -/
def receive (limits : BatchLimits) (s : Collector) (o : Object) (taken : Bool) : Collector :=
  match s.currentBatch with
  | some b =>
    if b.accepts limits o then { s with currentBatch := some (b.add o) }
    else { s.flush taken with currentBatch := some (.single o) }
  | none => { s.flush taken with currentBatch := some (.single o) }

/-- One turn; the loop leaves with the batches it has sent. -/
def collect (limits : BatchLimits) (s : Collector) :
    CollectorEvent → Flow (List ObjectBatch) Collector
  | .done => .leave s.batches
  | .tick taken => .next (s.flush taken)
  | .object o taken => .next (s.receive limits o taken)
  | .closed taken => .leave (s.flush taken).batches

end Collector

def collectAndBatchObjects (limits : BatchLimits) (events : List CollectorEvent) :
    Flow (List ObjectBatch) Collector :=
  iterate (Collector.collect limits) {} events

/-! ### Sums that fit -/

/-- The sums of a quantity over consecutive objects fit 64 bits, as far as they are formed:
those of the objects within the limit, or of one object, and the object that comes next. -/
def SumsFit (f : Object → ℤ) (limit : ℤ) (objects : List Object) : Prop :=
  ∀ batch o, batch ++ [o] <:+: objects → batch.length ≤ 1 ∨ (batch.map f).sum ≤ limit →
    -2 ^ 63 ≤ ((batch ++ [o]).map f).sum ∧ ((batch ++ [o]).map f).sum < 2 ^ 63

/-- Non-negative quantities with a total that fits. -/
theorem SumsFit.of_total {f : Object → ℤ} {limit : ℤ} {objects : List Object}
    (hf : ∀ o ∈ objects, 0 ≤ f o) (htotal : (objects.map f).sum < 2 ^ 63) :
    SumsFit f limit objects := by
  intro batch o hpart _
  obtain ⟨before, after, rfl⟩ := hpart
  have hnonneg : ∀ l, l ⊆ before ++ (batch ++ [o]) ++ after → 0 ≤ (l.map f).sum :=
    fun l hl => sum_nonneg (forall_mem_map.mpr fun o ho => hf o (hl ho))
  have hbefore := hnonneg before (fun _ h => by simp [h])
  have hafter := hnonneg after (fun _ h => by simp [h])
  have hbatch := hnonneg (batch ++ [o]) (fun _ h => by
    rw [append_assoc]
    exact mem_append_right _ (mem_append_left _ h))
  rw [map_append, sum_append, map_append, sum_append] at htotal
  omega

/-- The length of the URL and its separator, without wrapping. -/
def Object.urlLength (o : Object) : ℤ := o.url.utf8ByteSize + 1

/-- All sums that are compared with a limit fit. -/
structure BatchLimits.Fit (limits : BatchLimits) (objects : List Object) : Prop where
  size : SumsFit (fun o => o.size.toInt) limits.maxBatchSize.toInt objects
  urlBytes : SumsFit Object.urlLength limits.maxURLBytes.toInt objects

theorem BatchLimits.Fit.of_part {limits : BatchLimits} {objects objects' : List Object}
    (h : limits.Fit objects) (hpart : objects' <:+: objects) : limits.Fit objects' where
  size batch o hbatch := h.size batch o (hbatch.trans hpart)
  urlBytes batch o hbatch := h.urlBytes batch o (hbatch.trans hpart)

/-! ### Batches -/

/-- The totals are those of the objects, and a batch of several objects is within the
limits. -/
structure ObjectBatch.Sound (limits : BatchLimits) (b : ObjectBatch) : Prop where
  ne_nil : b.objects ≠ []
  size : b.size.toInt = (b.objects.map fun o => o.size.toInt).sum
  urlBytes : b.urlBytes.toInt = (b.objects.map Object.urlLength).sum
  limits : b.objects.length = 1 ∨
    b.size.toInt ≤ limits.maxBatchSize.toInt ∧ b.urlBytes.toInt ≤ limits.maxURLBytes.toInt ∧
      (b.objects.length : ℤ) ≤ limits.maxURLCount.toInt

namespace ObjectBatch

variable {limits : BatchLimits} {o : Object} {b : ObjectBatch}

theorem urlBytes_toInt (hlt : o.urlLength < 2 ^ 63) : o.urlBytes.toInt = o.urlLength := by
  rw [Object.urlLength] at hlt ⊢
  have hlen : (Int64.ofNat o.url.utf8ByteSize).toInt = o.url.utf8ByteSize :=
    Int64.toInt_ofNat_of_lt (by omega)
  have hone : (1 : Int64).toInt = 1 := rfl
  rw [Object.urlBytes, Int64.toInt_add_of_fits (by omega) (by omega), hlen, hone]

theorem single_sound (hfit : limits.Fit [o]) : (single o).Sound limits := by
  have hurl := hfit.urlBytes [] o infix_rfl (.inl (by simp))
  simp only [nil_append, map_singleton, sum_singleton] at hurl
  refine ⟨cons_ne_nil _ _, ?_, ?_, .inl rfl⟩
  · simp [single]
  · simp [single, urlBytes_toInt hurl.2]

/-- **One more object**: the sums are compared with the limits before they are stored. -/
theorem add_sound (hb : b.Sound limits) (hfit : limits.Fit (b.objects ++ [o]))
    (haccepts : b.accepts limits o = true) : (b.add o).Sound limits := by
  rw [accepts, Bool.and_eq_true, Bool.and_eq_true, decide_eq_true_iff, decide_eq_true_iff,
    decide_eq_true_iff, Int64.le_iff_toInt_le, Int64.le_iff_toInt_le,
    Int64.lt_iff_toInt_lt] at haccepts
  obtain ⟨hsize, hurlBytes, hcount⟩ := haccepts
  have hsizes := hfit.size b.objects o infix_rfl
    (hb.limits.imp (fun h => h.le) fun h => hb.size ▸ h.1)
  have hurls := hfit.urlBytes b.objects o infix_rfl
    (hb.limits.imp (fun h => h.le) fun h => hb.urlBytes ▸ h.2.1)
  have hurl := hfit.urlBytes [] o ⟨b.objects, [], by simp⟩ (.inl (by simp))
  simp only [map_append, sum_append, nil_append, map_singleton,
    sum_singleton] at hsizes hurls hurl
  rw [← hb.size] at hsizes
  rw [← hb.urlBytes, ← urlBytes_toInt hurl.2] at hurls
  have haddSize := Int64.toInt_add_of_fits hsizes.1 hsizes.2
  have haddUrls := Int64.toInt_add_of_fits hurls.1 hurls.2
  have hlength : (Int64.ofNat b.objects.length).toInt = b.objects.length := by
    have hmax := limits.maxURLCount.toInt_lt
    apply Int64.toInt_ofNat_of_lt
    rcases hb.limits with hone | hle <;> omega
  refine ⟨by simp [add], ?_, ?_, .inr ⟨hsize, hurlBytes, ?_⟩⟩
  · simp [add, haddSize, hb.size]
  · simp [add, haddUrls, hb.urlBytes, urlBytes_toInt hurl.2]
  · rw [add, length_append, length_singleton]
    omega

end ObjectBatch

/-! ### One turn -/

def CollectorEvent.received : CollectorEvent → Option Object
  | .object o _ => some o
  | _ => none

namespace Collector

def all (s : Collector) : List ObjectBatch := s.batches ++ s.currentBatch.toList

def objects (s : Collector) : List Object := s.all.flatMap ObjectBatch.objects

variable {limits : BatchLimits} {s : Collector}

theorem flush_all (s : Collector) (taken : Bool) : (s.flush taken).all = s.all := by
  rw [flush]
  cases hcur : s.currentBatch with
  | none => rfl
  | some b =>
    cases taken with
    | false => rfl
    | true => simp [all, hcur]

/-- A batch that is taken is the current one no longer. -/
theorem flush_batches (s : Collector) : (s.flush true).batches = s.all := by
  rw [flush, all]
  cases hcur : s.currentBatch with
  | none => simp
  | some b => rfl

/-- What becomes of an object: it joins the current batch, which accepts it, or is a batch
of its own after all others, or after those already sent. -/
theorem receive_cases (limits : BatchLimits) (s : Collector) (o : Object) (taken : Bool) :
    (∃ b, s.currentBatch = some b ∧ b.accepts limits o = true ∧
      s.receive limits o taken = ⟨some (b.add o), s.batches⟩) ∨
    s.receive limits o taken = ⟨some (.single o), s.all⟩ ∨
    (taken = false ∧ s.receive limits o taken = ⟨some (.single o), s.batches⟩) := by
  rw [receive]
  cases hcur : s.currentBatch with
  | none => exact .inr (.inl (by simp [flush, all, hcur]))
  | some b =>
    dsimp only
    split_ifs with haccepts
    · exact .inl ⟨b, rfl, haccepts, rfl⟩
    · cases taken with
      | true => exact .inr (.inl (by rw [flush_batches]))
      | false => exact .inr (.inr ⟨rfl, by simp [flush, hcur]⟩)

/-- What holds after some objects were received: all batches are sound, and the current one
has the objects received last. -/
structure Kept (limits : BatchLimits) (past : List Object) (s : Collector) : Prop where
  sound : ∀ b ∈ s.all, b.Sound limits
  last : ∀ b ∈ s.currentBatch, b.objects <:+ past
  sublist : s.objects.Sublist past

theorem Kept.flush {past : List Object} (h : s.Kept limits past) (taken : Bool) :
    (s.flush taken).Kept limits past := by
  refine ⟨by rw [flush_all]; exact h.sound, ?_, by rw [objects, flush_all]; exact h.sublist⟩
  rw [Collector.flush]
  cases hcur : s.currentBatch with
  | none => exact h.last
  | some b =>
    cases taken with
    | false => exact h.last
    | true => simp

theorem Kept.of_current {past : List Object} {bs : List ObjectBatch} {b : ObjectBatch}
    (hbs : ∀ b ∈ bs, b.Sound limits) (hb : b.Sound limits) (hlast : b.objects <:+ past)
    (hsublist : (bs.flatMap ObjectBatch.objects ++ b.objects).Sublist past) :
    Kept limits past ⟨some b, bs⟩ := by
  refine ⟨?_, ?_, by simpa [objects, all] using hsublist⟩
  · intro b' hb'
    rcases mem_append.mp hb' with hb' | hb'
    · exact hbs b' hb'
    · rw [mem_singleton.mp hb']
      exact hb
  · rintro b' ⟨rfl⟩
    exact hlast

theorem Kept.receive {past : List Object} {o : Object} (h : s.Kept limits past) (taken : Bool)
    (hfit : limits.Fit (past ++ [o])) : (s.receive limits o taken).Kept limits (past ++ [o]) := by
  have hsingle : (ObjectBatch.single o).Sound limits :=
    ObjectBatch.single_sound (hfit.of_part ⟨past, [], by simp⟩)
  have hsuffix : (ObjectBatch.single o).objects <:+ past ++ [o] := suffix_append past [o]
  rcases receive_cases limits s o taken with ⟨b, hcur, haccepts, heq⟩ | heq | ⟨-, heq⟩
  · -- the current batch and the object are at the end of what was received
    obtain ⟨before, hbefore⟩ := h.last b hcur
    have hall : s.all = s.batches ++ [b] := by rw [all, hcur]; rfl
    have hsublist := h.sublist.append (List.Sublist.refl [o])
    rw [objects, hall] at hsublist
    rw [heq]
    refine .of_current (fun b' hb' => h.sound b' (mem_append_left _ hb')) ?_ ?_ ?_
    · exact ObjectBatch.add_sound (h.sound b (by simp [hall]))
        (hfit.of_part ⟨before, [], by simp [← hbefore]⟩) haccepts
    · exact ⟨before, by simp [ObjectBatch.add, ← hbefore]⟩
    · simpa [ObjectBatch.add] using hsublist
  · rw [heq]
    exact .of_current h.sound hsingle hsuffix (h.sublist.append (List.Sublist.refl [o]))
  · -- the batch that was not taken is lost
    have hsent : (s.batches.flatMap ObjectBatch.objects).Sublist past := by
      refine List.Sublist.trans ?_ h.sublist
      rw [objects, all, flatMap_append]
      exact sublist_append_left _ _
    rw [heq]
    exact .of_current (fun b' hb' => h.sound b' (mem_append_left _ hb')) hsingle hsuffix
      (hsent.append (List.Sublist.refl [o]))

/-- Without cancellation no object is lost. -/
theorem receive_objects (s : Collector) (o : Object) :
    (s.receive limits o true).objects = s.objects ++ [o] := by
  rcases receive_cases limits s o true with ⟨b, hcur, -, heq⟩ | heq | ⟨hfalse, -⟩
  · simp [heq, objects, all, hcur, ObjectBatch.add]
  · simp [heq, objects, all, ObjectBatch.single]
  · cases hfalse

/-- Every turn keeps the batches sound. -/
theorem Kept.collect {past : List Object} {e : CollectorEvent} {s' : Collector}
    (h : s.Kept limits past) (hfit : limits.Fit (past ++ e.received.toList))
    (hturn : s.collect limits e = .next s') : s'.Kept limits (past ++ e.received.toList) := by
  cases e with
  | done | closed => cases hturn
  | tick taken =>
    cases hturn
    simpa [CollectorEvent.received] using h.flush taken
  | object o taken =>
    cases hturn
    exact h.receive taken hfit

end Collector

/-! ### Whole runs -/

def receivedObjects (events : List CollectorEvent) : List Object :=
  events.filterMap CollectorEvent.received

theorem receivedObjects_concat (events : List CollectorEvent) (e : CollectorEvent) :
    receivedObjects (events ++ [e]) = receivedObjects events ++ e.received.toList := by
  rw [receivedObjects, filterMap_append]
  cases h : e.received with
  | none | some => simp [receivedObjects, h]

/-- As long as the loop runs, its batches are kept. -/
theorem collect_kept {limits : BatchLimits} {events : List CollectorEvent} {s : Collector}
    (hfit : limits.Fit (receivedObjects events))
    (hrun : collectAndBatchObjects limits events = .next s) :
    s.Kept limits (receivedObjects events) := by
  refine iterate_history (fun pre s => limits.Fit (receivedObjects pre) →
    s.Kept limits (receivedObjects pre)) ?_ ?_ hrun hfit
  · intro _
    exact ⟨by simp [Collector.all], by simp, by simp [Collector.objects, Collector.all]⟩
  · intro pre e s s' _ hkept hturn hfit
    rw [receivedObjects_concat] at hfit ⊢
    exact (hkept (hfit.of_part ⟨[], _, rfl⟩)).collect hfit hturn

/-- **In every run the batches that are sent are sound**, and their objects are some of those
received, in order. -/
theorem collect_sound {limits : BatchLimits} {events : List CollectorEvent}
    {batches : List ObjectBatch} (hfit : limits.Fit (receivedObjects events))
    (hrun : collectAndBatchObjects limits events = .leave batches) :
    (∀ b ∈ batches, b.Sound limits) ∧
      (batches.flatMap ObjectBatch.objects).Sublist (receivedObjects events) := by
  obtain ⟨pre, e, post, s, rfl, hpre, hleave⟩ := leave_of_iterate hrun
  have hpart : receivedObjects pre <:+: receivedObjects (pre ++ e :: post) := by
    rw [receivedObjects, receivedObjects, filterMap_append]
    exact (prefix_append _ _).isInfix
  have hkept := collect_kept (hfit.of_part hpart) hpre
  -- the loop leaves with batches among all of them
  have hbatches : batches <+: s.all := by
    cases e with
    | done =>
      cases hleave
      exact prefix_append _ _
    | closed taken =>
      cases hleave
      rw [← s.flush_all taken]
      exact prefix_append _ _
    | tick | object => cases hleave
  refine ⟨fun b hb => hkept.sound b (hbatches.subset hb), ?_⟩
  obtain ⟨rest, hrest⟩ := hbatches
  refine List.Sublist.trans ?_ (hkept.sublist.trans hpart.sublist)
  rw [Collector.objects, ← hrest, flatMap_append]
  exact sublist_append_left _ _

/-- The second batch is cut off by a cancellation. -/
theorem collect_sound_cancelled :
    ∃ events batches, collectAndBatchObjects ⟨100, 1000, 10⟩ events = .leave batches ∧
      batches.map (fun b => b.objects.map Object.url) = [["a"]] ∧
      ∀ b ∈ batches, b.Sound ⟨100, 1000, 10⟩ := by
  have hrun : collectAndBatchObjects ⟨100, 1000, 10⟩
    [.object ⟨"a", 60⟩ true, .object ⟨"b", 60⟩ true, .done] = .leave _ := rfl
  refine ⟨_, _, hrun, rfl, (collect_sound ?_ hrun).1⟩
  refine ⟨.of_total ?_ ?_, .of_total ?_ ?_⟩ <;> decide

/-- A tick or an object, with nothing cancelled. -/
def arrival : Option Object → CollectorEvent
  | none => .tick true
  | some o => .object o true

/-- Without cancellation the loop runs until the stream is closed, and has all objects. -/
theorem collect_arrivals (limits : BatchLimits) (arrivals : List (Option Object)) :
    ∃ s, collectAndBatchObjects limits (arrivals.map arrival) = .next s ∧
      s.objects = arrivals.reduceOption := by
  induction arrivals using List.reverseRecOn with
  | nil => exact ⟨{}, rfl, rfl⟩
  | append_singleton arrivals a ih =>
    obtain ⟨s, hrun, hobjects⟩ := ih
    rw [collectAndBatchObjects] at hrun
    rw [map_append, collectAndBatchObjects, iterate_append, hrun]
    cases a with
    | none =>
      refine ⟨s.flush true, rfl, ?_⟩
      rw [Collector.objects, s.flush_all true, ← Collector.objects, hobjects]
      simp [List.reduceOption]
    | some o =>
      refine ⟨s.receive limits o true, rfl, ?_⟩
      rw [s.receive_objects o, hobjects]
      simp [List.reduceOption]

/-- **Batches keep every object within the limits.**  Whatever ticks come between the
objects, without cancellation the loop leaves when the stream is closed; the batches hold
exactly the objects, in order, none is empty, and only a batch of one object may exceed a
limit. -/
theorem collectAndBatchObjects_exact (limits : BatchLimits) (arrivals : List (Option Object))
    (rest : List CollectorEvent) (hfit : limits.Fit arrivals.reduceOption) :
    ∃ batches,
      collectAndBatchObjects limits (arrivals.map arrival ++ .closed true :: rest) =
        .leave batches ∧
      batches.flatMap ObjectBatch.objects = arrivals.reduceOption ∧
      ∀ b ∈ batches, b.objects ≠ [] ∧
        (b.objects.length = 1 ∨
          (b.objects.map fun o => o.size.toInt).sum ≤ limits.maxBatchSize.toInt ∧
          (b.objects.map Object.urlLength).sum ≤ limits.maxURLBytes.toInt ∧
          (b.objects.length : ℤ) ≤ limits.maxURLCount.toInt) := by
  obtain ⟨s, hrun, hobjects⟩ := collect_arrivals limits arrivals
  have hreceived : receivedObjects (arrivals.map arrival) = arrivals.reduceOption := by
    rw [receivedObjects, filterMap_map, List.reduceOption]
    refine filterMap_congr fun a _ => ?_
    cases a with
    | none => rfl
    | some o => rfl
  have hkept := collect_kept (hreceived ▸ hfit) hrun
  refine ⟨s.all, ?_, hobjects, fun b hb => ?_⟩
  · rw [collectAndBatchObjects] at hrun ⊢
    rw [iterate_append, hrun, ← s.flush_batches]
    rfl
  · have hsound := hkept.sound b hb
    refine ⟨hsound.ne_nil, hsound.limits.imp_right fun h => ?_⟩
    rw [← hsound.size, ← hsound.urlBytes]
    exact h

/-- Three objects and a tick, with at most 100 bytes in a batch. -/
theorem threeObjects_batches :
    ∃ batches,
      collectAndBatchObjects ⟨100, 1000, 10⟩ (([some ⟨"a", 60⟩, some ⟨"b", 40⟩, none,
        some ⟨"c", 200⟩] : List (Option Object)).map arrival ++ [.closed true]) =
        .leave batches ∧
      batches.map (fun b => b.objects.map Object.url) = [["a", "b"], ["c"]] ∧
      ∀ b ∈ batches, b.objects ≠ [] := by
  obtain ⟨batches, hrun, -, hsound⟩ := collectAndBatchObjects_exact ⟨100, 1000, 10⟩
    [some ⟨"a", 60⟩, some ⟨"b", 40⟩, none, some ⟨"c", 200⟩] []
    ⟨.of_total (by decide) (by decide), .of_total (by decide) (by decide)⟩
  refine ⟨batches, hrun, ?_, fun b hb => (hsound b hb).1⟩
  cases hrun
  decide

/-- The sum of the sizes wraps around: the second object is put into a batch that is over the
limit already. -/
theorem wrappingSizes_exceed :
    ∃ batches,
      collectAndBatchObjects ⟨100, 1000, 10⟩ (([some ⟨"a", 9223372036854775807⟩,
        some ⟨"b", 1⟩] : List (Option Object)).map arrival ++ [.closed true]) =
        .leave batches ∧
      ∃ b ∈ batches, b.objects.length = 2 ∧
        (b.objects.map fun o => o.size.toInt).sum > 100 := by
  refine ⟨_, rfl, _, mem_singleton_self _, ?_, ?_⟩ <;> decide

end ClickHouse
