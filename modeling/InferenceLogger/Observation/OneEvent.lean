import InferenceLogger.Foundation.Reports
import InferenceLogger.Observation.Calls

/-! # One call, one event

The `finally` block of an instrumented call builds the event before it publishes it, and
the event is validated as it is built. A call that has ended has started its one publish
exactly when those checks pass; they read the provider's name, the model, the wall clock,
and what the inner provider sent.
-/
namespace InferenceLogger
open PyText PyJson AsyncTask

variable {B : Signature}

namespace Observed

theorem foldl_inputTokens (got : List StreamChunk) (o : Observed) :
    (got.foldl absorb o).usage.inputTokens =
      (Reports.last (fun c => c.usage.bind TokenUsage.inputTokens) got).or o.usage.inputTokens := by
  refine Reports.foldl_field (fun o : Observed => o.usage.inputTokens) _ (fun o c => ?_) got o
  cases hu : c.usage <;> simp [absorb,mergeUsage,hu]

theorem foldl_outputTokens (got : List StreamChunk) (o : Observed) :
    (got.foldl absorb o).usage.outputTokens =
      (Reports.last (fun c => c.usage.bind TokenUsage.outputTokens) got).or o.usage.outputTokens := by
  refine Reports.foldl_field (fun o : Observed => o.usage.outputTokens) _ (fun o c => ?_) got o
  cases hu : c.usage <;> simp [absorb,mergeUsage,hu]

theorem orText_or (a b : Option Text) : orText a b = (orText a none).or b := by
  rcases a with _ | _ | _ <;> rfl

theorem foldl_finishReason (got : List StreamChunk) (o : Observed) :
    (got.foldl absorb o).finishReason =
      (Reports.last (fun c => orText c.finishReason none) got).or o.finishReason :=
  Reports.foldl_field Observed.finishReason _ (fun o c => orText_or c.finishReason o.finishReason) got o

end Observed

/-- The event of a call can be built: the provider's name and the model fit, the wall clock did
not run backwards, and so do the last reported counts and finish reason, and the exception. -/
structure Loggable (name model : Text) (got : List StreamChunk) (exit : Except Exc Unit)
    (wall : List ℤ) : Prop where
  provider : providerOk name = true
  model : modelOk model = true
  clock : wall.Pairwise (· ≤ ·)
  inputTokens : nonNegative (Reports.last (fun c => c.usage.bind TokenUsage.inputTokens) got) = true
  outputTokens : nonNegative (Reports.last (fun c => c.usage.bind TokenUsage.outputTokens) got) = true
  finishReason : finishReasonOk (Reports.last (fun c => orText c.finishReason none) got) = true
  errorType : errorTypeOk (Instrumentation.terminal exit).2.1 = true
  errorMessage : (Instrumentation.terminal exit).1 = .error →
    (Instrumentation.terminal exit).2.2.getD [] ≠ []

/-- Exactly one publish was started, with the minted id, and no cancellation reached its task. -/
def PublishedOnce (tr : CallEvents B) : Prop :=
  ∃ event, started tr = [event] ∧ minted tr = [event.fields.id] ∧ cancelsPublish tr = false

namespace Instrumentation
variable {w : Instrumentation} {inner : BaseProvider B}

theorem check_eq_nil {ok : Bool} {loc : String} : check ok loc = [] ↔ ok = true := by
  cases ok <;> simp [check]

theorem nonNegative_some {n : ℤ} : nonNegative (some n) = true ↔ 0 ≤ n := by
  simp [nonNegative]

theorem construct_iff_loggable {request : ChatRequest} {eventId : Uuid} {startedAt completedAt latency : ℤ}
    {got : List StreamChunk} {t : Option ℤ} {exit : Except Exc Unit}
    (hl : 0 ≤ latency) (ht : nonNegative t = true) :
    (∃ event, InferenceEvent.construct (w.eventFields inner request eventId startedAt completedAt latency
      {got.foldl Observed.absorb {} with ttftMs := t} exit) = .ok event) ↔
      Loggable inner.name request.model got exit [startedAt,completedAt] := by
  have hfields : (w.eventFields inner request eventId startedAt completedAt latency
      {got.foldl Observed.absorb {} with ttftMs := t} exit).fieldErrors = [] ↔
      providerOk inner.name = true ∧ modelOk request.model = true ∧
      nonNegative (Reports.last (fun c => c.usage.bind TokenUsage.inputTokens) got) = true ∧
      nonNegative (Reports.last (fun c => c.usage.bind TokenUsage.outputTokens) got) = true ∧
      errorTypeOk (terminal exit).2.1 = true ∧
      finishReasonOk (Reports.last (fun c => orText c.finishReason none) got) = true := by
    simp only [EventFields.fieldErrors, eventFields, List.append_eq_nil_iff, check_eq_nil,
      Observed.foldl_inputTokens, Observed.foldl_outputTokens, Observed.foldl_finishReason,
      nonNegative_some, ht, Option.or_none]
    tauto
  have hinv : (w.eventFields inner request eventId startedAt completedAt latency
      {got.foldl Observed.absorb {} with ttftMs := t} exit).checkInvariants = .ok () ↔
      startedAt ≤ completedAt ∧ ((terminal exit).1 = .error → (terminal exit).2.2.getD [] ≠ []) := by
    simp only [EventFields.checkInvariants, eventFields, Datetime.lt?_utc]
    by_cases hc : completedAt < startedAt
    · simp only [hc, decide_true, reduceCtorEq, false_iff, not_and]
      intro h
      omega
    · simp only [hc, decide_false]
      split <;> rename_i he
      · simp [he]
      · simp only [true_iff]
        exact ⟨by omega,fun hs hm => he ⟨hs,hm⟩⟩
  constructor
  · rintro ⟨event,he⟩
    obtain ⟨hf,hv⟩ := EventFields.validate_ok_iff.mp (InferenceEvent.construct_ok_iff.mp he).1
    obtain ⟨hp,hm,hi,ho,het,hfr⟩ := hfields.mp hf
    obtain ⟨hc,hmsg⟩ := hinv.mp hv
    exact ⟨hp,hm,by simpa using hc,hi,ho,hfr,het,hmsg⟩
  · intro h
    have hf := hfields.mpr ⟨h.provider,h.model,h.inputTokens,h.outputTokens,h.errorType,h.finishReason⟩
    have hc : startedAt ≤ completedAt := by simpa using h.clock
    have hvalid := EventFields.validate_ok_iff.mpr ⟨hf,hinv.mpr ⟨hc,h.errorMessage⟩⟩
    exact ⟨⟨_,hvalid⟩,InferenceEvent.construct_ok_iff.mpr ⟨hvalid,rfl⟩⟩

namespace CallRun
variable {request : ChatRequest} {tr : CallTrace B} {out : Except Exc Unit}
  (c : CallRun w inner request tr out)

theorem bases_eq : bases tr = ⟨.uuid4,.ok c.eventId⟩ :: ⟨.now,.ok c.startedAt⟩ ::
    ⟨.monotonic,.ok c.start⟩ :: (bases c.body ++ ⟨.now,.ok c.completedAt⟩ ::
    ⟨.monotonic,.ok c.stop⟩ :: bases c.rest) := by
  refine (congrArg bases c.trace).trans ?_
  simp [bases,List.filterMap_append,baseOf]

theorem visible_eq : visible tr = visible c.body := by
  have hrest := c.finish.visible
  unfold visible at hrest
  refine (congrArg visible c.trace).trans ?_
  simp [visible,List.filterMap_cons,List.filterMap_append,visibleEvent,hrest]

theorem wall_eq : wallReadings (bases tr) = [c.startedAt,c.completedAt] := by
  have hbody := c.loop.wall
  have hrest := c.finish.wall
  unfold wallReadings at hbody hrest
  rw [c.bases_eq]
  simp [wallReadings,List.filterMap_cons,List.filterMap_append,wallEvent,hrest,hbody]

theorem minted_eq : minted (bases tr) = [c.eventId] := by
  have hbody := c.loop.minted
  have hrest := c.finish.minted
  unfold minted at hbody hrest
  rw [c.bases_eq]
  simp [minted,List.filterMap_cons,List.filterMap_append,mintedEvent,hrest,hbody]

theorem started_eq : started (bases tr) = started (bases c.rest) := by
  have hbody := c.loop.started
  unfold started at hbody
  rw [c.bases_eq]
  simp [started,List.filterMap_cons,List.filterMap_append,startedEvent,hbody]

theorem not_cancels (c : CallRun w inner request tr out) : cancelsPublish (bases tr) = false := by
  have hbody := c.loop.cancels
  have hrest := c.finish.cancels
  unfold cancelsPublish at hbody hrest
  rw [c.bases_eq]
  simp [cancelsPublish,hrest,hbody]

/-- The monotonic clock makes every duration of the event non-negative. -/
theorem durations (hm : (monotonicReadings (bases tr)).Pairwise (· ≤ ·)) :
    0 ≤ elapsedMs c.start c.stop ∧ nonNegative c.o.ttftMs = true := by
  have hreadings : monotonicReadings (bases tr) =
      c.start :: (monotonicReadings (bases c.body) ++ c.stop :: monotonicReadings (bases c.rest)) := by
    rw [c.bases_eq]
    simp [monotonicReadings,List.filterMap_cons,List.filterMap_append,monotonicEvent]
  rw [hreadings, List.pairwise_cons] at hm
  refine ⟨elapsedMs_nonneg (hm.1 _ (by simp)),?_⟩
  rcases c.loop.ttft with ht | ⟨stop,hs,ht⟩
  · rw [ht]
    rfl
  · rw [ht, nonNegative_some]
    exact elapsedMs_nonneg (hm.1 _ (List.mem_append_left _ hs))

/-- What the call received decides whether its event can be built. -/
theorem loggable_iff (hm : (monotonicReadings (bases tr)).Pairwise (· ≤ ·)) {got : List StreamChunk}
    (ho : c.o = {got.foldl Observed.absorb {} with ttftMs := c.o.ttftMs}) :
    (∃ event, InferenceEvent.construct (w.eventFields inner request c.eventId c.startedAt c.completedAt
      (elapsedMs c.start c.stop) c.o c.exit) = .ok event) ↔
      Loggable inner.name request.model got c.exit (wallReadings (bases tr)) := by
  obtain ⟨hl,ht⟩ := c.durations hm
  rw [c.wall_eq, ho]
  exact construct_iff_loggable hl ht

/-- A published event is the one built from what the loop accumulated. -/
theorem constructed {event : InferenceEvent} (he : event ∈ started (bases tr)) :
    InferenceEvent.construct (w.eventFields inner request c.eventId c.startedAt c.completedAt
      (elapsedMs c.start c.stop) c.o c.exit) = .ok event := by
  cases hc : InferenceEvent.construct (w.eventFields inner request c.eventId c.startedAt c.completedAt
      (elapsedMs c.start c.stop) c.o c.exit) with
  | error e =>
    rw [c.started_eq, (c.finish.of_invalid hc).1] at he
    cases he
  | ok event' =>
    rw [c.started_eq, c.finish.of_valid hc] at he
    cases List.mem_singleton.mp he
    rfl

end CallRun

/-- A call that has ended has started its one publish, with the minted id and out of the reach
of cancellations, exactly when what it received and read makes a valid event. -/
theorem published_once_iff {request : ChatRequest} {tr : CallTrace B} {out : Except Exc Unit}
    (h : Run Possible (w.streamChat inner request) tr out)
    (hm : (monotonicReadings (bases tr)).Pairwise (· ≤ ·)) :
    ∃ got exit, Reception (inner.streamChat request) (visible tr) got exit ∧
      (PublishedOnce (bases tr) ↔
        Loggable inner.name request.model got exit (wallReadings (bases tr))) := by
  obtain ⟨c⟩ := streamChat_run h
  obtain ⟨got,hg,ho⟩ := c.loop.received
  refine ⟨got,c.exit,c.visible_eq ▸ hg,?_⟩
  rw [← c.loggable_iff hm ho]
  cases hc : InferenceEvent.construct (w.eventFields inner request c.eventId c.startedAt c.completedAt
      (elapsedMs c.start c.stop) c.o c.exit) with
  | error e =>
    obtain ⟨hrest,-⟩ := c.finish.of_invalid hc
    refine ⟨?_,by simp⟩
    rintro ⟨event,hs,-,-⟩
    rw [c.started_eq, hrest] at hs
    cases hs
  | ok event =>
    have hrest := c.finish.of_valid hc
    have hid : event.fields.id = c.eventId := by
      rw [(InferenceEvent.construct_ok_iff.mp hc).2]
      rfl
    refine ⟨fun _ => ⟨event,rfl⟩,fun _ => ⟨event,?_,?_,c.not_cancels⟩⟩
    · rw [c.started_eq, hrest]
      rfl
    · rw [c.minted_eq, hid]

/-! ## One chunk, and a model name the event cannot hold -/

/-- A vendor that is never awaited. -/
@[reducible] def quietSignature : Signature where
  Op := Empty
  Answer _ := Unit

def oneChunk : Gen quietSignature StreamChunk Exc Unit := Gen.yield {deltaText := text "hi"}

def oneChunkProvider : BaseProvider quietSignature where
  name := text "mock"
  defaultModel := text "mock-1"
  isConfigured := true
  maxOutputTokensCap := none
  streamChat _ := oneChunk

def plainInstrumentation : Instrumentation where
  redactor := {maxChars := 10, enabled := false, rules := []}
  conversationId := none
  streamed := true

/-- Nothing fails, the caller reads to the end, and both clocks stand still. -/
def calm : (op : GenOp (callSignature quietSignature) StreamChunk) →
    Except Exc ((genSignature (callSignature quietSignature) StreamChunk).Answer op)
  | .base (.inner op) => op.elim
  | .base .uuid4 => .ok (7 : Uuid)
  | .base .now => .ok (0 : ℤ)
  | .base .monotonic => .ok (0 : ℕ)
  | .base (.createPublish _) => .ok ()
  | .base (.awaitPublish _) => .ok ()
  | .yield _ => .ok ()

theorem calm_possible (op : GenOp (callSignature quietSignature) StreamChunk) : Possible op (calm op) := by
  cases op with
  | «yield» chunk =>
    intro e h
    cases h
  | base op =>
    cases op with
    | inner op => exact op.elim
    | awaitPublish how =>
      intro e h
      cases h
    | _ => exact ⟨_,rfl⟩

/-- The trace and the outcome of the calm run for a model name. -/
def calmRun (model : Text) : CallTrace quietSignature × Except Exc Unit :=
  drive (fun _ => calm) 0 (plainInstrumentation.streamChat oneChunkProvider {messages := [], model := model})

theorem published_once_short :
    ∃ got exit, Reception oneChunk (visible (calmRun (text "mock-1")).1) got exit ∧
      PublishedOnce (bases (calmRun (text "mock-1")).1) ∧
      Loggable (text "mock") (text "mock-1") got exit (wallReadings (bases (calmRun (text "mock-1")).1)) := by
  have hrun : Run Possible (plainInstrumentation.streamChat oneChunkProvider {messages := [], model := text "mock-1"})
      (calmRun (text "mock-1")).1 (calmRun (text "mock-1")).2 := drive_run (fun _ => calm_possible) 0 _
  obtain ⟨got,exit,hreception,hiff⟩ := published_once_iff hrun (by decide +kernel)
  have hids : (started (bases (calmRun (text "mock-1")).1)).map (fun e => e.fields.id) = [7] := by decide +kernel
  obtain ⟨event,hstarted,hid⟩ := List.map_eq_singleton_iff.mp hids
  have hminted : minted (bases (calmRun (text "mock-1")).1) = [7] := by decide +kernel
  have honce : PublishedOnce (bases (calmRun (text "mock-1")).1) :=
    ⟨event,hstarted,by rw [hminted, hid],by decide +kernel⟩
  exact ⟨got,exit,hreception,honce,hiff.mp honce⟩

/-- A call with a model name of 129 characters ends without any publish. -/
theorem long_model_unpublished :
    ∃ (model : Text) (tr : CallTrace quietSignature) (out : Except Exc Unit), model ≠ [] ∧
      Run Possible (plainInstrumentation.streamChat oneChunkProvider {messages := [], model := model}) tr out ∧
      (monotonicReadings (bases tr)).Pairwise (· ≤ ·) ∧ ¬ PublishedOnce (bases tr) := by
  refine ⟨List.replicate 129 0x6d,_,_,by decide,drive_run (fun _ => calm_possible) 0 _,by decide +kernel,?_⟩
  rintro ⟨event,hs,-,-⟩
  have hnone : (started (bases (calmRun (List.replicate 129 0x6d)).1)).isEmpty = true := by decide +kernel
  have hs' : started (bases (calmRun (List.replicate 129 0x6d)).1) = [event] := hs
  rw [hs'] at hnone
  cases hnone

end Instrumentation
end InferenceLogger
