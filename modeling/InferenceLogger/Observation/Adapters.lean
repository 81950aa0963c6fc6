import InferenceLogger.Foundation.Reports
import InferenceLogger.Observation.OneEvent
import InferenceLogger.Providers.Vendors

/-! # What the vendor adapters keep

A call whose chunks are all taken reads a stream of vendor events to its end, however that
comes about. The chunks carry the vendor's text and its last stop reason. They carry the last
counts of an OpenAI stream; of an Anthropic stream they carry the input count of its start
events and the output count of its delta events.
-/
namespace InferenceLogger
open PyText PyJson AsyncTask Reports Instrumentation

variable {B : Signature}

/-- The events a call read: none when the vendor refuses to open a stream. -/
inductive Delivered {X : Type} (opening : Option (Task B Exc (Gen B X Exc Unit))) (closing : Task B Exc Unit) :
    Trace B Exc → List X → Prop where
  | unconfigured : opening = none → Delivered opening closing [] []
  | refused {create : Task B Exc (Gen B X Exc Unit)} {tr e} :
      opening = some create → Run Whatever create tr (.error e) → Delivered opening closing tr []
  | opened {create : Task B Exc (Gen B X Exc Unit)} {stream before source exit after closed} :
      opening = some create → Run Whatever create before (.ok stream) →
      Run (Drained Whatever) stream source exit → Run Whatever closing after closed →
      Delivered opening closing (before ++ (bases source ++ after)) (yielded source)

/-- What an adapter's loop yields of the events it read. -/
theorem adapter_run {X : Type} {create : Task B Exc (Gen B X Exc Unit)} {closing : Task B Exc Unit}
    {f : X → Option StreamChunk} {tr : Trace (genSignature B StreamChunk) Exc} {out : Except Exc Unit}
    (h : Run (Drained Whatever) (do
      let stream ← (Gen.ofBase create : Gen B StreamChunk Exc _)
      let (_,exit) ← asyncFor (S := genSignature B StreamChunk) Gen.baseCall stream () fun _ x => relay (f x)
      (Gen.ofBase closing : Gen B StreamChunk Exc Unit)
      Task.ofExcept exit) tr out) :
    ∃ events, Delivered (some create) closing (bases tr) events ∧ yielded tr = events.filterMap f := by
  rcases Run.bind_iff.mp h with ⟨tr₁,stream,tr₂,rfl,h₁,h₂⟩ | ⟨e,-,h₁⟩
  · obtain ⟨before,rfl,hopen⟩ := Run.ofBase_iff.mp h₁
    rcases Run.bind_iff.mp h₂ with ⟨tr₃,looped,tr₄,rfl,h₃,h₄⟩ | ⟨e,-,h₃⟩
    · obtain ⟨source,exit,hsource,ho,hb,hy⟩ := asyncFor_relay_drained h₃
      cases ho
      have hclosed : ∃ after closed, tr₄ = after.map Gen.baseEvent ∧ Run Whatever closing after closed := by
        rcases Run.bind_iff.mp h₄ with ⟨tr₅,u,tr₆,rfl,h₅,h₆⟩ | ⟨e,-,h₅⟩
        · obtain ⟨after,rfl,hafter⟩ := Run.ofBase_iff.mp h₅
          obtain ⟨rfl,-⟩ := Run.ofExcept_iff.mp h₆
          exact ⟨after,_,by simp,hafter⟩
        · obtain ⟨after,rfl,hafter⟩ := Run.ofBase_iff.mp h₅
          exact ⟨after,_,rfl,hafter⟩
      obtain ⟨after,closed,rfl,hafter⟩ := hclosed
      refine ⟨yielded source,?_,by simpa using hy⟩
      rw [bases_append, bases_append, bases_baseEvent, bases_baseEvent, ← hb]
      exact .opened rfl hopen hsource hafter
    · obtain ⟨source,exit,-,ho,-⟩ := asyncFor_relay_drained h₃
      cases ho
  · obtain ⟨before,rfl,hopen⟩ := Run.ofBase_iff.mp h₁
    refine ⟨[],?_,by simp⟩
    rw [bases_baseEvent]
    exact .refused rfl hopen

theorem translating_run {Y : Type} {isApiError : Exc → Bool} {translate : Text → Text → AppError}
    {t : Gen B Y Exc Unit} {allowed} {tr : Trace (genSignature B Y) Exc} {out : Except Exc Unit}
    (h : Run allowed (translating isApiError translate t) tr out) : ∃ out', Run allowed t tr out' := by
  obtain ⟨tr₁,r,tr₂,rfl,h₁,h₂⟩ := Run.resume_iff.mp h
  cases r with
  | ok u =>
    obtain ⟨rfl,-⟩ := Run.done_iff.mp h₂
    exact ⟨_,by simpa using h₁⟩
  | error e =>
    obtain ⟨rfl,-⟩ := Run.raise_iff.mp h₂
    exact ⟨_,by simpa using h₁⟩

/-- What chunks add up to. -/
structure AddsUp (chunks : List StreamChunk) (answer : Text) (inputTokens outputTokens : Option ℤ)
    (finishReason : Option Text) : Prop where
  answer : (chunks.map StreamChunk.deltaText).flatten = answer
  inputTokens : last (fun c => c.usage.bind TokenUsage.inputTokens) chunks = inputTokens
  outputTokens : last (fun c => c.usage.bind TokenUsage.outputTokens) chunks = outputTokens
  finishReason : last StreamChunk.finishReason chunks = finishReason

theorem flatten_filterMap {X : Type} {f : X → Option StreamChunk} (events : List X) :
    ((events.filterMap f).map StreamChunk.deltaText).flatten =
      (events.map fun e => ((f e).map StreamChunk.deltaText).getD []).flatten := by
  induction events with
  | nil => rfl
  | cons e events ih =>
    cases h : f e with
    | none => simp [h,ih]
    | some c => simp [h,ih]

/-! ## OpenAI -/

namespace OpenAIEvent

/-- The text of the first choice. -/
def content (e : OpenAIEvent) : Text := (e.choices.head?.bind OpenAIChoice.content).getD []

def finishReason (e : OpenAIEvent) : Option Text := e.choices.head?.bind OpenAIChoice.finishReason

end OpenAIEvent

namespace OpenAIProvider

/-- An event that is skipped says nothing, and no other is cut. -/
theorem toChunk_keeps (e : OpenAIEvent) :
    ((toChunk e).map StreamChunk.deltaText).getD [] = e.content ∧
    (toChunk e).bind (fun c => c.usage.bind TokenUsage.inputTokens) = e.usage.bind OpenAIUsage.promptTokens ∧
    (toChunk e).bind (fun c => c.usage.bind TokenUsage.outputTokens) =
      e.usage.bind OpenAIUsage.completionTokens ∧
    (toChunk e).bind StreamChunk.finishReason = e.finishReason := by
  rcases e with ⟨id,usage,choices⟩
  rcases choices with _ | ⟨⟨content,finish⟩,rest⟩
  · cases usage <;> simp [toChunk,OpenAIEvent.content,OpenAIEvent.finishReason]
  · cases usage with
    | some u => simp [toChunk,OpenAIEvent.content,OpenAIEvent.finishReason]
    | none =>
      cases finish with
      | some f => simp [toChunk,OpenAIEvent.content,OpenAIEvent.finishReason]
      | none =>
        by_cases hc : content.getD [] = []
        · simp [toChunk,OpenAIEvent.content,OpenAIEvent.finishReason,hc]
        · simp [toChunk,OpenAIEvent.content,OpenAIEvent.finishReason,hc]

theorem addsUp (events : List OpenAIEvent) :
    AddsUp (events.filterMap toChunk) (events.map OpenAIEvent.content).flatten
      (last (fun e => e.usage.bind OpenAIUsage.promptTokens) events)
      (last (fun e => e.usage.bind OpenAIUsage.completionTokens) events)
      (last OpenAIEvent.finishReason events) := by
  refine ⟨?_,?_,?_,?_⟩
  · rw [flatten_filterMap]
    exact congrArg List.flatten (List.map_congr_left fun e _ => (toChunk_keeps e).1)
  · rw [last_filterMap]
    exact last_congr fun e _ => (toChunk_keeps e).2.1
  · rw [last_filterMap]
    exact last_congr fun e _ => (toChunk_keeps e).2.2.1
  · rw [last_filterMap]
    exact last_congr fun e _ => (toChunk_keeps e).2.2.2

theorem streamChat_run {p : OpenAIProvider B} {request : ChatRequest}
    {tr : Trace (genSignature B StreamChunk) Exc} {out : Except Exc Unit}
    (h : Run (Drained Whatever) (p.streamChat request) tr out) :
    ∃ events, Delivered (p.client.map fun c => c.create (p.openAIRequest request)) (.done ()) (bases tr) events ∧
      yielded tr = events.filterMap toChunk := by
  unfold streamChat at h
  split at h
  · rename_i hc
    obtain ⟨rfl,-⟩ := Run.raise_iff.mp h
    exact ⟨[],.unconfigured (by rw [hc]; rfl),rfl⟩
  · rename_i client hc
    obtain ⟨out',h'⟩ := translating_run h
    rw [hc]
    exact adapter_run h'

end OpenAIProvider

/-! ## Anthropic -/

namespace AnthropicEvent

def deltaText : AnthropicEvent → Text
  | .textDelta t => t
  | _ => []

def stopReason : AnthropicEvent → Option Text
  | .messageDelta reason _ => reason
  | _ => none

/-- The counts an event reports. -/
def usage : AnthropicEvent → Option AnthropicUsage
  | .messageStart _ u => some u
  | .messageDelta _ u => some u
  | _ => none

/-- The input count of a start event. -/
def startInput : AnthropicEvent → Option ℤ
  | .messageStart _ u => u.inputTokens
  | _ => none

/-- The output count of a delta event. -/
def deltaOutput : AnthropicEvent → Option ℤ
  | .messageDelta _ u => u.outputTokens
  | _ => none

end AnthropicEvent

namespace AnthropicProvider

theorem toChunk_keeps (e : AnthropicEvent) :
    ((toChunk e).map StreamChunk.deltaText).getD [] = e.deltaText ∧
    (toChunk e).bind (fun c => c.usage.bind TokenUsage.inputTokens) = e.startInput ∧
    (toChunk e).bind (fun c => c.usage.bind TokenUsage.outputTokens) = e.deltaOutput ∧
    (toChunk e).bind StreamChunk.finishReason = e.stopReason := by
  cases e <;> exact ⟨rfl,rfl,rfl,rfl⟩

theorem addsUp (events : List AnthropicEvent) :
    AddsUp (events.filterMap toChunk) (events.map AnthropicEvent.deltaText).flatten
      (last AnthropicEvent.startInput events) (last AnthropicEvent.deltaOutput events)
      (last AnthropicEvent.stopReason events) := by
  refine ⟨?_,?_,?_,?_⟩
  · rw [flatten_filterMap]
    exact congrArg List.flatten (List.map_congr_left fun e _ => (toChunk_keeps e).1)
  · rw [last_filterMap]
    exact last_congr fun e _ => (toChunk_keeps e).2.1
  · rw [last_filterMap]
    exact last_congr fun e _ => (toChunk_keeps e).2.2.1
  · rw [last_filterMap]
    exact last_congr fun e _ => (toChunk_keeps e).2.2.2

theorem streamChat_run {p : AnthropicProvider B} {request : ChatRequest}
    {tr : Trace (genSignature B StreamChunk) Exc} {out : Except Exc Unit}
    (h : Run (Drained Whatever) (p.streamChat request) tr out) :
    ∃ events, Delivered (p.client.map fun c => c.enter (anthropicRequest request))
        ((p.client.map AnthropicClient.exit).getD (.done ())) (bases tr) events ∧
      yielded tr = events.filterMap toChunk := by
  unfold streamChat at h
  split at h
  · rename_i hc
    obtain ⟨rfl,-⟩ := Run.raise_iff.mp h
    exact ⟨[],.unconfigured (by rw [hc]; rfl),rfl⟩
  · rename_i client hc
    obtain ⟨out',h'⟩ := translating_run h
    rw [hc]
    exact adapter_run h'

end AnthropicProvider

/-- Of the events a call reads, its chunks keep the whole text, the last stop reason, and the
last counts: all of an OpenAI stream's, and of an Anthropic stream's the input counts of the
start events and the output counts of the delta events. -/
theorem adapters_keep :
    (∀ (p : OpenAIProvider B) (request : ChatRequest) (tr : Trace (genSignature B StreamChunk) Exc)
      (out : Except Exc Unit), Run (Drained Whatever) (p.streamChat request) tr out →
      ∃ events, Delivered (p.client.map fun c => c.create (p.openAIRequest request)) (.done ()) (bases tr) events ∧
        AddsUp (yielded tr) (events.map OpenAIEvent.content).flatten
          (last (fun e => e.usage.bind OpenAIUsage.promptTokens) events)
          (last (fun e => e.usage.bind OpenAIUsage.completionTokens) events)
          (last OpenAIEvent.finishReason events)) ∧
    (∀ (p : AnthropicProvider B) (request : ChatRequest) (tr : Trace (genSignature B StreamChunk) Exc)
      (out : Except Exc Unit), Run (Drained Whatever) (p.streamChat request) tr out →
      ∃ events, Delivered (p.client.map fun c => c.enter (AnthropicProvider.anthropicRequest request))
          ((p.client.map AnthropicClient.exit).getD (.done ())) (bases tr) events ∧
        AddsUp (yielded tr) (events.map AnthropicEvent.deltaText).flatten
          (last AnthropicEvent.startInput events) (last AnthropicEvent.deltaOutput events)
          (last AnthropicEvent.stopReason events)) := by
  constructor
  · intro p request tr out h
    obtain ⟨events,hd,hy⟩ := OpenAIProvider.streamChat_run h
    exact ⟨events,hd,hy ▸ OpenAIProvider.addsUp events⟩
  · intro p request tr out h
    obtain ⟨events,hd,hy⟩ := AnthropicProvider.streamChat_run h
    exact ⟨events,hd,hy ▸ AnthropicProvider.addsUp events⟩

/-! ## Scripted vendors -/

/-- A vendor's stream that sends these events without a pause. -/
def sending {X : Type} : List X → Gen quietSignature X Exc Unit
  | [] => .done ()
  | e :: events => .await (.yield e) fun _ => sending events

theorem sending_run {X : Type} (events : List X) :
    ∃ source : Trace (genSignature quietSignature X) Exc,
      Run (Drained Whatever) (sending events) source (.ok ()) ∧ bases source = [] ∧ yielded source = events := by
  induction events with
  | nil => exact ⟨[],.done _,rfl,rfl⟩
  | cons e events ih =>
    obtain ⟨source,hrun,hb,hy⟩ := ih
    exact ⟨⟨.yield e,.ok ()⟩ :: source,.await rfl hrun,hb,congrArg (List.cons e) hy⟩

/-- Every chunk is taken. -/
def taking : (op : GenOp quietSignature StreamChunk) →
    Except Exc ((genSignature quietSignature StreamChunk).Answer op)
  | .base op => op.elim
  | .yield _ => .ok ()

theorem taking_drained (op : GenOp quietSignature StreamChunk) : Drained Whatever op (taking op) := by
  cases op with
  | base op => exact op.elim
  | «yield» chunk => rfl

def scriptedOpenAI (events : List OpenAIEvent) : OpenAIProvider quietSignature where
  client := some {create := fun _ => .done (sending events), isApiError := fun _ => false}
  defaultModel := text "m"

def scriptedAnthropic (events : List AnthropicEvent) : AnthropicProvider quietSignature where
  client := some {enter := fun _ => .done (sending events), exit := .done (), isApiError := fun _ => false}
  defaultModel := text "m"

/-- Usage on every event, the shape that once lost the text. -/
def usageEverywhere : List OpenAIEvent :=
  [⟨text "0",some ⟨some 7,some 1,none⟩,[⟨some (text "Two "),none⟩]⟩,
    ⟨text "1",some ⟨some 7,some 2,none⟩,[⟨some (text "types"),some (text "stop")⟩]⟩]

def onlyStarted : List AnthropicEvent := [.messageStart (text "msg_1") ⟨some 9,some 1⟩]

def shortRequest : ChatRequest := {messages := [], model := text "m"}

def openAIRun : Trace (genSignature quietSignature StreamChunk) Exc × Except Exc Unit :=
  drive (fun _ => taking) 0 ((scriptedOpenAI usageEverywhere).streamChat shortRequest)

def anthropicRun : Trace (genSignature quietSignature StreamChunk) Exc × Except Exc Unit :=
  drive (fun _ => taking) 0 ((scriptedAnthropic onlyStarted).streamChat shortRequest)

theorem adapters_keep_scripted :
    (∃ events, Delivered (some (.done (sending usageEverywhere))) (.done ()) (bases openAIRun.1) events ∧
      AddsUp (yielded openAIRun.1) (events.map OpenAIEvent.content).flatten
        (last (fun e => e.usage.bind OpenAIUsage.promptTokens) events)
        (last (fun e => e.usage.bind OpenAIUsage.completionTokens) events)
        (last OpenAIEvent.finishReason events)) ∧
    (∃ events, Delivered (some (.done (sending onlyStarted))) (.done ()) (bases anthropicRun.1) events ∧
      AddsUp (yielded anthropicRun.1) (events.map AnthropicEvent.deltaText).flatten
        (last AnthropicEvent.startInput events) (last AnthropicEvent.deltaOutput events)
        (last AnthropicEvent.stopReason events)) :=
  ⟨adapters_keep.1 (scriptedOpenAI usageEverywhere) shortRequest _ _ (drive_run (fun _ => taking_drained) 0 _),
    adapters_keep.2 (scriptedAnthropic onlyStarted) shortRequest _ _ (drive_run (fun _ => taking_drained) 0 _)⟩

/-- The output count of a start event reaches no chunk. -/
theorem start_output_dropped :
    ∃ (p : AnthropicProvider quietSignature) (tr : Trace (genSignature quietSignature StreamChunk) Exc)
      (out : Except Exc Unit), Run (Drained Whatever) (p.streamChat shortRequest) tr out ∧
      Delivered (p.client.map fun c => c.enter (AnthropicProvider.anthropicRequest shortRequest))
        ((p.client.map AnthropicClient.exit).getD (.done ())) (bases tr) onlyStarted ∧
      last (fun c => c.usage.bind TokenUsage.outputTokens) (yielded tr) ≠
        last (fun e => e.usage.bind AnthropicUsage.outputTokens) onlyStarted := by
  refine ⟨scriptedAnthropic onlyStarted,anthropicRun.1,anthropicRun.2,drive_run (fun _ => taking_drained) 0 _,
    ?_,by decide⟩
  obtain ⟨source,hrun,hb,hy⟩ := sending_run onlyStarted
  have hread := @Delivered.opened _ _ _ (.done ()) _ _ _ _ _ _ _ rfl (.done (sending onlyStarted)) hrun (.done ())
  rw [hb, hy] at hread
  exact hread

end InferenceLogger
