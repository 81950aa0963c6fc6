import InferenceLogger.Providers.Base
import InferenceLogger.Instrumentation.Redaction
import InferenceLogger.Instrumentation.Elapsed

/-! # Auto-instrumentation

`InstrumentedProvider` is a provider over the inner provider's operations and those of
its own: the id, the two clocks, and the publish task. The task is created in one
synchronous step and awaited in another, so a cancellation can only land on the await.
-/
namespace InferenceLogger
open PyText PyJson AsyncTask

/-- How a publish task is awaited: cancelling a shielded await leaves the task running. -/
inductive PublishAwait where
  | direct
  | shielded
  deriving DecidableEq

inductive CallOp (B : Signature) where
  | inner (op : B.Op)
  | uuid4
  | now
  | monotonic
  | createPublish (event : InferenceEvent)
  | awaitPublish (how : PublishAwait)

/-- Wall-clock readings are in microseconds, the monotonic clock's in nanoseconds. -/
@[reducible] def callSignature (B : Signature) : Signature where
  Op := CallOp B
  Answer
    | .inner op => B.Answer op
    | .uuid4 => Uuid
    | .now => ℤ
    | .monotonic => ℕ
    | .createPublish _ => Unit
    | .awaitPublish _ => Unit

section Calls
variable {B : Signature}

abbrev CallTask (B : Signature) := Task (callSignature B) Exc

abbrev CallGen (B : Signature) := Gen (callSignature B) StreamChunk Exc

def uuid4 : CallTask B Uuid := Task.call (S := callSignature B) .uuid4
def now : CallTask B ℤ := Task.call (S := callSignature B) .now
def monotonic : CallTask B ℕ := Task.call (S := callSignature B) .monotonic

/-- `_merge_usage`: the last value of each field that is not `None`. -/
def mergeUsage (current : TokenUsage) : Option TokenUsage → TokenUsage
  | none => current
  | some incoming => {
      inputTokens := incoming.inputTokens.or current.inputTokens
      outputTokens := incoming.outputTokens.or current.outputTokens }

/-- `a or b` on optional texts: an empty text is false. -/
def orText (a b : Option Text) : Option Text :=
  match a with
  | some (c :: cs) => some (c :: cs)
  | _ => b

/-- `_classify`. -/
def classify : ExcClass → InferenceStatus × Option Text × Text
  | .cancelledError => (.cancelled,none,text "Cancelled by client")
  | .generatorExit => (.cancelled,none,text "Cancelled by client")
  | .appError e =>
    if e.kind = .provider then
      (.error,some ((orText e.errorType none).getD e.kind.typeName),e.message)
    else (.error,some e.kind.typeName,(orText (some e.message) none).getD e.kind.typeName)
  | c => (.error,some c.typeName,(orText (some c.str) none).getD c.typeName)

/-- `_last_user_text`. -/
def lastUserText (request : ChatRequest) : Option Text :=
  (request.messages.reverse.find? (fun m => m.role = .user)).map ChatMessage.content

/-- What the loop of `stream_chat` accumulates. -/
structure Observed where
  ttftMs : Option ℤ := none
  chunks : List Text := []
  usage : TokenUsage := {}
  finishReason : Option Text := none
  metadata : Members := []

/-- One chunk, once its arrival has been timed. -/
def Observed.absorb (o : Observed) (chunk : StreamChunk) : Observed where
  ttftMs := o.ttftMs
  chunks := o.chunks ++ [chunk.deltaText]
  usage := mergeUsage o.usage chunk.usage
  finishReason := orText chunk.finishReason o.finishReason
  metadata := updateMembers o.metadata chunk.metadata

/-- `_publish_resiliently`. -/
def publishResiliently (event : InferenceEvent) : CallTask B Unit := do
  Task.call (S := callSignature B) (.createPublish event)
  Task.call (S := callSignature B) (.awaitPublish .shielded)

/-- The arguments of the wrapper's constructor. -/
structure Instrumentation where
  redactor : Redactor
  conversationId : Option Uuid
  streamed : Bool

namespace Instrumentation
variable (w : Instrumentation) (inner : BaseProvider B)

/-- Time to first token: the clock is read at the first chunk that carries text. -/
def timed (start : ℕ) (o : Observed) (chunk : StreamChunk) : CallTask B Observed :=
  if o.ttftMs = none ∧ chunk.deltaText ≠ [] then do
    let stop ← monotonic
    return {o with ttftMs := some (elapsedMs start stop)}
  else return o

/-- The body of the loop. What is thrown in at the `yield` is part of the result: the
accumulators are read after it. -/
def observe (start : ℕ) (o : Observed) (chunk : StreamChunk) :
    CallGen B (Observed × Except Exc Unit) := do
  let o ← timed (B := B) start o chunk
  let resumed ← (Gen.yield (B := callSignature B) chunk).attempt
  return (o.absorb chunk,resumed)

/-- `status`, `error_type` and `error_message` when the loop has been left. -/
def terminal : Except Exc Unit → InferenceStatus × Option Text × Option Text
  | .ok () => (.success,none,none)
  | .error e =>
    let (status,errorType,errorMessage) := classify e.cls
    (status,errorType,some errorMessage)

/-- The event's fields, as the `finally` block fills them in. -/
def eventFields (request : ChatRequest) (eventId : Uuid) (startedAt completedAt : ℤ)
    (latencyMs : ℤ) (o : Observed) (exit : Except Exc Unit) : EventFields :=
  let (status,errorType,errorMessage) := terminal exit
  { schemaVersion := SCHEMA_VERSION
    id := eventId
    conversationId := w.conversationId
    messageId := none
    provider := inner.name
    model := request.model
    status := status
    streamed := w.streamed
    startedAt := .utc startedAt
    completedAt := .utc completedAt
    latencyMs := some latencyMs
    ttftMs := o.ttftMs
    inputTokens := o.usage.inputTokens
    outputTokens := o.usage.outputTokens
    inputPreview := w.redactor.preview (lastUserText request)
    outputPreview := w.redactor.preview (some o.chunks.flatten)
    errorType := errorType
    errorMessage := errorMessage
    finishReason := o.finishReason
    rawMetadata := if o.metadata = [] then none else some o.metadata }

/-- The `finally` block. An exception raised here replaces the one in flight. -/
def finish (request : ChatRequest) (eventId : Uuid) (startedAt : ℤ) (start : ℕ) (o : Observed)
    (exit : Except Exc Unit) : CallTask B Unit := do
  let completedAt ← now
  let stop ← monotonic
  match InferenceEvent.construct
      (w.eventFields inner request eventId startedAt completedAt (elapsedMs start stop) o exit) with
  | .error e => throw (.own (.eventInvalid e))
  | .ok event => publishResiliently event

/-- `stream_chat`. -/
def streamChat (request : ChatRequest) : CallGen B Unit := do
  let eventId ← (uuid4 : CallTask B Uuid)
  let startedAt ← (now : CallTask B ℤ)
  let start ← (monotonic : CallTask B ℕ)
  let (o,exit) ← asyncFor (S := genSignature (callSignature B) StreamChunk)
    (fun op => Gen.baseCall (B := callSignature B) (.inner op)) (inner.streamChat request) {}
    (observe start)
  (w.finish inner request eventId startedAt start o exit : CallTask B Unit)
  Task.ofExcept exit

/-- `InstrumentedProvider`: substitutable for the provider it wraps. -/
def provider : BaseProvider (callSignature B) where
  name := text "instrumented"
  defaultModel := inner.defaultModel
  isConfigured := inner.isConfigured
  maxOutputTokensCap := none
  streamChat := w.streamChat inner

end Instrumentation
end Calls
end InferenceLogger
