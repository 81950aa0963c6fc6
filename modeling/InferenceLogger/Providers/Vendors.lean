import InferenceLogger.Providers.Base

/-! # The vendor adapters

Each adapter maps the vendor's stream of events to chunks, event by event. What a vendor's
package does is left open: it opens a stream for a request, or raises. Of an event the model
keeps what the adapter reads, and the counts an Anthropic event reports besides.
-/
namespace InferenceLogger
open PyText PyJson AsyncTask

/-- `except APIError as exc: raise self._translate(exc) from exc`. -/
def translating {B : Signature} {Y : Type} (isApiError : Exc → Bool) (translate : Text → Text → AppError)
    (t : Gen B Y Exc Unit) : Gen B Y Exc Unit :=
  t.resume fun
    | .ok () => .done ()
    | .error e => .raise (if isApiError e then .own (.appError (translate e.cls.typeName e.cls.str)) else e)

/-! ## OpenAI -/

structure OpenAIUsage where
  promptTokens : Option ℤ
  completionTokens : Option ℤ
  /-- `completion_tokens_details`, and its `reasoning_tokens`. -/
  completionTokensDetails : Option (Option ℤ)

structure OpenAIChoice where
  content : Option Text
  finishReason : Option Text

structure OpenAIEvent where
  id : Text
  usage : Option OpenAIUsage
  choices : List OpenAIChoice

structure OpenAIRequest where
  model : Text
  messages : List ChatMessage
  maxCompletionTokens : ℤ
  includeUsage : Bool

structure OpenAIClient (B : Signature) where
  create : OpenAIRequest → Task B Exc (Gen B OpenAIEvent Exc Unit)
  isApiError : Exc → Bool

structure OpenAIProvider (B : Signature) where
  client : Option (OpenAIClient B)
  defaultModel : Text
  requestsStreamUsage : Bool := true

namespace OpenAIProvider

/-- `_translate`: the vendor's own text, and the name of its class. -/
def translate (typeName str : Text) : AppError := ⟨.provider,str,some typeName⟩

/-- `_usage_metadata`. -/
def usageMetadata (requestId : Text) (usage : OpenAIUsage) : Members :=
  let metadata := [(text "provider_request_id",.str requestId)]
  match usage.completionTokensDetails.bind id with
  | some n => metadata ++ [(text "reasoning_tokens",.int n)]
  | none => metadata

/-- `_to_openai_messages`. -/
def toOpenAIMessages (request : ChatRequest) : List ChatMessage :=
  match request.system with
  | some (c :: cs) => ⟨.system,c :: cs⟩ :: request.messages
  | _ => request.messages

/-- The body of the loop: what one event is turned into, if it carries anything at all. -/
def toChunk (event : OpenAIEvent) : Option StreamChunk :=
  let usage := event.usage.map fun u => {inputTokens := u.promptTokens, outputTokens := u.completionTokens}
  let metadata := match event.usage with
    | some u => usageMetadata event.id u
    | none => []
  let deltaText := match event.choices with
    | choice :: _ => choice.content.getD []
    | [] => []
  let finishReason := match event.choices with
    | choice :: _ => choice.finishReason
    | [] => none
  if deltaText ≠ [] ∨ usage.isSome = true ∨ finishReason.isSome = true then
    some {deltaText := deltaText, finishReason := finishReason, usage := usage, metadata := metadata}
  else none

variable {B : Signature}

def openAIRequest (p : OpenAIProvider B) (request : ChatRequest) : OpenAIRequest where
  model := request.model
  messages := toOpenAIMessages request
  maxCompletionTokens := request.maxOutputTokens
  includeUsage := p.requestsStreamUsage

/-- `stream_chat`. -/
def streamChat (p : OpenAIProvider B) (request : ChatRequest) : Gen B StreamChunk Exc Unit :=
  match p.client with
  | none => .raise (.own (.appError ⟨.provider,text "OpenAI API key is not configured",none⟩))
  | some client => translating client.isApiError translate do
    let stream ← Gen.ofBase (client.create (p.openAIRequest request))
    let (_,exit) ← asyncFor (S := genSignature B StreamChunk) Gen.baseCall stream () fun _ event =>
      relay (toChunk event)
    Task.ofExcept exit

def provider (p : OpenAIProvider B) : BaseProvider B where
  name := text "openai"
  defaultModel := p.defaultModel
  isConfigured := p.client.isSome
  maxOutputTokensCap := none
  streamChat := p.streamChat

end OpenAIProvider

/-! ## Anthropic -/

/-- The usage of a `message_start` or `message_delta` event. -/
structure AnthropicUsage where
  inputTokens : Option ℤ
  outputTokens : Option ℤ

/-- `other` is any event or delta of another type. -/
inductive AnthropicEvent where
  | messageStart (id : Text) (usage : AnthropicUsage)
  | textDelta (text : Text)
  | messageDelta (stopReason : Option Text) (usage : AnthropicUsage)
  | other (type : Text)

structure AnthropicRequest where
  model : Text
  maxTokens : ℤ
  system : Option Text
  messages : List ChatMessage

/-- `messages.stream` is a context manager. -/
structure AnthropicClient (B : Signature) where
  enter : AnthropicRequest → Task B Exc (Gen B AnthropicEvent Exc Unit)
  exit : Task B Exc Unit
  isApiError : Exc → Bool

structure AnthropicProvider (B : Signature) where
  client : Option (AnthropicClient B)
  defaultModel : Text

namespace AnthropicProvider

/-- `_translate`. -/
def translate (typeName str : Text) : AppError := ⟨.provider,str,some typeName⟩

/-- `_to_chunk`. -/
def toChunk : AnthropicEvent → Option StreamChunk
  | .textDelta t => some {deltaText := t}
  | .messageStart id usage => some {
      usage := some {inputTokens := usage.inputTokens}
      metadata := [(text "provider_request_id",.str id)] }
  | .messageDelta stopReason usage => some {
      finishReason := stopReason
      usage := some {outputTokens := usage.outputTokens} }
  | .other _ => none

/-- `"\n\n".join(parts)`. -/
def joinParts (parts : List Text) : Text := List.intercalate (text "\n\n") parts

/-- `_split_system`. -/
def splitSystem (request : ChatRequest) : Option Text × List ChatMessage :=
  let first := match request.system with
    | some (c :: cs) => [c :: cs]
    | _ => []
  let parts := first ++ (request.messages.filter fun m => m.role = .system).map ChatMessage.content
  let joined := joinParts parts
  (if joined = [] then none else some joined,
    (request.messages.filter fun m => m.role ≠ .system).map fun m =>
      ⟨if m.role = .assistant then .assistant else .user,m.content⟩)

variable {B : Signature}

def anthropicRequest (request : ChatRequest) : AnthropicRequest where
  model := request.model
  maxTokens := request.maxOutputTokens
  system := (splitSystem request).1
  messages := (splitSystem request).2

/-- `stream_chat`. An exception of the manager's exit replaces the one in flight. -/
def streamChat (p : AnthropicProvider B) (request : ChatRequest) : Gen B StreamChunk Exc Unit :=
  match p.client with
  | none => .raise (.own (.appError ⟨.provider,text "Anthropic API key is not configured",none⟩))
  | some client => translating client.isApiError translate do
    let stream ← Gen.ofBase (client.enter (anthropicRequest request))
    let (_,exit) ← asyncFor (S := genSignature B StreamChunk) Gen.baseCall stream () fun _ event =>
      relay (toChunk event)
    Gen.ofBase client.exit
    Task.ofExcept exit

def provider (p : AnthropicProvider B) : BaseProvider B where
  name := text "anthropic"
  defaultModel := p.defaultModel
  isConfigured := p.client.isSome
  maxOutputTokensCap := none
  streamChat := p.streamChat

end AnthropicProvider
end InferenceLogger
