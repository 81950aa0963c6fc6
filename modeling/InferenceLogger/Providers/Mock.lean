import InferenceLogger.Foundation.Numerals
import InferenceLogger.Foundation.Words
import InferenceLogger.Providers.Base

/-! # The mock provider

A provider that needs no key and no network. Its reply is one sentence about the request, sent
word by word. `_stream_forever` has no end; here it ends at a horizon, and what holds at every
horizon holds of it.
-/
namespace InferenceLogger
open PyText PyJson AsyncTask Words

/-- `asyncio.sleep` in milliseconds, and `hashlib.sha256(…).hexdigest()`. -/
structure MockProvider (B : Signature) where
  sleep : ℕ → Task B Exc Unit
  sha256 : Text → Text
  horizon : ℕ

namespace MockProvider

/-- `_DELAYS`. -/
def delays : List (Text × ℕ) :=
  [(text "mock",40),(text "mock-slow",600),(text "mock-error",40),(text "mock-instant",0),(text "mock-cancel",80)]

/-- `_ENDLESS_MODEL`. -/
def endlessModel : Text := text "mock-cancel"

/-- `_ERROR_MODEL`. -/
def errorModel : Text := text "mock-error"

def delay (request : ChatRequest) : ℕ := (delays.lookup request.model).getD 40

/-- `str.split()`. -/
def split (t : Text) : List Text := words isSpace t

/-- `content.strip()[:80] or "nothing in particular"`. -/
def about (content : Text) : Text :=
  let start := (strip content).take 80
  if start = [] then text "nothing in particular" else start

/-- `_topic`. -/
def topic (request : ChatRequest) : Text :=
  match request.messages.reverse.find? fun m => m.role = .user with
  | some message => about message.content
  | none => text "nothing in particular"

def turn (request : ChatRequest) : ℕ := request.messages.countP fun m => m.role = .user

/-- `max(len(request.messages) - 1, 0)`. -/
def prior (request : ChatRequest) : ℕ := request.messages.length - 1

/-- `_TEMPLATE.format(…)`. -/
def reply (topic : Text) (turn prior : ℕ) : Text :=
  text "You asked about " ++ topic ++ text ". This is turn " ++ decimal turn ++
    text " of the conversation, and I received " ++ decimal prior ++
    text " earlier message(s) as context. Here is a deterministic reply from the mock provider, " ++
    text "which streams token by token so that latency, time-to-first-token and cancellation all behave exactly as they " ++
    text "would against a real model. Nothing here reaches the network."

def replyWords (request : ChatRequest) : List Text := split (reply (topic request) (turn request) (prior request))

/-- `sum(len(m.content.split()) for m in request.messages)`. -/
def inputTokens (request : ChatRequest) : ℕ := (request.messages.map fun m => (split m.content).length).sum

variable {B : Signature} (p : MockProvider B)

/-- `_request_id`; the seed is encoded first. -/
def requestId (request : ChatRequest) : Except Exc Text :=
  let seed := List.intercalate (text "|") (request.messages.map ChatMessage.content)
  if encodable seed = true then .ok (text "mock_" ++ (p.sha256 seed).take 16)
  else .error (.own (.exception (text "UnicodeEncodeError") []))

/-- `_stream_forever`, up to the horizon. -/
def streamForever (delay : ℕ) : ℕ → ℕ → Gen B StreamChunk Exc Unit
  | _, 0 => return ()
  | counter, n + 1 => do
    Gen.yield {deltaText := text "still-streaming-" ++ decimal (counter + 1) ++ text " "}
    (p.sleep delay : Task B Exc Unit)
    streamForever delay (counter + 1) n

def simulatedFailure : Exc :=
  .own (.appError ⟨.provider,text "Simulated upstream failure from the mock provider",none⟩)

/-- The loop over the words, from this index on. -/
def streamWords (request : ChatRequest) : ℕ → List Text → Gen B StreamChunk Exc Unit
  | _, [] => return ()
  | index, word :: rest => do
    if request.model = errorModel ∧ index = (replyWords request).length / 3 then throw simulatedFailure
    if delay request ≠ 0 then (p.sleep (delay request) : Task B Exc Unit)
    Gen.yield {deltaText := word ++ text " "}
    streamWords request (index + 1) rest

def streamChat (request : ChatRequest) : Gen B StreamChunk Exc Unit := do
  if request.model = endlessModel then
    p.streamForever (delay request) 0 p.horizon
  else
    p.streamWords request 0 (replyWords request)
    let id ← (Task.ofExcept (p.requestId request) : Task B Exc Text)
    Gen.yield {
      finishReason := some (text "stop")
      usage := some {inputTokens := some (inputTokens request), outputTokens := some (replyWords request).length}
      metadata := [(text "provider_request_id",.str id)] }

def provider : BaseProvider B where
  name := text "mock"
  defaultModel := text "mock"
  isConfigured := true
  maxOutputTokensCap := none
  streamChat := p.streamChat

end MockProvider
end InferenceLogger
