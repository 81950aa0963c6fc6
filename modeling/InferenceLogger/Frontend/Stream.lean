import InferenceLogger.Foundation.Framing
import InferenceLogger.Foundation.JsJson

/-! # The browser's reader of a stream

`streamMessage` from the response on: bytes are decoded as they come, frames are cut at blank
lines, and each complete frame is dispatched to one handler.
-/
namespace InferenceLogger.Frontend
open Utf JsJson Framing

/-- The arguments of `new ApiError`. -/
structure ApiError where
  code : Option JsValue
  message : Option JsValue
  status : ℕ

/-- What `streamMessage` can throw; the reader rejects when the fetch is aborted or the network
fails. -/
inductive Thrown where
  | apiError (error : ApiError)
  | syntaxError
  | typeError
  | rejected

inductive HandlerCall where
  | onStart (info : JsValue)
  | onTimeToFirstToken (ttftMs : Option JsValue)
  | onChunk (text : Option JsValue)
  | onDone (info : JsValue)
  | onError (error : ApiError)

/-- What comes through the reader, and how it ends. -/
structure Body where
  chunks : List (List Byte)
  ending : Except Thrown Unit

structure Response where
  ok : Bool
  status : ℕ
  /-- `await response.json()`; `none` when it fails. -/
  json : Option JsValue
  body : Option Body

/-- `value.key`: nothing can be read from `null`. -/
def property (key : String) : JsValue → Except Thrown (Option JsValue)
  | .null => .error .typeError
  | value => .ok (value.member (jsText key))

/-- `value?.key`. -/
def optional (key : String) (value : Option JsValue) : Option JsValue := value.bind (JsValue.member (jsText key))

/-- `value ?? fallback`. -/
def orElse (value : Option JsValue) (fallback : JsValue) : JsValue :=
  match value with
  | none => fallback
  | some .null => fallback
  | some v => v

def startsWith (pre line : JsString) : Bool := pre.isPrefixOf line

def newline : Separator CodeUnit := ⟨0x0a,[]⟩

def blankLine : Separator CodeUnit := ⟨0x0a,[0x0a]⟩

/-- One line of a frame: the event's name or its data. -/
def readLine (seen : JsString × JsString) (line : JsString) : JsString × JsString :=
  if startsWith (jsText "event: ") line then (line.drop 7,seen.2)
  else if startsWith (jsText "data: ") line then (seen.1,line.drop 6)
  else seen

/-- The handler a payload goes to. An unknown event is ignored. -/
def handle (event : JsString) (payload : JsValue) : Except Thrown (Option HandlerCall) :=
  if event = jsText "start" then .ok (some (.onStart payload))
  else if event = jsText "ttft" then do
    let ttftMs ← property "ttft_ms" payload
    return some (.onTimeToFirstToken ttftMs)
  else if event = jsText "chunk" then do
    let text ← property "text" payload
    return some (.onChunk text)
  else if event = jsText "done" then .ok (some (.onDone payload))
  else if event = jsText "error" then do
    let code ← property "code" payload
    let message ← property "message" payload
    return some (.onError ⟨code,message,200⟩)
  else .ok none

def dispatch (frame : JsString) : Except Thrown (Option HandlerCall) :=
  let seen := (split newline frame).foldl readLine ([],[])
  if seen.1 = [] ∨ seen.2 = [] then .ok none
  else match parse seen.2 with
    | none => .error .syntaxError
    | some payload => handle seen.1 payload

/-- The handlers a run has called, and how it ended. -/
abbrev Outcome := List HandlerCall × Except Thrown Unit

/-- What happens next, unless the run is over. -/
def Outcome.andThen (first next : Outcome) : Outcome :=
  match first with
  | (calls,.error e) => (calls,.error e)
  | (calls,.ok _) => (calls ++ next.1,next.2)

def dispatchAll : List JsString → Outcome
  | [] => ([],.ok ())
  | frame :: frames =>
    match dispatch frame with
    | .error e => ([],.error e)
    | .ok call => Outcome.andThen (call.toList,.ok ()) (dispatchAll frames)

/-- The reading loop. -/
def readAll (ending : Except Thrown Unit) : Decoder → JsString → List (List Byte) → Outcome
  | _, _, [] => ([],ending)
  | decoder, buffer, value :: values =>
    let (text,decoder) := decoder.decode value
    let buffer := buffer ++ text
    (dispatchAll (frames blankLine buffer)).andThen (readAll ending decoder (pending blankLine buffer) values)

def streamMessage (response : Response) : Outcome :=
  if response.ok then
    match response.body with
    | none =>
      ([],.error (.apiError ⟨some (.string (jsText "no_stream")),some (.string (jsText "The server returned no stream body.")),
        response.status⟩))
    | some body => readAll body.ending {} [] body.chunks
  else
    let error := optional "error" response.json
    ([],.error (.apiError ⟨orElse (optional "code" error) (.string (jsText "unknown_error")),
      orElse (optional "message" error) (.string (jsText s!"Request failed with status {response.status}")),response.status⟩))

/-! ## Packets do not matter -/

theorem Outcome.andThen_assoc (a b c : Outcome) : (a.andThen b).andThen c = a.andThen (b.andThen c) := by
  obtain ⟨calls,r⟩ := a
  cases r with
  | error e => rfl
  | ok u =>
    obtain ⟨calls',r'⟩ := b
    cases r' with
    | error e => rfl
    | ok u' => simp [Outcome.andThen]

theorem dispatchAll_append (fs gs : List JsString) :
    dispatchAll (fs ++ gs) = (dispatchAll fs).andThen (dispatchAll gs) := by
  induction fs with
  | nil =>
    simp [dispatchAll,Outcome.andThen]
  | cons f fs ih =>
    simp only [List.cons_append, dispatchAll]
    cases dispatch f with
    | error e => rfl
    | ok call => simp only [ih, Outcome.andThen_assoc]

/-- The handlers that are called depend on the bytes alone. -/
theorem readAll_flatten (ending : Except Thrown Unit) (decoder : Decoder) {buffer : JsString}
    (hb : frames blankLine buffer = []) (values : List (List Byte)) :
    readAll ending decoder buffer values =
      (dispatchAll (frames blankLine (buffer ++ (decoder.decode values.flatten).1))).andThen ([],ending) := by
  induction values generalizing decoder buffer with
  | nil =>
    have hnone : (decoder.decode []).1 = [] := by
      cases decoder
      rfl
    simp [readAll,hnone,hb,dispatchAll,Outcome.andThen]
  | cons value values ih =>
    have hopen : frames blankLine (pending blankLine (buffer ++ (decoder.decode value).1)) = [] := by
      have hsplit : frames blankLine ((buffer ++ (decoder.decode value).1) ++ []) = _ := frames_append _ _
      simpa using hsplit
    simp only [readAll]
    rw [ih _ hopen, ← Outcome.andThen_assoc, ← dispatchAll_append, ← frames_append, List.flatten_cons, Decoder.decode_append,
      List.append_assoc]

theorem streamMessage_body (body : Body) (status : ℕ) (json : Option JsValue) :
    streamMessage ⟨true,status,json,some body⟩ =
      (dispatchAll (frames blankLine ((Decoder.mk none false).decode body.chunks.flatten).1)).andThen ([],body.ending) :=
  readAll_flatten body.ending {} rfl body.chunks

end InferenceLogger.Frontend
