import InferenceLogger.Foundation.Transition
import InferenceLogger.Frontend.Stream

/-! # The chat window

`useStreamingChat`, the window around it and its composer. Every send leaves a stream that calls
back until it settles; all of them share one view and one controller ref. One action is one
event of the user or the router, one callback, or the settling of one stream.
-/
namespace InferenceLogger.Frontend
open Utf JsJson

structure StreamingState where
  pendingUserContent : Option JsString := none
  text : JsString := []
  isStreaming : Bool := false
  ttftMs : Option ℤ := none
  latencyMs : Option ℤ := none
  error : Option ApiError := none
  wasCancelled : Bool := false

def idle : StreamingState := {}

inductive Callback where
  | onStart (conversationId : JsString)
  | onTimeToFirstToken (ttftMs : ℤ)
  | onChunk (text : JsString)
  | onDone (latencyMs : ℤ)
  | onError (error : ApiError)

/-- The `setState` of a callback. -/
def Callback.update (previous : StreamingState) : Callback → StreamingState
  | .onStart _ => previous
  | .onTimeToFirstToken ttftMs => { previous with ttftMs := some ttftMs }
  | .onChunk text => { previous with text := previous.text ++ text }
  | .onDone latencyMs => { previous with isStreaming := false, latencyMs := some latencyMs }
  | .onError error => { previous with isStreaming := false, error := some error }

def interrupted : ApiError :=
  ⟨some (.string (jsText "network_error")),some (.string (jsText "The stream was interrupted.")),0⟩

/-- The `catch` of `send`. -/
def caught (previous : StreamingState) (aborted : Bool) (error : Option ApiError) : StreamingState :=
  if aborted then { previous with isStreaming := false, wasCancelled := true }
  else { previous with isStreaming := false, error := some (error.getD interrupted) }

/-- One call of `send` and its `AbortController`. -/
structure Sending where
  /-- The window's conversation when it was made. -/
  conversationId : Option JsString
  aborted : Bool
  settled : Bool

structure Window where
  state : StreamingState
  /-- The index of the send whose controller the ref holds. -/
  controllerRef : Option ℕ
  sends : List Sending
  /-- The id in the URL. -/
  conversationId : Option JsString
  /-- The id the reset effect last ran for. -/
  effectRan : Option (Option JsString)
  selfNavigated : Option JsString

def Window.opened (conversationId : Option JsString) : Window where
  state := idle
  controllerRef := none
  sends := []
  conversationId := conversationId
  effectRan := none
  selfNavigated := none

/-- White space and line ends, as `trim` removes them. -/
def isTrimmed (c : CodeUnit) : Bool :=
  (0x09 ≤ c.val && c.val ≤ 0x0d) || c.val == 0x20 || c.val == 0xa0 || c.val == 0x1680 ||
  (0x2000 ≤ c.val && c.val ≤ 0x200a) || c.val == 0x2028 || c.val == 0x2029 || c.val == 0x202f ||
  c.val == 0x205f || c.val == 0x3000 || c.val == 0xfeff

def trim (draft : JsString) : JsString := (draft.dropWhile isTrimmed).rdropWhile isTrimmed

def Window.send (w : Window) (content : JsString) : Window :=
  { w with
    state := { idle with isStreaming := true, pendingUserContent := some content }
    controllerRef := some w.sends.length
    sends := w.sends ++ [⟨w.conversationId,false,false⟩] }

def Window.stop (w : Window) : Window :=
  match w.controllerRef with
  | none => w
  | some i => { w with sends := w.sends.modify i fun sending => { sending with aborted := true } }

/-- The window moves to the conversation the server names when a new chat was sent from. -/
def Window.started (w : Window) (sending : Sending) (conversationId : JsString) : Window :=
  match sending.conversationId with
  | some _ => w
  | none => { w with selfNavigated := some conversationId, conversationId := some conversationId }

def Window.call (w : Window) (sending : Sending) (callback : Callback) : Window :=
  let w := { w with state := callback.update w.state }
  match callback with
  | .onStart conversationId => w.started sending conversationId
  | _ => w

/-- The `finally` of `send`. -/
def Window.settle (w : Window) (i : ℕ) : Window :=
  { w with controllerRef := none, sends := w.sends.modify i fun sending => { sending with settled := true } }

/-- The window has moved to this conversation itself. -/
def Window.selfMoved (w : Window) : Bool := w.selfNavigated.isSome && w.selfNavigated == w.conversationId

/-- The effect on a change of the conversation. -/
def Window.resetEffect (w : Window) : Window :=
  let w := { w with effectRan := some w.conversationId }
  if w.selfMoved then { w with selfNavigated := none } else { w with state := idle }

inductive WindowAction where
  /-- `Composer.submit`, then `handleSend`. -/
  | submit (draft : JsString)
  /-- The Stop button, which is there while `isStreaming`. -/
  | stop
  /-- The user opens a conversation, or the window leaves one that no longer exists. -/
  | navigate (conversationId : Option JsString)
  | effect
  | callback (i : ℕ) (callback : Callback)
  /-- `streamMessage` returns. -/
  | returns (i : ℕ)
  /-- `streamMessage` throws an `ApiError`, or anything else. -/
  | throws (i : ℕ) (error : Option ApiError)

/-- A send that is still running. -/
def Window.running (w : Window) (i : ℕ) : Option Sending := w.sends[i]?.filter (!·.settled)

def Window.step (w : Window) : WindowAction → Option Window
  | .submit draft => if trim draft = [] ∨ w.state.isStreaming then none else some (w.send (trim draft))
  | .stop => if w.state.isStreaming then some w.stop else none
  | .navigate conversationId => some { w with conversationId := conversationId }
  | .effect => if w.effectRan = some w.conversationId then none else some w.resetEffect
  | .callback i callback => (w.running i).map fun sending => w.call sending callback
  | .returns i => (w.running i).map fun _ => w.settle i
  | .throws i error => (w.running i).map fun sending =>
    { w.settle i with state := caught w.state sending.aborted error }

end InferenceLogger.Frontend
