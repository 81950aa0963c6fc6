import InferenceLogger.Frontend.ChatWindow

/-! # When the composer comes back

One call of `send` and the state its hook is left in. The composer is there again when
`isStreaming` is false. An updater that throws is run again while the component renders, and
takes the component with it: there is no state after that.
-/
namespace InferenceLogger.Frontend.StreamingHook
open Utf JsJson Framing

section Texts
variable (numberText : ℤ → ℤ → JsString)

mutual
/-- The text of a parsed value; `none` is the `TypeError` for an object whose own `toString` is not
a function. -/
def toText : JsValue → Option JsString
  | .null => some (jsText "null")
  | .bool true => some (jsText "true")
  | .bool false => some (jsText "false")
  | .number mantissa exponent => some (numberText mantissa exponent)
  | .string s => some s
  | .array items => (itemTexts items).map (List.intercalate (jsText ","))
  | .object members =>
    if members.any (fun m => m.1 == jsText "toString") then none else some (jsText "[object Object]")

def itemTexts : List JsValue → Option (List JsString)
  | [] => some []
  | .null :: items => (itemTexts items).map ([] :: ·)
  | item :: items => do
    let t ← toText item
    let ts ← itemTexts items
    return t :: ts
end

/-- What `text + value` adds. -/
def addition (value : Option JsValue) : Option JsString :=
  match value with
  | none => some (jsText "undefined")
  | some v => toText numberText v

end Texts

/-- `StreamingState`, with what the frames carry as it was parsed. -/
structure HookState where
  pendingUserContent : Option JsString := none
  text : JsString := []
  isStreaming : Bool := false
  ttftMs : Option JsValue := none
  latencyMs : Option JsValue := none
  error : Option ApiError := none
  wasCancelled : Bool := false

/-- One call of `send`: what the fetch comes to, the caller's `onConversationId`, and whether the
signal is aborted by the time anything is caught. -/
structure Sent where
  content : JsString
  fetched : Except Thrown Response
  onConversationId : Option JsValue → Except Thrown Unit
  aborted : Bool
  numberText : ℤ → ℤ → JsString

namespace Sent
variable (sent : Sent)

/-- The updater that a handler hands to `setState`; `none` when it throws. -/
def update (previous : HookState) : HandlerCall → Option HookState
  | .onStart _ => some previous
  | .onTimeToFirstToken ttftMs => some { previous with ttftMs := ttftMs }
  | .onChunk text => (addition sent.numberText text).map fun t => { previous with text := previous.text ++ t }
  | .onDone info => (property "latency_ms" info).toOption.map fun latencyMs =>
    { previous with isStreaming := false, latencyMs := latencyMs }
  | .onError error => some { previous with isStreaming := false, error := some error }

/-- What a handler throws before it has called `setState`. -/
def handler : HandlerCall → Except Thrown Unit
  | .onStart info => do
    let conversationId ← property "conversation_id" info
    sent.onConversationId conversationId
  | _ => .ok ()

/-- The handlers that ran: one that throws ends the stream. -/
def deliver (ending : Except Thrown Unit) : List HandlerCall → Outcome
  | [] => ([],ending)
  | call :: calls =>
    match sent.handler call with
    | .error e => ([],.error e)
    | .ok () => Outcome.andThen ([call],.ok ()) (deliver ending calls)

/-- The `await` of `streamMessage`. -/
def received : Outcome :=
  match sent.fetched with
  | .error e => ([],.error e)
  | .ok response => sent.deliver (streamMessage response).2 (streamMessage response).1

/-- The `catch`. -/
def caught (e : Thrown) (previous : HookState) : HookState :=
  if sent.aborted then { previous with isStreaming := false, wasCancelled := true }
  else { previous with
    isStreaming := false
    error := some (match e with
      | .apiError error => error
      | _ => interrupted) }

/-- The state a sequence of handlers and the end of the stream leave behind. -/
def settle (state : Option HookState) (outcome : Outcome) : Option HookState :=
  let state := outcome.1.foldl (fun s call => s.bind (sent.update · call)) state
  match outcome.2 with
  | .ok () => state
  | .error e => state.map (sent.caught e)

/-- `send`: the hook's state when it settles. -/
def send : Option HookState :=
  sent.settle (some { isStreaming := true, pendingUserContent := some sent.content }) sent.received

/-- The hook is there and does not stream. -/
def ComposerBack : Prop := ∃ s, sent.send = some s ∧ s.isStreaming = false

/-! ## Frame by frame -/

/-- What becomes of one complete frame. -/
def receive (frame : JsString) : Except Thrown (Option HandlerCall) := do
  let call ← dispatch frame
  match call with
  | none => return none
  | some call =>
    sent.handler call
    return some call

/-- The frame is a `done` or `error` frame, or something is thrown over it. -/
def endsTurn (frame : JsString) : Bool :=
  match sent.receive frame with
  | .error _ => true
  | .ok (some (.onDone _)) => true
  | .ok (some (.onError _)) => true
  | _ => false

/-- The frame's updater throws: the payload of `done` is `null`, or the text of a `chunk` has none. -/
def breaksUpdate (frame : JsString) : Bool :=
  match sent.receive frame with
  | .ok (some (.onDone .null)) => true
  | .ok (some (.onChunk text)) => (addition sent.numberText text).isNone
  | _ => false

def isReceived (frame : JsString) : Bool := (sent.receive frame).isOk

def receiveAll : List JsString → Outcome
  | [] => ([],.ok ())
  | frame :: frames =>
    match sent.receive frame with
    | .error e => ([],.error e)
    | .ok call => Outcome.andThen (call.toList,.ok ()) (receiveAll frames)

theorem receive_eq (frame : JsString) : sent.receive frame =
    match dispatch frame with
    | .error e => .error e
    | .ok none => .ok none
    | .ok (some call) => match sent.handler call with
      | .error e => .error e
      | .ok () => .ok (some call) := by
  unfold receive
  rcases dispatch frame with e | _ | call
  · rfl
  · rfl
  · simp only [bind, Except.bind]
    cases sent.handler call <;> rfl

/-- The handlers of a body, run as its frames come. -/
theorem deliver_dispatchAll (fs : List JsString) (ending : Except Thrown Unit) :
    sent.deliver ((dispatchAll fs).andThen ([],ending)).2 ((dispatchAll fs).andThen ([],ending)).1 =
      (sent.receiveAll fs).andThen ([],ending) := by
  induction fs with
  | nil => rfl
  | cons frame fs ih =>
    simp only [dispatchAll, receiveAll, sent.receive_eq frame]
    rcases dispatch frame with e | _ | call
    · rfl
    · simp only [Outcome.andThen_assoc]
      exact ih
    · simp only [Outcome.andThen_assoc, Option.toList_some]
      cases hh : sent.handler call with
      | error e => simp [Outcome.andThen,deliver,hh]
      | ok u =>
        simp only [Outcome.andThen_assoc, ← ih]
        simp [Outcome.andThen,deliver,hh]

theorem settle_none (outcome : Outcome) : sent.settle none outcome = none := by
  have hfold : ∀ calls : List HandlerCall,
      calls.foldl (fun s call => s.bind (sent.update · call)) none = none := by
    intro calls
    induction calls with
    | nil => rfl
    | cons call calls ih => exact ih
  unfold settle
  rw [hfold]
  cases outcome.2 <;> rfl

theorem settle_call (state : Option HookState) (call : HandlerCall) (o : Outcome) :
    sent.settle state (Outcome.andThen ([call],.ok ()) o) = sent.settle (state.bind (sent.update · call)) o := rfl

/-- The state no longer streams. -/
def Back (state : Option HookState) : Prop := ∃ s, state = some s ∧ s.isStreaming = false

theorem caught_back (e : Thrown) (s : HookState) : Back (some (sent.caught e s)) := by
  refine ⟨_,rfl,?_⟩
  unfold caught
  split <;> rfl

/-- One received handler: its updater throws, or leaves a state that streams on unless it ends the
turn. -/
theorem update_spec {frame : JsString} {call : HandlerCall} (h : sent.receive frame = .ok (some call))
    (s : HookState) :
    (sent.breaksUpdate frame = true ∧ sent.update s call = none) ∨
    (sent.breaksUpdate frame = false ∧ ∃ s', sent.update s call = some s' ∧
      (s'.isStreaming = false ↔ s.isStreaming = false ∨ sent.endsTurn frame = true)) := by
  unfold breaksUpdate endsTurn
  rw [h]
  cases call with
  | onStart info => exact .inr ⟨rfl,s,rfl,by simp⟩
  | onTimeToFirstToken ttftMs => exact .inr ⟨rfl,_,rfl,by simp⟩
  | onChunk text =>
    unfold update
    cases ht : addition sent.numberText text with
    | none => exact .inl ⟨by simp [ht],by simp [ht]⟩
    | some t => exact .inr ⟨by simp [ht],{ s with text := s.text ++ t },by simp [ht],by simp⟩
  | onDone info =>
    cases info with
    | null => exact .inl ⟨rfl,rfl⟩
    | _ => exact .inr ⟨rfl,_,rfl,by simp⟩
  | onError error => exact .inr ⟨rfl,_,rfl,by simp⟩

/-- The composer is back after these frames and this end of the stream. -/
theorem settle_frames (fs : List JsString) (ending : Except Thrown Unit) (s : HookState) :
    Back (sent.settle (some s) ((sent.receiveAll fs).andThen ([],ending))) ↔
      (∀ frame ∈ fs.takeWhile sent.isReceived, sent.breaksUpdate frame = false) ∧
      (s.isStreaming = false ∨ (∃ e, ending = .error e) ∨ ∃ frame ∈ fs, sent.endsTurn frame = true) := by
  induction fs generalizing s with
  | nil =>
    cases ending with
    | ok u => simp [receiveAll,Outcome.andThen,settle,Back]
    | error e => exact iff_of_true (sent.caught_back e s) ⟨by simp,.inr (.inl ⟨e,rfl⟩)⟩
  | cons frame fs ih =>
    unfold receiveAll
    cases hr : sent.receive frame with
    | error e =>
      have hends : sent.endsTurn frame = true := by
        unfold endsTurn
        rw [hr]
      refine iff_of_true (sent.caught_back e s) ⟨?_,.inr (.inr ⟨frame,List.mem_cons_self,hends⟩)⟩
      rw [List.takeWhile_cons_of_neg (by simp [isReceived,hr,Except.isOk,Except.toBool])]
      simp
    | ok call =>
      rw [List.takeWhile_cons_of_pos (by simp [isReceived,hr,Except.isOk,Except.toBool]), Outcome.andThen_assoc]
      simp only [List.forall_mem_cons, List.exists_mem_cons_iff]
      cases call with
      | none =>
        have hends : sent.endsTurn frame = false := by
          unfold endsTurn
          rw [hr]
        have hbreaks : sent.breaksUpdate frame = false := by
          unfold breaksUpdate
          rw [hr]
        rw [hends, hbreaks]
        simpa [Outcome.andThen] using ih s
      | some call =>
        rw [Option.toList_some, settle_call, Option.bind_some]
        rcases sent.update_spec hr s with ⟨hbreaks,hu⟩ | ⟨hbreaks,s',hu,hs'⟩
        · rw [hu, hbreaks, settle_none]
          simp [Back]
        · rw [hu, hbreaks, ih s', hs']
          tauto

end Sent

/-- The complete frames of a body. -/
def completeFrames (body : Body) : List JsString :=
  frames blankLine ((Decoder.mk none false).decode body.chunks.flatten).1

/-- The response ends the turn: it is refused, has no body, breaks off, or one of its complete
frames ends it. -/
def TurnEnds (sent : Sent) (response : Response) : Prop :=
  response.ok = false ∨ response.body = none ∨
  ∃ body, response.body = some body ∧ ((∃ e, body.ending = .error e) ∨
    ∃ frame ∈ completeFrames body, sent.endsTurn frame = true)

/-- No frame that is read has an updater that throws. -/
def Harmless (sent : Sent) (response : Response) : Prop :=
  response.ok = true → ∀ body, response.body = some body →
    ∀ frame ∈ (completeFrames body).takeWhile sent.isReceived, sent.breaksUpdate frame = false

/-- The composer is back when `send` settles exactly if nothing was fetched, or the response ends
the turn and no updater throws. -/
theorem composer_back_iff (sent : Sent) : sent.ComposerBack ↔
    ∀ response, sent.fetched = .ok response → TurnEnds sent response ∧ Harmless sent response := by
  change Sent.Back sent.send ↔ _
  unfold Sent.send Sent.received
  cases hf : sent.fetched with
  | error e => exact iff_of_true (sent.caught_back e _) (by simp)
  | ok response =>
    simp only [Except.ok.injEq, forall_eq']
    rcases response with ⟨ok,status,json,body⟩
    cases ok with
    | false =>
      exact iff_of_true (sent.caught_back _ _) ⟨.inl rfl,by simp [Harmless]⟩
    | true =>
      cases body with
      | none => exact iff_of_true (sent.caught_back _ _) ⟨.inr (.inl rfl),by simp [Harmless]⟩
      | some body =>
        simp only [streamMessage_body]
        rw [Sent.deliver_dispatchAll, Sent.settle_frames]
        simp [TurnEnds,Harmless,completeFrames,and_comm]

/-! ## A stream that is cut between two frames -/

/-- The server names the conversation and the connection is closed in an orderly way. -/
def cutAfterStart : Sent where
  content := jsText "hi"
  fetched := .ok ⟨true,200,none,some
    ⟨[(utf8 (PyText.text "event: start\ndata: \x7b\"conversation_id\":\"c\"\x7d\n\n")).getD []],.ok ()⟩⟩
  onConversationId _ := .ok ()
  aborted := false
  numberText _ _ := []

/-- The composer stays away. -/
theorem cut_stream_streams_on : ¬ cutAfterStart.ComposerBack := by
  have hstreams : cutAfterStart.send.any HookState.isStreaming = true := by decide +kernel
  rintro ⟨s,hs,hback⟩
  rw [hs] at hstreams
  simp [hback] at hstreams

end InferenceLogger.Frontend.StreamingHook
