import InferenceLogger.Frontend.Truncation
import InferenceLogger.Streaming.Delivery

/-! # What the browser has shown

From the chain of generators to the handlers of the browser: the queue in between, the client
that leaves, the network that breaks. What a handler was called with is what the turn said.
-/
namespace InferenceLogger.Frontend
open PyText Utf JsJson AsyncTask Transition

variable {B : Signature}

/-- What `onChunk` appends to the text on the screen. -/
def HandlerCall.typed : HandlerCall → JsString
  | .onChunk (some (.string text)) => text
  | _ => []

/-- The text on the screen after these calls. -/
def typed (calls : List HandlerCall) : JsString := calls.flatMap HandlerCall.typed

theorem typed_received (events : List ChatStreamEvent) : typed (events.map received) = utf16 (shownText events) := by
  induction events with
  | nil => rfl
  | cons event events ih =>
    have hcons : typed ((event :: events).map received) = (received event).typed ++ typed (events.map received) := rfl
    have hshown : shownText (event :: events) = ((deltaText event).getD []) ++ shownText events := by
      unfold shownText
      cases event <;> rfl
    rw [hcons, hshown, utf16_append, ih]
    cases event <;> rfl

theorem utf16_mono {t u : Text} (h : t <+: u) : utf16 t <+: utf16 u := by
  obtain ⟨rest,rfl⟩ := h
  rw [utf16_append]
  exact List.prefix_append _ _

/-- The bytes of frames that are the first ones of a turn's events, cut anywhere. -/
theorem received_of_mono {events : List ChatStreamEvent} {sent : List Text} (h : sent <+: events.map toSse) :
    ∃ parts, sent.mapM utf8 = some parts ∧
      ∀ (chunks : List (List Byte)) ending status json, chunks.flatten <+: parts.flatten →
        ∃ m ≤ sent.length, streamMessage ⟨true,status,json,some ⟨chunks,ending⟩⟩ = ((events.take m).map received,ending) := by
  have hsent : sent = (events.take sent.length).map toSse := by
    rw [List.map_take]
    exact List.prefix_iff_eq_take.mp h
  have hlen := h.length_le
  rw [List.length_map] at hlen
  obtain ⟨parts,hparts,-⟩ := encoded (events.take sent.length)
  refine ⟨parts,?_,fun chunks ending status json hc => ?_⟩
  · rw [hsent, List.mapM_map]
    exact hparts
  · obtain ⟨m,hm,-,hstream⟩ := streamMessage_cut hparts hc ending status json
    rw [List.length_take] at hm
    refine ⟨m,by omega,?_⟩
    rw [hstream, List.take_take, Nat.min_eq_left (by omega)]

/-- Whenever the client leaves and wherever the network breaks, the handlers of the browser have
been called for the first events of a run of the turn, in order and with their own fields; that
run goes on from what the turn has been answered so far. -/
theorem browser_follows_turn {t : InferenceLogger.Turn B} {s : Underway B}
    (h : Guarded Underway.step (fun _ m => m.Possible) (serve t) s) :
    ∃ events ended parts, Run (Drained PossibleAnswer) (t.withAdapter t.adapter.unmarked).stream events ended ∧
      awaited s.heard <+: awaited events ∧ s.bridge.yielded.mapM utf8 = some parts ∧
      ∀ (chunks : List (List Byte)) ending status json, chunks.flatten <+: parts.flatten →
        ∃ m ≤ s.bridge.yielded.length,
          streamMessage ⟨true,status,json,some ⟨chunks,ending⟩⟩ = (((yielded events).take m).map received,ending) := by
  obtain ⟨events,ended,hrun,hawaited,hyielded⟩ := response_follows h
  obtain ⟨parts,hparts,hreceived⟩ := received_of_mono hyielded
  exact ⟨events,ended,parts,hrun,hawaited,hparts,hreceived⟩

section
open Instrumentation

/-- A client that has taken one frame while its provider sends on. -/
theorem browser_follows_turn_first : ∃ (s : Underway quietSignature) (events : ChatTrace (markedSignature quietSignature))
    (ended : Except Exc Unit) (parts : List (List Byte)), s.bridge.yielded.length = 1 ∧
    Run (Drained PossibleAnswer) ((quietTurn (chatter 1)).withAdapter (quietTurn (chatter 1)).adapter.unmarked).stream
        events ended ∧
      awaited s.heard <+: awaited events ∧ s.bridge.yielded.mapM utf8 = some parts ∧
      ∀ (chunks : List (List Byte)) ending status json, chunks.flatten <+: parts.flatten →
        ∃ m ≤ s.bridge.yielded.length,
          streamMessage ⟨true,status,json,some ⟨chunks,ending⟩⟩ = (((yielded events).take m).map received,ending) := by
  have hany : (play Underway.step ((serve (quietTurn (chatter 1))).fed 30) [.bridged .get]).any
      (fun s => s.bridge.yielded.length == 1) = true := by decide +kernel
  obtain ⟨s,hs,hone⟩ := play_any hany
  have hrun : Guarded Underway.step (fun _ m => m.Possible) (serve (quietTurn (chatter 1))) s := by
    apply ((fed_run 30 _).weaken fun _ _ h => h.1).trans
    apply play_guarded hs
    intro m hm _
    cases List.mem_singleton.mp hm
    trivial
  obtain ⟨events,ended,parts,h⟩ := browser_follows_turn hrun
  exact ⟨s,events,ended,parts,beq_iff_eq.mp hone,h⟩

end

/-- When the response is over, the text on the screen is a beginning of the reply, and the
conversation keeps the reply, unless it is blank or its call ended in a way that keeps nothing. -/
theorem screen_text_kept {t : InferenceLogger.Turn B} {s : Underway B} (h : Guarded Underway.step CancelsNoPut (serve t) s)
    (hover : s.bridge.consumer = .over) (hdb : StatementsAvailable s.heard) :
    ∃ events ended parts, Run (Drained PossibleAnswer) (t.withAdapter t.adapter.unmarked).stream events ended ∧
      awaited events = awaited s.heard ∧ s.bridge.yielded.mapM utf8 = some parts ∧
      (∀ (chunks : List (List Byte)) ending status json, chunks.flatten <+: parts.flatten →
        typed (streamMessage ⟨true,status,json,some ⟨chunks,ending⟩⟩).1 <+: utf16 (shownText (yielded events))) ∧
      ((calls events = [] ∧ shownText (yielded events) = []) ∨
        ∃ c request call got exit, Answering (t.withAdapter t.adapter.unmarked) events c request call got exit ∧
          shownText (yielded events) = (texts got).flatten ∧
          (isBlank (shownText (yielded events)) = false →
            (SavedOnce events c.id (shownText (yielded events)) ↔ KeepsText events exit))) := by
  obtain ⟨events,ended,hrun,hawaited,hyielded,hkept⟩ := response_kept h hover hdb
  obtain ⟨parts,hparts,hreceived⟩ := received_of_mono hyielded
  refine ⟨events,ended,parts,hrun,hawaited,hparts,fun chunks ending status json hc => ?_,hkept⟩
  obtain ⟨m,-,hstream⟩ := hreceived chunks ending status json hc
  rw [hstream, typed_received]
  exact utf16_mono (shownText_mono (List.take_prefix _ _))

section
open Instrumentation

/-- Whether the statement failed. -/
def isFailedStatement : Event (genSignature (chatSignature (markedSignature quietSignature)) Text) Exc → Bool
  | ⟨.base (.sql _ _),.error _⟩ => true
  | _ => false

theorem statementsAvailable_of_all {tr : FrameTrace (markedSignature quietSignature)}
    (h : tr.all (fun e => !isFailedStatement e) = true) : StatementsAvailable tr := by
  intro d stmt e he
  have hno := List.all_eq_true.mp h _ he
  cases hno

/-- A turn of one chunk, closed by its client. -/
theorem screen_text_kept_closed : ∃ (s : Underway quietSignature) (events : ChatTrace (markedSignature quietSignature))
    (ended : Except Exc Unit) (parts : List (List Byte)), s.bridge.consumer = .over ∧
    Run (Drained PossibleAnswer) ((quietTurn (chatter 1)).withAdapter (quietTurn (chatter 1)).adapter.unmarked).stream
        events ended ∧
      awaited events = awaited s.heard ∧ s.bridge.yielded.mapM utf8 = some parts ∧
      (∀ (chunks : List (List Byte)) ending status json, chunks.flatten <+: parts.flatten →
        typed (streamMessage ⟨true,status,json,some ⟨chunks,ending⟩⟩).1 <+: utf16 (shownText (yielded events))) ∧
      ((calls events = [] ∧ shownText (yielded events) = []) ∨
        ∃ c request call got exit,
          Answering ((quietTurn (chatter 1)).withAdapter (quietTurn (chatter 1)).adapter.unmarked) events c
            request call got exit ∧
          shownText (yielded events) = (texts got).flatten ∧
          (isBlank (shownText (yielded events)) = false →
            (SavedOnce events c.id (shownText (yielded events)) ↔ KeepsText events exit))) := by
  have hany : closedEarly.any (fun s => s.overWith 0 && s.heard.all fun e => !isFailedStatement e) = true := by decide +kernel
  obtain ⟨s,hs,hend⟩ := play_any hany
  obtain ⟨hend,hall⟩ := Bool.and_eq_true_iff.mp hend
  obtain ⟨hover,-,-⟩ := overWith_iff hend
  have hrun : Guarded Underway.step CancelsNoPut (serve (quietTurn (chatter 1))) s := by
    apply (fed_run 60 _).trans
    apply play_guarded hs
    intro m hm _
    simp only [List.mem_cons, List.not_mem_nil, or_false] at hm
    rcases hm with rfl | rfl | rfl <;> exact ⟨trivial,rfl⟩
  obtain ⟨events,ended,parts,h⟩ := screen_text_kept hrun hover (statementsAvailable_of_all hall)
  exact ⟨s,events,ended,parts,hover,h⟩

end

end InferenceLogger.Frontend
