import InferenceLogger.Api.FrameData
import InferenceLogger.Frontend.Stream

/-! # From the service's events to the browser's handlers

What the encoder writes is what the browser's reader dispatches, wherever the network cuts it.
-/
namespace InferenceLogger.Frontend
open PyText Utf JsJson Framing

/-- The handler an event is meant for, with the event's own fields. -/
def received : ChatStreamEvent → HandlerCall
  | .started conversationId provider model =>
    .onStart (.object [(jsText "conversation_id",.string (utf16 (uuidText conversationId))),
      (jsText "provider",.string (utf16 provider)),(jsText "model",.string (utf16 model))])
  | .firstToken ttftMs => .onTimeToFirstToken (some (.number ttftMs 0))
  | .delta text => .onChunk (some (.string (utf16 text)))
  | .completed messageId latencyMs =>
    .onDone (.object [(jsText "message_id",.string (utf16 (uuidText messageId))),(jsText "latency_ms",.number latencyMs 0)])
  | .failed code message => .onError ⟨some (.string (utf16 code)),some (.string (utf16 message)),200⟩

def eventLine (event : ChatStreamEvent) : JsString := utf16 (text "event: " ++ event.name)

def dataLine (event : ChatStreamEvent) : JsString := utf16 (text "data: " ++ dumps event.data)

/-- A frame without the blank line that closes it. -/
def frameOf (event : ChatStreamEvent) : JsString := eventLine event ++ 0x0a :: dataLine event

theorem utf16_toSse (event : ChatStreamEvent) : utf16 (toSse event) = frameOf event ++ blankLine.toList := by
  have hdata : text "\ndata: " = 0x0a :: text "data: " := by decide
  have hend : utf16 (text "\n\n") = blankLine.toList := by decide
  unfold toSse formatSse frameOf eventLine dataLine
  rw [utf16_append, hdata, List.cons_append, utf16_cons (by decide), ← List.append_assoc, utf16_append (_ ++ _), hend]
  simp only [List.append_assoc, List.cons_append]
  rfl

theorem name_printable (event : ChatStreamEvent) : Printable event.name := by
  cases event <;> (simp only [ChatStreamEvent.name]; decide)

theorem utf16_printable {t : Text} (h : Printable t) : ∀ u ∈ utf16 t, 0x20 ≤ u.val := by
  induction t with
  | nil => simp [utf16]
  | cons c t ih =>
    have hc := h c List.mem_cons_self
    have hlow : c.val < 0x10000 := by omega
    rw [utf16_cons hlow]
    intro u hu
    rcases List.mem_cons.mp hu with rfl | hu
    · rw [unit_val hlow]
      exact hc.1
    · exact ih (fun d hd => h d (List.mem_cons_of_mem _ hd)) u hu

theorem no_newline {t : Text} (h : Printable t) : (0x0a : CodeUnit) ∉ utf16 t := by
  intro hn
  have hlow := utf16_printable h _ hn
  exact absurd hlow (by decide)

theorem eventLine_printable (event : ChatStreamEvent) : Printable (text "event: " ++ event.name) :=
  .append (by decide) (name_printable event)

theorem dataLine_printable (event : ChatStreamEvent) : Printable (text "data: " ++ dumps event.data) :=
  .append (by decide) (dumps_printable _)

theorem frameOf_closed (event : ChatStreamEvent) : Closed blankLine (frameOf event) := by
  apply closed_two (no_newline (eventLine_printable event)) (no_newline (dataLine_printable event))
  rw [utf16_append]
  exact List.append_ne_nil_of_left_ne_nil (by decide) _

/-! ## Dispatching a frame -/

theorem readLine_event (event : ChatStreamEvent) (seen : JsString × JsString) :
    readLine seen (eventLine event) = (utf16 event.name,seen.2) := by
  have hline : eventLine event = jsText "event: " ++ utf16 event.name := utf16_append _ _
  have hpre : startsWith (jsText "event: ") (eventLine event) = true := by
    rw [hline]
    exact List.isPrefixOf_iff_prefix.mpr (List.prefix_append _ _)
  unfold readLine
  rw [if_pos hpre, hline]
  rfl

theorem readLine_data (event : ChatStreamEvent) (seen : JsString × JsString) :
    readLine seen (dataLine event) = (seen.1,utf16 (dumps event.data)) := by
  have hline : dataLine event = jsText "data: " ++ utf16 (dumps event.data) := utf16_append _ _
  have hother : startsWith (jsText "event: ") (dataLine event) = false := by
    rw [hline]
    rfl
  have hpre : startsWith (jsText "data: ") (dataLine event) = true := by
    rw [hline]
    exact List.isPrefixOf_iff_prefix.mpr (List.prefix_append _ _)
  unfold readLine
  rw [hother, if_neg (by simp), if_pos hpre, hline]
  rfl

theorem data_keys (event : ChatStreamEvent) : (event.data.map fun m => utf16 m.1).Nodup := by
  cases event <;> (simp only [ChatStreamEvent.data, List.map_cons, List.map_nil]; decide)

theorem handle_event (event : ChatStreamEvent) :
    handle (utf16 event.name) (.object (event.data.map jsMember)) = .ok (some (received event)) := by
  cases event with
  | started id provider model => exact if_pos rfl
  | firstToken ttftMs =>
    change handle (jsText "ttft") _ = _
    unfold handle
    rw [if_neg (by decide), if_pos rfl]
    rfl
  | delta t =>
    change handle (jsText "chunk") _ = _
    unfold handle
    rw [if_neg (by decide), if_neg (by decide), if_pos rfl]
    rfl
  | completed id latencyMs =>
    change handle (jsText "done") _ = _
    unfold handle
    rw [if_neg (by decide), if_neg (by decide), if_neg (by decide), if_pos rfl]
    rfl
  | failed code message =>
    change handle (jsText "error") _ = _
    unfold handle
    rw [if_neg (by decide), if_neg (by decide), if_neg (by decide), if_neg (by decide), if_pos rfl]
    rfl

theorem dispatch_frameOf (event : ChatStreamEvent) : dispatch (frameOf event) = .ok (some (received event)) := by
  have hlines : split newline (frameOf event) = [eventLine event,dataLine event] :=
    split_two (no_newline (eventLine_printable event)) (no_newline (dataLine_printable event))
  have hname : utf16 event.name ≠ [] := by
    cases event <;> (simp only [ChatStreamEvent.name]; decide)
  have hdata : utf16 (dumps event.data) ≠ [] := by
    unfold dumps
    rw [utf16_cons (by decide)]
    simp
  unfold dispatch
  simp only [hlines, List.foldl_cons, List.foldl_nil, readLine_event, readLine_data]
  rw [if_neg (by simp [hname,hdata]), parse_dumps (data_keys event)]
  exact handle_event event

theorem dispatchAll_frames (events : List ChatStreamEvent) :
    dispatchAll (events.map frameOf) = (events.map received,.ok ()) := by
  induction events with
  | nil => rfl
  | cons event events ih =>
    simp only [List.map_cons, dispatchAll, dispatch_frameOf, ih]
    rfl

/-! ## The whole response -/

theorem toSse_bytes (event : ChatStreamEvent) : ∃ bs, utf8 (toSse event) = some bs := by
  apply utf8_isSome
  have hlow : ∀ c ∈ toSse event, c.val < 0x80 := by
    intro c hc
    unfold toSse formatSse at hc
    have hn : (text "\ndata: ").all (fun c => c.val < 0x80) = true := by decide
    have he : (text "\n\n").all (fun c => c.val < 0x80) = true := by decide
    simp only [List.mem_append] at hc
    rcases hc with hc | hc | hc | hc
    · have hp := eventLine_printable event c (List.mem_append.mpr hc)
      omega
    · exact of_decide_eq_true (List.all_eq_true.mp hn c hc)
    · have hp := dumps_printable _ c hc
      omega
    · exact of_decide_eq_true (List.all_eq_true.mp he c hc)
  rw [encodable, List.all_eq_true]
  intro c hc
  have hc' := hlow c hc
  simp only [isSurrogate, Bool.not_eq_true', Bool.and_eq_false_iff, decide_eq_false_iff_not]
  omega

/-- The response encodes each frame as it comes. -/
theorem encoded (events : List ChatStreamEvent) : ∃ parts, events.mapM (fun e => utf8 (toSse e)) = some parts ∧
    utf8 (events.flatMap toSse) = some parts.flatten := by
  induction events with
  | nil => exact ⟨[],rfl,rfl⟩
  | cons event events ih =>
    obtain ⟨parts,hp,hall⟩ := ih
    obtain ⟨bs,hbs⟩ := toSse_bytes event
    refine ⟨bs :: parts,by simp [hbs,hp],?_⟩
    rw [List.flatMap_cons, List.flatten_cons]
    exact utf8_append hbs hall

theorem utf16_flatMap (events : List ChatStreamEvent) :
    utf16 (events.flatMap toSse) = (events.map frameOf).flatMap (· ++ blankLine.toList) := by
  induction events with
  | nil => rfl
  | cons event events ih => rw [List.flatMap_cons, utf16_append, utf16_toSse, ih, List.map_cons, List.flatMap_cons]

/-- Each event of a finite sequence is handed once, in order and with its own fields, to the
handler it is meant for, wherever the bytes of the response are cut. -/
theorem stream_round_trip (events : List ChatStreamEvent) :
    ∃ parts, events.mapM (fun e => utf8 (toSse e)) = some parts ∧
      ∀ (chunks : List (List Byte)) ending status json, chunks.flatten = parts.flatten →
        streamMessage ⟨true,status,json,some ⟨chunks,ending⟩⟩ = (events.map received,ending) := by
  obtain ⟨parts,hparts,hbytes⟩ := encoded events
  refine ⟨parts,hparts,fun chunks ending status json hc => ?_⟩
  have hfront : ∀ c cs, events.flatMap toSse = c :: cs → c.val ≠ 0xfeff := by
    intro c cs h
    cases events with
    | nil => cases h
    | cons event events =>
      have hhead : (toSse event ++ events.flatMap toSse).head? = some 0x65 := rfl
      rw [← List.flatMap_cons, h] at hhead
      cases hhead
      decide
  rw [streamMessage_body, hc, decode_utf8 hbytes hfront, utf16_flatMap,
    frames_flatMap (fun f hf => by
      obtain ⟨event,-,rfl⟩ := List.mem_map.mp hf
      exact frameOf_closed event),
    dispatchAll_frames]
  simp [Outcome.andThen]

/-- A text with line breaks, a quote and an astral character, byte by byte. -/
theorem stream_round_trip_bytes : ∃ parts, [ChatStreamEvent.delta (text "a\n\ndata: \"😀")].mapM
    (fun e => utf8 (toSse e)) = some parts ∧
    streamMessage ⟨true,200,none,some ⟨parts.flatten.map (fun b => [b]),.ok ()⟩⟩ =
      ([.onChunk (some (.string (jsText "a\n\ndata: \"😀")))],.ok ()) := by
  obtain ⟨parts,hparts,h⟩ := stream_round_trip [.delta (text "a\n\ndata: \"😀")]
  have hflat : ∀ bs : List Byte, (bs.map fun b => [b]).flatten = bs := by
    intro bs
    induction bs with
    | nil => rfl
    | cons b bs ih => rw [List.map_cons, List.flatten_cons, ih, List.singleton_append]
  exact ⟨parts,hparts,h _ _ _ _ (hflat _)⟩

end InferenceLogger.Frontend
