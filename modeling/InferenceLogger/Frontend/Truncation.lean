import InferenceLogger.Frontend.RoundTrip

/-! # A response that is cut off

The connection can break at any byte. The handlers have been called for the events whose frames
have come whole, and for nothing else.
-/
namespace InferenceLogger.Frontend
open PyText Utf JsJson Framing

/-- A frame but for its last newline. -/
def openFrame (event : ChatStreamEvent) : Text := (toSse event).dropLast

theorem toSse_open (event : ChatStreamEvent) : toSse event = openFrame event ++ [0x0a] := by
  have hend : text "\n\n" = [0x0a] ++ [0x0a] := by decide
  unfold openFrame toSse formatSse
  rw [hend]
  simp only [← List.append_assoc]
  rw [List.dropLast_concat]

theorem utf16_openFrame (event : ChatStreamEvent) : utf16 (openFrame event) = frameOf event ++ [0x0a] := by
  have hlast : utf16 [0x0a] = [0x0a] := by decide
  have hall := utf16_toSse event
  rw [toSse_open, utf16_append, hlast] at hall
  have hsplit : blankLine.toList = [0x0a] ++ [0x0a] := rfl
  rw [hsplit, ← List.append_assoc] at hall
  exact List.append_cancel_right hall

theorem frames_openFrame (event : ChatStreamEvent) : frames blankLine (utf16 (openFrame event)) = [] := by
  rw [utf16_openFrame]
  apply open_two (no_newline (eventLine_printable event)) (no_newline (dataLine_printable event))
  rw [utf16_append]
  exact List.append_ne_nil_of_left_ne_nil (by decide) _

theorem encoded_length {events : List ChatStreamEvent} {parts : List (List Byte)}
    (h : events.mapM (fun e => utf8 (toSse e)) = some parts) : parts.length = events.length := by
  induction events generalizing parts with
  | nil =>
    cases h
    rfl
  | cons event events ih =>
    rw [List.mapM_cons] at h
    obtain ⟨part,-,h⟩ := Option.bind_eq_some_iff.mp h
    obtain ⟨rest,hrest,h⟩ := Option.bind_eq_some_iff.mp h
    cases h
    rw [List.length_cons, List.length_cons, ih hrest]

/-- The first frames, and the bytes of the one behind them. -/
theorem encoded_take {events : List ChatStreamEvent} {parts : List (List Byte)}
    (h : events.mapM (fun e => utf8 (toSse e)) = some parts) (m : ℕ) :
    utf8 ((events.take m).flatMap toSse) = some (parts.take m).flatten ∧
      ∀ part, parts[m]? = some part → ∃ event, events[m]? = some event ∧ utf8 (toSse event) = some part := by
  induction events generalizing parts m with
  | nil =>
    cases h
    simp [utf8]
  | cons event events ih =>
    rw [List.mapM_cons] at h
    obtain ⟨part,hpart,h⟩ := Option.bind_eq_some_iff.mp h
    obtain ⟨rest,hrest,h⟩ := Option.bind_eq_some_iff.mp h
    cases h
    cases m with
    | zero =>
      refine ⟨rfl,fun q hq => ⟨event,rfl,?_⟩⟩
      cases hq
      exact hpart
    | succ m =>
      obtain ⟨htake,hnext⟩ := ih hrest m
      rw [List.take_succ_cons, List.take_succ_cons, List.flatMap_cons, List.flatten_cons]
      exact ⟨utf8_append hpart htake,hnext⟩

theorem flatMap_toSse_front (events : List ChatStreamEvent) (tail : Text) (ht : ∀ c cs, tail = c :: cs → c.val ≠ 0xfeff) :
    ∀ c cs, events.flatMap toSse ++ tail = c :: cs → c.val ≠ 0xfeff := by
  intro c cs h
  cases events with
  | nil => exact ht c cs h
  | cons event events =>
    have hhead : (toSse event ++ (events.flatMap toSse ++ tail)).head? = some 0x65 := rfl
    rw [List.flatMap_cons, List.append_assoc] at h
    rw [h] at hhead
    cases hhead
    decide

/-- The frames of a response in its bytes, up to somewhere in the frame behind them. -/
theorem frames_cut {events : List ChatStreamEvent} {parts : List (List Byte)} {m : ℕ} {p : List Byte}
    (h : events.mapM (fun e => utf8 (toSse e)) = some parts) (hm : (parts.take m).flatten <+: p)
    (hp : (parts.length ≤ m ∧ p = parts.flatten) ∨
      ∃ part, parts[m]? = some part ∧ p <+: (parts.take m).flatten ++ part ∧
        p.length < ((parts.take m).flatten ++ part).length) :
    frames blankLine ((Decoder.mk none false).decode p).1 = (events.take m).map frameOf := by
  have hclosed : ∀ f ∈ (events.take m).map frameOf, Closed blankLine f := by
    intro f hf
    obtain ⟨event,-,rfl⟩ := List.mem_map.mp hf
    exact frameOf_closed event
  obtain ⟨hwhole,hnext⟩ := encoded_take h m
  have hdecoded : ((Decoder.mk none false).decode (parts.take m).flatten).1 = utf16 ((events.take m).flatMap toSse) := by
    apply decode_utf8 hwhole
    have hfront := flatMap_toSse_front (events.take m) [] (by simp)
    simpa using hfront
  have hframes : frames blankLine (utf16 ((events.take m).flatMap toSse)) = (events.take m).map frameOf := by
    rw [utf16_flatMap, frames_flatMap hclosed]
  rcases hp with ⟨hall,rfl⟩ | ⟨part,hpart,hlast,hshort⟩
  · rw [List.take_of_length_le hall] at hdecoded
    rw [hdecoded, hframes]
  · obtain ⟨event,-,hevent⟩ := hnext part hpart
    -- The last newline of the frame has not come, so that the frame is still open.
    rw [toSse_open] at hevent
    obtain ⟨bs,last,hbs,hlast',rfl⟩ := utf8_split hevent
    have hlength : last.length = 1 := by
      have hone : utf8 [0x0a] = some [0x0a] := by decide
      rw [hone] at hlast'
      cases hlast'
      rfl
    have hcut : p <+: (parts.take m).flatten ++ bs := by
      apply List.prefix_of_prefix_length_le hlast
      · rw [← List.append_assoc]
        exact List.prefix_append _ _
      · simp only [List.length_append] at hshort ⊢
        omega
    have hdecodes : ∀ {q r : List Byte}, q <+: r →
        ((Decoder.mk none false).decode q).1 <+: ((Decoder.mk none false).decode r).1 := by
      rintro q r ⟨s,rfl⟩
      rw [Decoder.decode_append]
      exact List.prefix_append _ _
    have hopen : frames blankLine ((Decoder.mk none false).decode ((parts.take m).flatten ++ bs)).1 =
        (events.take m).map frameOf := by
      rw [decode_utf8 (utf8_append hwhole hbs)]
      · rw [utf16_append, utf16_flatMap, frames_flatMap_append hclosed, frames_openFrame, List.append_nil]
      · apply flatMap_toSse_front
        intro c cs hc
        have hhead : (openFrame event).head? = some 0x65 := rfl
        rw [hc] at hhead
        cases hhead
        decide
    have hlower : frames blankLine ((Decoder.mk none false).decode (parts.take m).flatten).1 <+: _ := frames_mono (hdecodes hm)
    have hupper : frames blankLine ((Decoder.mk none false).decode p).1 <+: _ := frames_mono (hdecodes hcut)
    rw [hdecoded, hframes] at hlower
    rw [hopen] at hupper
    exact hupper.eq_of_length (Nat.le_antisymm hupper.length_le hlower.length_le)

theorem streamMessage_cut {events : List ChatStreamEvent} {parts : List (List Byte)}
    (hparts : events.mapM (fun e => utf8 (toSse e)) = some parts) {chunks : List (List Byte)}
    (hc : chunks.flatten <+: parts.flatten)
    (ending : Except Thrown Unit) (status : ℕ) (json : Option JsValue) :
    ∃ m ≤ events.length, (∀ k ≤ events.length, (parts.take k).flatten <+: chunks.flatten ↔ k ≤ m) ∧
      streamMessage ⟨true,status,json,some ⟨chunks,ending⟩⟩ = ((events.take m).map received,ending) := by
  have hlen := encoded_length hparts
  obtain ⟨m,hm,hrest⟩ := flatten_mono hc
  have hstream : streamMessage ⟨true,status,json,some ⟨chunks,ending⟩⟩ = ((events.take m).map received,ending) := by
    rw [streamMessage_body, frames_cut hparts hm hrest, dispatchAll_frames]
    simp [Outcome.andThen]
  have hmono : ∀ {k n : ℕ}, k ≤ n → (parts.take k).flatten <+: (parts.take n).flatten := by
    intro k n hkn
    obtain ⟨rest,hr⟩ := List.take_prefix_take_left hkn (l := parts)
    rw [← hr, List.flatten_append]
    exact List.prefix_append _ _
  rcases hrest with ⟨hall,hwhole⟩ | ⟨part,hpart,-,hshort⟩
  · refine ⟨events.length,le_rfl,fun k hk => ⟨fun _ => hk,fun _ => ?_⟩,?_⟩
    · exact (hmono (hk.trans (by omega))).trans hm
    · rw [hstream, List.take_of_length_le (by omega), List.take_length]
  · obtain ⟨hlt,hget⟩ := List.getElem?_eq_some_iff.mp hpart
    refine ⟨m,by omega,fun k _ => ⟨fun hk => ?_,fun hk => (hmono hk).trans hm⟩,hstream⟩
    by_contra hlong
    have hnext := (hmono (show m + 1 ≤ k by omega)).trans hk
    rw [List.take_succ_eq_append_getElem hlt, hget, List.flatten_append] at hnext
    have hle := hnext.length_le
    simp only [List.flatten_singleton] at hle
    omega

/-- However much of the response has come when it is cut off, and in whatever packets, the
handlers have been called for exactly the events whose frames have come whole, in order. -/
theorem cut_stream_received (events : List ChatStreamEvent) :
    ∃ parts, events.mapM (fun e => utf8 (toSse e)) = some parts ∧
      ∀ (chunks : List (List Byte)) ending status json, chunks.flatten <+: parts.flatten →
        ∃ m ≤ events.length, (∀ k ≤ events.length, (parts.take k).flatten <+: chunks.flatten ↔ k ≤ m) ∧
          streamMessage ⟨true,status,json,some ⟨chunks,ending⟩⟩ = ((events.take m).map received,ending) := by
  obtain ⟨parts,hparts,-⟩ := encoded events
  exact ⟨parts,hparts,fun _ ending status json hc => streamMessage_cut hparts hc ending status json⟩

/-- Two texts, cut off in the frame of the second one by a network that fails. -/
theorem cut_stream_received_one : ∃ parts,
    [ChatStreamEvent.delta (text "a"),.delta (text "b")].mapM (fun e => utf8 (toSse e)) = some parts ∧
      ∃ m ≤ 2, (∀ k ≤ 2, (parts.take k).flatten <+: [parts.flatten.take 40].flatten ↔ k ≤ m) ∧
        streamMessage ⟨true,200,none,some ⟨[parts.flatten.take 40],.error .rejected⟩⟩ =
          (([ChatStreamEvent.delta (text "a"),.delta (text "b")].take m).map received,.error .rejected) := by
  obtain ⟨parts,hparts,h⟩ := cut_stream_received [.delta (text "a"),.delta (text "b")]
  refine ⟨parts,hparts,h _ _ _ _ ?_⟩
  rw [List.flatten_singleton]
  exact List.take_prefix _ _

end InferenceLogger.Frontend
