import InferenceLogger.Foundation.Receiving
import InferenceLogger.Observation.Transparency
import InferenceLogger.Observation.Summary
import InferenceLogger.Providers.Mock

/-! # What a call of the mock provider logs

However a call is cut short, the counts on its event are those of the text that was handed out,
or there are none.
-/
namespace InferenceLogger
open PyText PyJson AsyncTask Words

namespace MockProvider
variable {B : Signature} {p : MockProvider B} {request : ChatRequest}

/-! ## The words of a reply -/

theorem isWord_split (t : Text) : ∀ w ∈ split t, IsWord isSpace w := words_isWord t

/-- The text of some words, as they are sent. -/
abbrev spoken (ws : List Text) : Text := spaced (codePoint ' ') ws

theorem split_spoken {ws : List Text} (h : ∀ w ∈ ws, IsWord isSpace w) : split (spoken ws) = ws := words_spaced (by decide) h

theorem split_numeral (n : ℕ) : split (decimal n) = [decimal n] := by
  refine words_word ⟨?_,fun c hc => ?_⟩
  · unfold decimal
    split
    · exact List.cons_ne_nil _ _
    · rename_i hn
      simpa [Nat.digits_eq_nil_iff_eq_zero] using hn
  · obtain ⟨d,hd,hval⟩ := decimal_digit hc
    unfold isSpace
    simp only [hval]
    interval_cases d <;> decide

/-- The words of a reply about this topic. -/
def sentence (topic : Text) (turn prior : ℕ) : List Text :=
  [text "You",text "asked",text "about"] ++ (split (topic ++ text ".") ++ ([text "This",text "is",text "turn"] ++
    (decimal turn :: ([text "of",text "the",text "conversation,",text "and",text "I",text "received"] ++
      (decimal prior :: split (text "earlier message(s) as context. Here is a deterministic reply from the mock provider, " ++
        text "which streams token by token so that latency, time-to-first-token and cancellation all behave exactly as they " ++
        text "would against a real model. Nothing here reaches the network."))))))

theorem split_reply (topic : Text) (turn prior : ℕ) : split (reply topic turn prior) = sentence topic turn prior := by
  have hspace : isSpace (codePoint ' ') = true := by decide
  have hjoin : ∀ x y : Text, split (x ++ codePoint ' ' :: y) = split x ++ split y := words_append hspace
  have hopening : text "You asked about " = text "You asked about" ++ [codePoint ' '] := by decide
  have hturn : text ". This is turn " = text "." ++ codePoint ' ' :: (text "This is turn" ++ [codePoint ' ']) := by decide
  have hprior : text " of the conversation, and I received " =
      codePoint ' ' :: (text "of the conversation, and I received" ++ [codePoint ' ']) := by decide
  have hclosing : text " earlier message(s) as context. Here is a deterministic reply from the mock provider, " =
      codePoint ' ' :: text "earlier message(s) as context. Here is a deterministic reply from the mock provider, " := by decide
  unfold reply
  rw [hopening, hturn, hprior, hclosing]
  simp only [List.append_assoc, List.cons_append, List.nil_append]
  rw [hjoin, ← List.append_assoc topic (text "."), hjoin, hjoin, hjoin, hjoin, hjoin, split_numeral, split_numeral]
  have h₁ : split (text "You asked about") = [text "You",text "asked",text "about"] := by decide
  have h₂ : split (text "This is turn") = [text "This",text "is",text "turn"] := by decide
  have h₃ : split (text "of the conversation, and I received") =
      [text "of",text "the",text "conversation,",text "and",text "I",text "received"] := by decide
  rw [h₁, h₂, h₃]
  simp only [sentence, List.append_assoc, List.singleton_append]

/-! ## What a consumer receives -/

/-- The chunk of a word. -/
def wordChunk (word : Text) : StreamChunk := {deltaText := word ++ text " "}

/-- The chunk that ends a reply. -/
def lastChunk (request : ChatRequest) (id : Text) : StreamChunk where
  finishReason := some (text "stop")
  usage := some {inputTokens := some (inputTokens request), outputTokens := some (replyWords request).length}
  metadata := [(text "provider_request_id",.str id)]

theorem wordChunks_text (ws : List Text) : ((ws.map wordChunk).map StreamChunk.deltaText).flatten = spoken ws := by
  rw [List.map_map]
  rfl

/-- One round of the loop: it fails, is interrupted, or a word is received. -/
theorem streamWords_cons {f : Unit → Gen B StreamChunk Exc Unit} {word : Text} {rest : List Text} {index : ℕ}
    {ys : List StreamChunk} {exit : Except Exc Unit} (h : Receives (p.streamWords request index (word :: rest) >>= f) ys exit) :
    ys = [] ∧ (∃ e, exit = .error e) ∨
    ¬ (request.model = errorModel ∧ index = (replyWords request).length / 3) ∧
      (ys = [wordChunk word] ∧ (∃ e, exit = .error e) ∨
        ∃ more, ys = wordChunk word :: more ∧ Receives (p.streamWords request (index + 1) rest >>= f) more exit) := by
  unfold streamWords at h
  by_cases hfail : request.model = errorModel ∧ index = (replyWords request).length / 3
  · simp only [if_pos hfail] at h
    obtain ⟨hys,hexit⟩ := Receives.raise_iff.mp h
    exact .inl ⟨hys,_,hexit⟩
  · simp only [if_neg hfail] at h
    have hword : ∀ {ys}, Receives (Gen.yield (wordChunk word) >>= fun _ =>
        p.streamWords request (index + 1) rest >>= f) ys exit →
        ys = [wordChunk word] ∧ (∃ e, exit = .error e) ∨
          ∃ more, ys = wordChunk word :: more ∧ Receives (p.streamWords request (index + 1) rest >>= f) more exit := by
      intro ys h
      rcases h.yield_bind with ⟨more,hys,hmore⟩ | hlast
      · exact .inr ⟨more,hys,hmore⟩
      · exact .inl hlast
    split at h
    · rw [bind_assoc] at h
      rcases Receives.ofBase_bind h with ⟨u,hu⟩ | hnone
      · rw [bind_assoc] at hu
        exact .inr ⟨hfail,hword hu⟩
      · exact .inl hnone
    · rw [bind_assoc] at h
      exact .inr ⟨hfail,hword h⟩

/-- The words that are received of the rest of a reply, from this index on. -/
theorem streamWords_receives {f : Unit → Gen B StreamChunk Exc Unit} {rest : List Text} {index : ℕ} {ys : List StreamChunk}
    {exit : Except Exc Unit} (h : Receives (p.streamWords request index rest >>= f) ys exit) :
    (∃ k, k ≤ rest.length ∧ ys = (rest.take k).map wordChunk ∧ (∃ e, exit = .error e) ∧
      (request.model = errorModel → index ≤ (replyWords request).length / 3 → index + k ≤ (replyWords request).length / 3)) ∨
    (∃ more, ys = rest.map wordChunk ++ more ∧ Receives (f ()) more exit ∧
      (request.model = errorModel → index ≤ (replyWords request).length / 3 →
        index + rest.length ≤ (replyWords request).length / 3)) := by
  induction rest generalizing index ys with
  | nil => exact .inr ⟨ys,rfl,h,fun _ hle => hle⟩
  | cons word rest ih =>
    rcases streamWords_cons h with ⟨rfl,hexit⟩ | ⟨hgoes,⟨rfl,hexit⟩ | ⟨more,rfl,hmore⟩⟩
    · exact .inl ⟨0,Nat.zero_le _,rfl,hexit,fun _ hle => hle⟩
    · refine .inl ⟨1,by simp,rfl,hexit,fun hm hle => ?_⟩
      have hne : index ≠ (replyWords request).length / 3 := fun hi => hgoes ⟨hm,hi⟩
      omega
    · have hbefore : request.model = errorModel → index ≤ (replyWords request).length / 3 →
          index + 1 ≤ (replyWords request).length / 3 := by
        intro hm hle
        have hne : index ≠ (replyWords request).length / 3 := fun hi => hgoes ⟨hm,hi⟩
        omega
      rcases ih hmore with ⟨k,hk,rfl,hexit,herr⟩ | ⟨last,rfl,hlast,herr⟩
      · refine .inl ⟨k + 1,by simpa using hk,rfl,hexit,fun hm hle => ?_⟩
        have hsum := herr hm (hbefore hm hle)
        omega
      · refine .inr ⟨last,rfl,hlast,fun hm hle => ?_⟩
        have hsum := herr hm (hbefore hm hle)
        rw [List.length_cons]
        omega

/-- What a consumer has of a reply: its first words, or all of it. -/
inductive Heard (request : ChatRequest) : List StreamChunk → Except Exc Unit → Prop where
  | cut {k : ℕ} {e : Exc} : k ≤ (replyWords request).length →
      (request.model = errorModel → k ≤ (replyWords request).length / 3) →
      Heard request (((replyWords request).take k).map wordChunk) (.error e)
  | whole {id : Text} {exit : Except Exc Unit} : request.model ≠ errorModel →
      Heard request ((replyWords request).map wordChunk ++ [lastChunk request id]) exit

theorem replyWords_pos (request : ChatRequest) : 0 < (replyWords request).length := by
  unfold replyWords
  rw [split_reply]
  simp [sentence]

theorem streamChat_receives {ys : List StreamChunk} {exit : Except Exc Unit} (hm : request.model ≠ endlessModel)
    (h : Receives (p.streamChat request) ys exit) : Heard request ys exit := by
  unfold streamChat at h
  rw [if_neg hm] at h
  rcases streamWords_receives h with ⟨k,hk,rfl,⟨e,rfl⟩,herr⟩ | ⟨more,rfl,hmore,herr⟩
  · exact .cut hk fun hm => by simpa using herr hm (Nat.zero_le _)
  · have hwhole : request.model ≠ errorModel := by
      intro hm
      have hle := herr hm (Nat.zero_le _)
      have hpos := replyWords_pos request
      omega
    rcases Receives.ofBase_bind hmore with ⟨id,hid⟩ | ⟨rfl,e,rfl⟩
    · rw [← bind_pure (Gen.yield _)] at hid
      rcases hid.yield_bind with ⟨rest,rfl,hrest⟩ | ⟨rfl,-⟩
      · obtain ⟨rfl,-⟩ := Receives.done_iff.mp hrest
        exact .whole hwhole
      · exact .whole hwhole
    · rw [List.append_nil]
      have hcut : Heard request (((replyWords request).take (replyWords request).length).map wordChunk) (.error e) :=
        .cut (Nat.le_refl _) fun hm => absurd hm hwhole
      rwa [List.take_length] at hcut

/-- The endless stream reports nothing, and ends by itself only at the horizon. -/
theorem streamForever_receives {delay counter n : ℕ} {ys : List StreamChunk} {exit : Except Exc Unit}
    (h : Receives (p.streamForever delay counter n) ys exit) :
    (∀ c ∈ ys, c.usage = none ∧ c.finishReason = none) ∧ (exit = .ok () → ys.length = n) := by
  induction n generalizing counter ys with
  | zero =>
    obtain ⟨rfl,-⟩ := Receives.done_iff.mp h
    exact ⟨by simp,fun _ => rfl⟩
  | succ n ih =>
    unfold streamForever at h
    rcases h.yield_bind with ⟨more,rfl,hmore⟩ | ⟨rfl,e,rfl⟩
    · rcases Receives.ofBase_bind hmore with ⟨u,hu⟩ | ⟨rfl,e,rfl⟩
      · obtain ⟨hnone,hlength⟩ := ih hu
        refine ⟨List.forall_mem_cons.mpr ⟨⟨rfl,rfl⟩,hnone⟩,fun hexit => ?_⟩
        rw [List.length_cons, hlength hexit]
      · exact ⟨by simp,fun h => by cases h⟩
    · exact ⟨by simp,fun h => by cases h⟩

/-! ## The event of a call -/

section
variable {α : Type} {f : StreamChunk → Option α}

/-- Only the last chunk of a reply reports anything. -/
theorem last_whole (h : ∀ word, f (wordChunk word) = none) (ws : List Text) (c : StreamChunk) :
    Reports.last f (ws.map wordChunk ++ [c]) = f c := by
  have hwords : Reports.last f (ws.map wordChunk) = none :=
    Reports.last_eq_none.mpr (List.forall_mem_map.mpr fun w _ => h w)
  rw [Reports.last_append, hwords, Option.or_none, Reports.last_cons, Reports.last_nil, Option.none_or]

end

/-- The words of a reply's beginning are read back from the chunks. -/
theorem split_taken (request : ChatRequest) (k : ℕ) :
    split ((((replyWords request).take k).map wordChunk).map StreamChunk.deltaText).flatten =
      (replyWords request).take k := by
  rw [wordChunks_text]
  exact split_spoken fun w hw => isWord_split _ w (List.mem_of_mem_take hw)

theorem split_whole (request : ChatRequest) (id : Text) :
    split (((replyWords request).map wordChunk ++ [lastChunk request id]).map StreamChunk.deltaText).flatten =
      replyWords request := by
  rw [List.map_append, List.flatten_append, wordChunks_text]
  change split (spoken (replyWords request) ++ []) = _
  rw [List.append_nil]
  exact split_spoken (isWord_split _)

/-- What a call has handed out of the reply, whatever becomes of its event. -/
structure HandedOut (request : ChatRequest) (got : List StreamChunk) : Prop where
  beginning : request.model ≠ endlessModel → split (got.map StreamChunk.deltaText).flatten <+: replyWords request
  failing : request.model = errorModel →
    (split (got.map StreamChunk.deltaText).flatten).length ≤ (replyWords request).length / 3

/-- What a call's event says of the words it has handed out. -/
structure Logged (p : MockProvider B) (request : ChatRequest) (got : List StreamChunk) (e : EventFields) : Prop where
  counts : e.inputTokens = none ∧ e.outputTokens = none ∧ e.finishReason = none ∨
    e.inputTokens = some (inputTokens request : ℤ) ∧
      e.outputTokens = some ((split (got.map StreamChunk.deltaText).flatten).length : ℤ) ∧
      e.finishReason = some (text "stop") ∧
      split (got.map StreamChunk.deltaText).flatten = replyWords request
  success : e.status = .success → request.model ≠ endlessModel → e.outputTokens.isSome = true
  failing : request.model = errorModel → e.status ≠ .success ∧ e.outputTokens = none
  endless : request.model = endlessModel → e.outputTokens = none ∧ (e.status = .success → got.length = p.horizon)

theorem Heard.handedOut {got : List StreamChunk} {exit : Except Exc Unit} (h : Heard request got exit) :
    HandedOut request got := by
  cases h with
  | @cut k x hk herr =>
    refine ⟨fun _ => ?_,fun he => ?_⟩
    · rw [split_taken]
      exact List.take_prefix _ _
    · rw [split_taken, List.length_take]
      exact (Nat.min_le_left _ _).trans (herr he)
  | @whole id exit herr =>
    refine ⟨fun _ => ?_,fun he => absurd he herr⟩
    rw [split_whole]

theorem Heard.logged {got : List StreamChunk} {exit : Except Exc Unit} {e : EventFields} (h : Heard request got exit)
    (hm : request.model ≠ endlessModel) (hsuccess : e.status = .success ↔ exit = .ok ())
    (hinput : e.inputTokens = Reports.last (fun c => c.usage.bind TokenUsage.inputTokens) got)
    (houtput : e.outputTokens = Reports.last (fun c => c.usage.bind TokenUsage.outputTokens) got)
    (hfinish : e.finishReason = Reports.last (fun c => c.finishReason.filter fun t => !t.isEmpty) got) :
    Logged p request got e := by
  cases h with
  | @cut k x hk herr =>
    have hnone : ∀ {α : Type} {f : StreamChunk → Option α}, (∀ word, f (wordChunk word) = none) →
        Reports.last f (((replyWords request).take k).map wordChunk) = none :=
      fun hf => Reports.last_eq_none.mpr (List.forall_mem_map.mpr fun w _ => hf w)
    rw [hnone fun _ => rfl] at hinput houtput hfinish
    have hfailed : e.status ≠ .success := by
      intro hs
      cases hsuccess.mp hs
    exact ⟨.inl ⟨hinput,houtput,hfinish⟩,fun hs => absurd hs hfailed,fun _ => ⟨hfailed,houtput⟩,fun he => absurd he hm⟩
  | @whole id exit herr =>
    rw [last_whole fun _ => rfl] at hinput houtput hfinish
    have hsaid := split_whole request id
    refine ⟨.inr ⟨hinput,?_,hfinish,hsaid⟩,fun _ _ => by rw [houtput]; rfl,fun he => absurd he herr,
      fun he => absurd he hm⟩
    rw [hsaid]
    exact houtput

/-- However a call of the mock is cut short, it has handed out a beginning of the reply, and its
event counts the words that were handed out when they are all of the reply, and nothing otherwise. -/
theorem call_logged {w : Instrumentation} {tr : CallTrace B} {out : Except Exc Unit}
    (h : Run Possible (w.streamChat p.provider request) tr out) :
    HandedOut request (yielded tr) ∧ ∀ event ∈ started (bases tr), Logged p request (yielded tr) event.fields := by
  obtain ⟨c⟩ := Instrumentation.streamChat_run h
  obtain ⟨got,hgot,ho⟩ := c.loop.received
  have hyielded : yielded tr = got := by
    rw [← Instrumentation.yielded_visible, c.visible_eq]
    exact hgot.yielded_eq
  rw [hyielded]
  constructor
  · by_cases hm : request.model = endlessModel
    · refine ⟨fun hne => absurd hm hne,fun he => ?_⟩
      rw [hm] at he
      exact absurd he (by decide)
    · exact (streamChat_receives hm hgot.receives).handedOut
  intro event he
  have hconstruct := c.constructed he
  obtain ⟨hinput,houtput,hfinish,-⟩ := c.accumulated ho hconstruct
  have hsuccess : event.fields.status = .success ↔ c.exit = .ok () := by
    rw [(InferenceEvent.construct_ok_iff.mp hconstruct).2]
    exact (Instrumentation.terminal_status c.exit).1
  by_cases hm : request.model = endlessModel
  · have hreceives : Receives (p.streamForever (delay request) 0 p.horizon) got c.exit := by
      have hall : Receives (p.streamChat request) got c.exit := hgot.receives
      unfold streamChat at hall
      rwa [if_pos hm] at hall
    obtain ⟨hnone,hlength⟩ := streamForever_receives hreceives
    rw [Reports.last_eq_none.mpr fun c hc => by rw [(hnone c hc).1]; rfl] at hinput houtput
    rw [Reports.last_eq_none.mpr fun c hc => by rw [(hnone c hc).2]; rfl] at hfinish
    refine ⟨.inl ⟨hinput,houtput,hfinish⟩,fun _ hne => absurd hm hne,fun he => ?_,
      fun _ => ⟨houtput,fun hs => hlength (hsuccess.mp hs)⟩⟩
    rw [hm] at he
    exact absurd he (by decide)
  · exact (streamChat_receives hm hgot.receives).logged hm hsuccess hinput houtput hfinish

/-! ## A question to the mock -/

section
open Instrumentation

/-- Nobody sleeps, and every digest is the same. -/
def quickMock : MockProvider quietSignature := ⟨fun _ => .done (),fun _ => text "0123456789abcdef0123",0⟩

def quickRequest : ChatRequest := {messages := [⟨.user,text "hi"⟩], model := text "mock-instant"}

def quickRun : CallTrace quietSignature × Except Exc Unit :=
  drive (fun _ => calm) 0 (plainInstrumentation.streamChat quickMock.provider quickRequest)

theorem quickRun_logs : (started (bases quickRun.1)).isEmpty = false := by decide +kernel

theorem call_logged_quick : HandedOut quickRequest (yielded quickRun.1) ∧
    ∃ event ∈ started (bases quickRun.1), Logged quickMock quickRequest (yielded quickRun.1) event.fields := by
  obtain ⟨event,he⟩ := List.isEmpty_eq_false_iff_exists_mem.mp quickRun_logs
  have hrun : Run Possible (plainInstrumentation.streamChat quickMock.provider quickRequest) quickRun.1 quickRun.2 :=
    drive_run (fun _ => calm_possible) 0 _
  obtain ⟨hwords,hlogged⟩ := call_logged hrun
  exact ⟨hwords,event,he,hlogged event he⟩

end

end MockProvider
end InferenceLogger
