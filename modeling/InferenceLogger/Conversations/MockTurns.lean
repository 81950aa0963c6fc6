import InferenceLogger.Conversations.Streams
import InferenceLogger.Observation.MockCalls

/-! # A conversation with the mock provider

The mock says what it was asked and how much it was handed. What a turn shows of its reply, on
either path, is about the question just asked and counts the window of its conversation; while
the window holds everything, it counts the turns.
-/
namespace InferenceLogger
open PyText PyJson AsyncTask KeyedTable RelyGuarantee Budget Words

variable {B : Signature}

/-- The turn was answered, on either path, and this was shown. -/
inductive Turn.Completes (t : Turn B) (pg : Postgres) (i : ℕ) (s s' : ChatStore) : Uuid → Text → Prop where
  | sent {tr : TurnTrace B} {result : ChatResult} : Run PossibleTurn t.send tr (.ok result) → Executes (turnExec pg) i s tr s' →
      Completes t pg i s s' result.conversation.id result.assistantMessage.content
  | streamed {tr : ChatTrace B} {out : Except Exc Unit} {id mid : Uuid} {provider model : Text} {ms : ℤ} :
      Run PossibleChat t.stream tr out → Executes (streamExec pg) i s tr s' → .started id provider model ∈ yielded tr →
      .completed mid ms ∈ yielded tr → Completes t pg i s s' id (shownText (yielded tr))

section
variable {pg : Postgres} {i : ℕ} {s s' : ChatStore} {t : Turn B} {id : Uuid} {shown : Text}

theorem Turn.Completes.exchanges (h : t.Completes pg i s s' id shown) (hrest : s.AtRest i) :
    ∃ events c reply, c.id = id ∧ reply.content = shown ∧ t.Exchanges events s.db s'.db c reply := by
  cases h with
  | sent hrun hex =>
    obtain ⟨c,hc,hexchanges,-⟩ := send_exchanges hrest hrun hex
    exact ⟨_,c,_,hc,rfl,hexchanges⟩
  | streamed hrun hex hstarted hcompleted =>
    obtain ⟨c,reply,hexchanges,hcontent,-,hnames⟩ := stream_exchanges hrest hrun hex hcompleted
    exact ⟨_,c,reply,(hnames _ _ _ hstarted).1.symm,hcontent,hexchanges⟩

/-- A question and a reply more, and the reply is what was delivered on the window up to the question. -/
theorem Turn.Exchanges.transcript {events : CallEvents B} {before after : Db} {c : Conversation} {reply : Message}
    (h : t.Exchanges events before after c reply) :
    ∃ question got, question.role = .user ∧ question.content = t.content ∧ reply.role = .assistant ∧
      after.transcript c.id = before.transcript c.id ++ [question,reply] ∧
      t.Delivers (before.transcript c.id ++ [question]) events got ∧ reply.content =
      (got.map StreamChunk.deltaText).flatten := by
  obtain ⟨mid,m,got,hasked,hdelivers,hanswered⟩ := h
  obtain ⟨now,hspoken⟩ := hanswered.spoken
  have hmid := hasked.spoken.transcript c.id
  have hafter := hspoken.transcript c.id
  rw [if_pos rfl] at hmid hafter
  rw [hmid] at hdelivers
  refine ⟨m,got,hasked.role,hasked.content,hanswered.role,?_,hdelivers,hanswered.content⟩
  rw [hafter, hmid, List.append_assoc]
  rfl

end

/-! ## What the mock is handed -/

namespace MockProvider
variable {p : MockProvider B} {t : Turn B}

/-- A window that ends with a question is a request about it. -/
theorem topic_of_question {window : List Message} {question : Message} (hlast : window.getLast? = some question)
    (hrole : question.role = .user) : topic (t.request window) = about question.content := by
  obtain ⟨earlier,rfl⟩ := List.getLast?_eq_some_iff.mp hlast
  unfold topic Turn.request
  simp [hrole]

theorem turn_of_window (window : List Message) : turn (t.request window) = window.countP fun m => m.role = .user := by
  unfold turn Turn.request
  rw [List.countP_map]
  rfl

theorem prior_of_window (window : List Message) : prior (t.request window) = window.length - 1 := by
  unfold prior Turn.request
  rw [List.length_map]

theorem split_delivered {transcript : List Message} {events : CallEvents B} {got : List StreamChunk}
    (ht : t.adapter = p.provider) (hm : t.model ≠ endlessModel) (h : t.Delivers transcript events got) :
    split (got.map StreamChunk.deltaText).flatten =
      replyWords (t.request (recentWindow transcript t.settings.maxHistoryMessages t.settings.maxHistoryChars)) := by
  obtain ⟨source,hsource,-,rfl⟩ := h
  rw [ht] at hsource
  have hwords : ∀ w ∈ replyWords (t.request (recentWindow transcript t.settings.maxHistoryMessages t.settings.maxHistoryChars)),
      IsWord isSpace w := isWord_split _
  generalize hgot : yielded source = got
  have hheard := streamChat_receives hm hsource.receives
  rw [hgot] at hheard
  cases hheard with
  | whole _ =>
    rw [List.map_append, List.flatten_append, wordChunks_text]
    change split (spoken _ ++ []) = _
    rw [List.append_nil]
    exact split_spoken hwords

end MockProvider

section
open MockProvider
variable {p : MockProvider B} {pg : Postgres} {i : ℕ} {s s' : ChatStore} {t : Turn B} {id : Uuid} {shown : Text}

/-- Whatever was said before: a turn with the mock that was answered shows a reply about its own
question. It counts what the window holds, and while that is everything, the turns so far. -/
theorem Turn.mock_reply (hrest : s.AtRest i) (ht : t.adapter = p.provider) (hm : t.model ≠ endlessModel)
    (hn : 1 ≤ t.settings.maxHistoryMessages) (h : t.Completes pg i s s' id shown) :
    ∃ question reply window, s'.db.transcript id = s.db.transcript id ++ [question,reply] ∧ question.content = t.content ∧
      reply.content = shown ∧
      window = recentWindow (s.db.transcript id ++ [question]) t.settings.maxHistoryMessages t.settings.maxHistoryChars ∧
      split shown = sentence (about t.content) (window.countP fun m => m.role = .user) (window.length - 1) ∧
      (Admissible t.settings.maxHistoryMessages t.settings.maxHistoryChars (s.db.transcript id ++ [question]) →
        split shown = sentence (about t.content) ((s.db.transcript id).countP (fun m => m.role = .user) + 1)
          (s.db.transcript id).length) := by
  obtain ⟨events,c,reply,rfl,rfl,hexchanges⟩ := h.exchanges hrest
  obtain ⟨question,got,hrole,hcontent,-,htranscript,hdelivers,htext⟩ := hexchanges.transcript
  have hne : s.db.transcript c.id ++ [question] ≠ [] := by simp
  have hlongest := recentWindow_eq_longest hne hn t.settings.maxHistoryChars
  have hlast := @recentWindow_last (s.db.transcript c.id ++ [question]) t.settings.maxHistoryMessages
    t.settings.maxHistoryChars hn
  rw [List.getLast?_concat] at hlast
  have hsplit := split_delivered ht hm hdelivers
  rw [← htext, replyWords, split_reply, topic_of_question hlast hrole, turn_of_window, prior_of_window, hcontent] at hsplit
  refine ⟨question,reply,_,htranscript,hcontent,rfl,rfl,hsplit,fun hall => ?_⟩
  have hwhole := hlongest.unique ⟨List.suffix_refl _,hall,fun _ hs _ => hs.length_le⟩
  rw [hsplit, hwhole, List.countP_append, List.length_append]
  simp [hrole]

end

/-! ## A first question -/

section
open Instrumentation MockProvider

def quickTurn : Turn quietSignature :=
  ⟨twoMessages.settings,quickMock.provider,text "mock",text "mock-instant",none,text "hi"⟩

def quickSend : Option (TurnTrace quietSignature × ChatStore × Except Exc ChatResult) :=
  alone (turnExec plain.pg) 0 (cancelledAt 100) 0 emptyTables quickTurn.send

theorem quickSend_returns : quickSend.any (fun run => run.2.2.isOk) = true := by decide +kernel

theorem Turn.mock_reply_quick : ∃ (s' : ChatStore) (id : Uuid) (shown : Text) (question reply : Message) (window : List Message),
    s'.db.transcript id = emptyTables.db.transcript id ++ [question,reply] ∧ reply.content = shown ∧
    split shown = sentence (about (text "hi")) (window.countP fun m => m.role = .user) (window.length - 1) := by
  obtain ⟨⟨tr,s',out⟩,hmem,hok⟩ := (Option.any_eq_true _ _).mp quickSend_returns
  obtain ⟨hrun,hex⟩ := alone_executes cancelledAt_possible hmem
  cases out with
  | error x => cases hok
  | ok result =>
    obtain ⟨question,reply,window,htranscript,-,hshown,-,hsplit,-⟩ :=
      Turn.mock_reply (p := quickMock) (t := quickTurn) (emptyStore_atRest 0) rfl (by decide) (by decide) (.sent hrun hex)
    exact ⟨s',_,_,question,reply,window,htranscript,hshown,hsplit⟩

end
end InferenceLogger
