import InferenceLogger.Conversations.Aggregate
import InferenceLogger.Conversations.Windows

/-! # The prompt of a turn

What a turn hands to its provider: a window of the conversation, in order, that ends with the
message the turn itself has appended.
-/
namespace InferenceLogger
open PyText PyJson AsyncTask KeyedTable Transition

/-! ## What the provider is handed -/

/-- A provider that says what it was handed before it starts. -/
inductive NotedOp (B : Signature) where
  | handed (request : ChatRequest)
  | inner (op : B.Op)

@[reducible] def notedSignature (B : Signature) : Signature where
  Op := NotedOp B
  Answer
    | .handed _ => Unit
    | .inner op => B.Answer op

section
variable {B : Signature}

/-- The same generator over the larger signature. -/
def unnoted : (op : GenOp B StreamChunk) →
    Task (genSignature (notedSignature B) StreamChunk) Exc ((genSignature B StreamChunk).Answer op)
  | .base op => Gen.baseCall (B := notedSignature B) (.inner op)
  | .yield chunk => Gen.yield (B := notedSignature B) chunk

def noted (p : BaseProvider B) : BaseProvider (notedSignature B) where
  name := p.name
  defaultModel := p.defaultModel
  isConfigured := p.isConfigured
  maxOutputTokensCap := p.maxOutputTokensCap
  streamChat request := do
    Gen.baseCall (B := notedSignature B) (.handed request)
    (p.streamChat request).interp unnoted

/-- The content of a turn. -/
def ApiRequest.content : ApiRequest B → Option Text
  | .send _ _ _ _ content => some content
  | .stream _ _ _ _ content => some content
  | _ => none

/-- The request is answered by such a provider. -/
def ApiRequest.Noted : ApiRequest (notedSignature B) → Prop
  | .send adapter _ _ _ _ => ∃ p, adapter = noted p
  | .stream adapter _ _ _ _ => ∃ p, adapter = noted p
  | _ => True

def chatMessage (m : Message) : ChatMessage where
  role := m.role
  content := m.content

/-- A turn hands over the window of the history it has read, where its own message went. -/
def mayHand (settings : ChatSettings) (request : ApiRequest (notedSignature B)) (home : Option Home) :
    CallOp (notedSignature B) → Prop
  | .inner (.handed r) => ∃ h, home = some h ∧ request.content = some h.content ∧
      r.messages = (recentWindow h.history settings.maxHistoryMessages settings.maxHistoryChars).map chatMessage
  | _ => True

theorem noted_calls (settings : ChatSettings) (p : BaseProvider B) (request : ApiRequest (notedSignature B))
    (provider model : Text) (conversationId : Option Uuid) (content : Text) (hc : request.content = some content) :
    (Turn.mk settings (noted p) provider model conversationId content).Calls (mayHand settings request) := by
  intro home hcontent
  constructor
  · intro op hop
    cases op with
    | inner b => exact absurd rfl (hop b)
    | _ => exact trivial
  · change GenIssues _ (Gen.baseCall (B := notedSignature B) (.handed _) >>= fun _ => _)
    apply Issues.bind
    · apply Issues.call
      intro b hb
      cases hb
      exact ⟨home,rfl,by rw [hc, hcontent],rfl⟩
    · intro _
      generalize p.streamChat _ = gen
      induction gen with
      | done u => exact trivial
      | raise e => exact trivial
      | await op k ih =>
        cases op with
        | base op =>
          intro r
          refine ⟨(),fun b hb => ?_,?_⟩
          · cases hb
            exact trivial
          · cases r with
            | ok a => exact ih (.ok a)
            | error e => exact ih (.error e)
        | «yield» chunk =>
          intro r
          refine ⟨(),by simp,?_⟩
          cases r with
          | ok u => exact ih (.ok u)
          | error e => exact ih (.error e)

/-- Of the messages handed over, the last one of the user's is the last one. -/
theorem lastUserText_window {window : List Message} {m : Message} (hl : window.getLast? = some m) (hr : m.role = .user)
    {r : ChatRequest} (hw : r.messages = window.map chatMessage) : lastUserText r = some m.content := by
  obtain ⟨init,rfl⟩ := List.getLast?_eq_some_iff.mp hl
  unfold lastUserText
  rw [hw]
  simp [chatMessage,hr]

theorem infix_increasing {s : ChatStore} (hs : s.Inv) {id : Uuid} {window : List Message} (h : window <:+: s.saidIn id) :
    (window.map Message.seq).Pairwise (· < ·) := by
  have hrange : ((s.saidIn id).map Message.seq).Pairwise (· < ·) := by
    rw [hs.numbered]
    exact List.pairwise_lt_range
  exact hrange.sublist (h.sublist.map Message.seq)

/-- Whenever a turn hands a request to its provider, the messages are a contiguous run of what
has been said in one conversation, and of its transcript while it exists, in increasing order;
the last one is the user message this turn has appended, and the event's preview is of it. -/
theorem prompt_ends_with_own_message (server : ChatServer) (s : ServerState (notedSignature B))
    (h : Guarded server.step (fun _ a => ∀ i request, a = .accept i request → request.Noted) .initial s)
    (i : ℕ) (request : ApiRequest (notedSignature B)) (r : ChatRequest) (k)
    (hr : s.requests i = some ⟨request,.await (.base (.call (.inner (.handed r)))) k⟩) :
    ∃ conversation window m, r.messages = window.map chatMessage ∧
      window <:+: s.store.saidIn conversation ∧
      (s.store.db.conversations.has conversation = true → window <:+: s.store.db.transcript conversation) ∧
      (window.map Message.seq).Pairwise (· < ·) ∧
      window.getLast? = some m ∧ (i,m) ∈ s.store.said ∧ m.role = .user ∧ request.content = some m.content ∧
      ∀ (w : Instrumentation) (inner : BaseProvider B) eventId startedAt completedAt latencyMs o exit,
        (w.eventFields inner r eventId startedAt completedAt latencyMs o exit).inputPreview =
          w.redactor.preview (some m.content) := by
  have hserved : Served (mayHand server.settings) s := by
    refine (run_served (fun _ i request hg => ?_) initial_served h).1
    apply program_follows
    rintro adapter provider model conversationId content (rfl | rfl)
    · obtain ⟨p,rfl⟩ := hg i _ rfl
      exact noted_calls server.settings p _ provider model conversationId content rfl
    · obtain ⟨p,rfl⟩ := hg i _ rfl
      exact noted_calls server.settings p _ provider model conversationId content rfl
  obtain ⟨φ,hf,ho⟩ := hserved.busy i _ hr
  obtain ⟨φ',ha,-⟩ := hf (.error (.own .cancelledError))
  cases ha with
  | call _ hmay =>
    obtain ⟨home,rfl,hcontent,hmessages⟩ := hmay
    have hcom := ho.2 home rfl
    have hsuffix := recentWindow_suffix home.history server.settings.maxHistoryMessages server.settings.maxHistoryChars
    have hwithin := hsuffix.isInfix.trans hcom.history.isInfix
    have hlast : (recentWindow home.history server.settings.maxHistoryMessages server.settings.maxHistoryChars).getLast? =
        some home.message := by
      rw [recentWindow_last _ (le_trans (by decide) server.settings_ok)]
      exact hcom.last
    refine ⟨home.conversation,_,home.message,hmessages,hwithin,?_,infix_increasing hserved.inv hwithin,hlast,hcom.said,
      hcom.role,?_,?_⟩
    · intro hhas
      rw [hserved.inv.transcript, if_pos hhas]
      exact hwithin
    · rw [hcom.content]
      exact hcontent
    · intro w inner eventId startedAt completedAt latencyMs o exit
      have htext := lastUserText_window hlast hcom.role hmessages
      simp [Instrumentation.eventFields,htext]

end

/-! ## The prompt of a third turn -/

section
open Instrumentation

def asksNoted (i : ℕ) (conversationId : Option Uuid) (content : String) : ServerAction (notedSignature quietSignature) :=
  .accept i (.stream (noted oneChunkProvider) (text "mock") (text "mock-1") conversationId (text content))

def runsNoted (i : ℕ) (id : Uuid) : ServerAction (notedSignature quietSignature) := .statement i ⟨.none,0,id⟩

/-- Whatever is not a statement succeeds. -/
def succeeds : (op : ServerOp (notedSignature quietSignature)) →
    Except Exc ((genSignature (chatSignature (notedSignature quietSignature)) ChatStreamEvent).Answer op)
  | .yield _ => .ok ()
  | .base (.call (.inner (.handed _))) => .ok ()
  | .base (.call (.inner (.inner _))) => .ok ()
  | .base (.call .uuid4) => .ok (1 : Uuid)
  | .base (.call .now) => .ok (0 : ℤ)
  | .base (.call .monotonic) => .ok (0 : ℕ)
  | .base (.call (.createPublish _)) => .ok ()
  | .base (.call (.awaitPublish _)) => .ok ()
  | .base .awaitShield => .ok ()
  | .base .monotonic => .ok (0 : ℕ)
  | .base (.sql _ _) => .error (.own .cancelledError)

/-- Two messages by others come first; the window is two messages long. -/
def thirdTurn : List (ServerAction (notedSignature quietSignature)) :=
  [asksNoted 0 none "hi"] ++ List.replicate 9 (runsNoted 0 7) ++ [asksNoted 1 (some 7) "yo"] ++
  List.replicate 12 (runsNoted 1 8) ++ [asksNoted 2 (some 7) "ya"] ++ List.replicate 12 (runsNoted 2 9) ++
  List.replicate 5 (.answer 2 succeeds)

def handedTo (s : ServerState (notedSignature quietSignature)) (i : ℕ) : Option ChatRequest :=
  match s.requests i with
  | some ⟨_,.await (.base (.call (.inner (.handed r)))) _⟩ => some r
  | _ => none

theorem thirdTurn_run : (play quietServer.step .initial thirdTurn).any (fun s =>
    decide ((handedTo s 2).map (fun r => r.messages.map ChatMessage.content) = some [text "yo",text "ya"])) = true := by
  decide

theorem handedTo_eq {s : ServerState (notedSignature quietSignature)} {i : ℕ} {r : ChatRequest} (h : handedTo s i = some r) :
    ∃ request k, s.requests i = some ⟨request,.await (.base (.call (.inner (.handed r)))) k⟩ := by
  unfold handedTo at h
  split at h
  · rename_i request r' k heq
    cases h
    exact ⟨request,k,heq⟩
  · cases h

theorem thirdTurn_noted : ∀ a ∈ thirdTurn, ∀ i request, a = .accept i request → request.Noted := by
  intro a ha i request he
  subst he
  simp only [thirdTurn, List.mem_append, List.mem_replicate, List.mem_singleton, asksNoted, runsNoted,
    ServerAction.accept.injEq, reduceCtorEq, and_false, or_false] at ha
  rcases ha with (⟨-,rfl⟩ | ⟨-,rfl⟩) | ⟨-,rfl⟩ <;> exact ⟨oneChunkProvider,rfl⟩

theorem prompt_ends_with_own_message_third : ∃ (s : ServerState (notedSignature quietSignature)) (r : ChatRequest)
    (conversation : Uuid) (window : List Message) (m : Message), handedTo s 2 = some r ∧
    r.messages = window.map chatMessage ∧ window <:+: s.store.saidIn conversation ∧ window.getLast? = some m ∧
    (2,m) ∈ s.store.said := by
  obtain ⟨s,hp,hs⟩ := play_any thirdTurn_run
  have hh : (handedTo s 2).isSome = true := by
    have hmap := congrArg Option.isSome (of_decide_eq_true hs)
    simpa using hmap
  obtain ⟨r,hr⟩ := Option.isSome_iff_exists.mp hh
  obtain ⟨request,k,hk⟩ := handedTo_eq hr
  have hrun := play_guarded hp
    (fun a ha _ => thirdTurn_noted a ha)
  obtain ⟨c,window,m,hm,hin,-,-,hlast,hsaid,-⟩ := prompt_ends_with_own_message quietServer s hrun 2 request r k hk
  exact ⟨s,r,c,window,m,hr,hm,hin,hlast,hsaid⟩

end
end InferenceLogger
