import InferenceLogger.Streaming.Turns
import InferenceLogger.Observation.Transparency

/-! # Turns that called their provider

What the first transaction committed, what the instrumented call handed over and how it ended,
and what follows the loop, put together for one turn.
-/
namespace InferenceLogger
open PyText PyJson AsyncTask

variable {B : Signature}

/-- The assistant messages the turn committed. -/
def assistantMessages (tr : ChatTrace B) : List NewMessage :=
  (committed (statements false tr) ++ committed (statements true tr)).filter fun m => m.role = .assistant

/-- The turn has called its provider: the conversation it answers, its request, and what the
instrumented call handed over. A text handed over at the first token is shown only after it. -/
structure Answering (t : Turn B) (tr : ChatTrace B) (c : Conversation) (request : ChatRequest)
    (call : CallTrace B) (got : List StreamChunk) (exit : Except Exc Unit) : Prop where
  conversation : conversations (statements false tr) = [c]
  transcript : ∃ history, histories (statements false tr) = [history] ∧
    request = t.request (recentWindow history t.settings.maxHistoryMessages t.settings.maxHistoryChars)
  received : Reception ((t.instrumentation c.id).streamChat t.adapter request) call got exit
  calls : bases call = calls tr
  offers : offers call = deliveries tr ∨ ∃ ms e shown, ⟨.yield (.firstToken ms),.error e⟩ ∈ tr ∧
    deliveries tr = [] ∧ offers call = [(shown,.error e)]

/-- The events of the loop, and the one before it. -/
def ChatStreamEvent.isTerminal : ChatStreamEvent → Bool
  | .completed _ _ => true
  | .failed _ _ => true
  | _ => false

/-- The provider ended the call in this way, and the call's event can be built. -/
def EndedWith (t : Turn B) (request : ChatRequest) (call : CallTrace B) (exit : Except Exc Unit) : Prop :=
  ∃ got, Reception (t.adapter.streamChat request) (visible call) got exit ∧
    Loggable t.adapter.name t.model got exit (wallReadings (bases call))

/-! ## After the loop -/

theorem conclude_yields {id : Uuid} {start : ℕ} {parts : List Text} {exit : Except Exc Unit} {tr : ChatTrace B}
    {out : Except Exc Unit} (h : Run PossibleChat (Turn.conclude id start parts exit) tr out) :
    (∀ y r, ⟨.yield y,r⟩ ∈ tr → y.isTerminal = true) ∧ calls tr = [] ∧ deliveries tr = [] := by
  cases exit with
  | ok u =>
    obtain ⟨st,recorded,-,hrest⟩ := conclude_ok_run h
    rcases hrest with ⟨e,-,rfl,-⟩ | ⟨m,stop,ms,r,-,rfl,-⟩
    · exact ⟨by simp [statementEvent],by simp,by simp⟩
    · refine ⟨?_,by rw [calls_append, calls_map]; rfl,by rw [deliveries_append, deliveries_map]; rfl⟩
      intro y r' hy
      simp [statementEvent] at hy
      rw [hy.1]
      rfl
  | error e =>
    have hsaving : ∀ {saving : ChatTrace B} {persisted},
        Run PossibleChat (Gen.ofBase (persistPartial id parts) : ChatGen B Unit) saving persisted →
        (∀ y r, ⟨.yield y,r⟩ ∉ saving) ∧ calls saving = [] ∧ deliveries saving = [] := by
      intro saving persisted hp
      rcases persistPartial_run hp with ⟨-,rfl,-⟩ | ⟨-,st,saved,waited,-,rfl,-⟩
      · exact ⟨by simp,rfl,rfl⟩
      · exact ⟨by simp [statementEvent],by rw [calls_append, calls_map]; rfl,
          by rw [deliveries_append, deliveries_map]; rfl⟩
    rcases conclude_error_run h with ⟨-,saving,rest,persisted,rfl,hp,hrest⟩ |
      ⟨-,-,code,message,r,rfl,-⟩ | ⟨-,-,rfl,-⟩
    · obtain ⟨hy,hc,hd⟩ := hsaving hp
      have hlast : (∀ y r, ⟨.yield y,r⟩ ∈ rest → y.isTerminal = true) ∧ calls rest = [] ∧ deliveries rest = [] := by
        rcases hrest with ⟨x,-,rfl,-⟩ | ⟨-,-,rfl,-⟩ | ⟨-,-,code,message,r,rfl,-⟩
        · exact ⟨by simp,rfl,rfl⟩
        · exact ⟨by simp,rfl,rfl⟩
        · refine ⟨?_,rfl,rfl⟩
          intro y r' hm
          simp at hm
          rw [hm.1]
          rfl
      refine ⟨?_,by rw [calls_append, hc, hlast.2.1]; rfl,by rw [deliveries_append, hd, hlast.2.2]; rfl⟩
      intro y r hm
      rcases List.mem_append.mp hm with hm | hm
      · exact absurd hm (hy y r)
      · exact hlast.1 y r hm
    · refine ⟨?_,rfl,rfl⟩
      intro y r' hm
      simp at hm
      rw [hm.1]
      rfl
    · exact ⟨by simp,rfl,rfl⟩

/-! ## The whole turn -/

/-- Neither finds a conversation nor reads a transcript. -/
def readsNothing : ChatSql → Prop
  | .createConversation _ => False
  | .getConversation _ => False
  | .messages _ => False
  | _ => True

theorem recordAssistantTurn_awaits (id : Uuid) (content : Text) :
    Awaits readsNothing (recordAssistantTurn id content) := by
  unfold recordAssistantTurn ConversationRepository.appendMessage
  refine SessionOps.awaits_session ?_ (awaits_sql trivial) (awaits_sql trivial) (awaits_sql trivial)
  refine (awaits_sql (by trivial)).bind fun _ => (awaits_sql (by trivial)).bind fun _ => ?_
  exact (awaits_sql (by trivial)).bind fun _ => (awaits_sql (by trivial)).bind fun _ => awaits_done _

theorem recordAssistantTurn_reads_nothing {allowed : (op : ChatSql) → Except Exc (chatSqlSignature.Answer op) → Prop}
    {id : Uuid} {content : Text} {st : SqlTrace} {out : Except Exc Message}
    (h : Run allowed (recordAssistantTurn id content) st out) :
    conversations st = [] ∧ histories st = [] ∧ ¬ Missing st := by
  have hops := recordAssistantTurn_awaits id content _ _ _ h
  refine ⟨?_,?_,?_⟩
  · refine List.filterMap_eq_nil_iff.mpr fun e he => ?_
    have hop := hops e he
    rcases e with ⟨op,r⟩
    cases op <;> first | rfl | exact hop.elim
  · refine List.filterMap_eq_nil_iff.mpr fun e he => ?_
    have hop := hops e he
    rcases e with ⟨op,r⟩
    cases op <;> first | rfl | exact hop.elim
  · rintro ⟨id,hid⟩
    exact (hops _ hid).elim

theorem conclude_reads_nothing {id : Uuid} {start : ℕ} {parts : List Text} {exit : Except Exc Unit}
    {tr : ChatTrace B} {out : Except Exc Unit} (h : Run PossibleChat (Turn.conclude id start parts exit) tr out) :
    conversations (statements false tr) = [] ∧ histories (statements false tr) = [] ∧
      ¬ Missing (statements false tr) := by
  cases exit with
  | ok u =>
    obtain ⟨st,recorded,hst,hrest⟩ := conclude_ok_run h
    have hstatements : statements false tr = st := by
      rcases hrest with ⟨e,-,rfl,-⟩ | ⟨m,stop,ms,r,-,rfl,-⟩
      · simp
      · have htail : statements (B := B) false
            [⟨.base .monotonic,.ok stop⟩,⟨.yield (.completed m.id ms),r⟩] = [] := rfl
        simp [htail]
    rw [hstatements]
    exact recordAssistantTurn_reads_nothing hst
  | error e =>
    have hnone : statements false tr = [] := by
      rcases conclude_error_run h with ⟨-,saving,rest,persisted,rfl,hp,hrest⟩ |
        ⟨-,-,code,message,r,rfl,-⟩ | ⟨-,-,rfl,-⟩
      · have hsaving : statements false saving = [] := by
          rcases persistPartial_run hp with ⟨-,rfl,-⟩ | ⟨-,st,saved,waited,-,rfl,-⟩
          · rfl
          · rw [statements_append, statements_map]
            rfl
        rw [statements_append, hsaving]
        rcases hrest with ⟨x,-,rfl,-⟩ | ⟨-,-,rfl,-⟩ | ⟨-,-,code,message,r,rfl,-⟩ <;> rfl
      · rfl
      · rfl
    rw [hnone]
    exact ⟨rfl,rfl,by simp [Missing]⟩

/-- A turn that reached the end of its loop. -/
structure Responded (t : Turn B) (tr : ChatTrace B) (out : Except Exc Unit) (c : Conversation)
    (request : ChatRequest) (call : CallTrace B) (got : List StreamChunk) (exit : Except Exc Unit)
    (body rest : ChatTrace B) (parts : List Text) : Prop where
  answering : Answering t tr c request call got exit
  left : ∃ d, LeftBy {} call got exit body d ∧ d.parts = parts
  concluded : ∃ start, Run PossibleChat (Turn.conclude c.id start parts exit) rest out
  thrown : ∀ y e, ⟨.yield y,.error e⟩ ∈ tr → y.isTerminal = true ∨ ⟨.yield y,.error e⟩ ∈ body
  body_sub : ∀ e ∈ body, e ∈ tr
  rest_sub : ∀ e ∈ rest, e ∈ tr
  calls_eq : calls tr = calls body
  deliveries_eq : deliveries tr = deliveries body
  landed : Landed (statements false tr) ↔ Landed (statements false rest)
  smooth : Smooth (statements false tr) ↔ Smooth (statements false rest)
  detached : statements true tr = statements true rest
  found : ¬ Missing (statements false tr)
  frames : yielded tr = .started c.id t.provider t.model :: (yielded body ++ yielded rest)
  committed : ∀ {new}, Settles (statements false rest) new → ∀ m ∈ new, m ∈ committed (statements false tr)
  saved : ∀ {new₁ new₂}, Settles (statements false rest) new₁ → Settles (statements true rest) new₂ →
    assistantMessages tr = (new₁ ++ new₂).filter fun m => m.role = .assistant

theorem Unanswered.calls_eq {t : Turn B} {tr : ChatTrace B} {out : Except Exc Unit} (h : Unanswered t tr out) :
    calls tr = [] := by
  cases h with
  | refused _ _ htr =>
    subst htr
    rw [calls_append, calls_map]
    rfl
  | crashed _ _ htr =>
    subst htr
    exact calls_map _ _
  | unstarted _ htr =>
    subst htr
    rw [calls_append, calls_map]
    rfl

theorem responded_of_run {t : Turn B} {tr : ChatTrace B} {out : Except Exc Unit}
    (h : Run PossibleChat t.stream tr out) :
    Unanswered t tr out ∨ ∃ c request call got exit body rest parts,
      Responded t tr out c request call got exit body rest parts := by
  cases stream_run h with
  | unanswered hu => exact .inl hu
  | @responded st c m window start body rest d call got exit hst hrec hcalls hstat hleft hrest htr =>
    subst htr
    refine .inr ⟨c,t.request window,call,got,exit,body,rest,d.parts,?_⟩
    obtain ⟨hyields,hnocalls,hnodeliveries⟩ := conclude_yields hrest
    obtain ⟨hnoconv,hnohist,hfound⟩ := conclude_reads_nothing hrest
    obtain ⟨⟨c',m',w',history,hu,hout⟩ | ⟨-,-,hout⟩ | ⟨e,-,x,-,hout⟩,-⟩ := recordUserTurn_run hst
    · cases hout
      have hhead : ∀ (b : Bool) (tail : ChatTrace B), statements b
          (⟨.yield (.started c.id t.provider t.model),.ok ()⟩ :: ⟨.base .monotonic,.ok start⟩ :: tail) =
          statements b tail := fun _ _ => rfl
      have hfalse : statements false (st.map (statementEvent false) ++
          ⟨.yield (.started c.id t.provider t.model),.ok ()⟩ :: ⟨.base .monotonic,.ok start⟩ :: (body ++ rest)) =
          st ++ statements false rest := by
        rw [statements_append, hhead, statements_append, hstat, statements_map]
        rfl
      have htrue : statements true (st.map (statementEvent false) ++
          ⟨.yield (.started c.id t.provider t.model),.ok ()⟩ :: ⟨.base .monotonic,.ok start⟩ :: (body ++ rest)) =
          statements true rest := by
        rw [statements_append, hhead, statements_append, hstat, statements_map]
        rfl
      have hcallsTr : calls (st.map (statementEvent false) ++
          ⟨.yield (.started c.id t.provider t.model),.ok ()⟩ :: ⟨.base .monotonic,.ok start⟩ :: (body ++ rest)) =
          calls body := by
        have hskip : ∀ tail : ChatTrace B, calls (⟨.yield (.started c.id t.provider t.model),.ok ()⟩ ::
          ⟨.base .monotonic,.ok start⟩ :: tail) = calls tail := fun _ => rfl
        rw [calls_append, calls_map, hskip, calls_append, hnocalls]
        simp
      have hdeliveriesTr : deliveries (st.map (statementEvent false) ++
          ⟨.yield (.started c.id t.provider t.model),.ok ()⟩ :: ⟨.base .monotonic,.ok start⟩ :: (body ++ rest)) =
          deliveries body := by
        have hskip : ∀ tail : ChatTrace B, deliveries (⟨.yield (.started c.id t.provider t.model),.ok ()⟩ ::
          ⟨.base .monotonic,.ok start⟩ :: tail) = deliveries tail := fun _ => rfl
        rw [deliveries_append, deliveries_map, hskip, deliveries_append, hnodeliveries]
        simp
      refine ⟨⟨?_,⟨history,?_,?_⟩,hrec,?_,?_⟩,⟨d,hleft,rfl⟩,⟨start,hrest⟩,?_,?_,?_,hcallsTr,hdeliveriesTr,?_,?_,?_,?_,?_,?_,?_⟩
      · rw [hfalse, conversations, List.filterMap_append]
        have hc := hu.conversations
        unfold conversations at hc hnoconv
        rw [hc, hnoconv]
        rfl
      · rw [hfalse, histories, List.filterMap_append]
        have hh := hu.histories
        unfold histories at hh hnohist
        rw [hh, hnohist]
        rfl
      · rw [hu.window]
      · rw [hcallsTr, hcalls]
      · rw [hdeliveriesTr]
        cases hleft with
        | ended _ _ _ _ ho => exact .inl ho
        | atDelta _ _ _ _ _ _ ho => exact .inl ho
        | atFirstToken ms shown e _ hmem _ _ _ hd ho => exact .inr ⟨ms,e,shown,by simp [hmem],hd,ho⟩
      · intro y e hy
        simp [statementEvent] at hy
        rcases hy with hy | hy
        · exact .inr hy
        · exact .inl (hyields _ _ hy)
      · intro e he
        simp [he]
      · intro e he
        simp [he]
      · rw [hfalse]
        constructor
        · intro hl e he hne
          exact hl e (List.mem_append_right _ he) hne
        · intro hl e he hne
          rcases List.mem_append.mp he with he | he
          · exact hu.smooth e he
          · exact hl e he hne
      · rw [hfalse, smooth_append]
        exact ⟨And.right,fun hs => ⟨hu.smooth,hs⟩⟩
      · exact htrue
      · rw [hfalse]
        rintro ⟨id,hid⟩
        rcases List.mem_append.mp hid with hid | hid
        · exact hu.found ⟨id,hid⟩
        · exact hfound ⟨id,hid⟩
      · have hskip : ∀ tail : ChatTrace B, yielded (⟨.yield (.started c.id t.provider t.model),.ok ()⟩ ::
          ⟨.base .monotonic,.ok start⟩ :: tail : ChatTrace B) = .started c.id t.provider t.model :: yielded tail := fun _ => rfl
        rw [yielded_append, yielded_map, hskip, yielded_append]
        rfl
      · intro new hset m hm
        rw [hfalse, (hu.settles.append hset).committed_eq]
        exact List.mem_append_right _ hm
      · intro new₁ new₂ h₁ h₂
        unfold assistantMessages
        rw [hfalse, htrue, (hu.settles.append h₁).committed_eq, h₂.committed_eq]
        simp
    · cases hout
    · cases hout

/-! ## The end of the instrumented call -/

theorem EndedWith.unique {t : Turn B} {request : ChatRequest} {call : CallTrace B} {exit exit' : Except Exc Unit}
    (h : EndedWith t request call exit) (h' : EndedWith t request call exit') : exit = exit' := by
  obtain ⟨got,hg,-⟩ := h
  obtain ⟨got',hg',-⟩ := h'
  exact (hg.unique hg').2

/-- A call that was not interrupted has run to its end. -/
theorem run_of_reception {w : Instrumentation} {inner : BaseProvider B} {request : ChatRequest} {tr : ChatTrace B}
    {call : CallTrace B} {got : List StreamChunk} {exit : Except Exc Unit}
    (h : Reception (w.streamChat inner request) call got exit) (hcalls : bases call = calls tr)
    (hd : ∀ e ∈ call, Drained (B := callSignature B) (Y := StreamChunk) (fun _ _ => True) e.op e.answer)
    (ha : ∀ e ∈ tr, PossibleChat e.op e.answer) : Run Possible (w.streamChat inner request) call exit := by
  refine (h.drained hd).restrict fun e he => ?_
  rcases e with ⟨op | y,r⟩
  · have hbase : ⟨op,r⟩ ∈ bases call := List.mem_filterMap.mpr ⟨_,he,rfl⟩
    rw [hcalls] at hbase
    obtain ⟨⟨op',r'⟩,hmem,hcall⟩ := List.mem_filterMap.mp hbase
    rcases op' with (op' | _ | _ | _) | _ <;> cases hcall
    exact ha _ hmem
  · intro e hr
    have hy := hd _ he
    cases hy
    cases hr

/-- The loop is left with the provider's own end, with what came back from the publish, or with
the event's own error. -/
theorem call_outcome {t : Turn B} {w : Instrumentation} {request : ChatRequest} {call : CallTrace B}
    {exit : Except Exc Unit} (h : Run Possible (w.streamChat t.adapter request) call exit)
    (hmodel : request.model = t.model) (hm : (monotonicReadings (bases call)).Pairwise (· ≤ ·)) :
    ((∀ x, ¬ EndedWith t request call x) ∧ ∃ e, exit = .error (.own (.eventInvalid e))) ∨
      ∃ inner finished, EndedWith t request call inner ∧ publishAnswers (bases call) = [finished] ∧
        exit = Instrumentation.combine inner finished := by
  obtain ⟨cr⟩ := Instrumentation.streamChat_run h
  obtain ⟨got,hg,ho⟩ := cr.loop.received
  rw [← cr.visible_eq] at hg
  have hlog := cr.loggable_iff hm ho
  rw [hmodel] at hlog
  cases hc : InferenceEvent.construct (w.eventFields t.adapter request cr.eventId cr.startedAt cr.completedAt
      (elapsedMs cr.start cr.stop) cr.o cr.exit) with
  | error e =>
    rw [hc] at hlog
    obtain ⟨-,hfin⟩ := cr.finish.of_invalid hc
    refine .inl ⟨?_,e,cr.out_eq.trans (by rw [hfin]; rfl)⟩
    rintro x ⟨got',hg',hl⟩
    obtain ⟨rfl,rfl⟩ := hg.unique hg'
    obtain ⟨event,he⟩ := hlog.mpr hl
    cases he
  | ok event =>
    rw [hc] at hlog
    refine .inr ⟨cr.exit,cr.finished,⟨got,hg,hlog.mp ⟨event,rfl⟩⟩,?_,cr.out_eq⟩
    rw [cr.publishAnswers_eq, cr.finish.of_valid hc]
    rfl

theorem received_text {chunks : CallGen B Unit} {call : CallTrace B} {got : List StreamChunk}
    {exit : Except Exc Unit} (h : Reception chunks call got exit) :
    (texts got).flatten = ((offers call).map Prod.fst).flatten := by
  rw [texts_flatten]
  induction h with
  | exhausted => rfl
  | raised e => rfl
  | base _ ih => exact ih
  | @resumed chunk k tr got exit _ ih =>
    by_cases hc : chunk.deltaText = []
    · simpa [offers,offerOf,hc] using ih
    · simpa [offers,offerOf,hc] using ih
  | interrupted e => simp [offers,offerOf]

/-! ## A turn in which nothing fails -/

section
open Instrumentation

/-- Nothing fails; what a `yield` answers is left open. -/
def quietChat (resumed : ChatStreamEvent → Except Exc Unit) :
    (op : GenOp (chatSignature quietSignature) ChatStreamEvent) →
    Except Exc ((genSignature (chatSignature quietSignature) ChatStreamEvent).Answer op)
  | .yield y => resumed y
  | .base (.call op) => calm (.base op)
  | .base .awaitShield => .ok ()
  | .base .monotonic => .ok (0 : ℕ)
  | .base (.sql _ stmt) => match stmt with
    | .createConversation title => .ok ⟨1,title,.active,0,0⟩
    | .getConversation _ => .ok none
    | .nextSeq _ => .ok (1 : ℕ)
    | .insertMessage id role content seq => .ok ⟨2,id,role,content,seq,0⟩
    | .messages _ => .ok []
    | .lockConversation _ => .ok ()
    | .touch _ => .ok ()
    | .deleteMessage _ => .ok ()
    | .deleteConversation _ => .ok ()
    | .setTitleIfNull _ _ => .ok ()
    | .commit => .ok ()
    | .rollback => .ok ()
    | .close => .ok ()

/-- A new conversation, answered by a vendor that is never awaited. -/
def quietTurn (chunks : Gen quietSignature StreamChunk Exc Unit) : Turn quietSignature where
  settings := {maxHistoryMessages := 1, maxHistoryChars := 1, maxOutputTokens := 1, redactor :=
    {maxChars := 10, enabled := false, rules := []}}
  adapter := {oneChunkProvider with streamChat := fun _ => chunks}
  provider := text "mock"
  model := text "mock-1"
  conversationId := none
  content := text "hello"

end
end InferenceLogger
