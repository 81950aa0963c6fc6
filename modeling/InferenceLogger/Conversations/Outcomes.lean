import InferenceLogger.Conversations.Effects

/-! # The effect of a turn that is not streamed

Whatever the environment answers, the turn leaves one of three changes behind, and the stage at
which it was left says which.
-/
namespace InferenceLogger
open PyText PyJson AsyncTask KeyedTable RelyGuarantee

variable {B : Signature}

/-- What the environment decides about one operation of a turn. -/
structure TurnChoice (B : Signature) where
  sql : ChatChoice
  answer : (op : ChatOp B) → Except Exc ((chatSignature B).Answer op)

/-- A turn's statements act on the database, and its other operations on nothing in it. -/
def turnExec (pg : Postgres) : Executor ℕ (chatSignature B) Exc ChatStore (TurnChoice B) := fun me s op c =>
  match op with
  | .sql _ stmt => chatExec pg me s stmt c.sql
  | .call op => some (s,c.answer (.call op))
  | .awaitShield => some (s,c.answer .awaitShield)
  | .monotonic => some (s,c.answer .monotonic)

abbrev TurnTrace (B : Signature) := Trace (chatSignature B) Exc

/-- The wrapper's synchronous calls return. -/
def PossibleTurn : (op : ChatOp B) → Except Exc ((chatSignature B).Answer op) → Prop
  | .call op, r => PossibleCall op r
  | _, _ => True

def turnCall : Event (chatSignature B) Exc → Option (Event (callSignature B) Exc)
  | ⟨.call op,r⟩ => some ⟨op,r⟩
  | _ => none

/-- What the instrumented call of a turn awaited. -/
def turnCalls (tr : TurnTrace B) : CallEvents B := tr.filterMap turnCall

/-- Every end of a session was answered. -/
def EndsAnswered (tr : TurnTrace B) : Prop :=
  ∀ d stmt r, ⟨.sql d stmt,r⟩ ∈ tr → ¬ isStatement stmt → ∃ a, r = .ok a

theorem endsAnswered_append {tr₁ tr₂ : TurnTrace B} :
    EndsAnswered (tr₁ ++ tr₂) ↔ EndsAnswered tr₁ ∧ EndsAnswered tr₂ := by
  constructor
  · intro h
    exact ⟨fun d stmt r hr => h d stmt r (List.mem_append_left _ hr),
      fun d stmt r hr => h d stmt r (List.mem_append_right _ hr)⟩
  · rintro ⟨h₁,h₂⟩ d stmt r hr
    rcases List.mem_append.mp hr with hr | hr
    · exact h₁ d stmt r hr
    · exact h₂ d stmt r hr

theorem endsAnswered_sql {d : Bool} {st : SqlTrace} :
    EndsAnswered (B := B) (st.map (chatSqlEvent d)) ↔ ChatStore.Acknowledged st := by
  constructor
  · intro h e he hop
    exact h d e.op e.answer (List.mem_map_of_mem he) hop
  · intro h d' stmt r hr hop
    obtain ⟨e,he,heq⟩ := List.mem_map.mp hr
    cases heq
    exact h e he hop

def chatCallEvent (e : Event (callSignature B) Exc) : Event (chatSignature B) Exc := ⟨.call e.op,e.answer⟩

theorem endsAnswered_calls (events : CallEvents B) : EndsAnswered (events.map chatCallEvent) := by
  intro d stmt r hr
  obtain ⟨e,-,heq⟩ := List.mem_map.mp hr
  cases heq

theorem turnCalls_sql (d : Bool) (st : SqlTrace) : turnCalls (B := B) (st.map (chatSqlEvent d)) = [] := by
  unfold turnCalls
  rw [List.filterMap_map]
  exact List.filterMap_eq_nil_iff.mpr fun _ _ => rfl

theorem turnCalls_calls (events : CallEvents B) : turnCalls (events.map chatCallEvent) = events := by
  unfold turnCalls
  rw [List.filterMap_map]
  exact List.filterMap_some

theorem turnExec_sql {pg : Postgres} {i : ℕ} {s s' : ChatStore} {d : Bool} {st : SqlTrace}
    (h : Executes (turnExec (B := B) pg) i s (st.map (chatSqlEvent d)) s') : Executes (chatExec pg) i s st s' :=
  h.map fun _ _ _ c hc => ⟨c.sql,hc⟩

theorem turnExec_calls {pg : Postgres} {i : ℕ} {s s' : ChatStore} {events : CallEvents B}
    (h : Executes (turnExec pg) i s (events.map chatCallEvent) s') : s' = s := by
  refine h.keeps (I := fun s' => s' = s) ?_ rfl
  rintro e he s₁ s₂ c hc rfl
  obtain ⟨e,-,rfl⟩ := List.mem_map.mp he
  exact (Prod.mk.inj (Option.some.inj hc)).1.symm

/-! ## The stages of a turn -/

namespace Turn
variable (t : Turn B)

def asking : ChatTask B (Conversation × Message × List Message) :=
  sqlIn false (recordUserTurn t.settings t.conversationId t.content)

def calling (conversation : Conversation) (history : List Message) : ChatTask B CompletedResponse :=
  (BaseProvider.complete (({t.instrumentation conversation.id with streamed := false} : Instrumentation).provider t.adapter)
    (t.request history)).interp fun op => Task.call (S := chatSignature B) (.call op)

def answering (conversation : Conversation) (response : CompletedResponse) : ChatTask B Message :=
  sqlIn false (recordAssistantTurn conversation.id response.text)

end Turn

/-- Where a turn is left. -/
inductive SendStage where
  | resolving
  | asking
  | calling
  | answering
  | returned

/-- The run of a turn, by the stage at which it is left. -/
inductive ChatService.Left (service : ChatService B) (request : SendRequest) :
    SendStage → TurnTrace B → Except Exc ChatResult → Prop where
  | resolving {x : Exc} : service.resolve request = .error x → Left service request .resolving [] (.error x)
  | asking {t : Turn B} {tr x} : service.resolve request = .ok t → Run PossibleTurn t.asking tr (.error x) →
      Left service request .asking tr (.error x)
  | calling {t : Turn B} {tu tc c m history x} : service.resolve request = .ok t →
      Run PossibleTurn t.asking tu (.ok (c,m,history)) → Run PossibleTurn (t.calling c history) tc (.error x) →
      Left service request .calling (tu ++ tc) (.error x)
  | answering {t : Turn B} {tu tc ta c m history response x} : service.resolve request = .ok t →
      Run PossibleTurn t.asking tu (.ok (c,m,history)) → Run PossibleTurn (t.calling c history) tc (.ok response) →
      Run PossibleTurn (Turn.answering c response) ta (.error x) →
      Left service request .answering (tu ++ (tc ++ ta)) (.error x)
  | returned {t : Turn B} {tu tc ta c m history response reply} : service.resolve request = .ok t →
      Run PossibleTurn t.asking tu (.ok (c,m,history)) → Run PossibleTurn (t.calling c history) tc (.ok response) →
      Run PossibleTurn (Turn.answering c response) ta (.ok reply) →
      Left service request .returned (tu ++ (tc ++ ta)) (.ok ⟨c,m,reply,t.provider,t.model⟩)

theorem ChatService.send_left {service : ChatService B} {request : SendRequest} {tr : TurnTrace B}
    {out : Except Exc ChatResult} (h : Run PossibleTurn (service.send request) tr out) :
    ∃ stage, service.Left request stage tr out := by
  rcases Run.bind_iff.mp h with ⟨tr₁,t,tr₂,rfl,h₁,ht⟩ | ⟨x,rfl,h₁⟩
  · obtain ⟨rfl,hresolved⟩ := Run.ofExcept_iff.mp h₁
    rw [List.nil_append]
    rcases Run.bind_iff.mp ht with ⟨tu,⟨c,m,history⟩,tr₃,rfl,h₂,hu⟩ | ⟨x,rfl,h₂⟩
    · rcases Run.bind_iff.mp hu with ⟨tc,response,tr₄,rfl,h₃,hc⟩ | ⟨x,rfl,h₃⟩
      · rcases Run.bind_iff.mp hc with ⟨ta,reply,tr₅,rfl,h₄,ha⟩ | ⟨x,rfl,h₄⟩
        · obtain ⟨rfl,rfl⟩ := Run.done_iff.mp ha
          rw [List.append_nil]
          exact ⟨_,.returned hresolved.symm h₂ h₃ h₄⟩
        · exact ⟨_,.answering hresolved.symm h₂ h₃ h₄⟩
      · exact ⟨_,.calling hresolved.symm h₂ h₃⟩
    · exact ⟨_,.asking hresolved.symm h₂⟩
  · obtain ⟨rfl,hx⟩ := Run.ofExcept_iff.mp h₁
    exact ⟨_,.resolving hx.symm⟩

/-- The calls of a turn are those of its instrumented provider. -/
theorem Turn.calling_iff {t : Turn B} {c : Conversation} {history : List Message} {tr : TurnTrace B}
    {out : Except Exc CompletedResponse} : Run PossibleTurn (t.calling c history) tr out ↔
      ∃ events, tr = events.map chatCallEvent ∧ Run PossibleCall (BaseProvider.complete
        (({t.instrumentation c.id with streamed := false} : Instrumentation).provider t.adapter)
        (t.request history)) events out :=
  Run.interp_iff fun _ _ _ => Run.call_iff

/-! ## What a turn leaves behind -/

/-- Asked with this transcript, the provider has delivered these chunks and ended. -/
def Turn.Delivers (t : Turn B) (transcript : List Message) (events : CallEvents B) (got : List StreamChunk) : Prop :=
  ∃ source, Run (Drained Whatever) (t.adapter.streamChat
      (t.request (recentWindow transcript t.settings.maxHistoryMessages t.settings.maxHistoryChars))) source (.ok ()) ∧
    bases source = innerCalls events ∧ yielded source = got

inductive SendEffect where
  | nothing
  | asked
  | answered

namespace SendEffect

/-- The change of the database that each effect stands for. -/
def Holds (service : ChatService B) (request : SendRequest) (events : CallEvents B) (before after : Db) :
    SendEffect → Prop
  | .nothing => after = before
  | .asked => ∃ c m, before.Asked after request.conversationId request.content c m
  | .answered => ∃ t mid c m got reply, service.resolve request = .ok t ∧
      before.Asked mid request.conversationId request.content c m ∧ t.Delivers (mid.transcript c.id) events got ∧
      mid.Answered after c (got.map StreamChunk.deltaText).flatten reply

def messages : SendEffect → ℕ
  | .nothing => 0
  | .asked => 1
  | .answered => 2

variable {service : ChatService B} {request : SendRequest} {events : CallEvents B} {before after : Db}

theorem Holds.length {effect : SendEffect} (h : effect.Holds service request events before after) :
    after.messages.rows.length = before.messages.rows.length + effect.messages := by
  cases effect with
  | nothing => rw [show after = before from h]; rfl
  | asked =>
    obtain ⟨c,m,hasked⟩ := h
    rw [hasked.spoken.messages, List.length_append]
    rfl
  | answered =>
    obtain ⟨t,mid,c,m,got,reply,-,hasked,-,hanswered⟩ := h
    obtain ⟨now,hspoken⟩ := hanswered.spoken
    rw [hspoken.messages, hasked.spoken.messages, List.length_append, List.length_append]
    rfl

/-- At most one of the effects. -/
theorem Holds.unique {effect effect' : SendEffect} (h : effect.Holds service request events before after)
    (h' : effect'.Holds service request events before after) : effect' = effect := by
  have hlen := h.length
  have hlen' := h'.length
  cases effect <;> cases effect' <;> simp only [messages] at hlen hlen' <;> first | rfl | omega

end SendEffect

/-- The stage at which a turn was left, against its effect: a transaction that raised has changed
nothing, unless it was one of the ends of its session that raised. -/
inductive SendStage.Leaves (endsAnswered : Prop) : SendStage → SendEffect → Prop where
  | resolving : Leaves endsAnswered .resolving .nothing
  | asking : Leaves endsAnswered .asking .nothing
  | asked : ¬ endsAnswered → Leaves endsAnswered .asking .asked
  | calling : Leaves endsAnswered .calling .asked
  | answering : Leaves endsAnswered .answering .asked
  | answered : ¬ endsAnswered → Leaves endsAnswered .answering .answered
  | returned : endsAnswered → Leaves endsAnswered .returned .answered

section
variable {pg : Postgres} {i : ℕ} {s s' : ChatStore} {service : ChatService B} {request : SendRequest}
  {t : Turn B} {tr : TurnTrace B}

/-- What the first transaction of a turn has done when it returns. -/
theorem asking_returned {c : Conversation} {m : Message} {history : List Message}
    (h : Run PossibleTurn t.asking tr (.ok (c,m,history))) (hex : Executes (turnExec pg) i s tr s')
    (hrest : s.AtRest i) :
    ∃ now, s.db.Asked s'.db t.conversationId t.content (ChatStore.headed c t.content now) m ∧
      history = recentWindow (s'.db.transcript c.id) t.settings.maxHistoryMessages t.settings.maxHistoryChars ∧
      s'.own i = [] ∧ (∀ k, s'.db.messages.has k = true → k ∈ s'.knownMessages) ∧
      turnCalls tr = [] ∧ EndsAnswered tr := by
  obtain ⟨st,rfl,hst⟩ := sqlIn_iff.mp h
  obtain ⟨hown,⟨c',now,m',hasked,hknown,hout | ⟨⟨x,hx⟩,-⟩⟩ | ⟨-,x,hx⟩⟩ :=
    ChatStore.recordUserTurn_executes hst (turnExec_sql hex) hrest
  · cases hout
    refine ⟨now,hasked,rfl,hown,hknown,turnCalls_sql _ _,endsAnswered_sql.mpr fun e he _ => ?_⟩
    exact (ChatStore.recordUserTurn_candid _ _ _).smooth hst e he
  · cases hx
  · cases hx

/-- What the call of a turn has done when it returns. -/
theorem calling_returned {c : Conversation} {transcript : List Message} {response : CompletedResponse}
    (h : Run PossibleTurn (t.calling c (recentWindow transcript t.settings.maxHistoryMessages t.settings.maxHistoryChars))
      tr (.ok response)) (hex : Executes (turnExec pg) i s tr s') :
    s' = s ∧ EndsAnswered tr ∧ ∃ got, t.Delivers transcript (turnCalls tr) got ∧
      response.text = (got.map StreamChunk.deltaText).flatten := by
  obtain ⟨events,rfl,hrun⟩ := Turn.calling_iff.mp h
  obtain ⟨source,hsource,hbases,rfl⟩ := Instrumentation.complete_delivers hrun
  refine ⟨turnExec_calls hex,endsAnswered_calls _,yielded source,⟨source,hsource,?_,rfl⟩,BaseProvider.foldl_text _ _⟩
  rw [turnCalls_calls]
  exact hbases

theorem ChatService.resolve_turn (h : service.resolve request = .ok t) :
    t.conversationId = request.conversationId ∧ t.content = request.content := by
  unfold ChatService.resolve at h
  cases hm : service.registry.resolveModel request.provider request.model with
  | error x => rw [hm] at h; cases h
  | ok names =>
    rw [hm] at h
    cases ha : service.registry.get (some names.1) with
    | error x => simp [ha,bind,Except.bind] at h
    | ok adapter =>
      simp only [ha, bind, Except.bind, pure, Except.pure, Except.ok.injEq] at h
      rw [← h]
      exact ⟨rfl,rfl⟩

/-- What the reply's transaction makes of a turn whose call has returned. -/
theorem answering_effect {tu tc ta : TurnTrace B} {c : Conversation} {m : Message} {history : List Message}
    {response : CompletedResponse} {out : Except Exc Message} (hrest : s.AtRest i)
    (hturn : service.resolve request = .ok t) (hasking : Run PossibleTurn t.asking tu (.ok (c,m,history)))
    (hcalling : Run PossibleTurn (t.calling c history) tc (.ok response))
    (hanswering : Run PossibleTurn (Turn.answering c response) ta out)
    (hex : Executes (turnExec pg) i s (tu ++ (tc ++ ta)) s') :
    SendEffect.Holds service request (turnCalls (tu ++ (tc ++ ta))) s.db s'.db .answered ∧
        ((∃ reply, out = .ok reply) ∧ EndsAnswered (tu ++ (tc ++ ta)) ∨
          (∃ x, out = .error x) ∧ ¬ EndsAnswered (tu ++ (tc ++ ta))) ∨
      SendEffect.Holds service request (turnCalls (tu ++ (tc ++ ta))) s.db s'.db .asked ∧ ∃ x, out = .error x := by
  obtain ⟨hid,hcontent⟩ := ChatService.resolve_turn hturn
  obtain ⟨s₁,hex₁,hex₂⟩ := Executes.append_iff.mp hex
  obtain ⟨s₂,hex₂,hex₃⟩ := Executes.append_iff.mp hex₂
  obtain ⟨now,hasked,rfl,hown,hknown,hu,hends₁⟩ := asking_returned hasking hex₁ hrest
  obtain ⟨rfl,hends₂,got,hgot,htext⟩ := calling_returned hcalling hex₂
  obtain ⟨st,rfl,hst⟩ := sqlIn_iff.mp hanswering
  rw [hid, hcontent] at hasked
  rw [htext] at hst
  rcases ChatStore.recordAssistantTurn_executes (c := ChatStore.headed c request.content now) hst (turnExec_sql hex₃)
    hown hknown hasked.spoken.row with ⟨reply,hanswered,hout⟩ | ⟨hdb,x,hx⟩
  · refine .inl ⟨⟨t,_,_,m,got,reply,hturn,hasked,?_,hanswered⟩,?_⟩
    · unfold turnCalls at hu ⊢
      rw [List.filterMap_append, List.filterMap_append, hu]
      have hnone := turnCalls_sql (B := B) false st
      unfold turnCalls at hnone
      rw [hnone, List.append_nil]
      exact hgot
    · rcases hout with rfl | ⟨herror,hack⟩
      · refine .inl ⟨⟨reply,rfl⟩,?_⟩
        refine endsAnswered_append.mpr ⟨hends₁,endsAnswered_append.mpr ⟨hends₂,endsAnswered_sql.mpr fun e he _ => ?_⟩⟩
        exact (recordAssistantTurn_candid _ _).smooth hst e he
      · refine .inr ⟨herror,fun hends => hack ?_⟩
        exact endsAnswered_sql.mp (endsAnswered_append.mp (endsAnswered_append.mp hends).2).2
  · exact .inr ⟨⟨_,m,hdb ▸ hasked⟩,x,hx⟩

/-- The stage at which a turn alone with the database was left tells its effect. -/
theorem ChatService.Left.effect {stage : SendStage} {out : Except Exc ChatResult}
    (hleft : service.Left request stage tr out) (hrest : s.AtRest i) (hex : Executes (turnExec pg) i s tr s') :
    ∃ effect, SendEffect.Holds service request (turnCalls tr) s.db s'.db effect ∧
      stage.Leaves (EndsAnswered tr) effect := by
  cases hleft with
  | resolving _ => exact ⟨.nothing,congrArg ChatStore.db (Executes.nil_iff.mp hex),.resolving⟩
  | @asking t tr x hturn hasking =>
    obtain ⟨hid,hcontent⟩ := ChatService.resolve_turn hturn
    obtain ⟨st,rfl,hst⟩ := sqlIn_iff.mp hasking
    obtain ⟨-,⟨c,now,m,hasked,-,hout | ⟨-,hack⟩⟩ | ⟨hdb,-⟩⟩ :=
      ChatStore.recordUserTurn_executes hst (turnExec_sql hex) hrest
    · cases hout
    · rw [hid, hcontent] at hasked
      exact ⟨.asked,⟨_,m,hasked⟩,.asked fun hends => hack (endsAnswered_sql.mp hends)⟩
    · exact ⟨.nothing,hdb,.asking⟩
  | @calling t tu tc c m history x hturn hasking hcalling =>
    obtain ⟨hid,hcontent⟩ := ChatService.resolve_turn hturn
    obtain ⟨s₁,hex₁,hex₂⟩ := Executes.append_iff.mp hex
    obtain ⟨now,hasked,-⟩ := asking_returned hasking hex₁ hrest
    obtain ⟨events,rfl,-⟩ := Turn.calling_iff.mp hcalling
    rw [turnExec_calls hex₂]
    rw [hid, hcontent] at hasked
    exact ⟨.asked,⟨_,m,hasked⟩,.calling⟩
  | answering hturn hasking hcalling hanswering =>
    rcases answering_effect hrest hturn hasking hcalling hanswering hex with ⟨hholds,⟨⟨reply,hr⟩,-⟩ | ⟨-,hends⟩⟩ | ⟨hholds,-⟩
    · cases hr
    · exact ⟨.answered,hholds,.answered hends⟩
    · exact ⟨.asked,hholds,.answering⟩
  | returned hturn hasking hcalling hanswering =>
    rcases answering_effect hrest hturn hasking hcalling hanswering hex with ⟨hholds,⟨-,hends⟩ | ⟨⟨x,hx⟩,-⟩⟩ | ⟨-,x,hx⟩
    · exact ⟨.answered,hholds,.returned hends⟩
    · cases hx
    · cases hx

/-- A turn alone with the database has exactly one of the three effects, the one that belongs to
the stage at which it was left. It returns if and only if the reply is in and every end of its
sessions was answered. -/
theorem ChatService.send_effect {out : Except Exc ChatResult} (hrest : s.AtRest i)
    (h : Run PossibleTurn (service.send request) tr out) (hex : Executes (turnExec pg) i s tr s') :
    ∃ stage effect, service.Left request stage tr out ∧
      SendEffect.Holds service request (turnCalls tr) s.db s'.db effect ∧
      (∀ effect', SendEffect.Holds service request (turnCalls tr) s.db s'.db effect' → effect' = effect) ∧
      stage.Leaves (EndsAnswered tr) effect ∧
      ((∃ result, out = .ok result) ↔ effect = .answered ∧ EndsAnswered tr) := by
  obtain ⟨stage,hleft⟩ := ChatService.send_left h
  obtain ⟨effect,hholds,hleaves⟩ := hleft.effect hrest hex
  refine ⟨stage,effect,hleft,hholds,fun _ h' => hholds.unique h',hleaves,?_⟩
  cases hleft with
  | returned =>
    cases hleaves with
    | returned hends => exact ⟨fun _ => ⟨rfl,hends⟩,fun _ => ⟨_,rfl⟩⟩
  | answering =>
    constructor
    · rintro ⟨result,hresult⟩
      cases hresult
    · rintro ⟨rfl,hends⟩
      cases hleaves with
      | answered hnot => exact absurd hends hnot
  | resolving | asking | calling =>
    constructor
    · rintro ⟨result,hresult⟩
      cases hresult
    · rintro ⟨rfl,-⟩
      cases hleaves

end

/-! ## A cancellation that comes late -/

section
open Instrumentation

def mockService : ChatService quietSignature where
  registry := {
    providers := [(text "mock",{oneChunkProvider with supportsModel := fun _ => true})]
    defaultName := text "mock"
    repr := id }
  settings := {maxHistoryMessages := 2, maxHistoryChars := 100, maxOutputTokens := 1, redactor :=
    {maxChars := 10, enabled := false, rules := []}}

def emptyStore : ChatStore := {db := ⟨.empty,.empty,.empty,.empty⟩}

theorem emptyStore_atRest (i : ℕ) : emptyStore.AtRest i := ⟨rfl,nofun,nofun,nofun⟩

/-- Everything goes through but the operation of this number, which a cancellation hits. -/
def cancelledAt (fatal n : ℕ) : TurnChoice quietSignature where
  sql := ⟨if n = fatal then .before (.foreign 0 .cancelledError) else .none,0,n⟩
  answer
    | .call op => calm (.base op)
    | .sql _ _ => .error (.foreign 0 .cancelledError)
    | .awaitShield => .ok ()
    | .monotonic => .ok (0 : ℕ)

theorem cancelledAt_possible {fatal n i : ℕ} {s : ChatStore} {op : ChatOp quietSignature}
    {step : ChatStore × Except Exc ((chatSignature quietSignature).Answer op)}
    (h : turnExec plain.pg i s op (cancelledAt fatal n) = some step) : PossibleTurn op step.2 := by
  cases op with
  | call op =>
    cases h
    exact calm_possible (.base op)
  | _ => trivial

def greeting : SendRequest := {content := text "hi"}

def greetingRun (fatal : ℕ) : Option (TurnTrace quietSignature × ChatStore × Except Exc ChatResult) :=
  alone (turnExec plain.pg) 0 (cancelledAt fatal) 0 emptyStore (mockService.send greeting)

def raises : Except Exc ChatResult → Bool
  | .ok _ => false
  | .error _ => true

/-- The run keeps two messages, and returns or not. -/
def keepsBoth (raised : Bool) (run : TurnTrace quietSignature × ChatStore × Except Exc ChatResult) : Bool :=
  decide (run.2.1.db.messages.rows.length = 2) && raises run.2.2 == raised

theorem greetingRun_returns : (greetingRun 100).any (keepsBoth false) = true := by decide +kernel

theorem raises_eq_false {out : Except Exc ChatResult} (h : raises out = false) : ∃ result, out = .ok result := by
  cases out with
  | ok result => exact ⟨result,rfl⟩
  | error e => cases h

theorem ChatService.send_effect_greeting : ∃ run ∈ greetingRun 100, ∃ stage,
    mockService.Left greeting stage run.1 run.2.2 ∧
    SendEffect.Holds mockService greeting (turnCalls run.1) emptyStore.db run.2.1.db .answered ∧
    ∃ result, run.2.2 = .ok result := by
  obtain ⟨run,hmem,hkeeps⟩ := (Option.any_eq_true _ _).mp greetingRun_returns
  obtain ⟨hrun,hex⟩ := alone_executes cancelledAt_possible hmem
  obtain ⟨stage,effect,hleft,hholds,-,-,hreturns⟩ := ChatService.send_effect (emptyStore_atRest 0) hrun hex
  have hreturned := raises_eq_false (beq_iff_eq.mp (Bool.and_eq_true_iff.mp hkeeps).2)
  obtain ⟨rfl,-⟩ := hreturns.mp hreturned
  exact ⟨run,hmem,stage,hleft,hholds,hreturned⟩

theorem greetingRun_raises : (greetingRun 22).any (keepsBoth true) = true := by decide +kernel

/-- The cancellation hits the close of the reply's session: the reply stays, and nothing is
returned. -/
theorem reply_kept_without_result : ∃ tr s' x, Run PossibleTurn (mockService.send greeting) tr (.error x) ∧
    Executes (turnExec plain.pg) 0 emptyStore tr s' ∧
    SendEffect.Holds mockService greeting (turnCalls tr) emptyStore.db s'.db .answered := by
  obtain ⟨⟨tr,s',out⟩,hmem,hkeeps⟩ := (Option.any_eq_true _ _).mp greetingRun_raises
  obtain ⟨hrun,hex⟩ := alone_executes cancelledAt_possible hmem
  obtain ⟨hlength,hraises⟩ := Bool.and_eq_true_iff.mp hkeeps
  cases out with
  | ok result => cases hraises
  | error x =>
    refine ⟨tr,s',x,hrun,hex,?_⟩
    obtain ⟨stage,hleft⟩ := ChatService.send_left hrun
    obtain ⟨effect,hholds,-⟩ := hleft.effect (emptyStore_atRest 0) hex
    have hlen := hholds.length
    rw [of_decide_eq_true hlength] at hlen
    cases effect with
    | answered => exact hholds
    | nothing | asked => cases hlen

end
end InferenceLogger
