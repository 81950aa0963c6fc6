import InferenceLogger.Conversations.Outcomes
import InferenceLogger.Conversations.Prompts
import InferenceLogger.Streaming.Turns

/-! # Turns one after another

Whatever happens to a turn, streamed or not, it leaves the transcript of its conversation as it
was, or adds its question, or adds its question and a reply. Turns that follow one another leave
a list of such exchanges.
-/
namespace InferenceLogger
open PyText PyJson AsyncTask KeyedTable RelyGuarantee

/-- A question, and the reply to it that was saved, if one was. -/
structure Exchange where
  question : Message
  reply : Option Message
  asked : question.role = .user
  filled : question.content ≠ []
  answered : ∀ m, reply = some m → m.role = .assistant

def Exchange.messages (e : Exchange) : List Message := e.question :: e.reply.toList

def dialogue (es : List Exchange) : List Message := es.flatMap Exchange.messages

@[simp] theorem dialogue_cons (e : Exchange) (es : List Exchange) :
    dialogue (e :: es) = e.question :: (e.reply.toList ++ dialogue es) := rfl

@[simp] theorem dialogue_append (es es' : List Exchange) : dialogue (es ++ es') = dialogue es ++ dialogue es' :=
  List.flatMap_append

/-! ## What a turn leaves in the tables -/

namespace Db
variable {before after mid : Db} {c : Conversation} {m : Message}

theorem le_nextSeq {db : Db} {id : Uuid} {x : Message} (h : x ∈ db.transcript id) : x.seq ≤ db.nextSeq id := by
  unfold nextSeq
  generalize db.transcript id = ms at h
  induction ms with
  | nil => cases h
  | cons y ms ih =>
    rw [List.map_cons, List.foldr_cons]
    rcases List.mem_cons.mp h with rfl | h
    · omega
    · have hle := ih h
      omega

theorem Says.transcript (h : before.Says after c m) (id : Uuid) :
    after.transcript id = before.transcript id ++ if c.id = id then [m] else [] := by
  have hmessages : after.messagesOf id = before.messagesOf id ++ if c.id = id then [m] else [] := by
    unfold messagesOf
    rw [h.messages, List.map_append, List.filter_append, List.map_singleton, List.filter_singleton, h.home]
    by_cases hc : c.id = id
    · rw [if_pos hc, decide_eq_true hc]
      rfl
    · rw [if_neg hc, decide_eq_false hc]
      rfl
  rw [transcript_eq, transcript_eq, hmessages]
  by_cases hc : c.id = id
  · subst hc
    rw [if_pos rfl]
    refine insertionSort_last fun x hx => ?_
    rw [h.number]
    exact le_nextSeq ((List.mem_insertionSort _).mpr hx)
  · rw [if_neg hc, List.append_nil, List.append_nil]

/-- What a turn with this content can leave behind. -/
inductive Leaves (before : Db) (conversationId : Option Uuid) (content : Text) : Db → Prop where
  | nothing : Leaves before conversationId content before
  | asked {after : Db} {c : Conversation} {m : Message} : before.Asked after conversationId content c m →
      Leaves before conversationId content after
  | answered {mid after : Db} {c : Conversation} {m reply : Message} {output : Text} :
      before.Asked mid conversationId content c m → mid.Answered after c output reply →
      Leaves before conversationId content after

/-- The exchange a turn adds to a transcript, if any. -/
theorem Leaves.dialogue {conversationId : Option Uuid} {content : Text} (h : before.Leaves conversationId content after)
    (hne : content ≠ []) (id : Uuid) : ∃ es, after.transcript id = before.transcript id ++ dialogue es := by
  cases h with
  | nothing => exact ⟨[],by simp [InferenceLogger.dialogue]⟩
  | @asked _ c m hasked =>
    rw [hasked.spoken.transcript]
    by_cases hc : c.id = id
    · rw [if_pos hc]
      exact ⟨[⟨m,none,hasked.role,hasked.content ▸ hne,nofun⟩],rfl⟩
    · rw [if_neg hc]
      exact ⟨[],rfl⟩
  | @answered mid _ c m reply output hasked hanswered =>
    obtain ⟨now,hspoken⟩ := hanswered.spoken
    rw [hspoken.transcript, hasked.spoken.transcript]
    by_cases hc : c.id = id
    · rw [if_pos hc, if_pos hc, List.append_assoc]
      refine ⟨[⟨m,some reply,hasked.role,hasked.content ▸ hne,?_⟩],rfl⟩
      intro m' hm
      cases hm
      exact hanswered.role
    · rw [if_neg hc, if_neg hc, List.append_nil]
      exact ⟨[],rfl⟩

end Db

/-! ## A turn alone with the database -/

section
variable {B : Signature}

structure StreamChoice (B : Signature) where
  sql : ChatChoice
  answer : (op : GenOp (chatSignature B) ChatStreamEvent) →
    Except Exc ((genSignature (chatSignature B) ChatStreamEvent).Answer op)

/-- A streamed turn's statements act on the database, and nothing else it awaits does. -/
def streamExec (pg : Postgres) : Executor ℕ (genSignature (chatSignature B) ChatStreamEvent) Exc ChatStore (StreamChoice B) :=
  fun me s op c => match op with
    | .base (.sql _ stmt) => chatExec pg me s stmt c.sql
    | .base (.call op) => some (s,c.answer (.base (.call op)))
    | .base .awaitShield => some (s,c.answer (.base .awaitShield))
    | .base .monotonic => some (s,c.answer (.base .monotonic))
    | .yield y => some (s,c.answer (.yield y))

variable {pg : Postgres} {i : ℕ} {s s' : ChatStore} {t : Turn B} {tr : ChatTrace B}

theorem streamExec_sql {d : Bool} {st : SqlTrace} (h : Executes (streamExec (B := B) pg) i s (st.map (statementEvent d)) s') :
    Executes (chatExec pg) i s st s' :=
  h.map fun _ _ _ c hc => ⟨c.sql,hc⟩

theorem streamExec_base {base : TurnTrace B} (h : Executes (streamExec pg) i s (base.map Gen.baseEvent) s') :
    Executes (turnExec pg) i s base s' := by
  refine h.map fun e s s₁ c hc => ⟨⟨c.sql,fun op => c.answer (.base op)⟩,?_⟩
  obtain ⟨op,r⟩ := e
  cases op with
  | sql d stmt => exact hc
  | _ => exact hc

/-- Without a statement nothing changes. -/
theorem streamExec_silent (h : Executes (streamExec pg) i s tr s') (hq : ∀ b, statements b tr = []) : s' = s := by
  refine h.keeps (I := fun s' => s' = s) ?_ rfl
  rintro ⟨op,r⟩ he s₁ s₂ c hc rfl
  rcases op with (_ | ⟨d,stmt⟩ | _ | _) | _
  case sql =>
    have hmem : (⟨stmt,r⟩ : Event chatSqlSignature Exc) ∈ statements d tr :=
      List.mem_filterMap.mpr ⟨_,he,if_pos rfl⟩
    rw [hq d] at hmem
    cases hmem
  all_goals exact (Prod.mk.inj (Option.some.inj hc)).1.symm

/-- The reply's transaction has answered, or changed nothing. -/
theorem reply_leaves {conversationId : Option Uuid} {content output : Text} {before : Db} {c : Conversation} {m : Message}
    {st : SqlTrace} {out : Except Exc Message}
    {allowed : (op : ChatSql) → Except Exc (chatSqlSignature.Answer op) → Prop}
    (hasked : before.Asked s.db conversationId content c m)
    (hown : s.own i = []) (hknown : ∀ k, s.db.messages.has k = true → k ∈ s.knownMessages)
    (h : Run allowed (recordAssistantTurn c.id output) st out) (hex : Executes (chatExec pg) i s st s') :
    before.Leaves conversationId content s'.db := by
  rcases ChatStore.recordAssistantTurn_executes h hex hown hknown hasked.spoken.row with ⟨reply,hanswered,-⟩ | ⟨hdb,-⟩
  · exact .answered hasked hanswered
  · rw [hdb]
    exact .asked hasked

theorem statements_then {d : Bool} {st : SqlTrace} {rest : ChatTrace B} (hq : ∀ b, statements b rest = [])
    (hex : Executes (streamExec pg) i s (st.map (statementEvent d) ++ rest) s') : Executes (chatExec pg) i s st s' := by
  obtain ⟨s₁,hst,hrest⟩ := Executes.append_iff.mp hex
  rw [streamExec_silent hrest hq]
  exact streamExec_sql hst

/-- What follows the loop leaves at most one reply. -/
theorem conclude_leaves {conversationId : Option Uuid} {content : Text} {before : Db} {c : Conversation} {m : Message}
    {start : ℕ} {parts : List Text} {exit out : Except Exc Unit} (hasked : before.Asked s.db conversationId content c m)
    (hown : s.own i = []) (hknown : ∀ k, s.db.messages.has k = true → k ∈ s.knownMessages)
    (h : Run PossibleChat (Turn.conclude c.id start parts exit) tr out) (hex : Executes (streamExec pg) i s tr s') :
    before.Leaves conversationId content s'.db := by
  have hquiet : (∀ b, statements b tr = []) → before.Leaves conversationId content s'.db := by
    intro hq
    rw [streamExec_silent hex hq]
    exact .asked hasked
  cases exit with
  | ok u =>
    obtain ⟨st,recorded,hst,⟨e,-,rfl,-⟩ | ⟨reply,stop,ms,r,-,rfl,-⟩⟩ := conclude_ok_run h
    · exact reply_leaves hasked hown hknown hst (streamExec_sql hex)
    · exact reply_leaves hasked hown hknown hst (statements_then (fun _ => rfl) hex)
  | error e =>
    rcases conclude_error_run h with ⟨-,saving,rest,persisted,rfl,hp,hrest⟩ | ⟨-,-,code,message,r,rfl,-⟩ | ⟨-,-,rfl,-⟩
    · have hsilent : ∀ b, statements b rest = [] := by
        intro b
        rcases hrest with ⟨x,-,rfl,-⟩ | ⟨-,-,rfl,-⟩ | ⟨-,-,code,message,r,rfl,-⟩ <;> rfl
      rcases persistPartial_run hp with ⟨-,rfl,-⟩ | ⟨-,st,saved,waited,hst,rfl,-⟩
      · exact hquiet hsilent
      · rw [List.append_assoc] at hex
        refine reply_leaves hasked hown hknown hst (statements_then (fun b => ?_) hex)
        rw [statements_append, hsilent]
        rfl
    · exact hquiet fun _ => rfl
    · exact hquiet fun _ => rfl

/-- A streamed turn leaves its question and at most one reply. -/
theorem stream_leaves {out : Except Exc Unit} (h : Run PossibleChat t.stream tr out)
    (hex : Executes (streamExec pg) i s tr s') (hrest : s.AtRest i) : s.db.Leaves t.conversationId t.content s'.db := by
  have hfirst : ∀ {st recorded}, Run (PossibleSql B false) (recordUserTurn t.settings t.conversationId t.content) st recorded →
      Executes (chatExec pg) i s st s' → s.db.Leaves t.conversationId t.content s'.db := by
    intro st recorded hrun hst
    obtain ⟨-,⟨c,now,m,hasked,-⟩ | ⟨hdb,-⟩⟩ := ChatStore.recordUserTurn_executes hrun hst hrest
    · exact .asked hasked
    · rw [hdb]
      exact .nothing
  cases stream_run h with
  | unanswered hun =>
    cases hun with
    | refused hst _ htr => exact hfirst hst (statements_then (fun _ => rfl) (htr ▸ hex))
    | crashed hst _ htr => exact hfirst hst (streamExec_sql (htr ▸ hex))
    | unstarted hst htr => exact hfirst hst (statements_then (fun _ => rfl) (htr ▸ hex))
  | @responded st c m history start body rest d call got exit hst _ _ hbody _ hconclude htr =>
    subst htr
    obtain ⟨s₁,hex₁,hex₂⟩ := Executes.append_iff.mp hex
    rw [← List.cons_append, ← List.cons_append] at hex₂
    obtain ⟨s₂,hex₂,hex₃⟩ := Executes.append_iff.mp hex₂
    have hsame := streamExec_silent hex₂ hbody
    subst hsame
    obtain ⟨hown,⟨c',now,m',hasked,hknown,hout | ⟨⟨x,hx⟩,-⟩⟩ | ⟨-,x,hx⟩⟩ :=
      ChatStore.recordUserTurn_executes hst (streamExec_sql hex₁) hrest
    · cases hout
      exact conclude_leaves (c := ChatStore.headed c t.content now) hasked hown hknown hconclude hex₃
    · cases hx
    · cases hx

/-- So does a turn that is not streamed. -/
theorem send_leaves {tr : TurnTrace B} {out : Except Exc ChatResult} (h : Run PossibleTurn t.send tr out)
    (hex : Executes (turnExec pg) i s tr s') (hrest : s.AtRest i) : s.db.Leaves t.conversationId t.content s'.db := by
  rcases Run.bind_iff.mp h with ⟨tu,⟨c,m,history⟩,tr₁,rfl,hasking,h₁⟩ | ⟨x,rfl,hasking⟩
  · obtain ⟨s₁,hex₁,hex₂⟩ := Executes.append_iff.mp hex
    obtain ⟨now,hasked,-,hown,hknown,-⟩ := asking_returned hasking hex₁ hrest
    rcases Run.bind_iff.mp h₁ with ⟨tc,response,tr₂,rfl,hcalling,h₂⟩ | ⟨x,rfl,hcalling⟩
    · obtain ⟨s₂,hex₂,hex₃⟩ := Executes.append_iff.mp hex₂
      obtain ⟨events,rfl,-⟩ := Turn.calling_iff.mp hcalling
      have hsame := turnExec_calls hex₂
      subst hsame
      have hreply : ∀ {ta : TurnTrace B} {reply s₃}, Run PossibleTurn (Turn.answering c response) ta reply →
          Executes (turnExec pg) i s₂ ta s₃ → s.db.Leaves t.conversationId t.content s₃.db := by
        intro ta reply s₃ hanswering hex
        obtain ⟨st,rfl,hst⟩ := sqlIn_iff.mp hanswering
        exact reply_leaves (c := ChatStore.headed c t.content now) hasked hown hknown hst (turnExec_sql hex)
      rcases Run.bind_iff.mp h₂ with ⟨ta,reply,tr₃,rfl,hanswering,h₃⟩ | ⟨x,rfl,hanswering⟩
      · obtain ⟨rfl,-⟩ := Run.done_iff.mp h₃
        rw [List.append_nil] at hex₃
        exact hreply hanswering hex₃
      · exact hreply hanswering hex₃
    · obtain ⟨events,rfl,-⟩ := Turn.calling_iff.mp hcalling
      rw [turnExec_calls hex₂]
      exact .asked hasked
  · obtain ⟨st,rfl,hst⟩ := sqlIn_iff.mp hasking
    obtain ⟨-,⟨c,now,m,hasked,-⟩ | ⟨hdb,-⟩⟩ := ChatStore.recordUserTurn_executes hst (turnExec_sql hex) hrest
    · exact .asked hasked
    · rw [hdb]
      exact .nothing

/-! ## One turn after another -/

variable {server : ChatServer} {α : Type}

/-- A request that follows the phases, alone with the database, leaves the tables in order and no
session with anything pending. -/
theorem follows_executes {may : Option Home → CallOp B → Prop} {program : ChatGen B α} {φ : ChatPhase} {out : Except Exc α}
    {allowed : (op : GenOp (chatSignature B) ChatStreamEvent) →
      Except Exc ((genSignature (chatSignature B) ChatStreamEvent).Answer op) → Prop}
    (hf : Follows (ServerAllows may) AtRest program φ) (h : Run allowed program tr out)
    (hex : Executes (streamExec server.pg) i s tr s') (hs : s.Inv) (ho : s.Owns i φ)
    (hothers : ∀ j, j ≠ i → s.own j = []) : s'.Inv ∧ ∀ j, s'.own j = [] := by
  induction h generalizing s φ with
  | done a | raise e =>
    rw [Executes.nil_iff.mp hex]
    obtain ⟨home,rfl⟩ := hf
    refine ⟨hs,fun j => ?_⟩
    by_cases hj : j = i
    · rw [hj]
      exact ho.1
    · exact hothers j hj
  | await _ _ ih =>
    rename_i op k r tr out _ _
    obtain ⟨choice,s₁,hstep,hrest⟩ := Executes.cons_iff.mp hex
    obtain ⟨φ',ha,hk⟩ := hf r
    rcases op with (_ | ⟨d,stmt⟩ | _ | _) | _
    case sql =>
      cases ha with
      | sql _ ha =>
        obtain ⟨hinv,ho',haround⟩ := chatExec_served hs ho ha hstep
        exact ih hk hrest hinv ho' fun j hj => (haround j hj).own.trans (hothers j hj)
    case «yield» =>
      obtain ⟨rfl,-⟩ := ha
      rw [← (Prod.mk.inj (Option.some.inj hstep)).1] at hrest
      exact ih hk hrest hs ho hothers
    all_goals
      rw [← (Prod.mk.inj (Option.some.inj hstep)).1] at hrest
      cases ha
      exact ih hk hrest hs ho hothers

/-- The stores that turns lead to, one after another, however each of them ends. The schema of a
request admits no empty content. -/
inductive Conversed (B : Signature) (server : ChatServer) : ChatStore → Prop where
  | empty : Conversed B server (ServerState.initial (B := B)).store
  | turn {s s' : ChatStore} {i : ℕ} {request : ApiRequest B} {content : Text} {tr : ChatTrace B} {out : Except Exc Unit} :
      Conversed B server s → request.content = some content → content ≠ [] →
      Run PossibleChat (server.program request) tr out → Executes (streamExec server.pg) i s tr s' → Conversed B server s'

theorem possibleTurn_of_chat (op : ChatOp B) (r : Except Exc ((chatSignature B).Answer op)) (h : PossibleChat (.base op) r) :
    PossibleTurn op r := by
  cases op with
  | call op => exact h
  | _ => trivial

/-- What a session without a write issues. -/
def onlyReads : ChatSql → Prop
  | .getConversation _ | .commit | .rollback | .close => True
  | _ => False

theorem prepare_awaits (conversationId : Option Uuid) : Awaits onlyReads (prepare conversationId) := by
  cases conversationId with
  | none => exact awaits_done ()
  | some id =>
    have hrequire : Awaits onlyReads (ConversationRepository.require id) := by
      refine (awaits_sql trivial).bind fun c => ?_
      cases c with
      | none => exact awaits_raise _
      | some c => exact awaits_done c
    refine Awaits.bind ?_ fun _ => awaits_done ()
    exact SessionOps.awaits_session hrequire (awaits_sql trivial) (awaits_sql trivial) (awaits_sql trivial)

theorem onlyReads_executes {pg : Postgres} {stmt : ChatSql} {choice : ChatChoice} {r} (hr : onlyReads stmt)
    (hown : s.own i = []) (h : chatExec pg i s stmt choice = some (s',r)) :
    s'.db = s.db ∧ s'.own i = [] ∧ s.knownConversations ⊆ s'.knownConversations ∧ s.knownMessages ⊆ s'.knownMessages := by
  by_cases hc : stmt = .commit
  · subst hc
    unfold chatExec at h
    have hview : s.view i = s.db := ChatStore.view_nil hown
    split at h
    · cases h
      exact ⟨hview,ChatStore.own_forget_self,fun _ h => h,fun _ h => h⟩
    · cases h
      exact ⟨rfl,ChatStore.own_abort_self,fun _ h => h,fun _ h => h⟩
    · cases h
      exact ⟨hview,ChatStore.own_forget_self,fun _ h => h,fun _ h => h⟩
  · have hp := ChatStore.chatExec_performs hc h
    refine ⟨hp.quiet.db,?_,hp.quiet.conversations,hp.quiet.messages⟩
    cases hp with
    | refused | got => exact hown
    | failed => exact ChatStore.own_abort_self
    | rollback | close => exact ChatStore.own_forget_self
    | _ => cases hr

/-- The check before a stream reads one row and commits nothing. -/
theorem prepare_executes {pg : Postgres} {conversationId : Option Uuid} {st : SqlTrace} {out : Except Exc Unit}
    {allowed : (op : ChatSql) → Except Exc (chatSqlSignature.Answer op) → Prop}
    (h : Run allowed (prepare conversationId) st out) (hex : Executes (chatExec pg) i s st s') (hrest : s.AtRest i) :
    s'.db = s.db ∧ s'.AtRest i := by
  obtain ⟨hdb,hown,hc,hm⟩ := hex.keeps (I := fun s' => s'.db = s.db ∧ s'.own i = [] ∧
      s.knownConversations ⊆ s'.knownConversations ∧ s.knownMessages ⊆ s'.knownMessages) (by
    rintro e he s₁ s₂ c hc ⟨hdb,hown,hconv,hmess⟩
    obtain ⟨hdb',hown',hconv',hmess'⟩ := onlyReads_executes (prepare_awaits conversationId _ _ _ h e he) hown hc
    exact ⟨hdb'.trans hdb,hown',fun _ h => hconv' (hconv h),fun _ h => hmess' (hmess h)⟩)
    ⟨rfl,hrest.own,fun _ h => h,fun _ h => h⟩
  refine ⟨hdb,hown,?_,?_,?_⟩
  · rw [hdb]
    exact hrest.conversationKey
  · rw [hdb]
    exact fun k hk => hc (hrest.knownConversations k hk)
  · rw [hdb]
    exact fun k hk => hm (hrest.knownMessages k hk)

theorem request_leaves {request : ApiRequest B} {content : Text} {out : Except Exc Unit} (hc : request.content = some content)
    (h : Run PossibleChat (server.program request) tr out) (hex : Executes (streamExec server.pg) i s tr s')
    (hrest : s.AtRest i) : ∃ conversationId, s.db.Leaves conversationId content s'.db := by
  cases request with
  | createConversation => cases hc
  | deleteConversation id => cases hc
  | send adapter provider model conversationId content =>
    cases hc
    have hsend : ∀ {tr s' out}, Run PossibleChat (Gen.ofBase (Turn.send
        ⟨server.settings,adapter,provider,model,conversationId,content⟩) : ChatGen B ChatResult) tr out →
        Executes (streamExec server.pg) i s tr s' → s.db.Leaves conversationId content s'.db := by
      intro tr s' out h hex
      obtain ⟨base,rfl,hbase⟩ := Run.ofBase_iff.mp h
      exact send_leaves (hbase.mono possibleTurn_of_chat) (streamExec_base hex) hrest
    rcases Run.bind_iff.mp h with ⟨tr₁,result,tr₂,rfl,h₁,h₂⟩ | ⟨x,rfl,h₁⟩
    · obtain ⟨rfl,-⟩ := Run.done_iff.mp h₂
      rw [List.append_nil] at hex
      exact ⟨conversationId,hsend h₁ hex⟩
    · exact ⟨conversationId,hsend h₁ hex⟩
  | stream adapter provider model conversationId content =>
    cases hc
    rcases Run.bind_iff.mp h with ⟨tr₁,u,tr₂,rfl,h₁,h₂⟩ | ⟨x,rfl,h₁⟩
    · obtain ⟨st,rfl,hst⟩ := sqlIn_run h₁
      obtain ⟨s₁,hex₁,hex₂⟩ := Executes.append_iff.mp hex
      obtain ⟨hdb,hrest₁⟩ := prepare_executes hst (streamExec_sql hex₁) hrest
      have hleaves := stream_leaves h₂ hex₂ hrest₁
      rw [hdb] at hleaves
      exact ⟨conversationId,hleaves⟩
    · obtain ⟨st,rfl,hst⟩ := sqlIn_run h₁
      obtain ⟨hdb,-⟩ := prepare_executes hst (streamExec_sql hex) hrest
      rw [hdb]
      exact ⟨conversationId,.nothing⟩

/-- The tables are in order and every transcript is a list of exchanges. -/
structure Spoken (s : ChatStore) : Prop where
  inv : s.Inv
  own : ∀ i, s.own i = []
  dialogues : ∀ id, ∃ es, s.db.transcript id = dialogue es

theorem conversed_spoken (h : Conversed B server s) : Spoken s := by
  induction h with
  | empty =>
    have hserved : Served (fun _ _ _ => True) (ServerState.initial : ServerState B) := initial_served
    exact ⟨hserved.inv,fun _ => rfl,fun _ => ⟨[],rfl⟩⟩
  | turn _ hc hne hrun hex ih =>
    rename_i request content tr out _
    have hfollows : Follows (ServerAllows fun _ _ => True) AtRest (server.program request) (.idle none) :=
      @program_follows _ server (fun _ _ _ => True) request fun _ _ _ _ _ _ => calls_any _
    obtain ⟨hinv,hown⟩ := follows_executes hfollows hrun hex ih.inv ⟨ih.own _,by simp [ChatStore.AtHome]⟩
      fun j _ => ih.own j
    refine ⟨hinv,hown,fun id => ?_⟩
    obtain ⟨conversationId,hleaves⟩ := request_leaves hc hrun hex (ih.inv.atRest (ih.own _))
    obtain ⟨es,hes⟩ := ih.dialogues id
    obtain ⟨new,hnew⟩ := hleaves.dialogue hne id
    exact ⟨es ++ new,by rw [hnew, hes, dialogue_append]⟩

end
end InferenceLogger
