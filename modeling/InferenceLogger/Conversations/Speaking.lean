import InferenceLogger.Conversations.Prompts
import InferenceLogger.Conversations.Clock

/-! # When a request speaks

The statements that insert a message, in the programs of the requests: the question, in the
conversation that was looked up or created for it, and after it one reply at most.
-/
namespace InferenceLogger
open PyText PyJson AsyncTask

/-! ## Phases -/

section
variable {B : Signature}

/-- The conversation that a turn names. -/
def ApiRequest.conversationId : ApiRequest B → Option Uuid
  | .send _ _ _ conversationId _ => conversationId
  | .stream _ _ _ conversationId _ => conversationId
  | _ => none

/-- How far a request has come: `asking` is to put the question in this conversation. -/
inductive Floor where
  | opening
  | asking (id : Uuid)
  | answering
  | finished

/-- After a statement that inserts nothing. A transaction that ends or fails has to look for its
conversation again. -/
def Floor.after (floor : Floor) (op : ChatSql) {α : Type} (r : Except Exc α) : Floor :=
  match floor, r with
  | .asking id, .ok _ => if op.ends then .opening else .asking id
  | .asking _, .error _ => .opening
  | floor, _ => floor

def ChatSql.inserts : ChatSql → Bool
  | .insertMessage _ _ _ _ => true
  | _ => false

def ChatSql.Silent (stmt : ChatSql) : Prop := stmt.inserts = false

inductive Speaks (request : ApiRequest B) : Typestate chatSqlSignature Exc Floor where
  | create (c : Conversation) : request.conversationId = none →
      Speaks request .opening (.createConversation none) (.ok c) (.asking c.id)
  | find (id : Uuid) (c : Conversation) : request.conversationId = some id →
      Speaks request .opening (.getConversation id) (.ok (some c)) (.asking c.id)
  | ask {id : Uuid} {content : Text} {seq : ℕ} (r) : request.content = some content →
      Speaks request (.asking id) (.insertMessage id .user content seq) r .answering
  | reply {id : Uuid} {content : Text} {seq : ℕ} (r) :
      Speaks request .answering (.insertMessage id .assistant content seq) r .finished
  | other (floor : Floor) {op : ChatSql} (r) : op.inserts = false → Speaks request floor op r (floor.after op r)

/-! ## The transactions -/

/-- Where a transaction that does not fail leads. -/
def Leads {α : Type} (floor : Floor) (r : Except Exc α) (floor' : Floor) : Prop := ∀ a, r = .ok a → floor' = floor

variable {request : ApiRequest B}

theorem speaks_statement {α : Type} {target floor next : Floor} {stmt : ChatSql} {f : chatSqlSignature.Answer stmt → SqlTask α}
    (h : ∀ r, ∃ floor', Speaks request floor stmt r floor' ∧ ∀ a, r = .ok a → floor' = next)
    (hf : ∀ a, Follows (Speaks request) (Leads target) (f a) next) :
    Follows (Speaks request) (Leads target) (sql stmt >>= f) floor := by
  intro r
  obtain ⟨floor',ha,hn⟩ := h r
  refine ⟨floor',ha,?_⟩
  cases r with
  | ok a =>
    rw [hn a rfl]
    exact hf a
  | error e => exact fun a ha => nomatch ha

/-- A statement that inserts nothing and ends nothing stays where it is. -/
theorem speaks_silent {floor : Floor} {stmt : ChatSql} (hi : stmt.inserts = false) (he : stmt.ends = false) :
    ∀ r, ∃ floor', Speaks request floor stmt r floor' ∧ ∀ a, r = .ok a → floor' = floor := by
  intro r
  refine ⟨_,.other floor r hi,?_⟩
  rintro a rfl
  cases floor with
  | asking id => simp [Floor.after,he]
  | opening | answering | finished => rfl

/-- A request that has nothing to look for is not moved by the end of a transaction. -/
def Floor.Settled (floor : Floor) : Prop := ∀ (op : ChatSql) {α : Type} (r : Except Exc α), floor.after op r = floor

theorem speaks_session {α : Type} {target floor : Floor} {body : SqlTask α} (ht : target.Settled)
    (h : Follows (Speaks request) (Leads target) body floor) :
    Follows (Speaks request) (Leads target) (chatSessionOps.session body) floor := by
  have hend : ∀ (op : ChatSql), op.inserts = false → ∀ r, Speaks request target op r target := by
    intro op hi r
    have hother : Speaks request target op r (target.after op r) := .other target r hi
    rwa [ht op r] at hother
  have hclose : ∀ {r : Except Exc α} {φ : Floor}, (∀ a, r = .ok a → φ = target) →
      Follows (Speaks request) (Leads target) (chatSessionOps.close >>= fun _ => Task.ofExcept r) φ := by
    intro r φ hr q
    cases r with
    | error e =>
      refine ⟨_,.other φ q rfl,?_⟩
      cases q <;> exact fun a ha => nomatch ha
    | ok a =>
      obtain rfl := hr a rfl
      refine ⟨_,hend .close rfl q,?_⟩
      cases q with
      | ok u => exact fun _ _ => rfl
      | error e => exact fun a ha => nomatch ha
  have hcommitted : Follows (Speaks request) (Leads target)
      (body >>= fun a => chatSessionOps.commit >>= fun _ => pure a) floor := by
    apply Follows.bind
    refine h.mono fun r φ hφ => ?_
    cases r with
    | error e => exact fun a ha => nomatch ha
    | ok a =>
      obtain rfl := hφ a rfl
      intro q
      refine ⟨_,hend .commit rfl q,?_⟩
      cases q with
      | ok u => exact fun _ _ => rfl
      | error e => exact fun a ha => nomatch ha
  apply Follows.resume
  apply Follows.resume
  refine hcommitted.mono fun r φ hφ => ?_
  cases r with
  | ok a => exact hclose fun a ha => hφ a ha
  | error e =>
    dsimp only
    split
    · intro q
      refine ⟨_,.other φ q rfl,?_⟩
      cases q <;> exact hclose fun a ha => nomatch ha
    · exact hclose fun a ha => nomatch ha

theorem speaks_append {α : Type} {target floor next : Floor} {id : Uuid} {role : MessageRole} {content : Text}
    {f : Message → SqlTask α} (h : ∀ seq r, Speaks request floor (.insertMessage id role content seq) r next)
    (hf : ∀ m, Follows (Speaks request) (Leads target) (f m) next) :
    Follows (Speaks request) (Leads target) (ConversationRepository.appendMessage id role content >>= f) floor := by
  unfold ConversationRepository.appendMessage
  simp only [bind_assoc]
  apply speaks_statement (speaks_silent rfl rfl)
  intro _
  apply speaks_statement (speaks_silent rfl rfl)
  intro seq
  apply speaks_statement fun r => ⟨next,h seq r,fun _ _ => rfl⟩
  intro m
  apply speaks_statement (speaks_silent rfl rfl)
  intro _
  exact hf m

theorem speaks_recordUserTurn (settings : ChatSettings) {content : Text} (hc : request.content = some content) :
    Follows (Speaks request) (Leads .answering) (recordUserTurn settings request.conversationId content) .opening := by
  have hturn : ∀ c : Conversation, Follows (Speaks request) (Leads .answering)
      (do
        let m ← ConversationRepository.appendMessage c.id .user content
        ConversationRepository.ensureTitle c.id content
        let history ← sql (.messages c.id)
        return (c,m,history)) (.asking c.id) := by
    intro c
    apply speaks_append (fun seq r => Speaks.ask r hc)
    intro m
    unfold ConversationRepository.ensureTitle
    apply speaks_statement (speaks_silent rfl rfl)
    intro _
    apply speaks_statement (speaks_silent rfl rfl)
    intro history
    exact fun _ _ => rfl
  have huser : Follows (Speaks request) (Leads .answering) (userTurn request.conversationId content) .opening := by
    unfold userTurn
    cases hid : request.conversationId with
    | none =>
      intro r
      cases r with
      | error e => exact ⟨_,.other _ _ rfl,fun a ha => nomatch ha⟩
      | ok c => exact ⟨_,.create c hid,hturn c⟩
    | some id =>
      intro r
      cases r with
      | error e => exact ⟨_,.other _ _ rfl,fun a ha => nomatch ha⟩
      | ok found =>
        cases found with
        | none => exact ⟨_,.other _ _ rfl,fun a ha => nomatch ha⟩
        | some c => exact ⟨_,.find id c hid,hturn c⟩
  apply Follows.bind
  refine (speaks_session (fun _ _ _ => rfl) huser).mono fun r φ hφ => ?_
  cases r with
  | ok a => exact fun _ _ => hφ a rfl
  | error e => exact fun a ha => nomatch ha

theorem speaks_recordAssistantTurn (id : Uuid) (content : Text) :
    Follows (Speaks request) (Leads .finished) (recordAssistantTurn id content) .answering := by
  apply speaks_session fun _ _ _ => rfl
  have happend : Follows (Speaks request) (Leads .finished)
      (ConversationRepository.appendMessage id .assistant content >>= fun m => (pure m : SqlTask Message)) .answering :=
    speaks_append (fun seq r => Speaks.reply r) fun m _ _ => rfl
  rwa [bind_pure] at happend

/-! ## The programs -/

/-- Only statements speak. -/
def ChatSpeaks (request : ApiRequest B) : Typestate (chatSignature B) Exc Floor
  | floor, .sql _ stmt, r, floor' => Speaks request floor stmt r floor'
  | floor, _, _, floor' => floor' = floor

def ServerSpeaks (request : ApiRequest B) : Typestate (genSignature (chatSignature B) ChatStreamEvent) Exc Floor
  | floor, .base op, r, floor' => ChatSpeaks request floor op r floor'
  | floor, .yield _, _, floor' => floor' = floor

/-- No statement that inserts. -/
def ChatQuiet (op : ChatOp B) : Prop := ∀ d stmt, op = .sql d stmt → stmt.Silent

theorem chatSpeaks_quiet (floor : Floor) (op : ChatOp B) (r) (h : ChatQuiet op) :
    ∃ floor', ChatSpeaks request floor op r floor' := by
  cases op with
  | sql d stmt => exact ⟨_,.other floor r (h d stmt rfl)⟩
  | call | awaitShield | monotonic => exact ⟨floor,rfl⟩

theorem serverSpeaks_quiet (floor : Floor) (op : ServerOp B) (r) (h : ∀ b, op = .base b → ChatQuiet b) :
    ∃ floor', ServerSpeaks request floor op r floor' := by
  cases op with
  | base op => exact chatSpeaks_quiet floor op r (h op rfl)
  | «yield» value => exact ⟨floor,rfl⟩

theorem chatSpeaks_settled {floor : Floor} (hf : floor.Settled) (op : ChatOp B) (r) (h : ChatQuiet op) :
    ChatSpeaks request floor op r floor := by
  cases op with
  | sql d stmt =>
    have hother : Speaks request floor stmt r (floor.after stmt r) := .other floor r (h d stmt rfl)
    rwa [hf stmt r] at hother
  | call | awaitShield | monotonic => exact rfl

theorem serverSpeaks_settled {floor : Floor} (hf : floor.Settled) (op : ServerOp B) (r) (h : ∀ b, op = .base b → ChatQuiet b) :
    ServerSpeaks request floor op r floor := by
  cases op with
  | base op => exact chatSpeaks_settled hf op r (h op rfl)
  | «yield» value => exact rfl

/-- A transaction inside a request follows what the request allows of its statements. -/
theorem follows_transaction {Φ α : Type} {P : Typestate chatSqlSignature Exc Φ} {Q : Typestate (chatSignature B) Exc Φ}
    {q : Except Exc α → Φ → Prop} {t : SqlTask α} {φ : Φ} (detached : Bool)
    (hPQ : ∀ φ stmt r φ', P φ stmt r φ' → Q φ (.sql detached stmt) r φ') (h : Follows P q t φ) :
    Follows Q q (sqlIn detached t : ChatTask B α) φ := by
  refine Follows.interp (T := chatSignature B) ?_ h
  intro φ op post h r
  obtain ⟨φ',ha,hp⟩ := h r
  refine ⟨φ',hPQ φ op r φ' ha,?_⟩
  cases r with
  | ok a => exact hp
  | error e => exact hp

theorem speaks_sqlIn {α : Type} {q : Except Exc α → Floor → Prop} {t : SqlTask α} {floor : Floor}
    (detached : Bool) (h : Follows (Speaks request) q t floor) :
    Follows (ChatSpeaks request) q (sqlIn detached t : ChatTask B α) floor :=
  follows_transaction detached (fun _ _ _ _ ha => ha) h

theorem speaks_ofBase {α : Type} {q : Except Exc α → Floor → Prop} {t : ChatTask B α} {floor : Floor}
    (h : Follows (ChatSpeaks request) q t floor) : Follows (ServerSpeaks request) q (Gen.ofBase t) floor :=
  h.ofBase fun _ _ _ _ ha => ha

theorem quiet_sqlIn {α : Type} (detached : Bool) {t : SqlTask α} (h : Issues ChatSql.Silent t) :
    Issues ChatQuiet (sqlIn detached t : ChatTask B α) := by
  apply follows_transaction detached ?_ h
  rintro _ stmt _ _ ha d stmt ⟨⟩
  exact ha

theorem quiet_provider {α : Type} (t : CallTask B α) :
    Issues ChatQuiet (t.interp fun op => Task.call (S := chatSignature B) (.call op)) := by
  induction t with
  | done a => exact trivial
  | raise e => exact trivial
  | await op k ih =>
    intro r
    refine ⟨(),?_,?_⟩
    · intro d stmt h
      cases h
    cases r with
    | ok a => exact ih (.ok a)
    | error e => exact ih (.error e)

theorem quiet_yield (value : ChatStreamEvent) : GenIssues ChatQuiet (Gen.yield value : ChatGen B Unit) :=
  Issues.call fun _ h => nomatch h

theorem quiet_monotonic : Issues ChatQuiet (chatMonotonic : ChatTask B ℕ) := Issues.call fun _ _ h => nomatch h

theorem quiet_deliver (start : ℕ) (d : Delivery) (chunk : StreamChunk) :
    GenIssues ChatQuiet (deliver (B := B) start d chunk) := by
  have hattempt : ∀ value, GenIssues ChatQuiet (Gen.yield value : ChatGen B Unit).attempt :=
    fun value => (quiet_yield value).resume fun _ => trivial
  unfold deliver
  split
  · exact trivial
  · apply Issues.bind
    · unfold announce
      split
      · exact trivial
      · exact (Issues.ofBase quiet_monotonic).bind fun _ => hattempt _
    · intro announced
      cases announced with
      | error e => exact trivial
      | ok u => exact (hattempt _).bind fun _ => trivial

theorem quiet_providerLoop (start : ℕ) (chunks : CallGen B Unit) : GenIssues ChatQuiet (Turn.providerLoop start chunks) := by
  have hall : GenIssues (fun _ => True) chunks := by
    induction chunks with
    | done u => exact trivial
    | raise e => exact trivial
    | await op k ih => exact fun r => ⟨(),fun _ _ => trivial,ih r⟩
  unfold Turn.providerLoop
  refine (Follows.asyncFor hall ?_ ?_).mono fun _ _ _ => trivial
  · intro op _
    have hcall : GenIssues ChatQuiet (Gen.baseCall (B := chatSignature B) (.call op) : ChatGen B _) := by
      apply Issues.call
      rintro b ⟨⟩ d stmt h
      cases h
    exact hcall.mono fun _ _ _ => rfl
  · exact fun d chunk => (quiet_deliver start d chunk).mono fun _ _ _ => rfl

theorem answering_settled : Floor.answering.Settled := fun _ _ _ => rfl

theorem opening_settled : Floor.opening.Settled := fun _ _ _ => rfl

theorem speaks_persistPartial (id : Uuid) (parts : List Text) :
    Follows (ChatSpeaks request) (fun _ _ => True) (persistPartial id parts : ChatTask B Unit) .answering := by
  unfold persistPartial
  dsimp only
  split
  · exact trivial
  · refine Issues.after (q := fun _ _ => True) (p := ChatQuiet) chatSpeaks_quiet ?_ fun result => ?_
    · apply Follows.resume
      exact (speaks_sqlIn true (speaks_recordAssistantTurn id _)).mono fun _ _ _ => trivial
    · apply Issues.bind
      · apply Issues.resume
        · apply Issues.call
          intro d stmt h
          cases h
        · exact fun _ => trivial
      · intro waited
        cases suppressCancelled (waited >>= fun () => result) <;> exact trivial

theorem speaks_conclude (id : Uuid) (start : ℕ) (parts : List Text) (ended : Except Exc Unit) :
    Follows (ServerSpeaks request) (fun _ _ => True) (Turn.conclude (B := B) id start parts ended) .answering := by
  unfold Turn.conclude
  cases ended with
  | ok u =>
    apply Issues.after serverSpeaks_quiet (speaks_ofBase (speaks_sqlIn false (speaks_recordAssistantTurn id _)))
    intro message
    exact (Issues.ofBase quiet_monotonic).bind fun _ => quiet_yield _
  | error e =>
    dsimp only
    split
    · apply Issues.after serverSpeaks_quiet (speaks_ofBase (speaks_persistPartial id parts))
      exact fun _ => trivial
    · rename_i err _
      by_cases hk : err.kind = .provider
      · simp only [hk, if_true]
        apply Issues.after serverSpeaks_quiet (speaks_ofBase (speaks_persistPartial id parts))
        exact fun _ => quiet_yield _
      · simp only [hk, if_false]
        exact (quiet_yield _).anywhere serverSpeaks_quiet _
    · exact trivial

theorem speaks_stream (t : Turn B) (hid : request.conversationId = t.conversationId) (hc : request.content = some t.content) :
    Follows (ServerSpeaks request) (fun _ _ => True) t.stream .opening := by
  unfold Turn.stream
  apply Follows.bind
  apply speaks_ofBase
  apply Follows.resume
  rw [← hid]
  refine (speaks_sqlIn false (speaks_recordUserTurn t.settings hc)).mono fun r φ hφ => ?_
  cases r with
  | error e =>
    simp only [Follows]
    split
    · exact (quiet_yield _).anywhere serverSpeaks_quiet φ
    · exact trivial
  | ok result =>
    obtain ⟨c,m,window⟩ := result
    obtain rfl := hφ _ rfl
    change Follows (ServerSpeaks request) (fun _ _ => True) (t.respond c window) _
    unfold Turn.respond
    have hkeep : ∀ {α : Type} {gen : ChatGen B α}, GenIssues ChatQuiet gen →
        Follows (ServerSpeaks request) (fun _ φ => φ = .answering) gen .answering :=
      fun hq => hq.follows fun op r h => serverSpeaks_settled answering_settled op r h
    apply Follows.bind
    refine (hkeep (quiet_yield _)).mono fun r φ hφ => ?_
    subst hφ
    cases r with
    | error e => exact trivial
    | ok u =>
      apply Follows.bind
      refine (hkeep (Issues.ofBase quiet_monotonic)).mono fun r φ hφ => ?_
      subst hφ
      cases r with
      | error e => exact trivial
      | ok start =>
        apply Follows.bind
        refine (hkeep (quiet_providerLoop start _)).mono fun r φ hφ => ?_
        subst hφ
        cases r with
        | error e => exact trivial
        | ok d => exact speaks_conclude c.id start d.1.parts d.2

theorem speaks_send (t : Turn B) (hid : request.conversationId = t.conversationId) (hc : request.content = some t.content) :
    Follows (ChatSpeaks request) (fun _ _ => True) t.send .opening := by
  unfold Turn.send
  apply Follows.bind
  rw [← hid]
  refine (speaks_sqlIn false (speaks_recordUserTurn t.settings hc)).mono fun r φ hφ => ?_
  cases r with
  | error e => exact trivial
  | ok result =>
    obtain ⟨c,m,window⟩ := result
    obtain rfl := hφ _ rfl
    apply Follows.bind
    refine ((quiet_provider _).follows fun op r h => chatSpeaks_settled answering_settled op r h).mono fun r φ hφ => ?_
    subst hφ
    cases r with
    | error e => exact trivial
    | ok response =>
      apply Issues.after chatSpeaks_quiet (speaks_sqlIn false (speaks_recordAssistantTurn c.id response.text))
      exact fun _ => trivial

/-! ## The requests -/

theorem silent_call {op : ChatSql} (h : op.inserts = false) : Issues ChatSql.Silent (sql op) :=
  Issues.call h

theorem silent_session {α : Type} {body : SqlTask α} (h : Issues ChatSql.Silent body) :
    Issues ChatSql.Silent (chatSessionOps.session body) := by
  apply Issues.resume
  · apply Issues.resume
    · exact h.bind fun _ => (silent_call rfl).bind fun _ => trivial
    · intro r
      cases r with
      | ok a => exact trivial
      | error e =>
        dsimp only
        split
        · exact (silent_call rfl).bind fun _ => trivial
        · exact trivial
  · intro r
    apply (silent_call rfl).bind
    intro _
    cases r <;> exact trivial

theorem silent_require (id : Uuid) : Issues ChatSql.Silent (ConversationRepository.require id) := by
  apply (silent_call rfl).bind
  intro found
  cases found <;> exact trivial

theorem silent_delete (id : Uuid) : Issues ChatSql.Silent (ConversationRepository.delete id) := by
  have hloop : ∀ ms : List Message, Issues ChatSql.Silent
      (ms.foldlM (fun _ m => sql (.deleteMessage m.id)) () : SqlTask Unit) := by
    intro ms
    induction ms with
    | nil => exact trivial
    | cons m ms ih =>
      rw [List.foldlM_cons]
      exact (silent_call rfl).bind fun _ => ih
  apply (silent_require id).bind
  intro c
  exact (silent_call rfl).bind fun ms => (hloop ms).bind fun _ => silent_call rfl

theorem silent_prepare (conversationId : Option Uuid) : Issues ChatSql.Silent (prepare conversationId) := by
  cases conversationId with
  | none => exact trivial
  | some id => exact (silent_session (silent_require id)).bind fun _ => trivial

/-- Every request speaks in its turn. -/
theorem program_speaks (server : ChatServer) (request : ApiRequest B) :
    Follows (ServerSpeaks request) (fun _ _ => True) (server.program request) .opening := by
  cases request with
  | createConversation =>
    have hcreate : Issues ChatSql.Silent (sql (.createConversation none)) := silent_call rfl
    have hquiet := Issues.ofBase (Y := ChatStreamEvent) (quiet_sqlIn (B := B) false (silent_session hcreate))
    refine Issues.after serverSpeaks_quiet (hquiet.anywhere serverSpeaks_quiet _) ?_
    exact fun _ => trivial
  | deleteConversation id =>
    have hquiet := Issues.ofBase (Y := ChatStreamEvent) (quiet_sqlIn (B := B) false (silent_session (silent_delete id)))
    exact hquiet.anywhere serverSpeaks_quiet _
  | send adapter provider model conversationId content =>
    refine Issues.after serverSpeaks_quiet (speaks_ofBase
      (speaks_send ⟨server.settings,adapter,provider,model,conversationId,content⟩ rfl rfl)) ?_
    exact fun _ => trivial
  | stream adapter provider model conversationId content =>
    change Follows (ServerSpeaks _) _ (Turn.chatStream _) .opening
    unfold Turn.chatStream
    have hquiet := Issues.ofBase (Y := ChatStreamEvent) (quiet_sqlIn (B := B) false (silent_prepare conversationId))
    apply Follows.bind
    refine (hquiet.follows fun op r h => serverSpeaks_settled opening_settled op r h).mono fun r φ hφ => ?_
    subst hφ
    cases r with
    | error e => exact trivial
    | ok u => exact speaks_stream _ rfl rfl

end

end InferenceLogger
