import InferenceLogger.Conversations.Statements
import InferenceLogger.Foundation.Alone
import InferenceLogger.Observation.Transparency
import InferenceLogger.Services.Transactions

/-! # What a turn leaves behind

A turn that is not streamed, alone with the database: its transactions commit or they do not,
and what they commit is the user's message and then the reply.
-/
namespace InferenceLogger
open PyText PyJson AsyncTask KeyedTable RelyGuarantee

namespace Db
variable {before after : Db} {c c' : Conversation} {m : Message}

/-- One message more, in a conversation whose row is now this one; nothing else has changed. -/
structure Says (before after : Db) (c : Conversation) (m : Message) : Prop where
  row : after.conversations.get c.id = some c
  others : ∀ k, k ≠ c.id → after.conversations.get k = before.conversations.get k
  messages : after.messages.rows = before.messages.rows ++ [(m.id,m)]
  home : m.conversationId = c.id
  number : m.seq = before.nextSeq c.id
  logs : after.inferenceLogs = before.inferenceLogs
  raw : after.eventsRaw = before.eventsRaw

theorem spoken_insert (hc : before.conversations.get c.id = some c) (hm : before.messages.get m.id = none)
    (hid : m.conversationId = c.id) (hseq : m.seq = before.nextSeq c.id) :
    before.Says (before.applyChat (.insert m)) c m where
  row := hc
  others := fun _ _ => rfl
  messages := Table.rows_insertNew hm m
  home := hid
  number := hseq
  logs := rfl
  raw := rfl

theorem Says.touched (h : before.Says after c m) (now : ℤ) :
    before.Says (after.applyChat (.touch c.id now)) {c with updatedAt := now} m where
  row := by simp [applyChat,Table.get_updateAt,h.row]
  others := by
    intro k hk
    simp only [applyChat, Table.get_updateAt]
    rw [if_neg hk]
    exact h.others k hk
  messages := h.messages
  home := h.home
  number := h.number
  logs := h.logs
  raw := h.raw

theorem Says.titled (h : before.Says after c m) (title : Text) :
    before.Says (after.applyChat (.title c.id title)) {c with title := some title} m where
  row := by simp [applyChat,Table.get_updateAt,h.row]
  others := by
    intro k hk
    simp only [applyChat, Table.get_updateAt]
    rw [if_neg hk]
    exact h.others k hk
  messages := h.messages
  home := h.home
  number := h.number
  logs := h.logs
  raw := h.raw

theorem Says.created (h : (before.applyChat (.create c')).Says after c m) (hid : c.id = c'.id) : before.Says after c m where
  row := h.row
  others := by
    intro k hk
    rw [h.others k hk]
    simp [applyChat,Table.get_insertNew,hid ▸ hk]
  messages := h.messages
  home := h.home
  number := h.number
  logs := h.logs
  raw := h.raw

/-- The user's message, in a new conversation or the one the request names, titled after it if it
had no title. -/
structure Asked (before after : Db) (conversationId : Option Uuid) (content : Text) (c : Conversation) (m : Message) :
    Prop where
  spoken : before.Says after c m
  role : m.role = .user
  opened : conversationId = none →
    before.conversations.get c.id = none ∧ c.title = some (ConversationRepository.titleOf content)
  resumed : ∀ id, conversationId = some id → c.id = id ∧ ∃ old, before.conversations.get id = some old ∧
    c = {old with title := some (old.title.getD (ConversationRepository.titleOf content)), updatedAt := c.updatedAt}
  content : m.content = content

/-- The reply, in the conversation of the turn. -/
structure Answered (before after : Db) (c : Conversation) (output : Text) (m : Message) : Prop where
  spoken : ∃ now, before.Says after {c with updatedAt := now} m
  role : m.role = .assistant
  content : m.content = output

end Db

/-! ## The statements of a transaction -/

namespace ChatStore
variable {pg : Postgres} {i : ℕ} {s s₁ s₂ : ChatStore} {ws ws' : List ChatWrite}

/-- Statements that leave these writes pending. -/
structure Wrote (i : ℕ) (s s' : ChatStore) (ws : List ChatWrite) : Prop where
  db : s'.db = s.db
  own : s'.own i = s.own i ++ ws
  known : s.knownMessages ⊆ s'.knownMessages

theorem Wrote.refl (i : ℕ) (s : ChatStore) : Wrote i s s [] := ⟨rfl,by simp,fun _ h => h⟩

theorem Wrote.trans (h : Wrote i s s₁ ws) (h' : Wrote i s₁ s₂ ws') : Wrote i s s₂ (ws ++ ws') where
  db := h'.db.trans h.db
  own := by rw [h'.own, h.own, List.append_assoc]
  known := fun _ hk => h'.known (h.known hk)

theorem Wrote.view (h : Wrote i s s₁ ws) : s₁.view i = (s.view i).applyChats ws := by
  unfold ChatStore.view
  rw [h.db, h.own]
  exact List.foldl_append

theorem wrote_row (s : ChatStore) (mode : LockMode) (id : Uuid) (w : ChatWrite) :
    Wrote i s ((s.lock i mode id).push i w) [w] := ⟨rfl,own_push_self w,fun _ h => h⟩

/-- The writes of one message. -/
structure Appends (i : ℕ) (s s' : ChatStore) (id : Uuid) (role : MessageRole) (content : Text) (m : Message) : Prop where
  wrote : ∃ now, Wrote i s s' [.insert m,.touch id now]
  new : m.id ∉ s.knownMessages
  drawn : m.id ∈ s'.knownMessages
  home : m.conversationId = id
  role : m.role = role
  content : m.content = content
  number : m.seq = (s.view i).nextSeq id
  has : (s.view i).conversations.has id = true

theorem append_executes {id : Uuid} {role : MessageRole} {content : Text} {seq : ℕ} {m : Message}
    (h : Executes (chatExec pg) i s [⟨.lockConversation id,.ok ()⟩,⟨.nextSeq id,.ok seq⟩,
      ⟨.insertMessage id role content seq,.ok m⟩,⟨.touch id,.ok ()⟩] s₁) : Appends i s s₁ id role content m := by
  obtain ⟨_,sl,hl,h⟩ := Executes.cons_iff.mp h
  obtain ⟨_,sn,hn,h⟩ := Executes.cons_iff.mp h
  obtain ⟨_,si,hi,h⟩ := Executes.cons_iff.mp h
  obtain ⟨_,st,ht,h⟩ := Executes.cons_iff.mp h
  rw [Executes.nil_iff.mp h]
  have hlocked : Wrote i s sl [] ∧ sl.knownMessages = s.knownMessages := by
    cases chatExec_performs (by simp) hl with
    | unlocked => exact ⟨.refl i s,rfl⟩
    | locked => exact ⟨⟨rfl,by simp [own,lock],fun _ h => h⟩,rfl⟩
  have hview : sl.view i = s.view i := hlocked.1.view
  cases chatExec_performs (by simp) hn with
  | numbered =>
    cases chatExec_performs (by simp) hi with
    | inserted m _ hnew hhome hrole hcontent hseq hhas _ =>
      have hinserted : Wrote i sl {(sl.lock i .keyShare id).push i (.insert m) with
          knownMessages := m.id :: sl.knownMessages} [.insert m] :=
        ⟨rfl,own_push_self _,fun _ h => List.mem_cons_of_mem _ h⟩
      have hstill : ∀ db : Db, (db.applyChats [.insert m]).conversations = db.conversations := fun _ => rfl
      cases chatExec_performs (by simp) ht with
      | touchedNone hnone =>
        rw [hinserted.view, hstill, hhas] at hnone
        cases hnone
      | touched now _ _ _ =>
        refine ⟨⟨now,(hlocked.1.trans hinserted).trans (wrote_row _ _ _ _)⟩,hlocked.2 ▸ hnew,List.mem_cons_self,hhome,hrole,
          hcontent,?_,?_⟩
        · rw [hseq, hview]
        · rw [← hview]
          exact hhas

/-- A session of its own to come, over rows under their own ids and with every id remembered. -/
structure AtRest (i : ℕ) (s : ChatStore) : Prop where
  own : s.own i = []
  conversationKey : ∀ k c, s.db.conversations.get k = some c → c.id = k
  knownConversations : ∀ k, s.db.conversations.has k = true → k ∈ s.knownConversations
  knownMessages : ∀ k, s.db.messages.has k = true → k ∈ s.knownMessages

theorem Inv.atRest (hs : s.Inv) (hown : s.own i = []) : s.AtRest i where
  own := hown
  conversationKey := hs.conversationKey
  knownConversations := fun k hk => (hs.settled k hk).known
  knownMessages := fun k hk => (hs.settledMessage k hk).known

theorem AtRest.view (h : s.AtRest i) : s.view i = s.db := by
  unfold ChatStore.view
  rw [h.own]
  rfl

theorem get_of_has {K V : Type} [DecidableEq K] {t : Table K V} {k : K} {known : List K}
    (h : ∀ k, t.has k = true → k ∈ known) (hk : k ∉ known) : t.get k = none := by
  cases hg : t.get k with
  | none => rfl
  | some v => exact absurd (h k (Table.has_iff.mpr ⟨v,hg⟩)) hk

section
variable {allowed : (op : ChatSql) → Except Exc (chatSqlSignature.Answer op) → Prop}

/-- The conversation of the turn is created, or it is there. -/
inductive Resolved (i : ℕ) (s s' : ChatStore) (c : Conversation) : Option Uuid → Prop where
  | opened : s.db.conversations.get c.id = none → c.title = none → s'.view i = s.db.applyChat (.create c) →
      Resolved i s s' c none
  | resumed : s.db.conversations.get c.id = some c → s'.view i = s.db → Resolved i s s' c (some c.id)

theorem resolve_executes {conversationId : Option Uuid} {tr : SqlTrace} {c : Conversation}
    (h : Run allowed (resolveConversation conversationId) tr (.ok c)) (hs : Smooth tr)
    (hex : Executes (chatExec pg) i s tr s₁) (hrest : s.AtRest i) :
    Resolved i s s₁ c conversationId ∧ s₁.db = s.db ∧ s₁.knownMessages = s.knownMessages := by
  cases conversationId with
  | none =>
    obtain ⟨rfl,-⟩ := Run.call_iff.mp h
    obtain ⟨_,_,hc,hex⟩ := Executes.cons_iff.mp hex
    rw [Executes.nil_iff.mp hex]
    cases chatExec_performs (by simp) hc with
    | created _ _ hnew htitle =>
      have hwrote : Wrote i s {s.push i (.create c) with knownConversations := c.id :: s.knownConversations} [.create c] :=
        ⟨rfl,own_push_self _,fun _ h => h⟩
      refine ⟨.opened (get_of_has hrest.knownConversations hnew) htitle ?_,rfl,rfl⟩
      rw [hwrote.view, hrest.view]
      rfl
  | some id =>
    obtain ⟨found,rest,rfl,h,hs⟩ := Run.call_bind_smooth h hs
    obtain ⟨_,_,hc,hend⟩ := Executes.cons_iff.mp hex
    cases found with
    | none => cases (Run.raise_iff.mp h).2
    | some old =>
      obtain ⟨rfl,hout⟩ := Run.done_iff.mp h
      cases hout
      rw [Executes.nil_iff.mp hend]
      generalize hr : Except.ok (some c) = r at hc
      cases chatExec_performs (by simp) hc with
      | got =>
        injection hr with hr
        rw [hrest.view] at hr
        have hid := hrest.conversationKey id c hr.symm
        subst hid
        exact ⟨.resumed hr.symm hrest.view,rfl,rfl⟩
      | _ => cases hr

/-- The row the user's message leaves, with the title it gives to a conversation that has none. -/
def headed (c : Conversation) (content : Text) (now : ℤ) : Conversation :=
  {c with title := some (c.title.getD (ConversationRepository.titleOf content)), updatedAt := now}

theorem title_executes {before : Db} {c : Conversation} {m : Message} {content : Text} {now : ℤ}
    (h : before.Says (s.view i) {c with updatedAt := now} m)
    (hex : Executes (chatExec pg) i s [⟨.setTitleIfNull c.id (ConversationRepository.titleOf content),.ok ()⟩] s₁) :
    before.Says (s₁.view i) (headed c content now) m ∧ s₁.db = s.db ∧ s₁.knownMessages = s.knownMessages ∧
      (s₁.view i).messages = (s.view i).messages := by
  obtain ⟨_,st,ht,hex⟩ := Executes.cons_iff.mp hex
  rw [Executes.nil_iff.mp hex]
  have hrow := h.row
  cases chatExec_performs (by simp) ht with
  | untitled htitle =>
    rw [hrow] at htitle
    cases hc : c.title with
    | none => simp [hc] at htitle
    | some title =>
      have hsame : headed c content now = {c with updatedAt := now} := by
        simp [headed,hc]
      exact ⟨hsame ▸ h,rfl,rfl,rfl⟩
  | titled _ htitle _ =>
    rw [hrow] at htitle
    have hnone : c.title = none := by simpa using htitle
    have hview := (wrote_row (i := i) s .noKeyUpdate c.id (.title c.id (ConversationRepository.titleOf content))).view
    refine ⟨?_,rfl,rfl,by rw [hview]; rfl⟩
    rw [hview]
    have htitled := h.titled (ConversationRepository.titleOf content)
    unfold headed
    rw [hnone]
    exact htitled

/-- What an append makes of the rows it finds. -/
theorem Appends.spoken {id : Uuid} {role : MessageRole} {content : Text} {m : Message} {c : Conversation}
    (h : Appends i s s₁ id role content m) (hc : (s.view i).conversations.get id = some c) (hid : c.id = id)
    (hknown : ∀ k, (s.view i).messages.has k = true → k ∈ s.knownMessages) :
    (∃ now, (s.view i).Says (s₁.view i) {c with updatedAt := now} m) ∧
      ∀ k, (s₁.view i).messages.has k = true → k ∈ s₁.knownMessages := by
  subst hid
  obtain ⟨now,hwrote⟩ := h.wrote
  have hview := hwrote.view
  constructor
  · refine ⟨now,?_⟩
    rw [hview]
    exact (Db.spoken_insert hc (get_of_has hknown h.new) h.home h.number).touched now
  · intro k hk
    rw [hview] at hk
    rcases (Table.has_insertNew _ _ _ _).mp hk with hk | rfl
    · exact hwrote.known (hknown k hk)
    · exact h.drawn

/-- The statements of the first transaction, when all of them go through. -/
theorem userTurn_executes {conversationId : Option Uuid} {content : Text} {tr : SqlTrace} {c : Conversation}
    {m : Message} {history : List Message} (h : Run allowed (userTurn conversationId content) tr (.ok (c,m,history)))
    (hs : Smooth tr) (hex : Executes (chatExec pg) i s tr s₁) (hrest : s.AtRest i) :
    ∃ now, s.db.Asked (s₁.view i) conversationId content (headed c content now) m ∧
      history = (s₁.view i).transcript c.id ∧ s₁.db = s.db ∧
      ∀ k, (s₁.view i).messages.has k = true → k ∈ s₁.knownMessages := by
  rcases Run.bind_iff.mp h with ⟨tr₁,c',tr₂,rfl,h₁,h₂⟩ | ⟨x,hx,-⟩
  swap
  · cases hx
  obtain ⟨hs₁,hs₂⟩ := smooth_append.mp hs
  obtain ⟨sr,hex₁,hex₂⟩ := Executes.append_iff.mp hex
  obtain ⟨hres,hdb₁,hk₁⟩ := resolve_executes h₁ hs₁ hex₁ hrest
  rcases Run.bind_iff.mp h₂ with ⟨tr₃,m',tr₄,rfl,h₃,h₄⟩ | ⟨x,hx,-⟩
  swap
  · cases hx
  obtain ⟨hs₃,hs₄⟩ := smooth_append.mp hs₂
  obtain ⟨seq,_,rfl,hm⟩ := appendMessage_smooth h₃ hs₃
  cases hm
  obtain ⟨_,rest,rfl,h₅,hs₅⟩ := Run.call_bind_smooth h₄ hs₄
  obtain ⟨history',rest,rfl,h₆,hs₆⟩ := Run.call_bind_smooth h₅ hs₅
  obtain ⟨rfl,hout⟩ := Run.done_iff.mp h₆
  cases hout
  obtain ⟨sa,hexa,hex₂⟩ := Executes.append_iff.mp hex₂
  obtain ⟨_,st,ht,hex₂⟩ := Executes.cons_iff.mp hex₂
  obtain ⟨_,se,he,hex₂⟩ := Executes.cons_iff.mp hex₂
  rw [Executes.nil_iff.mp hex₂]
  have happ := append_executes hexa
  have hrow : (sr.view i).conversations.get c.id = some c := by
    cases hres with
    | opened hnone _ hview =>
      rw [hview]
      simp [Db.applyChat,Table.get_insertNew,hnone]
    | resumed hsome hview =>
      rw [hview]
      exact hsome
  have hmessages : (sr.view i).messages = s.db.messages := by
    cases hres with
    | opened _ _ hview => rw [hview]; rfl
    | resumed _ hview => rw [hview]
  obtain ⟨⟨now,hspoken⟩,hknown⟩ := happ.spoken hrow rfl (by
    intro k hk
    rw [hmessages] at hk
    rw [hk₁]
    exact hrest.knownMessages k hk)
  obtain ⟨hheaded,hdb₂,hk₂,hsame⟩ := title_executes hspoken (.cons _ ht (.nil st))
  cases chatExec_performs (by simp) he with
  | read =>
    have hsaid : s.db.Says (st.view i) (headed c content now) m := by
      cases hres with
      | opened _ _ hview =>
        have hopened : (s.db.applyChat (.create c)).Says (st.view i) (headed c content now) m := hview ▸ hheaded
        exact hopened.created rfl
      | resumed _ hview => exact hview ▸ hheaded
    refine ⟨now,⟨hsaid,happ.role,?_,?_,happ.content⟩,rfl,?_,?_⟩
    · rintro rfl
      cases hres with
      | opened hnone htitle _ =>
        refine ⟨hnone,?_⟩
        simp [headed,htitle]
    · rintro id rfl
      cases hres with
      | resumed hsome _ => exact ⟨rfl,c,hsome,rfl⟩
    · obtain ⟨_,hwrote⟩ := happ.wrote
      rw [hdb₂, hwrote.db, hdb₁]
    · intro k hk
      rw [hsame] at hk
      rw [hk₂]
      exact hknown k hk

/-! ## Units of work -/

/-- Every end of a session was answered. -/
def Acknowledged (tr : SqlTrace) : Prop := ∀ e ∈ tr, ¬ isStatement e.op → ∃ a, e.answer = .ok a

theorem close_executes {r : Except Exc Unit} (h : Executes (chatExec pg) i s [⟨.close,r⟩] s₁) : s₁ = s.forget i := by
  obtain ⟨choice,s₂,hc,hend⟩ := Executes.cons_iff.mp h
  rw [Executes.nil_iff.mp hend]
  unfold chatExec at hc
  split at hc <;> cases hc <;> rfl

theorem commit_executes {r : Except Exc Unit} (h : Executes (chatExec pg) i s [⟨.commit,r⟩] s₁) :
    s₁ = s.commit i ∨ s₁.db = s.db ∧ ∃ x, r = .error x := by
  obtain ⟨choice,s₂,hc,hend⟩ := Executes.cons_iff.mp h
  rw [Executes.nil_iff.mp hend]
  unfold chatExec at hc
  split at hc
  · cases hc
    exact .inl rfl
  · cases hc
    exact .inr ⟨rfl,_,rfl⟩
  · cases hc
    exact .inl rfl

theorem executes_quiet {tr : SqlTrace} (h : Executes (chatExec pg) i s tr s₁) (hne : ∀ e ∈ tr, e.op ≠ .commit) :
    s₁.db = s.db ∧ s.knownMessages ⊆ s₁.knownMessages := by
  refine h.keeps (I := fun s' => s'.db = s.db ∧ s.knownMessages ⊆ s'.knownMessages) ?_ ⟨rfl,fun _ h => h⟩
  rintro e he s₁ s₂ c hc ⟨hdb,hk⟩
  have hquiet := (chatExec_performs (hne e he) hc).quiet
  exact ⟨hquiet.db.trans hdb,fun _ h => hquiet.messages (hk h)⟩

/-- The body of a session has gone through and its writes are committed. -/
structure Commits {α : Type} (pg : Postgres) (i : ℕ) (s s' : ChatStore)
    (body : SqlTask α) (a : α) : Prop where
  body : ∃ tr s₁, Run Whatever body tr (.ok a) ∧ Smooth tr ∧ Executes (chatExec pg) i s tr s₁ ∧
    s'.db = s₁.view i ∧ s₁.knownMessages ⊆ s'.knownMessages

/-- A session commits what its body wrote, or changes nothing and raises. After a commit only one
of its own ends can raise. -/
theorem session_executes {α : Type} {body : SqlTask α} {tr : SqlTrace} {out : Except Exc α}
    (hb : Awaits isStatement body) (hc : Candid body) (h : Run allowed (chatSessionOps.session body) tr out)
    (hex : Executes (chatExec pg) i s tr s₁) :
    (s₁.own i = [] ∧ ((∃ a, Commits pg i s s₁ body a ∧ (out = .ok a ∨ (∃ x, out = .error x) ∧ ¬ Acknowledged tr)) ∨
      s₁.db = s.db ∧ ∃ x, out = .error x)) := by
  have hstatements : ∀ {tb r}, Run allowed body tb r → ∀ e ∈ tb, e.op ≠ .commit := by
    intro tb r hrun e he hop
    have hst := hb _ _ _ hrun e he
    rw [hop] at hst
    exact hst
  have hrollback : ∀ {tr}, (tr = [] ∨ ∃ q, Run allowed chatSessionOps.rollback tr q) → ∀ e ∈ tr, e.op ≠ .commit := by
    rintro tr (rfl | ⟨q,hq⟩)
    · simp
    · obtain ⟨rfl,-⟩ := Run.call_iff.mp hq
      intro e he
      rw [List.mem_singleton.mp he]
      simp
  cases SessionOps.session_run chatSessionOps_plain h with
  | @committed tb tc tl a r hbody hcommit hclose =>
    obtain ⟨rfl,-⟩ := Run.call_iff.mp hcommit
    obtain ⟨rfl,-⟩ := Run.call_iff.mp hclose
    obtain ⟨s₃,hex,hex₄⟩ := Executes.append_iff.mp hex
    obtain ⟨s₂,hex₂,hex₃⟩ := Executes.append_iff.mp hex
    rw [close_executes hex₄]
    rcases commit_executes hex₃ with rfl | ⟨-,x,hx⟩
    · refine ⟨own_forget_self,.inl ⟨a,⟨tb,s₂,hbody.mono fun _ _ _ => trivial,hc.smooth hbody,hex₂,rfl,fun _ h => h⟩,?_⟩⟩
      cases r with
      | ok u => exact .inl rfl
      | error x =>
        refine .inr ⟨⟨x,rfl⟩,fun hack => ?_⟩
        obtain ⟨u,hu⟩ := hack ⟨.close,.error x⟩ (by simp) (fun h => h)
        cases hu
    · cases hx
  | @commitFailed tb tc tr' tl a x y r hbody hcommit hroll hclose =>
    obtain ⟨rfl,-⟩ := Run.call_iff.mp hcommit
    obtain ⟨rfl,-⟩ := Run.call_iff.mp hclose
    obtain ⟨s₄,hex,hex₅⟩ := Executes.append_iff.mp hex
    obtain ⟨s₃,hex,hex₄⟩ := Executes.append_iff.mp hex
    obtain ⟨s₂,hex₂,hex₃⟩ := Executes.append_iff.mp hex
    rw [close_executes hex₅]
    obtain ⟨hdb₂,-⟩ := executes_quiet hex₂ (hstatements hbody)
    obtain ⟨hdb₄,hk₄⟩ := executes_quiet hex₄ (hrollback hroll)
    refine ⟨own_forget_self,?_⟩
    rcases commit_executes hex₃ with rfl | ⟨hdb₃,-⟩
    · refine .inl ⟨a,⟨tb,s₂,hbody.mono fun _ _ _ => trivial,hc.smooth hbody,hex₂,hdb₄,hk₄⟩,.inr ⟨⟨y,rfl⟩,fun hack => ?_⟩⟩
      obtain ⟨u,hu⟩ := hack ⟨.commit,.error x⟩ (by simp) (fun h => h)
      cases hu
    · exact .inr ⟨hdb₄.trans (hdb₃.trans hdb₂),y,rfl⟩
  | bodyFailed hbody hroll hclose _ =>
    obtain ⟨rfl,-⟩ := Run.call_iff.mp hclose
    obtain ⟨s₃,hex,hex₄⟩ := Executes.append_iff.mp hex
    obtain ⟨s₂,hex₂,hex₃⟩ := Executes.append_iff.mp hex
    rw [close_executes hex₄]
    refine ⟨own_forget_self,.inr ⟨?_,_,rfl⟩⟩
    exact (executes_quiet hex₃ (hrollback hroll)).1.trans (executes_quiet hex₂ (hstatements hbody)).1

/-! ## The two transactions of a turn -/

theorem recordUserTurn_candid (settings : ChatSettings) (conversationId : Option Uuid) (content : Text) :
    Candid (recordUserTurn settings conversationId content) :=
  (userTurnSession_candid conversationId content).bind fun _ => candid_done _

/-- The first transaction has asked, or nothing has changed. -/
theorem recordUserTurn_executes {settings : ChatSettings} {conversationId : Option Uuid} {content : Text}
    {tr : SqlTrace} {out : Except Exc (Conversation × Message × List Message)}
    (h : Run allowed (recordUserTurn settings conversationId content) tr out)
    (hex : Executes (chatExec pg) i s tr s₁) (hrest : s.AtRest i) :
    s₁.own i = [] ∧ ((∃ c now m, s.db.Asked s₁.db conversationId content (headed c content now) m ∧
        (∀ k, s₁.db.messages.has k = true → k ∈ s₁.knownMessages) ∧
        (out = .ok (c,m,recentWindow (s₁.db.transcript c.id) settings.maxHistoryMessages settings.maxHistoryChars) ∨
          (∃ x, out = .error x) ∧ ¬ Acknowledged tr)) ∨
      s₁.db = s.db ∧ ∃ x, out = .error x) := by
  have hcommitted : ∀ {a}, Commits pg i s s₁ (userTurn conversationId content) a →
      ∃ now, s.db.Asked s₁.db conversationId content (headed a.1 content now) a.2.1 ∧
        (∀ k, s₁.db.messages.has k = true → k ∈ s₁.knownMessages) ∧ a.2.2 = s₁.db.transcript a.1.id := by
    rintro ⟨c,m,history⟩ ⟨tb,s₂,hbody,hs,hexb,hdb,hk⟩
    obtain ⟨now,hasked,hhistory,-,hknown⟩ := userTurn_executes hbody hs hexb hrest
    rw [← hdb] at hasked hhistory hknown
    exact ⟨now,hasked,fun k hmem => hk (hknown k hmem),hhistory⟩
  rcases Run.bind_iff.mp h with ⟨tr₁,⟨c,m,history⟩,tr₂,rfl,h₁,h₂⟩ | ⟨x,rfl,h₁⟩
  · obtain ⟨rfl,rfl⟩ := Run.done_iff.mp h₂
    rw [List.append_nil] at hex
    obtain ⟨hown,⟨a,hc,hout | ⟨⟨x,hx⟩,-⟩⟩ | ⟨-,x,hx⟩⟩ :=
      session_executes (userTurn_awaits conversationId content) (userTurn_candid _ _) h₁ hex
    · cases hout
      obtain ⟨now,hasked,hknown,hhistory⟩ := hcommitted hc
      refine ⟨hown,.inl ⟨c,now,m,hasked,hknown,.inl ?_⟩⟩
      simp only at hhistory
      rw [hhistory]
    · cases hx
    · cases hx
  · obtain ⟨hown,⟨a,hc,hout | ⟨-,hack⟩⟩ | ⟨hdb,-⟩⟩ :=
      session_executes (userTurn_awaits conversationId content) (userTurn_candid _ _) h₁ hex
    · cases hout
    · obtain ⟨now,hasked,hknown,-⟩ := hcommitted hc
      exact ⟨hown,.inl ⟨a.1,now,a.2.1,hasked,hknown,.inr ⟨⟨x,rfl⟩,hack⟩⟩⟩
    · exact ⟨hown,.inr ⟨hdb,x,rfl⟩⟩

/-- The second transaction has answered, or nothing has changed. -/
theorem recordAssistantTurn_executes {c : Conversation} {content : Text} {tr : SqlTrace} {out : Except Exc Message}
    (h : Run allowed (recordAssistantTurn c.id content) tr out) (hex : Executes (chatExec pg) i s tr s₁)
    (hown : s.own i = []) (hknown : ∀ k, s.db.messages.has k = true → k ∈ s.knownMessages)
    (hrow : s.db.conversations.get c.id = some c) :
    (∃ m, s.db.Answered s₁.db c content m ∧ (out = .ok m ∨ (∃ x, out = .error x) ∧ ¬ Acknowledged tr)) ∨
      s₁.db = s.db ∧ ∃ x, out = .error x := by
  have hview : s.view i = s.db := by
    unfold ChatStore.view
    rw [hown]
    rfl
  obtain ⟨-,⟨m,⟨tb,s₂,hbody,hs,hexb,hdb,-⟩,hout⟩ | hsame⟩ :=
    session_executes (appendMessage_awaits _ _ _) (appendMessage_candid _ _ _) h hex
  · obtain ⟨seq,_,rfl,hm⟩ := appendMessage_smooth hbody hs
    cases hm
    have happ := append_executes hexb
    obtain ⟨⟨now,hspoken⟩,-⟩ := happ.spoken (hview ▸ hrow) rfl (hview ▸ hknown)
    rw [hview, ← hdb] at hspoken
    exact .inl ⟨m,⟨⟨now,hspoken⟩,happ.role,happ.content⟩,hout⟩
  · exact .inr hsame

end
end ChatStore
end InferenceLogger
