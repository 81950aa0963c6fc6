import InferenceLogger.Services.Chat

/-! # What the transactions of a turn commit

A run of a transaction is read through its trace: the messages it inserted count once its
commit has been answered. A cancellation that arrives while a commit takes effect is the
one that hits the close after it.
-/
namespace InferenceLogger
open PyText PyJson AsyncTask

abbrev SqlTrace := Trace chatSqlSignature Exc

structure NewMessage where
  conversationId : Uuid
  role : MessageRole
  content : Text
  deriving DecidableEq

/-- Messages inserted in the open transaction, and those committed. -/
structure Ledger where
  pending : List NewMessage := []
  committed : List NewMessage := []

def Ledger.record (l : Ledger) : Event chatSqlSignature Exc → Ledger
  | ⟨.insertMessage id role content _,.ok _⟩ => {l with pending := l.pending ++ [⟨id,role,content⟩]}
  | ⟨.commit,.ok _⟩ => {pending := [], committed := l.committed ++ l.pending}
  | ⟨.rollback,_⟩ => {l with pending := []}
  | ⟨.close,_⟩ => {l with pending := []}
  | _ => l

def ledger (tr : SqlTrace) : Ledger := tr.foldl Ledger.record {}

/-- The messages whose transaction has committed. -/
def committed (tr : SqlTrace) : List NewMessage := (ledger tr).committed

/-- A statement, or an end that does not commit. -/
def keepsCommitted : Event chatSqlSignature Exc → Prop
  | ⟨.commit,.ok _⟩ => False
  | _ => True

theorem record_committed {e : Event chatSqlSignature Exc} (h : keepsCommitted e) (l : Ledger) :
    (l.record e).committed = l.committed := by
  rcases e with ⟨op,r⟩
  cases op <;> cases r <;> first | rfl | exact h.elim

theorem foldl_record_committed {tr : SqlTrace} (h : ∀ e ∈ tr, keepsCommitted e) (l : Ledger) :
    (tr.foldl Ledger.record l).committed = l.committed := by
  induction tr generalizing l with
  | nil => rfl
  | cons e tr ih =>
    rw [List.foldl_cons, ih (fun e he => h e (List.mem_cons_of_mem _ he)),
      record_committed (h e List.mem_cons_self)]

/-- From a closed session to a closed session, with these messages committed in between. -/
def Settles (tr : SqlTrace) (new : List NewMessage) : Prop :=
  ∀ before, tr.foldl Ledger.record {committed := before} = {committed := before ++ new}

theorem settles_nil : Settles [] [] := by
  intro before
  simp

theorem Settles.append {tr₁ tr₂ : SqlTrace} {new₁ new₂ : List NewMessage} (h₁ : Settles tr₁ new₁)
    (h₂ : Settles tr₂ new₂) : Settles (tr₁ ++ tr₂) (new₁ ++ new₂) := by
  intro before
  rw [List.foldl_append, h₁ before, h₂ (before ++ new₁), List.append_assoc]

theorem Settles.committed_eq {tr : SqlTrace} {new : List NewMessage} (h : Settles tr new) :
    committed tr = new := by
  unfold committed ledger
  rw [h []]
  rfl

/-- Whatever was inserted before a close without a commit is gone. -/
theorem settles_uncommitted {tr : SqlTrace} {r : Except Exc Unit} (h : ∀ e ∈ tr, keepsCommitted e) :
    Settles (tr ++ [⟨.close,r⟩]) [] := by
  intro before
  rw [List.foldl_append, List.append_nil]
  have hc := foldl_record_committed h {committed := before}
  cases hl : tr.foldl Ledger.record {committed := before} with
  | mk pending committed =>
    rw [hl] at hc
    simp only at hc
    subst hc
    rfl

/-! ## Sessions -/

def chatSqlEvent {B : Signature} (detached : Bool) (e : Event chatSqlSignature Exc) : Event (chatSignature B) Exc :=
  ⟨.sql detached e.op,e.answer⟩

/-- A transaction of a turn runs as it runs alone. -/
theorem sqlIn_iff {B : Signature} {α : Type} {detached : Bool} {t : SqlTask α} {tr : Trace (chatSignature B) Exc}
    {out : Except Exc α} {allowed : (op : ChatOp B) → Except Exc ((chatSignature B).Answer op) → Prop} :
    Run allowed (sqlIn detached t) tr out ↔ ∃ st : SqlTrace, tr = st.map (chatSqlEvent detached) ∧
      Run (fun op r => allowed (.sql detached op) r) t st out :=
  Run.interp_iff fun _ _ _ => Run.call_iff

theorem chatSessionOps_plain : chatSessionOps.Plain where
  commit := candid_call _
  rollback := candid_call _
  rollback_ok := faultless_call _
  close := candid_call _
  close_ok := faultless_call _

/-- A statement of a transaction's body. -/
def isStatement : ChatSql → Prop
  | .commit => False
  | .rollback => False
  | .close => False
  | _ => True

theorem keepsCommitted_of_statement {e : Event chatSqlSignature Exc} (h : isStatement e.op) :
    keepsCommitted e := by
  rcases e with ⟨op,r⟩
  cases op <;> trivial

section
variable {allowed : (op : ChatSql) → Except Exc (chatSqlSignature.Answer op) → Prop}

/-- Every await of the session but the close was answered: its commit is in. -/
def Landed (tr : SqlTrace) : Prop := ∀ e ∈ tr, e.op ≠ .close → ∃ a, e.answer = .ok a

theorem landed_of_smooth {tr : SqlTrace} (h : Smooth tr) : Landed tr := fun e he _ => h e he

/-- A session commits, or is left with an exception and commits nothing: its body raised, or
one of its awaits before the close failed. -/
theorem session_settles {α : Type} {body : SqlTask α} {tr : SqlTrace} {out : Except Exc α}
    (hb : Awaits isStatement body)
    (h : Run allowed (chatSessionOps.session body) tr out) :
    (∃ tb a r, tr = tb ++ [⟨.commit,.ok ()⟩,⟨.close,r⟩] ∧ Run allowed body tb (.ok a) ∧
        out = r.map fun _ => a) ∨
      (Settles tr [] ∧ ∃ y, out = .error y ∧
        (Landed tr → ∃ tb rest x, tr = tb ++ rest ∧ Run allowed body tb (.error x) ∧
          (Smooth rest → y = x))) := by
  have hstatements : ∀ {tb r}, Run allowed body tb r → ∀ e ∈ tb, keepsCommitted e :=
    fun hr e he => keepsCommitted_of_statement (hb _ _ _ hr e he)
  have hrollback : ∀ {tr}, (tr = [] ∨ ∃ q, Run allowed chatSessionOps.rollback tr q) →
      ∀ e ∈ tr, keepsCommitted e := by
    rintro tr (rfl | ⟨q,hq⟩)
    · simp
    · obtain ⟨rfl,-⟩ := Run.call_iff.mp hq
      intro e he
      rw [List.mem_singleton.mp he]
      trivial
  cases SessionOps.session_run chatSessionOps_plain h with
  | committed hbody hc hl =>
    obtain ⟨rfl,-⟩ := Run.call_iff.mp hc
    obtain ⟨rfl,-⟩ := Run.call_iff.mp hl
    exact .inl ⟨_,_,_,by simp,hbody,rfl⟩
  | @commitFailed tb tc tr' tl a x y r hbody hc hr hl =>
    obtain ⟨rfl,-⟩ := Run.call_iff.mp hc
    obtain ⟨rfl,-⟩ := Run.call_iff.mp hl
    refine .inr ⟨settles_uncommitted ?_,_,rfl,?_⟩
    · intro e he
      rcases List.mem_append.mp he with he | he
      · rcases List.mem_append.mp he with he | he
        · exact hstatements hbody e he
        · rw [List.mem_singleton.mp he]
          trivial
      · exact hrollback hr e he
    · intro hland
      obtain ⟨u,hu⟩ := hland ⟨.commit,.error x⟩ (by simp) (by simp)
      cases hu
  | bodyFailed hbody hr hl hy =>
    obtain ⟨rfl,-⟩ := Run.call_iff.mp hl
    refine .inr ⟨settles_uncommitted ?_,_,rfl,fun _ => ⟨_,_,_,List.append_assoc _ _ _,hbody,hy⟩⟩
    intro e he
    rcases List.mem_append.mp he with he | he
    · exact hstatements hbody e he
    · exact hrollback hr e he

/-! ## Appending a message -/

theorem awaits_sql {p : ChatSql → Prop} {stmt : ChatSql} (h : p stmt) : Awaits p (sql stmt) := awaits_call h

theorem appendMessage_awaits (id : Uuid) (role : MessageRole) (content : Text) :
    Awaits isStatement (ConversationRepository.appendMessage id role content) := by
  unfold ConversationRepository.appendMessage
  refine (awaits_sql (by trivial)).bind fun _ => (awaits_sql (by trivial)).bind fun _ => ?_
  exact (awaits_sql (by trivial)).bind fun _ => (awaits_sql (by trivial)).bind fun _ => awaits_done _

theorem appendMessage_candid (id : Uuid) (role : MessageRole) (content : Text) :
    Candid (ConversationRepository.appendMessage id role content) := by
  unfold ConversationRepository.appendMessage
  refine (candid_call _).bind fun _ => (candid_call _).bind fun _ => ?_
  exact (candid_call _).bind fun _ => (candid_call _).bind fun _ => candid_done _

theorem appendMessage_smooth {id : Uuid} {role : MessageRole} {content : Text} {tr : SqlTrace}
    {out : Except Exc Message}
    (h : Run allowed (ConversationRepository.appendMessage id role content) tr out) (hs : Smooth tr) :
    ∃ seq m, tr = [⟨.lockConversation id,.ok ()⟩,⟨.nextSeq id,.ok seq⟩,
      ⟨.insertMessage id role content seq,.ok m⟩,⟨.touch id,.ok ()⟩] ∧ out = .ok m := by
  unfold ConversationRepository.appendMessage at h
  obtain ⟨_,rest,rfl,h,hs⟩ := Run.call_bind_smooth h hs
  obtain ⟨seq,rest,rfl,h,hs⟩ := Run.call_bind_smooth h hs
  obtain ⟨m,rest,rfl,h,hs⟩ := Run.call_bind_smooth h hs
  obtain ⟨_,rest,rfl,h,hs⟩ := Run.call_bind_smooth h hs
  obtain ⟨rfl,rfl⟩ := Run.done_iff.mp h
  exact ⟨seq,m,rfl,rfl⟩

theorem recordAssistantTurn_candid (id : Uuid) (content : Text) : Candid (recordAssistantTurn id content) :=
  SessionOps.candid_session chatSessionOps_plain (appendMessage_candid _ _ _)

/-- The reply's transaction commits one message or none, and one exactly when it landed. -/
theorem recordAssistantTurn_settles {id : Uuid} {content : Text} {tr : SqlTrace} {out : Except Exc Message}
    (h : Run allowed (recordAssistantTurn id content) tr out) :
    (Landed tr ∧ Settles tr [⟨id,.assistant,content⟩]) ∨
      (¬ Landed tr ∧ Settles tr [] ∧ ∃ y, out = .error y) := by
  rcases session_settles (appendMessage_awaits _ _ _) h with ⟨tb,a,r,rfl,hb,rfl⟩ | ⟨hs,y,hout,hland⟩
  · rcases appendMessage_candid _ _ _ _ _ _ hb with hs | ⟨e,-,x,-,hx⟩
    · obtain ⟨seq,m,rfl,-⟩ := appendMessage_smooth hb hs
      refine .inl ⟨?_,fun before => rfl⟩
      intro e he hne
      simp only [List.cons_append, List.nil_append, List.mem_cons, List.not_mem_nil, or_false] at he
      rcases he with rfl | rfl | rfl | rfl | rfl | rfl
      · exact ⟨_,rfl⟩
      · exact ⟨_,rfl⟩
      · exact ⟨_,rfl⟩
      · exact ⟨_,rfl⟩
      · exact ⟨_,rfl⟩
      · exact absurd rfl hne
    · cases hx
  · refine .inr ⟨?_,hs,y,hout⟩
    intro hl
    obtain ⟨tb,rest,x,rfl,hb,-⟩ := hland hl
    rcases appendMessage_candid _ _ _ _ _ _ hb with hs | hf
    · obtain ⟨seq,m,-,ho⟩ := appendMessage_smooth hb hs
      cases ho
    · obtain ⟨e,he,x,hx,-⟩ := hf
      have hne : e.op ≠ .close := by
        intro hop
        have := appendMessage_awaits _ _ _ _ _ _ hb e he
        rw [hop] at this
        exact this
      obtain ⟨a,ha⟩ := hl e (List.mem_append_left _ he) hne
      rw [hx] at ha
      cases ha

theorem recordAssistantTurn_smooth {id : Uuid} {content : Text} {tr : SqlTrace} {out : Except Exc Message}
    (h : Run allowed (recordAssistantTurn id content) tr out) (hs : Smooth tr) : ∃ m, out = .ok m := by
  rcases session_settles (appendMessage_awaits _ _ _) h with ⟨tb,a,r,rfl,-,rfl⟩ | ⟨-,y,-,hland⟩
  · obtain ⟨u,rfl⟩ : ∃ u, r = .ok u := hs ⟨.close,r⟩ (by simp)
    exact ⟨a,rfl⟩
  · obtain ⟨tb,rest,x,rfl,hb,-⟩ := hland fun e he _ => hs e he
    obtain ⟨seq,m,-,hx⟩ := appendMessage_smooth hb (smooth_append.mp hs).1
    cases hx

/-! ## The user's turn -/

def conversationAnswer : Event chatSqlSignature Exc → Option Conversation
  | ⟨.createConversation _,.ok c⟩ => some c
  | ⟨.getConversation _,.ok c⟩ => c
  | _ => none

/-- The conversations a transaction created or found. -/
def conversations (tr : SqlTrace) : List Conversation := tr.filterMap conversationAnswer

def historyAnswer : Event chatSqlSignature Exc → Option (List Message)
  | ⟨.messages _,.ok ms⟩ => some ms
  | _ => none

/-- The transcripts a transaction read. -/
def histories (tr : SqlTrace) : List (List Message) := tr.filterMap historyAnswer

/-- A conversation was looked up and is not there. -/
def Missing (tr : SqlTrace) : Prop := ∃ id, ⟨.getConversation id,.ok none⟩ ∈ tr

def notFound : Exc :=
  .own (.appError {kind := .notFound, message := text "Conversation not found", errorType := none})

theorem require_candid (id : Uuid) : Candid (ConversationRepository.require id) := by
  refine (candid_call _).bind fun c => ?_
  cases c with
  | none => exact candid_raise _
  | some c => exact candid_done c

theorem require_awaits (id : Uuid) : Awaits isStatement (ConversationRepository.require id) := by
  refine (awaits_sql (by trivial)).bind fun c => ?_
  cases c with
  | none => exact awaits_raise _
  | some c => exact awaits_done c

theorem resolveConversation_candid (conversationId : Option Uuid) :
    Candid (resolveConversation conversationId) := by
  cases conversationId with
  | none => exact candid_call _
  | some id => exact require_candid id

theorem resolveConversation_awaits (conversationId : Option Uuid) :
    Awaits isStatement (resolveConversation conversationId) := by
  cases conversationId with
  | none => exact awaits_sql (by trivial)
  | some id => exact require_awaits id

theorem userTurn_candid (conversationId : Option Uuid) (content : Text) :
    Candid (userTurn conversationId content) :=
  (resolveConversation_candid _).bind fun _ => (appendMessage_candid _ _ _).bind fun _ =>
    (candid_call _).bind fun _ => (candid_call _).bind fun _ => candid_done _

theorem userTurn_awaits (conversationId : Option Uuid) (content : Text) :
    Awaits isStatement (userTurn conversationId content) :=
  (resolveConversation_awaits _).bind fun _ => (appendMessage_awaits _ _ _).bind fun _ =>
    (awaits_sql (by trivial)).bind fun _ => (awaits_sql (by trivial)).bind fun _ => awaits_done _

theorem resolveConversation_smooth {conversationId : Option Uuid} {tr : SqlTrace} {out}
    (h : Run allowed (resolveConversation conversationId) tr out) (hs : Smooth tr) :
    (Missing tr ∧ out = .error notFound) ∨ ∃ c, conversations tr = [c] ∧ histories tr = [] ∧
      Settles tr [] ∧ ¬ Missing tr ∧ out = .ok c := by
  cases conversationId with
  | none =>
    obtain ⟨rfl,-⟩ := Run.call_iff.mp h
    obtain ⟨c,rfl⟩ : ∃ c : Conversation, out = .ok c := hs _ (List.mem_singleton_self _)
    exact .inr ⟨c,rfl,rfl,fun _ => by simp [Ledger.record],by simp [Missing],rfl⟩
  | some id =>
    obtain ⟨found,rest,rfl,h,hs⟩ := Run.call_bind_smooth h hs
    cases found with
    | none =>
      obtain ⟨rfl,rfl⟩ := Run.raise_iff.mp h
      exact .inl ⟨⟨id,List.mem_singleton_self _⟩,rfl⟩
    | some c =>
      obtain ⟨rfl,rfl⟩ := Run.done_iff.mp h
      exact .inr ⟨c,rfl,rfl,fun _ => by simp [Ledger.record],by simp [Missing],rfl⟩

/-- The statements after the conversation is known, when nothing fails. -/
def turnStatements (c : Conversation) (content : Text) (seq : ℕ) (m : Message) (history : List Message) : SqlTrace :=
  [⟨.lockConversation c.id,.ok ()⟩,⟨.nextSeq c.id,.ok seq⟩,⟨.insertMessage c.id .user content seq,.ok m⟩,
   ⟨.touch c.id,.ok ()⟩,⟨.setTitleIfNull c.id (ConversationRepository.titleOf content),.ok ()⟩,
   ⟨.messages c.id,.ok history⟩]

theorem userTurn_smooth {conversationId : Option Uuid} {content : Text} {tr : SqlTrace} {out}
    (h : Run allowed (userTurn conversationId content) tr out) (hs : Smooth tr) :
    (Missing tr ∧ out = .error notFound) ∨
      ∃ tr₁ c seq m history, tr = tr₁ ++ turnStatements c content seq m history ∧ conversations tr₁ = [c] ∧
        histories tr₁ = [] ∧ Settles tr₁ [] ∧ ¬ Missing tr₁ ∧ out = .ok (c,m,history) := by
  rcases Run.bind_iff.mp h with ⟨tr₁,c,tr₂,rfl,h₁,h⟩ | ⟨x,rfl,h₁⟩
  · obtain ⟨hs₁,hs⟩ := smooth_append.mp hs
    rcases resolveConversation_smooth h₁ hs₁ with ⟨-,hc⟩ | ⟨c',hconv,hhist,hset,hmiss,hc⟩
    · cases hc
    · cases hc
      rcases Run.bind_iff.mp h with ⟨tr₂,m,tr₃,rfl,h₂,h₃⟩ | ⟨x,rfl,h₂⟩
      · obtain ⟨hs₂,hs₃⟩ := smooth_append.mp hs
        obtain ⟨seq,m',rfl,hm⟩ := appendMessage_smooth h₂ hs₂
        cases hm
        obtain ⟨_,rest,rfl,h₄,hs₄⟩ := Run.call_bind_smooth h₃ hs₃
        obtain ⟨history,rest,rfl,h₅,hs₅⟩ := Run.call_bind_smooth h₄ hs₄
        obtain ⟨rfl,rfl⟩ := Run.done_iff.mp h₅
        exact .inr ⟨tr₁,c,seq,m,history,rfl,hconv,hhist,hset,hmiss,rfl⟩
      · obtain ⟨seq,m,-,hm⟩ := appendMessage_smooth h₂ hs
        cases hm
  · rcases resolveConversation_smooth h₁ hs with ⟨hmiss,hx⟩ | ⟨c,-,-,-,-,hx⟩
    · cases hx
      exact .inl ⟨hmiss,rfl⟩
    · cases hx

/-- What a run of the first transaction amounts to. -/
structure UserTurnRun (settings : ChatSettings) (content : Text) (tr : SqlTrace) (c : Conversation)
    (m : Message) (window history : List Message) : Prop where
  smooth : Smooth tr
  conversations : conversations tr = [c]
  histories : histories tr = [history]
  settles : Settles tr [⟨c.id,.user,content⟩]
  found : ¬ Missing tr
  window : window = recentWindow history settings.maxHistoryMessages settings.maxHistoryChars

theorem userTurnSession_candid (conversationId : Option Uuid) (content : Text) :
    Candid (chatSessionOps.session (userTurn conversationId content)) :=
  SessionOps.candid_session chatSessionOps_plain (userTurn_candid _ _)

theorem Missing.append {tr : SqlTrace} (h : Missing tr) (rest : SqlTrace) : Missing (tr ++ rest) := by
  obtain ⟨id,hid⟩ := h
  exact ⟨id,List.mem_append_left _ hid⟩

/-- The first transaction returns what it committed, finds no conversation, or fails with one of
its statements; a message of the user's is all it can commit. -/
theorem recordUserTurn_run {settings : ChatSettings} {conversationId : Option Uuid} {content : Text}
    {tr : SqlTrace} {out} (h : Run allowed (recordUserTurn settings conversationId content) tr out) :
    ((∃ c m window history, UserTurnRun settings content tr c m window history ∧ out = .ok (c,m,window)) ∨
      (Smooth tr ∧ Missing tr ∧ out = .error notFound) ∨ Failed tr out) ∧
    ∃ new, Settles tr new ∧ ∀ m ∈ new, m.role = .user := by
  have hsession : ∃ out', Run allowed (chatSessionOps.session (userTurn conversationId content)) tr out' ∧
      out = out'.map fun r => (r.1,r.2.1,recentWindow r.2.2 settings.maxHistoryMessages settings.maxHistoryChars) := by
    rcases Run.bind_iff.mp h with ⟨tr₁,⟨c,m,history⟩,tr₂,rfl,h₁,h₂⟩ | ⟨x,rfl,h₁⟩
    · obtain ⟨rfl,rfl⟩ := Run.done_iff.mp h₂
      exact ⟨_,by simpa using h₁,rfl⟩
    · exact ⟨_,h₁,rfl⟩
  obtain ⟨out',hrun,rfl⟩ := hsession
  have hsettles := session_settles (userTurn_awaits conversationId content) hrun
  have hcommitted : ∀ {tb a r}, Run allowed (userTurn conversationId content) tb (.ok a) →
      ∃ tr₁ c seq m history, tb = tr₁ ++ turnStatements c content seq m history ∧ conversations tr₁ = [c] ∧
        histories tr₁ = [] ∧ Settles tr₁ [] ∧ ¬ Missing tr₁ ∧ a = (c,m,history) ∧
        Settles (tb ++ [⟨.commit,.ok ()⟩,⟨.close,r⟩]) [⟨c.id,.user,content⟩] := by
    intro tb a r hb
    rcases userTurn_candid _ _ _ _ _ hb with hs | ⟨e,-,x,-,hx⟩
    · rcases userTurn_smooth hb hs with ⟨-,hx⟩ | ⟨tr₁,c,seq,m,history,rfl,hc,hh,hset,hmiss,ha⟩
      · cases hx
      · cases ha
        refine ⟨tr₁,c,seq,m,history,rfl,hc,hh,hset,hmiss,rfl,?_⟩
        rw [List.append_assoc]
        have hrest : Settles (turnStatements c content seq m history ++ [⟨.commit,.ok ()⟩,⟨.close,r⟩])
            [⟨c.id,.user,content⟩] := fun before => rfl
        simpa using hset.append hrest
    · cases hx
  constructor
  · rcases userTurnSession_candid _ _ _ _ _ hrun with hs | ⟨e,he,x,hx,rfl⟩
    · rcases hsettles with ⟨tb,a,r,rfl,hb,rfl⟩ | ⟨-,y,rfl,hland⟩
      · obtain ⟨tr₁,c,seq,m,history,rfl,hc,hh,hset,hmiss,rfl,hsettle⟩ := hcommitted (r := r) hb
        obtain ⟨u,rfl⟩ : ∃ u, r = .ok u := hs ⟨.close,r⟩ (by simp)
        refine .inl ⟨c,m,_,history,⟨hs,?_,?_,hsettle,?_,rfl⟩,rfl⟩
        · unfold conversations at hc ⊢
          rw [List.append_assoc, List.filterMap_append, hc]
          rfl
        · unfold histories at hh ⊢
          rw [List.append_assoc, List.filterMap_append, hh]
          rfl
        · rintro ⟨id,hid⟩
          simp [turnStatements] at hid
          exact hmiss ⟨id,hid⟩
      · obtain ⟨tb,rest,x,rfl,hb,hy⟩ := hland fun e he _ => hs e he
        obtain ⟨hs₁,hs₂⟩ := smooth_append.mp hs
        rcases userTurn_smooth hb hs₁ with ⟨hmiss,hx⟩ | ⟨tr₁,c,seq,m,history,-,-,-,-,-,hx⟩
        · cases hx
          rw [hy hs₂]
          exact .inr (.inl ⟨hs,hmiss.append rest,rfl⟩)
        · cases hx
    · exact .inr (.inr ⟨e,he,x,hx,rfl⟩)
  · rcases hsettles with ⟨tb,a,r,rfl,hb,rfl⟩ | ⟨hset,-⟩
    · obtain ⟨tr₁,c,seq,m,history,rfl,-,-,-,-,-,hsettle⟩ := hcommitted (r := r) hb
      exact ⟨_,hsettle,by simp⟩
    · exact ⟨[],hset,by simp⟩

end
end InferenceLogger
