import InferenceLogger.Conversations.Server
import InferenceLogger.Foundation.Typestate

/-! # The phases of a request's transactions

The statements a request issues, in the order the code issues them, for every way it can be
answered. Between two transactions a turn remembers where its user's message went.
-/
namespace InferenceLogger
open PyText PyJson AsyncTask

/-- The user's message of a turn, once committed, and the history read with it. -/
structure Home where
  conversation : Uuid
  content : Text
  message : Message
  history : List Message

/-- An append under way. A reply is appended where the user's message went. -/
structure Append where
  id : Uuid
  created : Option Conversation
  role : MessageRole
  content : Text
  home : Option Home

inductive ChatPhase where
  | idle (home : Option Home)
  | resolved (c : Conversation) (created : Bool)
  | locked (a : Append)
  | numbered (a : Append) (n : ℕ)
  | inserted (a : Append) (m : Message)
  | touched (a : Append) (m : Message)
  | titled (a : Append) (m : Message)
  | read (a : Append) (m : Message) (history : List Message)
  | listed (id : Uuid) (messages : List Message)
  | deleted (id : Uuid)
  | failing (home : Option Home)

namespace ChatPhase

def home : ChatPhase → Option Home
  | .idle home => home
  | .failing home => home
  | .locked a => a.home
  | .numbered a _ => a.home
  | .inserted a _ => a.home
  | .touched a _ => a.home
  | .titled a _ => a.home
  | .read a _ _ => a.home
  | _ => none

/-- A commit may come now, and the turn is then at home there. -/
def settles : ChatPhase → Option Home → Prop
  | .resolved _ _, home => home = none
  | .touched a _, home => a.home = home ∧ home ≠ none
  | .read a m history, home => home = some ⟨a.id,a.content,m,history⟩
  | .deleted _, home => home = none
  | _, _ => False

/-- Where an answer leads: on, or to the end of the transaction. -/
def after {α : Type} (r : Except Exc α) (home : Option Home) (next : α → ChatPhase) : ChatPhase :=
  match r with
  | .ok a => next a
  | .error _ => .failing home

/-- A conversation that was looked up. -/
def found : Option Conversation → ChatPhase
  | some c => .resolved c false
  | none => .failing none

end ChatPhase

open ChatPhase

inductive SqlAllows : Typestate chatSqlSignature Exc ChatPhase where
  | create (r) : SqlAllows (.idle none) (.createConversation none) r (after r none (.resolved · true))
  | get (id : Uuid) (r) : SqlAllows (.idle none) (.getConversation id) r (after r none found)
  | lock {c : Conversation} {created : Bool} (content : Text) (r) : SqlAllows (.resolved c created) (.lockConversation c.id) r
      (after r none fun _ => .locked ⟨c.id,if created then some c else none,.user,content,none⟩)
  | lockHome {h : Home} (content : Text) (r) : SqlAllows (.idle (some h)) (.lockConversation h.conversation) r
      (after r (some h) fun _ => .locked ⟨h.conversation,none,.assistant,content,some h⟩)
  | number {a : Append} (r) : SqlAllows (.locked a) (.nextSeq a.id) r (after r a.home (.numbered a))
  | insert {a : Append} {n : ℕ} (r) : SqlAllows (.numbered a n) (.insertMessage a.id a.role a.content n) r
      (after r a.home (.inserted a))
  | touch {a : Append} {m : Message} (r) : SqlAllows (.inserted a m) (.touch a.id) r
      (after r a.home fun _ => .touched a m)
  | title {a : Append} {m : Message} (r) : a.home = none →
      SqlAllows (.touched a m) (.setTitleIfNull a.id (ConversationRepository.titleOf a.content)) r
        (after r a.home fun _ => .titled a m)
  | read {a : Append} {m : Message} (r) : SqlAllows (.titled a m) (.messages a.id) r (after r a.home (.read a m))
  | list {c : Conversation} (r) : SqlAllows (.resolved c false) (.messages c.id) r (after r none (.listed c.id))
  | drop {id : Uuid} {ms : List Message} {m : Message} (r) : m ∈ ms →
      SqlAllows (.listed id ms) (.deleteMessage m.id) r (after r none fun _ => .listed id ms)
  | dropConversation {id : Uuid} {ms : List Message} (r) :
      SqlAllows (.listed id ms) (.deleteConversation id) r (after r none fun _ => .deleted id)
  | commit {φ : ChatPhase} {home : Option Home} (r) : φ.settles home →
      SqlAllows φ .commit r (after r φ.home fun _ => .idle home)
  | rollback (φ : ChatPhase) (r) : SqlAllows φ .rollback r (.failing φ.home)
  | close (φ : ChatPhase) (r) : SqlAllows φ .close r (.idle φ.home)

/-- With a transaction to commit, which leaves the turn at home so, or with an exception. -/
def Settling {α : Type} (Q : α → Option Home → Prop) : Except Exc α → ChatPhase → Prop
  | .ok a, φ => ∃ home, φ.settles home ∧ Q a home
  | .error _, _ => True

/-- With no transaction open. -/
def Resting {α : Type} (Q : α → Option Home → Prop) : Except Exc α → ChatPhase → Prop
  | .ok a, φ => ∃ home, φ = .idle home ∧ Q a home
  | .error _, φ => ∃ home, φ = .idle home

theorem follows_statement {α : Type} {Q : α → Option Home → Prop} {φ : ChatPhase} {stmt : ChatSql}
    {home : Option Home} {next : chatSqlSignature.Answer stmt → ChatPhase}
    {f : chatSqlSignature.Answer stmt → SqlTask α} (h : ∀ r, SqlAllows φ stmt r (after r home next))
    (hf : ∀ a, Follows SqlAllows (Settling Q) (f a) (next a)) : Follows SqlAllows (Settling Q) (sql stmt >>= f) φ := by
  intro r
  refine ⟨_,h r,?_⟩
  cases r with
  | ok a => exact hf a
  | error e => exact trivial

/-- A unit of work commits what its body has settled, and is closed. -/
theorem follows_session {α : Type} {Q : α → Option Home → Prop} {body : SqlTask α} {φ : ChatPhase}
    (h : Follows SqlAllows (Settling Q) body φ) : Follows SqlAllows (Resting Q) (chatSessionOps.session body) φ := by
  have hclose : ∀ {r : Except Exc α} {φ : ChatPhase}, (∀ a, r = .ok a → ∃ home, φ = .idle home ∧ Q a home) →
      Follows SqlAllows (Resting Q) (chatSessionOps.close >>= fun _ => Task.ofExcept r) φ := by
    intro r φ hr q
    refine ⟨_,.close φ q,?_⟩
    cases q with
    | error e => exact ⟨_,rfl⟩
    | ok u =>
      cases r with
      | error e => exact ⟨_,rfl⟩
      | ok a =>
        obtain ⟨home,rfl,hq⟩ := hr a rfl
        exact ⟨home,rfl,hq⟩
  have hcommitted : Follows SqlAllows (fun r φ => ∀ a, r = .ok a → ∃ home, φ = .idle home ∧ Q a home)
      (body >>= fun a => chatSessionOps.commit >>= fun _ => pure a) φ := by
    apply Follows.bind
    refine h.mono fun r φ hφ => ?_
    cases r with
    | error e => exact fun a ha => nomatch ha
    | ok a =>
      obtain ⟨home,hs,hq⟩ := hφ
      intro q
      refine ⟨_,.commit q hs,?_⟩
      cases q with
      | ok u => exact fun b hb => ⟨home,rfl,by cases hb; exact hq⟩
      | error e => exact fun b hb => nomatch hb
  apply Follows.resume
  apply Follows.resume
  refine hcommitted.mono fun r φ hφ => ?_
  cases r with
  | ok a => exact hclose hφ
  | error e =>
    dsimp only
    split
    · intro q
      refine ⟨_,.rollback φ q,?_⟩
      cases q with
      | ok u => exact hclose fun a ha => nomatch ha
      | error e => exact hclose fun a ha => nomatch ha
    · exact hclose fun a ha => nomatch ha

/-! ## The transactions -/

theorem follows_require {α : Type} {Q : α → Option Home → Prop} (id : Uuid) {f : Conversation → SqlTask α}
    (hf : ∀ c, Follows SqlAllows (Settling Q) (f c) (.resolved c false)) :
    Follows SqlAllows (Settling Q) (ConversationRepository.require id >>= f) (.idle none) := by
  unfold ConversationRepository.require
  rw [bind_assoc]
  apply follows_statement (fun r => .get id r)
  intro found
  cases found with
  | none => exact trivial
  | some c => exact hf c

theorem follows_append {α : Type} {Q : α → Option Home → Prop} {a : Append} {φ : ChatPhase} {f : Message → SqlTask α}
    (hl : ∀ r, SqlAllows φ (.lockConversation a.id) r (after r a.home fun _ => .locked a))
    (hf : ∀ m, Follows SqlAllows (Settling Q) (f m) (.touched a m)) :
    Follows SqlAllows (Settling Q) (ConversationRepository.appendMessage a.id a.role a.content >>= f) φ := by
  unfold ConversationRepository.appendMessage
  simp only [bind_assoc]
  apply follows_statement hl
  intro _
  apply follows_statement (fun r => .number r)
  intro n
  apply follows_statement (fun r => .insert r)
  intro m
  apply follows_statement (fun r => .touch r)
  intro _
  exact hf m

/-- What the first transaction returns is where the turn is then at home. -/
def Records (content : Text) (result : Conversation × Message × List Message) (home : Option Home) : Prop :=
  home = some ⟨result.1.id,content,result.2.1,result.2.2⟩

theorem follows_resolve {α : Type} {Q : α → Option Home → Prop} (conversationId : Option Uuid)
    {f : Conversation → SqlTask α} (hf : ∀ c created, Follows SqlAllows (Settling Q) (f c) (.resolved c created)) :
    Follows SqlAllows (Settling Q) (resolveConversation conversationId >>= f) (.idle none) := by
  cases conversationId with
  | none => exact follows_statement (fun r => .create r) fun c => hf c true
  | some id => exact follows_require id fun c => hf c false

theorem follows_userTurn (conversationId : Option Uuid) (content : Text) :
    Follows SqlAllows (Settling (Records content)) (userTurn conversationId content) (.idle none) := by
  unfold userTurn
  apply follows_resolve
  intro c created
  apply follows_append (a := ⟨c.id,if created then some c else none,.user,content,none⟩) (fun r => .lock content r)
  intro m
  unfold ConversationRepository.ensureTitle
  apply follows_statement (fun r => .title r rfl)
  intro _
  apply follows_statement (fun r => .read r)
  intro history
  exact ⟨_,rfl,rfl⟩

theorem follows_recordAssistantTurn (h : Home) (content : Text) :
    Follows SqlAllows (Resting fun _ home => home = some h) (recordAssistantTurn h.conversation content) (.idle (some h)) := by
  apply follows_session
  have happend := follows_append (Q := fun _ home => home = some h) (f := fun m => (pure m : SqlTask Message))
    (a := ⟨h.conversation,none,.assistant,content,some h⟩) (fun r => .lockHome content r)
    (fun m => ⟨some h,⟨rfl,by simp⟩,rfl⟩)
  rwa [bind_pure] at happend

theorem follows_createConversation : Follows SqlAllows (Resting fun _ _ => True) createConversation (.idle none) := by
  apply follows_session
  intro r
  refine ⟨_,.create r,?_⟩
  cases r with
  | ok c => exact ⟨none,rfl,trivial⟩
  | error e => exact trivial

theorem follows_deleteConversation (id : Uuid) :
    Follows SqlAllows (Resting fun _ _ => True) (deleteConversation id) (.idle none) := by
  apply follows_session
  apply follows_require
  intro c
  apply follows_statement (fun r => .list r)
  intro ms
  have hloop : ∀ items : List Message, items ⊆ ms → Follows SqlAllows
      (fun r φ => ∀ u, r = .ok u → φ = .listed c.id ms)
      (items.foldlM (fun _ m => sql (.deleteMessage m.id)) ()) (.listed c.id ms) := by
    intro items hsub
    induction items with
    | nil => exact fun _ _ => rfl
    | cons m items ih =>
      rw [List.foldlM_cons]
      intro r
      refine ⟨_,.drop r (hsub List.mem_cons_self),?_⟩
      cases r with
      | ok u => exact ih fun x hx => hsub (List.mem_cons_of_mem _ hx)
      | error e => exact fun u hu => nomatch hu
  apply Follows.bind
  refine (hloop ms fun x hx => hx).mono fun r φ hφ => ?_
  cases r with
  | error e => exact trivial
  | ok u =>
    rw [hφ u rfl]
    intro r
    refine ⟨_,.dropConversation r,?_⟩
    cases r with
    | ok v => exact ⟨none,rfl,trivial⟩
    | error e => exact trivial

theorem follows_prepare (conversationId : Option Uuid) :
    Follows SqlAllows (Resting fun _ home => home = none) (prepare conversationId) (.idle none) := by
  cases conversationId with
  | none => exact ⟨none,rfl,rfl⟩
  | some id =>
    have hrequire := follows_require (Q := fun (_ : Conversation) home => home = none) id
      (f := fun c => (pure c : SqlTask Conversation)) fun c => ⟨none,rfl,rfl⟩
    rw [bind_pure] at hrequire
    apply Follows.bind
    refine (follows_session hrequire).mono fun r φ hφ => ?_
    cases r with
    | error e => exact hφ
    | ok c => exact hφ

/-- The first transaction of a turn, and the window it cuts out of the history. -/
theorem follows_recordUserTurn (settings : ChatSettings) (conversationId : Option Uuid) (content : Text) :
    Follows SqlAllows (Resting fun result home => ∃ history, home = some ⟨result.1.id,content,result.2.1,history⟩ ∧
        result.2.2 = recentWindow history settings.maxHistoryMessages settings.maxHistoryChars)
      (recordUserTurn settings conversationId content) (.idle none) := by
  apply Follows.bind
  refine (follows_session (follows_userTurn conversationId content)).mono fun r φ hφ => ?_
  cases r with
  | error e => exact hφ
  | ok result =>
    obtain ⟨home,hidle,hhome⟩ := hφ
    exact ⟨home,hidle,result.2.2,hhome,rfl⟩

end InferenceLogger
