import InferenceLogger.Db.Models
import InferenceLogger.Db.Session
import InferenceLogger.Instrumentation.Wrapper

/-! # Chat orchestration

A streamed turn: the user's message in a first transaction, the provider call in none, the
reply in a second one, and the partial reply saved in a task of its own when the call is
interrupted.
-/
namespace InferenceLogger
open PyText PyJson AsyncTask

/-! ## The conversation repository -/

inductive ChatSql where
  | createConversation (title : Option Text)
  | getConversation (id : Uuid)
  | lockConversation (id : Uuid)
  | nextSeq (id : Uuid)
  | insertMessage (conversationId : Uuid) (role : MessageRole) (content : Text) (seq : ℕ)
  | touch (id : Uuid)
  | setTitleIfNull (id : Uuid) (title : Text)
  | messages (id : Uuid)
  | deleteMessage (id : Uuid)
  | deleteConversation (id : Uuid)
  | commit
  | rollback
  | close

@[reducible] def chatSqlSignature : Signature where
  Op := ChatSql
  Answer
    | .createConversation _ => Conversation
    | .getConversation _ => Option Conversation
    | .nextSeq _ => ℕ
    | .insertMessage _ _ _ _ => Message
    | .messages _ => List Message
    | _ => Unit

abbrev SqlTask := Task chatSqlSignature Exc

def sql (stmt : ChatSql) : SqlTask (chatSqlSignature.Answer stmt) := Task.call (S := chatSqlSignature) stmt

def chatSessionOps : SessionOps chatSqlSignature where
  commit := sql .commit
  rollback := sql .rollback
  close := sql .close

namespace ConversationRepository

def require (id : Uuid) : SqlTask Conversation := do
  match ← sql (.getConversation id) with
  | some conversation => return conversation
  | none => throw (.own (.appError {kind := .notFound, message := text "Conversation not found", errorType := none}))

/-- The row lock, the next number, the insert, and the conversation's new time. -/
def appendMessage (id : Uuid) (role : MessageRole) (content : Text) : SqlTask Message := do
  sql (.lockConversation id)
  let seq ← sql (.nextSeq id)
  let message ← sql (.insertMessage id role content seq)
  sql (.touch id)
  return message

/-- `source.strip().replace("\n", " ")[:60] or "New conversation"`. -/
def titleOf (source : Text) : Text :=
  let title := ((strip source).map fun c => if c.val = 0x0a then 0x20 else c).take 60
  if title = [] then text "New conversation" else title

def ensureTitle (id : Uuid) (source : Text) : SqlTask Unit := sql (.setTitleIfNull id (titleOf source))

end ConversationRepository

/-! ## The two transactions of a turn -/

/-- The loop of `recent_window` over the messages, newest first. -/
def keepWithin : ℤ → List Message → List Message → List Message
  | _, kept, [] => kept
  | budget, kept, m :: older =>
    if kept = [] ∨ 0 ≤ budget - m.content.length then
      keepWithin (budget - m.content.length) (m :: kept) older
    else kept

def recentWindow (history : List Message) (maxMessages : ℕ) (maxChars : ℤ) : List Message :=
  keepWithin maxChars [] (history.drop (history.length - maxMessages)).reverse

structure ChatSettings where
  maxHistoryMessages : ℕ
  maxHistoryChars : ℤ
  maxOutputTokens : ℤ
  redactor : Redactor

/-- A new conversation, or the one the request names. -/
def resolveConversation : Option Uuid → SqlTask Conversation
  | none => sql (.createConversation none)
  | some id => ConversationRepository.require id

/-- The statements of the first transaction. -/
def userTurn (conversationId : Option Uuid) (content : Text) :
    SqlTask (Conversation × Message × List Message) := do
  let conversation ← resolveConversation conversationId
  let userMessage ← ConversationRepository.appendMessage conversation.id .user content
  ConversationRepository.ensureTitle conversation.id content
  let history ← sql (.messages conversation.id)
  return (conversation,userMessage,history)

/-- `_record_user_turn`. -/
def recordUserTurn (settings : ChatSettings) (conversationId : Option Uuid) (content : Text) :
    SqlTask (Conversation × Message × List Message) := do
  let (conversation,userMessage,history) ← chatSessionOps.session (userTurn conversationId content)
  return (conversation,userMessage,recentWindow history settings.maxHistoryMessages settings.maxHistoryChars)

/-- `_record_assistant_turn`. -/
def recordAssistantTurn (conversationId : Uuid) (content : Text) : SqlTask Message :=
  chatSessionOps.session (ConversationRepository.appendMessage conversationId .assistant content)

/-! ## The streamed turn -/

inductive ChatStreamEvent where
  | started (conversationId : Uuid) (provider model : Text)
  | firstToken (ttftMs : ℤ)
  | delta (text : Text)
  | completed (messageId : Uuid) (latencyMs : ℤ)
  | failed (code message : Text)

/-- Statements run in the turn's own task or in the detached one that saves a partial reply;
`awaitShield` is the shielded await of that task. -/
inductive ChatOp (B : Signature) where
  | call (op : CallOp B)
  | sql (detached : Bool) (stmt : ChatSql)
  | awaitShield
  | monotonic

@[reducible] def chatSignature (B : Signature) : Signature where
  Op := ChatOp B
  Answer
    | .call op => (callSignature B).Answer op
    | .sql _ stmt => chatSqlSignature.Answer stmt
    | .awaitShield => Unit
    | .monotonic => ℕ

section Turn
variable {B : Signature}

abbrev ChatTask (B : Signature) := Task (chatSignature B) Exc

abbrev ChatGen (B : Signature) := Gen (chatSignature B) ChatStreamEvent Exc

def sqlIn (detached : Bool) {α : Type} (t : SqlTask α) : ChatTask B α :=
  t.interp fun stmt => Task.call (S := chatSignature B) (.sql detached stmt)

def chatMonotonic : ChatTask B ℕ := Task.call (S := chatSignature B) .monotonic

/-- `with contextlib.suppress(asyncio.CancelledError)`, around a block that ended in `result`. -/
def suppressCancelled {α : Type} : Except Exc α → Except Exc Unit
  | .ok _ => .ok ()
  | .error e => if e.isCancelled then .ok () else .error e

/-- `_persist_partial`. The task goes on when the await of it is cancelled; how the task ended
comes back only to an await that was not. Either cancellation is suppressed. -/
def persistPartial (conversationId : Uuid) (parts : List Text) : ChatTask B Unit :=
  let saved := strip parts.flatten
  if saved = [] then return ()
  else do
    let result ← (sqlIn true (recordAssistantTurn conversationId saved) : ChatTask B Message).attempt
    let waited ← (Task.call (S := chatSignature B) .awaitShield).attempt
    Task.ofExcept (suppressCancelled (waited >>= fun () => result))

structure Delivery where
  firstTokenSeen : Bool := false
  parts : List Text := []

/-- The first token is announced, with its timing, before its text. -/
def announce (start : ℕ) (d : Delivery) : ChatGen B (Except Exc Unit) :=
  if d.firstTokenSeen then return .ok ()
  else do
    let stop ← (chatMonotonic : ChatTask B ℕ)
    (Gen.yield (B := chatSignature B) (ChatStreamEvent.firstToken (elapsedMs start stop))).attempt

/-- The loop body. The text counts as delivered once its own `yield` is reached. -/
def deliver (start : ℕ) (d : Delivery) (chunk : StreamChunk) : ChatGen B (Delivery × Except Exc Unit) :=
  if chunk.deltaText = [] then return (d,.ok ())
  else do
    match ← announce start d with
    | .error e => return ({d with firstTokenSeen := true},.error e)
    | .ok () =>
      let resumed ← (Gen.yield (B := chatSignature B) (ChatStreamEvent.delta chunk.deltaText)).attempt
      return ({firstTokenSeen := true, parts := d.parts ++ [chunk.deltaText]},resumed)

/-- A turn whose provider and model have been resolved, as `prepare` has checked. -/
structure Turn (B : Signature) where
  settings : ChatSettings
  adapter : BaseProvider B
  provider : Text
  model : Text
  conversationId : Option Uuid
  content : Text

namespace Turn
variable (t : Turn B)

def request (history : List Message) : ChatRequest where
  messages := history.map fun m => {role := m.role, content := m.content}
  model := t.model
  maxOutputTokens := t.adapter.clampOutputTokens t.settings.maxOutputTokens

def instrumentation (conversationId : Uuid) : Instrumentation where
  redactor := t.settings.redactor
  conversationId := some conversationId
  streamed := true

/-- The loop over the instrumented provider's chunks. -/
def providerLoop (start : ℕ) (chunks : CallGen B Unit) : ChatGen B (Delivery × Except Exc Unit) :=
  asyncFor (S := genSignature (chatSignature B) ChatStreamEvent)
    (fun op => Gen.baseCall (B := chatSignature B) (.call op)) chunks {} (deliver start)

/-- What follows the loop, by the way it was left. -/
def conclude (conversationId : Uuid) (start : ℕ) (parts : List Text) : Except Exc Unit → ChatGen B Unit
  | .ok () => do
    let message ← (sqlIn false (recordAssistantTurn conversationId parts.flatten) : ChatTask B Message)
    let stop ← (chatMonotonic : ChatTask B ℕ)
    Gen.yield (B := chatSignature B) (.completed message.id (elapsedMs start stop))
  | .error e =>
    match e.cls with
    | .cancelledError => do
      (persistPartial conversationId parts : ChatTask B Unit)
      throw e
    | .appError err => do
      if err.kind = .provider then
        (persistPartial conversationId parts : ChatTask B Unit)
      Gen.yield (B := chatSignature B) (.failed err.code err.message)
    | _ => throw e

/-- The turn once the user's message is committed. -/
def respond (conversation : Conversation) (history : List Message) : ChatGen B Unit := do
  Gen.yield (B := chatSignature B) (.started conversation.id t.provider t.model)
  let start ← (chatMonotonic : ChatTask B ℕ)
  let (d,ended) ← providerLoop start
    ((t.instrumentation conversation.id).streamChat t.adapter (t.request history))
  conclude conversation.id start d.parts ended

/-- `StreamingChatService.stream`. -/
def stream : ChatGen B Unit := do
  let recorded ← (sqlIn false (recordUserTurn t.settings t.conversationId t.content) :
    ChatTask B (Conversation × Message × List Message)).attempt
  match recorded with
  | .error e => match e.cls with
    | .appError err => Gen.yield (B := chatSignature B) (.failed err.code err.message)
    | _ => throw e
  | .ok (conversation,_,history) => t.respond conversation history

end Turn
end Turn
end InferenceLogger
