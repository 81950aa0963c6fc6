import InferenceLogger.Providers.Registry
import InferenceLogger.Services.Chat

/-! # The other requests on conversations

Creating and deleting a conversation, the check before a stream starts, and the turn that
is not streamed.
-/
namespace InferenceLogger
open PyText PyJson AsyncTask

namespace ConversationRepository

/-- `delete`: the object is loaded with its messages, and the flush of the unit of work
deletes those first. -/
def delete (id : Uuid) : SqlTask Unit := do
  let conversation ← require id
  let messages ← sql (.messages conversation.id)
  messages.foldlM (fun _ m => sql (.deleteMessage m.id)) ()
  sql (.deleteConversation conversation.id)

end ConversationRepository

/-- `POST /conversations`. -/
def createConversation : SqlTask Conversation := chatSessionOps.session (sql (.createConversation none))

/-- `DELETE /conversations/{id}`. -/
def deleteConversation (id : Uuid) : SqlTask Unit := chatSessionOps.session (ConversationRepository.delete id)

/-- `StreamingChatService.prepare`, once the model is resolved. -/
def prepare : Option Uuid → SqlTask Unit
  | none => return ()
  | some id => do
    let _ ← chatSessionOps.session (ConversationRepository.require id)
    return ()

structure ChatResult where
  conversation : Conversation
  userMessage : Message
  assistantMessage : Message
  provider : Text
  model : Text

section Turn
variable {B : Signature}

/-- What follows the resolution in `ChatService.send`, whose provider call is not streamed. -/
def Turn.send (t : Turn B) : ChatTask B ChatResult := do
  let (conversation,userMessage,history) ←
    (sqlIn false (recordUserTurn t.settings t.conversationId t.content) : ChatTask B _)
  let instrumented := ({t.instrumentation conversation.id with streamed := false} : Instrumentation).provider t.adapter
  let response ← (BaseProvider.complete instrumented (t.request history)).interp
    fun op => Task.call (S := chatSignature B) (.call op)
  let assistantMessage ← (sqlIn false (recordAssistantTurn conversation.id response.text) : ChatTask B _)
  return {
    conversation := conversation
    userMessage := userMessage
    assistantMessage := assistantMessage
    provider := t.provider
    model := t.model }

structure ChatService (B : Signature) where
  registry : ProviderRegistry B
  settings : ChatSettings

structure SendRequest where
  content : Text
  conversationId : Option Uuid := none
  provider : Option Text := none
  model : Option Text := none

/-- The turn a request resolves to. -/
def ChatService.resolve (service : ChatService B) (request : SendRequest) : Except Exc (Turn B) := do
  let (providerName,modelName) ← service.registry.resolveModel request.provider request.model
  let adapter ← service.registry.get (some providerName)
  return {
    settings := service.settings
    adapter := adapter.toBaseProvider
    provider := providerName
    model := modelName
    conversationId := request.conversationId
    content := request.content }

/-- `ChatService.send`: resolved before anything is written. -/
def ChatService.send (service : ChatService B) (request : SendRequest) : ChatTask B ChatResult := do
  let turn ← (Task.ofExcept (service.resolve request) : ChatTask B (Turn B))
  turn.send

/-- The handler of `/chat/stream`, with the frames' consumer as the environment. -/
def Turn.chatStream (t : Turn B) : ChatGen B Unit := do
  (sqlIn false (prepare t.conversationId) : ChatTask B Unit)
  t.stream

end Turn
end InferenceLogger
