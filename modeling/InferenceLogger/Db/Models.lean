import InferenceLogger.Domain.Events
import InferenceLogger.Foundation.Table

/-! # The persistence model

Four tables. Rows carry the columns the programs read and write; timestamps are
microseconds of the database clock.
-/
namespace InferenceLogger
open PyText PyJson KeyedTable

structure Conversation where
  id : Uuid
  title : Option Text
  status : ConversationStatus
  createdAt : ℤ
  updatedAt : ℤ

structure Message where
  id : Uuid
  conversationId : Uuid
  role : MessageRole
  content : Text
  seq : ℕ
  createdAt : ℤ

/-- The columns of `inference_logs` are the event's fields, as the statement passes them. -/
structure InferenceLog where
  fields : EventFields
  ingestedAt : ℤ

structure RawEvent where
  eventType : Text
  payload : Members
  receivedAt : ℤ
  processedAt : Option ℤ
  processingStatus : ProcessingStatus
  processingError : Option Text

structure Db where
  conversations : Table Uuid Conversation
  messages : Table Uuid Message
  inferenceLogs : Table Uuid InferenceLog
  eventsRaw : Table Uuid RawEvent

namespace Db

/-- The action of a deleted conversation on a log row: `ON DELETE SET NULL`, for the row's own
reference and for its reference to a message that is deleted with the conversation. -/
def orphan (id : Uuid) (gone : Uuid → Bool) (log : InferenceLog) : InferenceLog where
  fields := {log.fields with
    conversationId := log.fields.conversationId.filter (fun c => decide (c ≠ id))
    messageId := log.fields.messageId.filter (fun m => !gone m)}
  ingestedAt := log.ingestedAt

/-- `DELETE FROM conversations WHERE id = …`, with its cascades. -/
def deleteConversation (db : Db) (id : Uuid) : Db where
  conversations := db.conversations.erase id
  messages := db.messages.filter (fun _ m => decide (m.conversationId ≠ id))
  inferenceLogs := db.inferenceLogs.update fun _ log =>
    orphan id (fun m => (db.messages.get m).any (fun m => decide (m.conversationId = id))) log
  eventsRaw := db.eventsRaw

/-- The rows a chat turn commits: a conversation that may be new, and one message. -/
def saveTurn (db : Db) (conversation : Conversation) (message : Message) : Db :=
  {db with
    conversations := db.conversations.set conversation.id conversation
    messages := db.messages.insertNew message.id message}

end Db

/-- What Postgres and its driver admit: the encoder of `timestamptz` (`none` outside its
range), and the sizes of a text and of a `jsonb` value. -/
structure Postgres where
  timestamptz : Datetime → Option ℤ
  textFits : Text → Bool
  jsonbFits : Json → Bool

namespace Postgres
variable (pg : Postgres)

def int32 (n : ℤ) : Bool := decide (-2147483648 ≤ n) && decide (n ≤ 2147483647)

/-- `VARCHAR(n)`. -/
def varchar (n : ℕ) (t : Text) : Bool := storable t && decide (t.length ≤ n)

/-- `TEXT`. -/
def admitsText (t : Text) : Bool := storable t && pg.textFits t

/-- `JSONB`: no zero character, no lone surrogate, no `NaN` and no infinity. -/
def admitsJson (j : Json) : Bool := j.all storable Number.isFinite && pg.jsonbFits j

/-- A non-negative `INTEGER`. -/
def count (n : ℤ) : Bool := int32 n && decide (0 ≤ n)

/-- Every constraint of `inference_logs` but the foreign keys. -/
def admitsLog (f : EventFields) : Bool :=
  int32 f.schemaVersion && varchar 64 f.provider && varchar 128 f.model &&
  f.latencyMs.all count && f.ttftMs.all count && f.inputTokens.all count && f.outputTokens.all count &&
  f.inputPreview.all pg.admitsText && f.outputPreview.all pg.admitsText &&
  f.errorType.all (varchar 128) && f.errorMessage.all pg.admitsText && f.finishReason.all (varchar 64) &&
  f.rawMetadata.all (fun d => pg.admitsJson (.obj d)) &&
  match pg.timestamptz f.startedAt, pg.timestamptz f.completedAt with
  | some started, some completed => decide (started ≤ completed)
  | _, _ => false

end Postgres

/-- The stored instant. A row in the table has passed `Postgres.admitsLog`, so it has one. -/
def InferenceLog.startedAt (pg : Postgres) (log : InferenceLog) : ℤ :=
  (pg.timestamptz log.fields.startedAt).getD 0

def InferenceLog.completedAt (pg : Postgres) (log : InferenceLog) : ℤ :=
  (pg.timestamptz log.fields.completedAt).getD 0

end InferenceLogger
