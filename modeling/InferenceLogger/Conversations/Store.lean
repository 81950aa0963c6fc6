import InferenceLogger.Services.Conversations
import InferenceLogger.Worker.System
import Mathlib.Data.List.Sort

/-! # The chat tables under concurrent transactions

Row locks and pending writes of the sessions that serve requests. Every statement reads the
committed rows as they are when it runs, and its own session's writes; it waits while another
session holds a conflicting lock. A failed statement aborts its transaction.
-/
namespace InferenceLogger
open PyText PyJson AsyncTask KeyedTable RelyGuarantee

inductive ChatWrite where
  | create (c : Conversation)
  | insert (m : Message)
  | touch (id : Uuid) (now : ℤ)
  | title (id : Uuid) (title : Text)
  | deleteMessage (id : Uuid)
  | deleteConversation (id : Uuid)

namespace Db
variable (db : Db)

/-- `DELETE FROM messages WHERE id = …`, with `ON DELETE SET NULL`. -/
def deleteMessage (id : Uuid) : Db :=
  {db with
    messages := db.messages.erase id
    inferenceLogs := db.inferenceLogs.update fun _ log =>
      {log with fields := {log.fields with messageId := log.fields.messageId.filter (fun m => decide (m ≠ id))}}}

def applyChat : ChatWrite → Db
  | .create c => {db with conversations := db.conversations.insertNew c.id c}
  | .insert m => {db with messages := db.messages.insertNew m.id m}
  | .touch id now => {db with conversations := db.conversations.updateAt id fun c => {c with updatedAt := now}}
  | .title id title => {db with conversations := db.conversations.updateAt id fun c => {c with title := some title}}
  | .deleteMessage id => db.deleteMessage id
  | .deleteConversation id => db.deleteConversation id

def applyChats (ws : List ChatWrite) : Db := ws.foldl applyChat db

/-- `SELECT … FROM messages WHERE conversation_id = … ORDER BY seq`. -/
def transcript (id : Uuid) : List Message :=
  ((db.messages.rows.map Prod.snd).filter fun m => decide (m.conversationId = id)).insertionSort
    (fun a b => a.seq ≤ b.seq)

/-- `SELECT coalesce(max(seq), -1) + 1 …`. -/
def nextSeq (id : Uuid) : ℕ := ((db.transcript id).map fun m => m.seq + 1).foldr max 0

end Db

/-- The row locks the statements take. -/
inductive LockMode where
  | keyShare
  | noKeyUpdate
  | update
  deriving DecidableEq

def LockMode.conflicts : LockMode → LockMode → Bool
  | .keyShare, .keyShare => false
  | .keyShare, .noKeyUpdate => false
  | .noKeyUpdate, .keyShare => false
  | _, _ => true

/-- A lock on the row of a conversation. -/
structure RowLock where
  session : ℕ
  mode : LockMode
  row : Uuid

/-- The last three fields remember the ids ever drawn, and every message ever committed with
the session that wrote it. -/
structure ChatStore where
  db : Db
  writes : List (ℕ × ChatWrite) := []
  locks : List RowLock := []
  aborted : List ℕ := []
  knownConversations : List Uuid := []
  knownMessages : List Uuid := []
  said : List (ℕ × Message) := []

/-- What the environment decides about one statement: `id` is what `uuid4` draws. -/
structure ChatChoice where
  fault : Fault
  now : ℤ
  id : Uuid

def ChatWrite.message : ChatWrite → Option Message
  | .insert m => some m
  | _ => none

namespace ChatStore
variable (pg : Postgres) (me : ℕ) (s : ChatStore)

def own : List ChatWrite := (s.writes.filter fun w => decide (w.1 = me)).map Prod.snd

def view : Db := s.db.applyChats (s.own me)

def push (w : ChatWrite) : ChatStore := {s with writes := s.writes ++ [(me,w)]}

def lock (mode : LockMode) (row : Uuid) : ChatStore := {s with locks := ⟨me,mode,row⟩ :: s.locks}

/-- Another session's lock on the row is in the way. -/
def blocked (mode : LockMode) (row : Uuid) : Bool :=
  s.locks.any fun l => decide (l.session ≠ me) && decide (l.row = row) && l.mode.conflicts mode

/-- Another open transaction has deleted the message, or the conversation it is in. -/
def deletedByOther (id : Uuid) : Bool :=
  s.writes.any fun w => decide (w.1 ≠ me) && match w.2 with
    | .deleteMessage k => decide (k = id)
    | .deleteConversation c => (s.db.messages.get id).any fun m => decide (m.conversationId = c)
    | _ => false

/-- Another open transaction has deleted a message of the conversation. -/
def childDeletedByOther (id : Uuid) : Bool :=
  s.writes.any fun w => decide (w.1 ≠ me) && match w.2 with
    | .deleteMessage k => (s.db.messages.get k).any fun m => decide (m.conversationId = id)
    | _ => false

/-- Another open transaction has inserted a message under the same number. -/
def claimedByOther (conversationId : Uuid) (seq : ℕ) : Bool :=
  s.writes.any fun w => decide (w.1 ≠ me) && w.2.message.any fun m =>
    decide (m.conversationId = conversationId) && decide (m.seq = seq)

def forget : ChatStore :=
  {s with
    writes := s.writes.filter (fun w => decide (w.1 ≠ me))
    locks := s.locks.filter (fun l => decide (l.session ≠ me))
    aborted := s.aborted.filter (fun i => decide (i ≠ me))}

def abort : ChatStore := {s.forget me with aborted := me :: s.aborted}

def commit : ChatStore :=
  {s.forget me with
    db := s.view me
    said := s.said ++ ((s.own me).filterMap ChatWrite.message).map fun m => (me,m)}

def statement {α : Type} (admits : Bool) (run : Option (ChatStore × Except Exc α)) :
    Option (ChatStore × Except Exc α) :=
  if me ∈ s.aborted then some (s,.error (databaseError "InFailedSQLTransactionError"))
  else if admits = false then some (s.abort me,.error (databaseError "DBAPIError"))
  else run

/-- A change to the row of a conversation: none if there is no row, and not while the row is
held. -/
def onRow (mode : LockMode) (id : Uuid) (change : Option ChatWrite) : Option (ChatStore × Except Exc Unit) :=
  if (s.view me).conversations.has id then
    if s.blocked me mode id then none
    else some (change.elim (s.lock me mode id) (fun w => (s.lock me mode id).push me w),.ok ())
  else some (s,.ok ())

/-- A statement that goes through; `none` while it has to wait. A drawn id is a new one. -/
def perform (now : ℤ) (fresh : Uuid) : (op : ChatSql) → Option (ChatStore × Except Exc (chatSqlSignature.Answer op))
  | .createConversation title => s.statement me (title.all pg.admitsText)
    (if fresh ∈ s.knownConversations then none
    else some ({s.push me (.create ⟨fresh,title,.active,now,now⟩) with
      knownConversations := fresh :: s.knownConversations},.ok ⟨fresh,title,.active,now,now⟩))
  | .getConversation id => s.statement me true (some (s,.ok ((s.view me).conversations.get id)))
  | .lockConversation id => s.statement me true (s.onRow me .update id none)
  | .nextSeq id => s.statement me true (some (s,.ok ((s.view me).nextSeq id)))
  | .insertMessage id role content seq => s.statement me (pg.admitsText content && Postgres.int32 seq)
    (if fresh ∈ s.knownMessages then none
    else if s.claimedByOther me id seq then none
    else if ((s.view me).transcript id).any (fun m => decide (m.seq = seq)) then
      some (s.abort me,.error (databaseError "UniqueViolationError"))
    else if (s.view me).conversations.has id then
      if s.blocked me .keyShare id then none
      else some ({(s.lock me .keyShare id).push me (.insert ⟨fresh,id,role,content,seq,now⟩) with
        knownMessages := fresh :: s.knownMessages},.ok ⟨fresh,id,role,content,seq,now⟩)
    else some (s.abort me,.error (databaseError "ForeignKeyViolationError")))
  | .touch id => s.statement me true (s.onRow me .noKeyUpdate id (some (.touch id now)))
  | .setTitleIfNull id title => s.statement me (pg.admitsText title)
    (if ((s.view me).conversations.get id).any (fun c => c.title.isNone) then
      s.onRow me .noKeyUpdate id (some (.title id title))
    else some (s,.ok ()))
  | .messages id => s.statement me true (some (s,.ok ((s.view me).transcript id)))
  | .deleteMessage id => s.statement me true
    (if (s.view me).messages.has id then
      if s.deletedByOther me id then none else some (s.push me (.deleteMessage id),.ok ())
    else some (s,.ok ()))
  | .deleteConversation id => s.statement me true
    (if s.childDeletedByOther me id then none
    else s.onRow me .update id (some (.deleteConversation id)))
  | .commit => some (s.commit me,.ok ())
  | .rollback => some (s.forget me,.ok ())
  | .close => some (s.forget me,.ok ())

/-- What is left when the connection fails before the operation takes effect. -/
def failBefore : ChatSql → ChatStore
  | .rollback => s.forget me
  | .close => s.forget me
  | _ => s.abort me

/-- What is left when only the reply is lost. -/
def failAfter : ChatSql → ChatStore
  | .commit => s.commit me
  | op => s.failBefore me op

end ChatStore

/-- One statement of one session. -/
def chatExec (pg : Postgres) : Executor ℕ chatSqlSignature Exc ChatStore ChatChoice := fun me s op c =>
  match c.fault with
  | .none => s.perform pg me c.now c.id op
  | .before e => some (s.failBefore me op,.error e)
  | .after e => some (s.failAfter me op,.error e)

end InferenceLogger
