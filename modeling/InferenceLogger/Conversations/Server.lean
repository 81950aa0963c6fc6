import InferenceLogger.Conversations.Store

/-! # Requests served concurrently

Any number of requests on conversations, streamed or not, over one database. Statements of
different requests interleave freely, any of them may fail, and everything else a request
awaits is answered in any way.
-/
namespace InferenceLogger
open PyText PyJson AsyncTask KeyedTable Transition

/-- What a client may ask for, once its provider and model are resolved. -/
inductive ApiRequest (B : Signature) where
  | createConversation
  | deleteConversation (id : Uuid)
  | send (adapter : BaseProvider B) (provider model : Text) (conversationId : Option Uuid) (content : Text)
  | stream (adapter : BaseProvider B) (provider model : Text) (conversationId : Option Uuid) (content : Text)

/-- The server: its settings, checked when they are loaded, and the database. -/
structure ChatServer where
  settings : ChatSettings
  settings_ok : 2 ≤ settings.maxHistoryMessages
  pg : Postgres

section
variable {B : Signature} (server : ChatServer)

def ChatServer.program : ApiRequest B → ChatGen B Unit
  | .createConversation => do
    let _ ← (sqlIn false createConversation : ChatTask B Conversation)
    return ()
  | .deleteConversation id => (sqlIn false (deleteConversation id) : ChatTask B Unit)
  | .send adapter provider model conversationId content => do
    let _ ← (Turn.send ⟨server.settings,adapter,provider,model,conversationId,content⟩ : ChatTask B ChatResult)
    return ()
  | .stream adapter provider model conversationId content =>
    Turn.chatStream ⟨server.settings,adapter,provider,model,conversationId,content⟩

/-- What a request awaits, and what it goes on with. -/
structure Serving (B : Signature) where
  request : ApiRequest B
  program : ChatGen B Unit

structure ServerState (B : Signature) where
  store : ChatStore
  requests : ℕ → Option (Serving B) := fun _ => none

abbrev ServerOp (B : Signature) := GenOp (chatSignature B) ChatStreamEvent

/-- `answer` is whatever is not the database: the provider, the clock, the bus, the client. -/
inductive ServerAction (B : Signature) where
  | accept (i : ℕ) (request : ApiRequest B)
  | statement (i : ℕ) (choice : ChatChoice)
  | answer (i : ℕ) (oracle : (op : ServerOp B) → Except Exc ((genSignature (chatSignature B) ChatStreamEvent).Answer op))
  | kill (i : ℕ)

def ServerState.serve (s : ServerState B) (i : ℕ) (r : Serving B) : ServerState B :=
  {s with requests := Function.update s.requests i (some r)}

def ChatServer.step : Step (ServerState B) (ServerAction B) := fun s a =>
  match a with
  | .accept i request => match s.requests i with
    | none => some (s.serve i ⟨request,server.program request⟩)
    | some _ => none
  | .statement i choice => match s.requests i with
    | some ⟨request,.await (.base (.sql _ stmt)) k⟩ => (chatExec server.pg i s.store stmt choice).map fun r =>
        ({s with store := r.1} : ServerState B).serve i ⟨request,k r.2⟩
    | _ => none
  | .answer i oracle => match s.requests i with
    | some ⟨_,.await (.base (.sql _ _)) _⟩ => none
    | some ⟨request,.await op k⟩ => some (s.serve i ⟨request,k (oracle op)⟩)
    | _ => none
  -- the connection is gone, and what it had not committed with it
  | .kill i => match s.requests i with
    | some ⟨request,_⟩ => some (({s with store := s.store.forget i} : ServerState B).serve i ⟨request,.done ()⟩)
    | none => none

end

/-- Empty tables and no request. -/
def ServerState.initial {B : Signature} : ServerState B where
  store := {db := ⟨.empty,.empty,.empty,.empty⟩}

end InferenceLogger
