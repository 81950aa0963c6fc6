import InferenceLogger.Worker.Consumer
import InferenceLogger.Db.Cluster
import InferenceLogger.Foundation.RelyGuarantee
import InferenceLogger.Foundation.Transition

/-! # Producers, workers and their stores

Any number of workers run against one Redis and one Postgres, next to producers and chat
requests. Every operation may fail before or after it takes effect, and a worker may crash
between any two.
-/
namespace InferenceLogger
open PyText PyJson AsyncTask KeyedTable RelyGuarantee Transition

/-- `published` and `acked` remember every entry ever added and every id ever acknowledged,
`hands` the entries a worker has received and not acknowledged, and the last two the ids
ever given to a conversation or a message. -/
structure Store where
  redis : Redis := {}
  cluster : Cluster
  published : List Entry := []
  acked : List ℕ := []
  hands : ℕ → List ℕ := fun _ => []
  knownConversations : List Uuid := []
  knownMessages : List Uuid := []

/-- A failure of the connection, with the exception the caller gets. -/
inductive Fault where
  | none
  | before (e : Exc)
  | after (e : Exc)

/-- What the environment decides about one operation. -/
structure Choice where
  fault : Fault
  now : ℤ

namespace Store
variable (pg : Postgres) (me : ℕ) (s : Store)

abbrev db : Db := s.cluster.db

def withHand (ids : List ℕ) : Store := {s with hands := Function.update s.hands me ids}

def acknowledge (id : ℕ) : Store :=
  {s.withHand me ((s.hands me).filter fun i => decide (i ≠ id)) with
    redis := s.redis.ack id, acked := s.acked ++ [id]}

/-- An operation that goes through; `none` while it has to wait. -/
def perform (now : ℤ) : (op : IngestOp) → Option (Store × Except Exc (ingestSignature.Answer op))
  | .xgroupCreate => some ({s with redis := s.redis.createGroup.1},s.redis.createGroup.2)
  | .xreadgroup n => match s.redis.readGroup n with
    | (r,.ok entries) => some (({s with redis := r} : Store).withHand me (entries.map Entry.id),.ok entries)
    | (r,.error e) => some ({s with redis := r},.error e)
  | .xack id => some (s.acknowledge me id,.ok ())
  | .xaddDead letter => some ({s with redis := s.redis.addDead letter},.ok ())
  | .recordRaw id eventType payload =>
    (s.cluster.recordRaw me pg id eventType payload now).map fun r => ({s with cluster := r.1},r.2)
  | .markRaw id status error =>
    (s.cluster.markRaw me pg id status error now).map fun r => ({s with cluster := r.1},r.2)
  | .upsertLog row => (s.cluster.upsertLog me pg row now).map fun r => ({s with cluster := r.1},r.2)
  | .commit => some ({s with cluster := s.cluster.commit me},.ok ())
  | .rollback => some ({s with cluster := s.cluster.forget me},.ok ())
  | .close => some ({s with cluster := s.cluster.forget me},.ok ())

/-- What is left when the connection fails before the operation takes effect: a transaction
whose statement or commit did not get through is lost. -/
def failBefore : IngestOp → Store
  | .recordRaw _ _ _ => {s with cluster := s.cluster.abort me}
  | .markRaw _ _ _ => {s with cluster := s.cluster.abort me}
  | .upsertLog _ => {s with cluster := s.cluster.abort me}
  | .commit => {s with cluster := s.cluster.abort me}
  | .rollback => {s with cluster := s.cluster.forget me}
  | .close => {s with cluster := s.cluster.forget me}
  | _ => s

/-- What is left when only the reply is lost. -/
def failAfter : IngestOp → Store
  | .xgroupCreate => {s with redis := s.redis.createGroup.1}
  | .xreadgroup n => {s with redis := (s.redis.readGroup n).1}
  | .xack id => s.acknowledge me id
  | .xaddDead letter => {s with redis := s.redis.addDead letter}
  | .commit => {s with cluster := s.cluster.commit me}
  | op => s.failBefore me op

end Store

/-- One operation of one worker. -/
def ingestExec (pg : Postgres) : Executor ℕ ingestSignature Exc Store Choice := fun me s op c =>
  match c.fault with
  | .none => s.perform pg me c.now op
  | .before e => some (s.failBefore me op,.error e)
  | .after e => some (s.failAfter me op,.error e)

/-! ## The system -/

/-- A worker process: creating the group, or in its loop. -/
structure Process where
  starting : Bool
  task : IngestTask BatchOutcome

structure System where
  store : Store
  workers : ℕ → Option Process := fun _ => none

inductive Action where
  | spawn (i : ℕ)
  | turn (i : ℕ) (choice : Choice)
  | next (i : ℕ)
  | exit (i : ℕ)
  | crash (i : ℕ)
  | publish (e : Entry)
  | trim (n : ℕ)
  | dropGroup
  | createConversation (c : Conversation)
  | saveTurn (c : Conversation) (m : Message)
  | deleteConversation (id : Uuid)

/-- A deployment: the worker program and the database. -/
structure Deployment extends IngestionWorker where
  pg : Postgres

namespace System
variable (d : Deployment) (s : System)

def setWorker (i : ℕ) (p : Option Process) : System := {s with workers := Function.update s.workers i p}

def onDb (f : Db → Db) : System :=
  {s with store := {s.store with cluster := {s.store.cluster with db := f s.store.db}}}

/-- A process that is gone: its transaction and the rest of its batch with it. -/
def kill (i : ℕ) : System :=
  {s with
    store := ({s.store with cluster := s.store.cluster.forget i} : Store).withHand i []
    workers := Function.update s.workers i none}

def startUp : IngestTask BatchOutcome := do
  RedisEventStream.ensureGroup
  return {}

def step : Step System Action := fun s a =>
  match a with
  | .spawn i => match s.workers i with
    | none => some (s.setWorker i (some ⟨true,startUp⟩))
    | some _ => none
  | .turn i choice => match s.workers i with
    | some ⟨starting,.await op k⟩ => (ingestExec d.pg i s.store op choice).map fun r =>
        ({s with store := r.1} : System).setWorker i (some ⟨starting,k r.2⟩)
    | _ => none
  -- the loop of `run_forever`: an `Exception` of the last batch is logged and dropped with it
  | .next i => match s.workers i with
    | some ⟨_,.done _⟩ => some (s.setWorker i (some ⟨false,d.processBatch⟩))
    | some ⟨false,.raise e⟩ => if e.isException then
        some (({s with store := s.store.withHand i []} : System).setWorker i (some ⟨false,d.processBatch⟩))
      else none
    | _ => none
  | .exit i => match s.workers i with
    | some ⟨_,.done _⟩ => some (s.kill i)
    | some ⟨_,.raise _⟩ => some (s.kill i)
    | _ => none
  | .crash i => some (s.kill i)
  | .publish e => if s.store.redis.lastId < e.id then
      some {s with store := {s.store with redis := s.store.redis.add e, published := s.store.published ++ [e]}}
    else none
  | .trim n => some {s with store := {s.store with redis := s.store.redis.trim n}}
  | .dropGroup => some {s with store := {s.store with redis := s.store.redis.dropGroup}}
  | .createConversation c => if c.id ∈ s.store.knownConversations then none
    else some {s.onDb (fun db => {db with conversations := db.conversations.insertNew c.id c}) with
      store.knownConversations := c.id :: s.store.knownConversations}
  | .saveTurn c m => if s.store.db.conversations.has c.id = true ∧ m.conversationId = c.id ∧ m.id ∉ s.store.knownMessages then
      some {s.onDb (fun db => db.saveTurn c m) with
        store.knownMessages := m.id :: s.store.knownMessages}
    else none
  | .deleteConversation id =>
    if s.store.cluster.writes.any (fun w => s.store.cluster.keepsConversation id w.2) then none
    else some (s.onDb fun db => db.deleteConversation id)

/-- Empty stores and no worker. -/
def initial : System where
  store := {cluster := {db := ⟨.empty,.empty,.empty,.empty⟩}}

end System

/-! ## A deployment to run

Converters and encoders that are right for plain ASCII payloads.
-/

def plainRuntime : Runtime where
  recursionLimit := 1000
  repr := fun _ => none
  dumps
    | .obj [(k,.str t)] => some (text "\x7b\"" ++ k ++ text "\": \"" ++ t ++ text "\"\x7d")
    | _ => none
  fieldsRepr fields := text "\x7b" ++
    List.intercalate (text ", ") (fields.map fun f => text "'" ++ f.1 ++ text "': '" ++ f.2 ++ text "'") ++ text "\x7d"
  dumps_flat := fun _ _ => rfl

def plainPydantic : Pydantic where
  int
    | .int n => some n
    | _ => none
  bool
    | .bool b => some b
    | _ => none
  str
    | .str t => some t
    | _ => none
  uuid
    | .str t => parseUuid t
    | _ => none
  datetime
    | .int n => some (Datetime.utc (1000000 * n))
    | _ => none
  errorJson := fun _ _ => none
  dumps := fun _ => true

theorem plainPydantic_lawful : plainPydantic.Lawful := ⟨fun _ _ h => h⟩

def plain : Deployment where
  rt := plainRuntime
  py := plainPydantic
  batchSize := 100
  batch_pos := by decide
  pg := ⟨fun d => some (d.micros - d.offset.getD 0),fun _ => true,fun _ => true⟩

/-- The operation goes through. -/
def goes (i : ℕ) : Action := .turn i ⟨.none,0⟩

/-- The first entry of the stream, for a call that belongs to no conversation. -/
@[irreducible] def plainEntry : Entry :=
  ⟨1,[(text "data",
    text "\x7b\"id\": \"00000000-0000-0000-0000-00000000000a\", \"provider\": \"mock\", " ++
      text "\"model\": \"m\", \"status\": \"success\", \"started_at\": 0, \"completed_at\": 1\x7d")]⟩

end InferenceLogger
