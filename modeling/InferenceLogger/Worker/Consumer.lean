import InferenceLogger.Db.Session
import InferenceLogger.Events.RedisStream

/-! # The ingestion worker

The consumer's side of the stream, and the worker's unit of work: land the raw payload,
validate it, upsert the row or mark the failure, commit, and only then acknowledge.
-/
namespace InferenceLogger
open PyText PyJson AsyncTask

/-- What the interpreter adds to a JSON value: how deep the decoder may recurse, the `repr` of
floats and containers, and the encoder (`none` where it raises). -/
structure Runtime where
  recursionLimit : ℕ
  repr : Json → Option Text
  dumps : Json → Option Text
  fieldsRepr : Fields → Text
  dumps_flat : ∀ k t, (dumps (.obj [(k,.str t)])).isSome = true

namespace Runtime
variable (rt : Runtime)

/-- `str(value)`. -/
def str : Json → Option Text
  | .str t => some t
  | .null => some (text "None")
  | .bool true => some (text "True")
  | .bool false => some (text "False")
  | .int n => some (text (toString n))
  | j => rt.repr j

end Runtime

/-! ## Operations -/

inductive IngestOp where
  | xgroupCreate
  | xreadgroup (count : ℕ)
  | xack (id : ℕ)
  | xaddDead (letter : DeadLetter)
  | recordRaw (id : Uuid) (eventType : Text) (payload : Members)
  | markRaw (id : Uuid) (status : ProcessingStatus) (error : Option Text)
  | upsertLog (row : EventFields)
  | commit
  | rollback
  | close

@[reducible] def ingestSignature : Signature where
  Op := IngestOp
  Answer
    | .xreadgroup _ => List Entry
    | .recordRaw _ _ _ => Bool
    | .upsertLog _ => Bool
    | _ => Unit

abbrev IngestTask := Task ingestSignature Exc

def ingest (op : IngestOp) : IngestTask (ingestSignature.Answer op) := Task.call (S := ingestSignature) op

def ingestSessionOps : SessionOps ingestSignature where
  commit := ingest .commit
  rollback := ingest .rollback
  close := ingest .close

def pythonError (name : String) : Exc := .own (.exception (text name) [])

/-! ## The stream -/

/-- `DeliveredEvent`. The payload is annotated as a dictionary; nothing checks it. -/
structure DeliveredEvent where
  deliveryId : ℕ
  payload : Json

namespace RedisEventStream
variable (rt : Runtime)

def ensureGroup : IngestTask Unit :=
  (ingest .xgroupCreate).resume fun
    | .ok () => .done ()
    | .error e => if respondsWith "BUSYGROUP" e then .done () else .raise e

def ack (id : ℕ) : IngestTask Unit := ingest (.xack id)

/-- `dead_letter(payload, reason=…)`, called for the entry `origin`. -/
def deadLetter (origin : ℕ) (payload : Json) (reason : String) : IngestTask Unit :=
  match rt.dumps payload with
  | none => throw (pythonError "RecursionError")
  | some data => ingest (.xaddDead ⟨origin,data,text reason⟩)

/-- `_decode`. A JSON `null` is Python's `None`, which is also what a bad text gives. -/
def decode (fields : Fields) : Except Exc (Option Json) :=
  match fields.lookup (text "data") with
  | none => .ok none
  | some raw => match loads rt.recursionLimit raw with
    | .ok .null => .ok none
    | .ok payload => .ok (some payload)
    | .error .decode => .ok none
    | .error .digits => .error (pythonError "ValueError")
    | .error .recursion => .error (pythonError "RecursionError")

/-- The loop body of `poll`. -/
def receive (delivered : List DeliveredEvent) (entry : Entry) : IngestTask (List DeliveredEvent) :=
  match decode rt entry.fields with
  | .error e => throw e
  | .ok none => do
    deadLetter rt entry.id (.obj [(text "raw",.str (rt.fieldsRepr entry.fields))]) "malformed_json"
    ack entry.id
    return delivered
  | .ok (some payload) => return delivered ++ [⟨entry.id,payload⟩]

def poll (count : ℕ) : IngestTask (List DeliveredEvent) :=
  (ingest (.xreadgroup count)).resume fun
    | .ok entries => entries.foldlM (receive rt) []
    | .error e => if respondsWith "NOGROUP" e then do
        ensureGroup
        return []
      else throw e

end RedisEventStream

/-! ## The worker -/

structure BatchOutcome where
  received : ℕ := 0
  inserted : ℕ := 0
  duplicates : ℕ := 0
  rejected : ℕ := 0

/-- `_extract_id` of a dictionary. -/
def extractId (payload : Members) : Option Uuid :=
  match get (text "id") payload with
  | some (.str raw) => parseUuid raw
  | _ => none

/-- `str(payload.get("event_type", EVENT_TYPE_INFERENCE))`. -/
def eventTypeOf (rt : Runtime) (payload : Members) : Option Text :=
  match get (text "event_type") payload with
  | none => some EVENT_TYPE_INFERENCE
  | some j => rt.str j

/-- The client refuses a batch size of zero. -/
structure IngestionWorker where
  rt : Runtime
  py : Pydantic
  batchSize : ℕ
  batch_pos : 0 < batchSize

namespace IngestionWorker
variable (w : IngestionWorker)

/-- The transaction of `_handle`. -/
def record (item : DeliveredEvent) (payload : Members) (eventId : Uuid) (outcome : BatchOutcome) :
    IngestTask BatchOutcome :=
  match eventTypeOf w.rt payload with
  | none => throw (pythonError "RecursionError")
  | some eventType => do
    let _ ← ingest (.recordRaw eventId eventType payload)
    match InferenceEvent.modelValidate w.py payload with
    | .error .typeError => throw (pythonError "TypeError")
    | .error (.validation errors) =>
      match w.py.errorJson payload errors with
      | none => throw (pythonError "PydanticSerializationError")
      | some error => do
        ingest (.markRaw eventId .failed (some (error.take 4000)))
        RedisEventStream.deadLetter w.rt item.deliveryId (.obj payload) "schema_validation_failed"
        return {outcome with rejected := outcome.rejected + 1}
    | .ok event => do
      let inserted ← ingest (.upsertLog event.toRow)
      ingest (.markRaw eventId .processed none)
      return if inserted then {outcome with inserted := outcome.inserted + 1}
        else {outcome with duplicates := outcome.duplicates + 1}

/-- `_handle`. Asking anything but a dictionary for its `get` is an `AttributeError`. -/
def handle (outcome : BatchOutcome) (item : DeliveredEvent) : IngestTask BatchOutcome :=
  match item.payload with
  | .obj payload => match extractId payload with
    | none => do
      RedisEventStream.deadLetter w.rt item.deliveryId (.obj payload) "missing_or_invalid_id"
      RedisEventStream.ack item.deliveryId
      return {outcome with rejected := outcome.rejected + 1}
    | some eventId => do
      let outcome ← ingestSessionOps.session (w.record item payload eventId outcome)
      RedisEventStream.ack item.deliveryId
      return outcome
  | _ => throw (pythonError "AttributeError")

def processBatch : IngestTask BatchOutcome := do
  let delivered ← RedisEventStream.poll w.rt w.batchSize
  delivered.foldlM w.handle {received := delivered.length}

end IngestionWorker
end InferenceLogger
