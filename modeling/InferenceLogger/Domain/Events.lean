import InferenceLogger.Domain.Enums
import InferenceLogger.Foundation.Json

/-! # The event contract

`InferenceEvent` and its validation. The validation library's converters for single
values are a parameter; which field has which type, bound and default, and the two
invariants across fields, are those of the class.
-/
namespace InferenceLogger
open PyText PyJson

/-- A `datetime`: microseconds of its own clock, and the UTC offset when it has one. -/
structure Datetime where
  micros : ℤ
  offset : Option ℤ
  deriving DecidableEq

/-- `datetime.now(UTC)` at a reading of the wall clock. -/
def Datetime.utc (micros : ℤ) : Datetime := ⟨micros,some 0⟩

/-- `a < b`; `none` is the `TypeError` for a naive and an aware value. -/
def Datetime.lt? (a b : Datetime) : Option Bool :=
  match a.offset, b.offset with
  | none, none => some (decide (a.micros < b.micros))
  | some p, some q => some (decide (a.micros - p < b.micros - q))
  | _, _ => none

@[simp] theorem Datetime.lt?_utc (a b : ℤ) :
    (Datetime.utc a).lt? (Datetime.utc b) = some (decide (a < b)) := by
  simp [Datetime.lt?,Datetime.utc]

/-- `SCHEMA_VERSION`. -/
def SCHEMA_VERSION : ℤ := 1

/-- `EVENT_TYPE_INFERENCE`. -/
def EVENT_TYPE_INFERENCE : Text := text "inference.completed"

/-- The field values of an event, before they are known to be valid. -/
structure EventFields where
  schemaVersion : ℤ
  id : Uuid
  conversationId : Option Uuid
  messageId : Option Uuid
  provider : Text
  model : Text
  status : InferenceStatus
  streamed : Bool
  startedAt : Datetime
  completedAt : Datetime
  latencyMs : Option ℤ
  ttftMs : Option ℤ
  inputTokens : Option ℤ
  outputTokens : Option ℤ
  inputPreview : Option Text
  outputPreview : Option Text
  errorType : Option Text
  errorMessage : Option Text
  finishReason : Option Text
  rawMetadata : Option Members

/-- One entry of a validation error. -/
inductive FieldError where
  | missing (loc : Text)
  | invalid (loc : Text)
  | extra (loc : Text)
  | invariant (message : Text)
  deriving DecidableEq

/-- What the constructor of the event raises. -/
inductive EventError where
  | validation (errors : List FieldError)
  | typeError

/-- `Field(min_length=…, max_length=…)`: the length is counted in code points. -/
def boundedStr (low high : ℕ) (t : Text) : Bool :=
  encodable t && decide (low ≤ t.length) && decide (t.length ≤ high)

/-- `Field(default=None, ge=0)`. -/
def nonNegative (n : Option ℤ) : Bool := n.all (fun n => decide (0 ≤ n))

def providerOk : Text → Bool := boundedStr 1 64
def modelOk : Text → Bool := boundedStr 1 128
def errorTypeOk (t : Option Text) : Bool := t.all (boundedStr 0 128)
def finishReasonOk (t : Option Text) : Bool := t.all (boundedStr 0 64)

def check (ok : Bool) (loc : String) : List FieldError := if ok then [] else [.invalid (text loc)]

namespace EventFields

/-- The bounds of the single fields. -/
def fieldErrors (e : EventFields) : List FieldError :=
  check (providerOk e.provider) "provider" ++ check (modelOk e.model) "model" ++
  check (nonNegative e.latencyMs) "latency_ms" ++ check (nonNegative e.ttftMs) "ttft_ms" ++
  check (nonNegative e.inputTokens) "input_tokens" ++
  check (nonNegative e.outputTokens) "output_tokens" ++
  check (errorTypeOk e.errorType) "error_type" ++ check (finishReasonOk e.finishReason) "finish_reason"

/-- `_check_invariants`. -/
def checkInvariants (e : EventFields) : Except EventError Unit :=
  match e.completedAt.lt? e.startedAt with
  | none => .error .typeError
  | some true => .error (.validation [.invariant (text "completed_at must not precede started_at")])
  | some false =>
    if e.status = .error ∧ e.errorMessage.getD [] = [] then
      .error (.validation [.invariant (text "error status requires error_message")])
    else .ok ()

/-- The model validator runs only when every field has passed. -/
def validate (e : EventFields) : Except EventError Unit :=
  if e.fieldErrors = [] then e.checkInvariants else .error (.validation e.fieldErrors)

theorem validate_ok_iff {e : EventFields} :
    e.validate = .ok () ↔ e.fieldErrors = [] ∧ e.checkInvariants = .ok () := by
  unfold validate
  split
  · rename_i h
    simp [h]
  · rename_i h
    simp [h]

end EventFields

/-- An event: no invalid one can be built. -/
structure InferenceEvent where
  fields : EventFields
  valid : fields.validate = .ok ()

namespace InferenceEvent

/-- `InferenceEvent(...)`. -/
def construct (f : EventFields) : Except EventError InferenceEvent :=
  match h : f.validate with
  | .ok () => .ok ⟨f,h⟩
  | .error e => .error e

theorem construct_ok_iff {f : EventFields} {e : InferenceEvent} :
    construct f = .ok e ↔ f.validate = .ok () ∧ e.fields = f := by
  constructor
  · intro h
    unfold construct at h
    split at h
    · rename_i hv
      cases h
      exact ⟨hv,rfl⟩
    · cases h
  · rintro ⟨hv,rfl⟩
    unfold construct
    split
    · rfl
    · rename_i e' he
      rw [hv] at he
      cases he

end InferenceEvent

/-- The validation library: its lax converters, the text of a validation error (`none` when
rendering it raises), and whether writing the metadata as JSON stays within its recursion guard. -/
structure Pydantic where
  int : Json → Option ℤ
  bool : Json → Option Bool
  str : Json → Option Text
  uuid : Json → Option Uuid
  datetime : Json → Option Datetime
  errorJson : Members → List FieldError → Option Text
  dumps : Option Members → Bool

/-- What the worker relies on: an id the library reads is the one `uuid.UUID` reads. -/
structure Pydantic.Lawful (py : Pydantic) : Prop where
  uuid_str : ∀ t u, py.uuid (.str t) = some u → parseUuid t = some u

/-- `to_row()`: every field but the envelope's. A dump to Python values meets no recursion guard. -/
def InferenceEvent.toRow (e : InferenceEvent) : EventFields := e.fields

theorem bind_ok {ε α β : Type} {x : Except ε α} {f : α → Except ε β} {b : β} (h : (x >>= f) = .ok b) :
    ∃ a, x = .ok a ∧ f a = .ok b := by
  cases x with
  | ok a => exact ⟨a,rfl,h⟩
  | error e => cases h

section Validation
variable (py : Pydantic) (payload : Members)

/-- A required field. -/
def required {α : Type} (loc : String) (conv : Json → Option α) : Except FieldError α :=
  match get (text loc) payload with
  | none => .error (.missing (text loc))
  | some j => match conv j with
    | some a => .ok a
    | none => .error (.invalid (text loc))

/-- A field with a default. -/
def defaulted {α : Type} (loc : String) (dflt : α) (conv : Json → Option α) : Except FieldError α :=
  match get (text loc) payload with
  | none => .ok dflt
  | some j => match conv j with
    | some a => .ok a
    | none => .error (.invalid (text loc))

/-- `T | None`. -/
def nullable {α : Type} (conv : Json → Option α) : Json → Option (Option α)
  | .null => some none
  | j => (conv j).map some

def literal (value : Text) : Json → Option Unit
  | .str t => if t = value then some () else none
  | _ => none

def statusOf : Json → Option InferenceStatus
  | .str t => InferenceStatus.ofValue t
  | _ => none

def dictOf : Json → Option Members
  | .obj d => some d
  | _ => none

/-- A non-negative integer, or `None`. -/
def countOf (py : Pydantic) (j : Json) : Option (Option ℤ) := (nullable py.int j).filter nonNegative

def fieldNames : List Text :=
  ["schema_version","event_type","id","conversation_id","message_id","provider","model","status",
   "streamed","started_at","completed_at","latency_ms","ttft_ms","input_tokens","output_tokens",
   "input_preview","output_preview","error_type","error_message","finish_reason",
   "raw_metadata"].map text

/-- `extra="forbid"`. -/
def extras : List FieldError :=
  (payload.filter (fun m => !fieldNames.contains m.1)).map (fun m => .extra m.1)

def errorOf {α : Type} : Except FieldError α → List FieldError
  | .ok _ => []
  | .error e => [e]

/-- Every field converted, or all the errors. -/
@[irreducible] def parseFields : Except (List FieldError) EventFields :=
  let schemaVersion := defaulted payload "schema_version" SCHEMA_VERSION py.int
  let eventType := defaulted payload "event_type" () (literal EVENT_TYPE_INFERENCE)
  let id := required payload "id" py.uuid
  let conversationId := defaulted payload "conversation_id" none (nullable py.uuid)
  let messageId := defaulted payload "message_id" none (nullable py.uuid)
  let provider := required payload "provider" (fun j => (py.str j).filter providerOk)
  let model := required payload "model" (fun j => (py.str j).filter modelOk)
  let status := required payload "status" statusOf
  let streamed := defaulted payload "streamed" false py.bool
  let startedAt := required payload "started_at" py.datetime
  let completedAt := required payload "completed_at" py.datetime
  let latencyMs := defaulted payload "latency_ms" none (countOf py)
  let ttftMs := defaulted payload "ttft_ms" none (countOf py)
  let inputTokens := defaulted payload "input_tokens" none (countOf py)
  let outputTokens := defaulted payload "output_tokens" none (countOf py)
  let inputPreview := defaulted payload "input_preview" none (nullable py.str)
  let outputPreview := defaulted payload "output_preview" none (nullable py.str)
  let errorType := defaulted payload "error_type" none (fun j => (nullable py.str j).filter errorTypeOk)
  let errorMessage := defaulted payload "error_message" none (nullable py.str)
  let finishReason :=
    defaulted payload "finish_reason" none (fun j => (nullable py.str j).filter finishReasonOk)
  let rawMetadata := defaulted payload "raw_metadata" none (nullable dictOf)
  let errors := errorOf schemaVersion ++ errorOf eventType ++ errorOf id ++ errorOf conversationId ++
    errorOf messageId ++ errorOf provider ++ errorOf model ++ errorOf status ++ errorOf streamed ++
    errorOf startedAt ++ errorOf completedAt ++ errorOf latencyMs ++ errorOf ttftMs ++
    errorOf inputTokens ++ errorOf outputTokens ++ errorOf inputPreview ++ errorOf outputPreview ++
    errorOf errorType ++ errorOf errorMessage ++ errorOf finishReason ++ errorOf rawMetadata ++
    extras payload
  let fields : Except FieldError EventFields := do
    return {
      schemaVersion := ← schemaVersion
      id := ← id
      conversationId := ← conversationId
      messageId := ← messageId
      provider := ← provider
      model := ← model
      status := ← status
      streamed := ← streamed
      startedAt := ← startedAt
      completedAt := ← completedAt
      latencyMs := ← latencyMs
      ttftMs := ← ttftMs
      inputTokens := ← inputTokens
      outputTokens := ← outputTokens
      inputPreview := ← inputPreview
      outputPreview := ← outputPreview
      errorType := ← errorType
      errorMessage := ← errorMessage
      finishReason := ← finishReason
      rawMetadata := ← rawMetadata }
  match errors, fields with
  | [], .ok f => .ok f
  | [], .error e => .error [e]
  | e :: es, _ => .error (e :: es)

/-- `InferenceEvent.model_validate(payload)` on a dictionary. -/
def InferenceEvent.modelValidate : Except EventError InferenceEvent :=
  match parseFields py payload with
  | .error errors => .error (.validation errors)
  | .ok f => InferenceEvent.construct f

variable {py : Pydantic} {payload : Members}

theorem parseFields_id {f : EventFields} (h : parseFields py payload = .ok f) :
    required payload "id" py.uuid = .ok f.id := by
  unfold parseFields at h
  dsimp only at h
  split at h
  · rename_i f' _ hfields
    cases h
    obtain ⟨_,_,hfields⟩ := bind_ok hfields
    obtain ⟨id,hid,hfields⟩ := bind_ok hfields
    -- the other fields
    repeat obtain ⟨_,_,hfields⟩ := bind_ok hfields
    cases hfields
    exact hid
  · cases h
  · cases h

/-- A valid event has the id its payload carries. -/
theorem InferenceEvent.modelValidate_id {event : InferenceEvent} {raw : Text} (hl : py.Lawful)
    (h : InferenceEvent.modelValidate py payload = .ok event) (hraw : get (text "id") payload = some (.str raw)) :
    parseUuid raw = some event.fields.id := by
  unfold InferenceEvent.modelValidate at h
  split at h
  · cases h
  · rename_i f hf
    obtain ⟨-,rfl⟩ := InferenceEvent.construct_ok_iff.mp h
    have hid := parseFields_id hf
    unfold required at hid
    rw [hraw] at hid
    dsimp only at hid
    split at hid
    · rename_i u hu
      cases hid
      exact hl.uuid_str raw _ hu
    · cases hid

end Validation
end InferenceLogger
