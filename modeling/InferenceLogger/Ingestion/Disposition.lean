import InferenceLogger.Worker.System

/-! # What becomes of an entry

The pure part of the worker decides where an entry goes before any store is asked. What it
takes for the entry to be durable, and for its handling to succeed, follows that decision.
-/
namespace InferenceLogger
open PyText PyJson KeyedTable

inductive Disposition where
  | malformed
  | fatal
  | anonymous (payload : Members)
  | rejected (id : Uuid) (payload : Members) (errors : List FieldError)
  | accepted (id : Uuid) (payload : Members) (event : InferenceEvent)

namespace IngestionWorker
variable (w : IngestionWorker)

def validated (id : Uuid) (payload : Members) : Disposition :=
  match InferenceEvent.modelValidate w.py payload with
  | .ok event => .accepted id payload event
  | .error (.validation errors) => .rejected id payload errors
  | .error .typeError => .fatal

def dispositionOf (payload : Members) : Disposition :=
  match extractId payload with
  | none => .anonymous payload
  | some id => w.validated id payload

def disposition (e : Entry) : Disposition :=
  match RedisEventStream.decode w.rt e.fields with
  | .error _ => .fatal
  | .ok none => .malformed
  | .ok (some (.obj payload)) => w.dispositionOf payload
  | .ok (some _) => .fatal

variable {w} in
theorem validated_accepted {id id' : Uuid} {payload payload' : Members} {event : InferenceEvent} :
    w.validated id payload = .accepted id' payload' event ↔
      id = id' ∧ payload = payload' ∧ InferenceEvent.modelValidate w.py payload = .ok event := by
  unfold validated
  split <;> rename_i h <;> simp [h]

variable {w} in
theorem validated_rejected {id id' : Uuid} {payload payload' : Members} {errors : List FieldError} :
    w.validated id payload = .rejected id' payload' errors ↔
      id = id' ∧ payload = payload' ∧ InferenceEvent.modelValidate w.py payload = .error (.validation errors) := by
  unfold validated
  split <;> rename_i h <;> simp [h]

variable {w} in
theorem disposition_obj {e : Entry} {payload : Members}
    (h : RedisEventStream.decode w.rt e.fields = .ok (some (.obj payload))) :
    w.disposition e = w.dispositionOf payload := by
  unfold disposition
  rw [h]

variable {w} in
theorem dispositionOf_id {payload : Members} {id : Uuid} (h : extractId payload = some id) :
    w.dispositionOf payload = w.validated id payload := by
  unfold dispositionOf
  rw [h]

variable {w} in
theorem disposition_accepted {e : Entry} {id : Uuid} {payload : Members} {event : InferenceEvent}
    (h : w.disposition e = .accepted id payload event) :
    RedisEventStream.decode w.rt e.fields = .ok (some (.obj payload)) ∧ extractId payload = some id := by
  unfold disposition at h
  split at h
  · cases h
  · cases h
  · rename_i payload' hdec
    unfold dispositionOf at h
    split at h
    · cases h
    · rename_i id' hid
      obtain ⟨rfl,rfl,-⟩ := validated_accepted.mp h
      exact ⟨hdec,hid⟩
  · cases h

variable {w} in
/-- The id of an event is the one its payload is landed under. -/
theorem validated_id {id id' : Uuid} {payload payload' : Members} {event : InferenceEvent} (hl : w.py.Lawful)
    (hid : extractId payload = some id) (h : w.validated id payload = .accepted id' payload' event) :
    event.fields.id = id := by
  obtain ⟨-,-,hv⟩ := validated_accepted.mp h
  unfold extractId at hid
  split at hid
  · rename_i raw hraw
    exact Option.some.inj ((InferenceEvent.modelValidate_id hl hv hraw).symm.trans hid)
  · cases hid

/-- The payload `poll` dead-letters in place of an undecodable entry. -/
def rawFields (e : Entry) : Json := .obj [(text "raw",.str (w.rt.fieldsRepr e.fields))]

/-- A dead letter with this payload has been added for the entry. -/
def DeadLettered (s : Store) (e : Entry) (payload : Json) : Prop :=
  ∃ l ∈ s.redis.deadLetters, l.origin = e.id ∧ w.rt.dumps payload = some l.data

/-- The entry is durable: its raw row is committed, with its log row if the payload validates,
and it is dead-lettered if it does not or has no usable id. -/
def Recorded (s : Store) (e : Entry) : Prop :=
  match w.disposition e with
  | .malformed => w.DeadLettered s e (w.rawFields e)
  | .fatal => False
  | .anonymous payload => w.DeadLettered s e (.obj payload)
  | .rejected id payload _ => s.db.eventsRaw.has id = true ∧ w.DeadLettered s e (.obj payload)
  | .accepted id _ event => s.db.eventsRaw.has id = true ∧ s.db.inferenceLogs.has event.fields.id = true

end IngestionWorker

namespace Deployment
variable (d : Deployment)

/-- The raw row can be written. -/
def Landable (payload : Members) : Prop :=
  ∃ eventType, eventTypeOf d.rt payload = some eventType ∧ Postgres.varchar 64 eventType = true ∧
    d.pg.admitsJson (.obj payload) = true

/-- Healthy stores can take what is to be written: it is within their limits. -/
def FitsAs : Disposition → Prop
  | .malformed => True
  | .fatal => False
  | .anonymous payload => (d.rt.dumps (.obj payload)).isSome = true
  | .rejected _ payload errors => d.Landable payload ∧ (d.rt.dumps (.obj payload)).isSome = true ∧
    ∃ error, d.py.errorJson payload errors = some error ∧ d.pg.admitsText (error.take 4000) = true
  | .accepted _ payload event => d.Landable payload ∧ d.pg.admitsLog event.toRow = true

def Fits (e : Entry) : Prop := d.FitsAs (d.disposition e)

instance (payload : Members) : Decidable (d.Landable payload) :=
  decidable_of_iff ((eventTypeOf d.rt payload).any (fun t => Postgres.varchar 64 t && d.pg.admitsJson (.obj payload)) = true)
    (by simp [Landable,Option.any_eq_true])

instance (x : Disposition) : Decidable (d.FitsAs x) :=
  match x with
  | .malformed => isTrue trivial
  | .fatal => isFalse id
  | .anonymous payload => inferInstanceAs (Decidable ((d.rt.dumps (.obj payload)).isSome = true))
  | .rejected _ payload errors =>
    decidable_of_iff (d.Landable payload ∧ (d.rt.dumps (.obj payload)).isSome = true ∧
        (d.py.errorJson payload errors).any (fun error => d.pg.admitsText (error.take 4000)) = true)
      (by simp [FitsAs,Option.any_eq_true])
  | .accepted _ payload event =>
    inferInstanceAs (Decidable (d.Landable payload ∧ d.pg.admitsLog event.toRow = true))

instance (e : Entry) : Decidable (d.Fits e) := inferInstanceAs (Decidable (d.FitsAs (d.disposition e)))

end Deployment

/-! ## Growth -/

/-- Rows of the observability record stay. -/
structure Db.Keeps (db db' : Db) : Prop where
  raw : ∀ id, db.eventsRaw.has id = true → db'.eventsRaw.has id = true
  logs : ∀ id, db.inferenceLogs.has id = true → db'.inferenceLogs.has id = true

theorem Db.Keeps.refl (db : Db) : db.Keeps db := ⟨fun _ h => h,fun _ h => h⟩

theorem Db.Keeps.trans {a b c : Db} (h : a.Keeps b) (h' : b.Keeps c) : a.Keeps c :=
  ⟨fun id hid => h'.raw id (h.raw id hid),fun id hid => h'.logs id (h.logs id hid)⟩

theorem IngestionWorker.DeadLettered.mono {w : IngestionWorker} {s s' : Store} {e : Entry} {payload : Json}
    (h : w.DeadLettered s e payload) (hl : ∀ l ∈ s.redis.deadLetters, l ∈ s'.redis.deadLetters) :
    w.DeadLettered s' e payload := by
  obtain ⟨l,hmem,ho,hd⟩ := h
  exact ⟨l,hl l hmem,ho,hd⟩

theorem IngestionWorker.Recorded.mono {w : IngestionWorker} {s s' : Store} {e : Entry} (h : w.Recorded s e)
    (hdb : s.db.Keeps s'.db) (hl : ∀ l ∈ s.redis.deadLetters, l ∈ s'.redis.deadLetters) : w.Recorded s' e := by
  unfold Recorded at h ⊢
  cases hd : w.disposition e with
  | malformed =>
    rw [hd] at h
    exact h.mono hl
  | fatal =>
    rw [hd] at h
    exact h
  | anonymous payload =>
    rw [hd] at h
    exact h.mono hl
  | rejected id payload errors =>
    rw [hd] at h
    exact ⟨hdb.raw id h.1,h.2.mono hl⟩
  | accepted id payload event =>
    rw [hd] at h
    exact ⟨hdb.raw id h.1,hdb.logs _ h.2⟩

end InferenceLogger
