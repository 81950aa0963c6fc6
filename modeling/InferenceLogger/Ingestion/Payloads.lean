import InferenceLogger.Ingestion.Runs

/-! # Payloads under ids of their own

What the tables hold for a set of payloads in which an id stands for one payload, delivered
any number of times.
-/
namespace InferenceLogger
open PyText PyJson AsyncTask KeyedTable Transition

def RawEvent.content (row : RawEvent) : Text × Members × ProcessingStatus × Option Text :=
  (row.eventType,row.payload,row.processingStatus,row.processingError)

namespace Deployment
variable (d : Deployment)

/-- The raw row of a payload, up to its timestamps. -/
def expectedRaw (payload : Members) : Option (Text × Members × ProcessingStatus × Option Text) :=
  (eventTypeOf d.rt payload).bind fun eventType => match InferenceEvent.modelValidate d.py payload with
    | .ok _ => some (eventType,payload,.processed,none)
    | .error (.validation errors) =>
      (d.py.errorJson payload errors).map fun error => (eventType,payload,.failed,some (error.take 4000))
    | .error .typeError => none

/-- The log row of a payload: the `to_row()` of its event. -/
def expectedLog (payload : Members) : Option EventFields :=
  match InferenceEvent.modelValidate d.py payload with
  | .ok event => some event.toRow
  | .error _ => none

end Deployment

/-- Payloads, each under its own usable id, that healthy stores can take. -/
structure Payloads (d : Deployment) where
  of : Uuid → Option Members
  usable : ∀ id payload, of id = some payload → extractId payload = some id
  fits : ∀ id payload, of id = some payload → d.FitsAs (d.dispositionOf payload)

/-- The payload an entry carries; nothing, if it is no object. -/
@[irreducible] def payloadOf (rt : Runtime) (e : Entry) : Members :=
  match RedisEventStream.decode rt e.fields with
  | .ok (some (.obj payload)) => payload
  | _ => []

theorem decode_payloadOf {rt : Runtime} {e : Entry} {id : Uuid} (h : extractId (payloadOf rt e) = some id) :
    RedisEventStream.decode rt e.fields = .ok (some (.obj (payloadOf rt e))) := by
  unfold payloadOf at h ⊢
  split at h
  · rename_i payload hdec
    rw [hdec]
  · cases h

namespace Payloads

/-- The payload of one entry. -/
def single (d : Deployment) (id : Uuid) (e : Entry) (hid : extractId (payloadOf d.rt e) = some id)
    (hfits : d.FitsAs (d.dispositionOf (payloadOf d.rt e))) : Payloads d where
  of := fun id' => if id' = id then some (payloadOf d.rt e) else none
  usable := by
    intro id' payload h
    split at h
    · rename_i heq
      cases h
      rw [heq]
      exact hid
    · cases h
  fits := by
    intro id' payload h
    split at h
    · cases h
      exact hfits
    · cases h

variable {d : Deployment} (P : Payloads d)

def Carried (e : Entry) (id : Uuid) (payload : Members) : Prop :=
  P.of id = some payload ∧ RedisEventStream.decode d.rt e.fields = .ok (some (.obj payload))

/-- A delivery of the payload has been handled: acknowledged, or committed before a crash. -/
def Handled (s : Store) (id : Uuid) : Prop :=
  ∃ e ∈ s.published, ∃ payload, P.Carried e id payload ∧ (e.id ∈ s.acked ∨ s.db.eventsRaw.has id = true)

/-- An entry is handled when its payload is the only one and it has been acknowledged. -/
theorem single_carried {id : Uuid} {e : Entry} (hid : extractId (payloadOf d.rt e) = some id)
    (hfits : d.FitsAs (d.dispositionOf (payloadOf d.rt e))) :
    (single d id e hid hfits).Carried e id (payloadOf d.rt e) := ⟨if_pos rfl,decode_payloadOf hid⟩

theorem single_handled {s : Store} {id id' : Uuid} {e : Entry} {payload : Members}
    (hid : extractId (payloadOf d.rt e) = some id) (hfits : d.FitsAs (d.dispositionOf (payloadOf d.rt e)))
    (he : e ∈ s.published) (hack : e.id ∈ s.acked) (h : (single d id e hid hfits).of id' = some payload) :
    (single d id e hid hfits).Handled s id' := by
  refine ⟨e,he,payload,⟨h,?_⟩,.inl hack⟩
  unfold single at h
  dsimp only at h
  split at h
  · cases h
    exact decode_payloadOf hid
  · cases h

variable {P}

theorem Carried.disposition {e : Entry} {id : Uuid} {payload : Members} (h : P.Carried e id payload) :
    d.disposition e = d.validated id payload :=
  (IngestionWorker.disposition_obj h.2).trans (IngestionWorker.dispositionOf_id (P.usable id payload h.1))

theorem fits_validated {id : Uuid} {payload : Members} (h : P.of id = some payload) :
    d.FitsAs (d.validated id payload) := by
  rw [← IngestionWorker.dispositionOf_id (P.usable id payload h)]
  exact P.fits id payload h

/-- On top of the system's invariant, every entry carries one of the payloads. -/
structure CarryInv (P : Payloads d) (healthy : Bool) (s : System) : Prop where
  system : SystemInv d healthy s
  carried : ∀ e ∈ s.store.published, ∃ id payload, P.Carried e id payload

theorem initial_carry (P : Payloads d) (healthy : Bool) : CarryInv P healthy System.initial :=
  ⟨initial_inv d healthy,fun _ he => absurd he List.not_mem_nil⟩

theorem carry_step {healthy : Bool} {s t : System} {a : Action} (h : CarryInv P healthy s)
    (hcalm : healthy = true → d.Calm s a) (hpublish : ∀ e, a = .publish e → ∃ id payload, P.Carried e id payload)
    (ht : System.step d s a = some t) : CarryInv P healthy t := by
  exact ⟨h.system.step hcalm ht,h.system.entries_step h.carried hcalm hpublish ht⟩

/-! ## The rows -/

section
variable {healthy : Bool} {s : System} {id : Uuid} {payload : Members}

theorem carried_unique {e : Entry} {payload' : Members} (h : CarryInv P healthy s) (he : e ∈ s.store.published)
    (hc : d.Carries e id payload') : P.Carried e id payload' := by
  obtain ⟨id₀,payload₀,hcarried⟩ := h.carried e he
  have hdisp := hcarried.disposition
  rcases hc with ⟨event,hd⟩ | ⟨errors,hd⟩
  · obtain ⟨rfl,rfl,-⟩ := IngestionWorker.validated_accepted.mp (hdisp.symm.trans hd)
    exact hcarried
  · obtain ⟨rfl,rfl,-⟩ := IngestionWorker.validated_rejected.mp (hdisp.symm.trans hd)
    exact hcarried

/-- A raw row is the one its payload determines, and its log row is there. -/
theorem raw_row (h : CarryInv P healthy s) {row : RawEvent} (hrow : s.store.db.eventsRaw.get id = some row) :
    P.of id = some row.payload ∧ d.expectedRaw row.payload = some row.content ∧
      ∀ event, InferenceEvent.modelValidate d.py row.payload = .ok event →
        s.store.db.inferenceLogs.has event.fields.id = true := by
  obtain ⟨⟨a,ha,hcarries,htype⟩,b,hb,hmarks,hlogged⟩ := h.system.store.raw id row hrow
  have hpayload := (carried_unique h ha hcarries).1
  unfold Deployment.expectedRaw
  rw [htype, Option.bind_some]
  unfold RawEvent.content
  generalize hstatus : row.processingStatus = status at hmarks
  generalize herror : row.processingError = error at hmarks
  cases hmarks with
  | @processed payload event hd =>
    have hcarried := carried_unique h hb (.inl ⟨event,hd⟩)
    have hsame := hpayload.symm.trans hcarried.1
    cases hsame
    obtain ⟨-,-,hv⟩ := IngestionWorker.validated_accepted.mp (hcarried.disposition.symm.trans hd)
    rw [hv]
    refine ⟨hpayload,rfl,fun event' hv' => ?_⟩
    cases hv'
    exact hlogged id row.payload event hd
  | @failed payload errors text hd he =>
    have hcarried := carried_unique h hb (.inr ⟨errors,hd⟩)
    have hsame := hpayload.symm.trans hcarried.1
    cases hsame
    obtain ⟨-,-,hv⟩ := IngestionWorker.validated_rejected.mp (hcarried.disposition.symm.trans hd)
    rw [hv]
    refine ⟨hpayload,?_,fun event' hv' => by cases hv'⟩
    dsimp only
    rw [he]
    rfl

/-- A log row is the one its payload determines, up to references that are gone. -/
theorem log_row (hl : d.py.Lawful) (h : CarryInv P healthy s) {log : InferenceLog}
    (hlog : s.store.db.inferenceLogs.get id = some log) :
    ∃ payload event, P.of id = some payload ∧ InferenceEvent.modelValidate d.py payload = .ok event ∧
      s.store.Knows event.fields ∧ log.fields = s.store.db.severed event.fields := by
  obtain ⟨e,he,id',payload,event,hd,hid,hk,hf⟩ := h.system.store.logs id log hlog
  have hcarried := carried_unique h he (.inl ⟨event,hd⟩)
  have hdisp := hcarried.disposition.symm.trans hd
  have hsame := IngestionWorker.validated_id hl (P.usable id' payload hcarried.1) hdisp
  have heq : id' = id := hsame.symm.trans hid
  subst heq
  obtain ⟨-,-,hv⟩ := IngestionWorker.validated_accepted.mp hdisp
  exact ⟨payload,event,hcarried.1,hv,hk,hf⟩

/-- Handling a payload has landed its raw row. -/
theorem handled_raw (h : CarryInv P healthy s) (hh : P.Handled s.store id) : s.store.db.eventsRaw.has id = true := by
  obtain ⟨e,he,payload,hcarried,hack | hraw⟩ := hh
  · obtain ⟨e',he',hid,hrec⟩ := h.system.store.acked e.id hack
    rw [h.system.store.id_unique he' he hid] at hrec
    unfold IngestionWorker.Recorded at hrec
    have hfits := fits_validated hcarried.1
    rw [← hcarried.disposition] at hfits
    have hcarries : ∀ {id'}, (∃ p, d.Carries e id' p) → id' = id := by
      rintro id' ⟨p,hp⟩
      have hp := carried_unique h he hp
      have hsame := hp.2.symm.trans hcarried.2
      cases hsame
      exact Option.some.inj ((P.usable _ _ hp.1).symm.trans (P.usable _ _ hcarried.1))
    cases hd : d.disposition e with
    | accepted id' payload' event =>
      rw [hd] at hrec
      rw [← hcarries ⟨_,.inl ⟨event,hd⟩⟩]
      exact hrec.1
    | rejected id' payload' errors =>
      rw [hd] at hrec
      rw [← hcarries ⟨_,.inr ⟨errors,hd⟩⟩]
      exact hrec.1
    | fatal =>
      rw [hd] at hfits
      exact hfits.elim
    | malformed =>
      rw [hcarried.disposition] at hd
      unfold IngestionWorker.validated at hd
      split at hd <;> cases hd
    | anonymous p =>
      rw [hcarried.disposition] at hd
      unfold IngestionWorker.validated at hd
      split at hd <;> cases hd
  · exact hraw

/-- Every payload determines a raw row, and a log row under its id if it validates. -/
theorem expected (hl : d.py.Lawful) (h : P.of id = some payload) : (d.expectedRaw payload).isSome = true ∧
    ∀ event, InferenceEvent.modelValidate d.py payload = .ok event →
      event.fields.id = id ∧ d.expectedLog payload = some event.fields := by
  have hfits := fits_validated h
  have hid : ∀ event, InferenceEvent.modelValidate d.py payload = .ok event → event.fields.id = id :=
    fun event hv => IngestionWorker.validated_id hl (P.usable id payload h)
      (IngestionWorker.validated_accepted.mpr ⟨rfl,rfl,hv⟩)
  unfold IngestionWorker.validated at hfits
  unfold Deployment.expectedRaw Deployment.expectedLog
  cases hv : InferenceEvent.modelValidate d.py payload with
  | ok event =>
    rw [hv] at hfits
    obtain ⟨⟨eventType,htype,-⟩,-⟩ := hfits
    rw [htype]
    refine ⟨rfl,fun event' he => ?_⟩
    cases he
    exact ⟨hid event hv,rfl⟩
  | error err =>
    rw [hv] at hfits
    refine ⟨?_,fun event he => by cases he⟩
    cases err with
    | typeError => exact hfits.elim
    | validation errors =>
      obtain ⟨⟨eventType,htype,-⟩,-,error,herror,-⟩ := hfits
      rw [htype, Option.bind_some]
      dsimp only
      rw [herror]
      rfl

/-- And with it the log row, if the payload validates. -/
theorem handled_log (hl : d.py.Lawful) (h : CarryInv P healthy s) (hp : P.of id = some payload)
    (hh : P.Handled s.store id) {event : InferenceEvent} (hv : InferenceEvent.modelValidate d.py payload = .ok event) :
    s.store.db.inferenceLogs.has id = true := by
  -- the raw row is there, and it does not come without its log row
  obtain ⟨row,hrow⟩ := Table.has_iff.mp (handled_raw h hh)
  obtain ⟨hp',-,hlogged⟩ := raw_row h hrow
  cases hp.symm.trans hp'
  have hhas := hlogged event hv
  rw [((expected hl hp).2 event hv).1] at hhas
  exact hhas

end

end Payloads
end InferenceLogger
