import InferenceLogger.Domain.Events
import InferenceLogger.Foundation.JsonText

/-! # Events as JSON

What `model_dump` in JSON mode makes of an event, and that validating it from Python objects
gives the event back.
-/
namespace InferenceLogger
open PyText PyJson

/-- How the validation library writes single values: a datetime, and a float; `exact` holds of a
float's own literal, the one that is written. -/
structure Encoder where
  datetime : Datetime → Text
  number : Number → Text
  exact : Number → Bool

/-- Years 1 to 9999, as `datetime` has them. -/
def representable (micros : ℤ) : Prop := -62135596800000000 ≤ micros ∧ micros < 253402300800000000

/-- What the library writes it also reads. -/
structure Encoder.Lawful (enc : Encoder) (py : Pydantic) : Prop where
  int_back : ∀ n, py.int (.int n) = some n
  bool_back : ∀ b, py.bool (.bool b) = some b
  str_back : ∀ t, encodable t = true → py.str (.str t) = some t
  uuid_back : ∀ u, py.uuid (.str (uuidText u)) = some u
  datetime_back : ∀ m, representable m → py.datetime (.str (enc.datetime (.utc m))) = some (.utc m)
  float_back : ∀ x, enc.exact x = true → FloatText (enc.number x) x

def orNull {α : Type} (f : α → Json) : Option α → Json
  | none => .null
  | some a => f a

section
variable (enc : Encoder)

/-- The dictionary of `model_dump(mode="json")`. -/
def EventFields.dump (e : EventFields) : Members :=
  [(text "schema_version",.int e.schemaVersion),(text "event_type",.str EVENT_TYPE_INFERENCE),(text "id",.str (uuidText e.id)),
   (text "conversation_id",orNull (.str ∘ uuidText) e.conversationId),(text "message_id",orNull (.str ∘ uuidText) e.messageId),
   (text "provider",.str e.provider),(text "model",.str e.model),(text "status",.str e.status.value),
   (text "streamed",.bool e.streamed),(text "started_at",.str (enc.datetime e.startedAt)),
   (text "completed_at",.str (enc.datetime e.completedAt)),(text "latency_ms",orNull .int e.latencyMs),
   (text "ttft_ms",orNull .int e.ttftMs),(text "input_tokens",orNull .int e.inputTokens),
   (text "output_tokens",orNull .int e.outputTokens),(text "input_preview",orNull .str e.inputPreview),
   (text "output_preview",orNull .str e.outputPreview),(text "error_type",orNull .str e.errorType),
   (text "error_message",orNull .str e.errorMessage),(text "finish_reason",orNull .str e.finishReason),
   (text "raw_metadata",orNull .obj e.rawMetadata)]

/-- `event.model_dump(mode="json")`; `none` when the metadata is nested too deep for it. -/
def InferenceEvent.modelDump (py : Pydantic) (e : InferenceEvent) : Option Members :=
  if py.dumps e.fields.rawMetadata then some (e.fields.dump enc) else none

/-- `event.model_dump_json()`. -/
def InferenceEvent.modelDumpJson (py : Pydantic) (e : InferenceEvent) : Option Text :=
  (e.modelDump enc py).map fun d => write enc.number (.obj d)

/-- What the types promise of an event: UTC datetimes, texts of valid Unicode, and metadata that
is a JSON object. -/
structure EventFields.Typed (e : EventFields) : Prop where
  started : ∃ m, representable m ∧ e.startedAt = .utc m
  completed : ∃ m, representable m ∧ e.completedAt = .utc m
  texts : ∀ t, t = e.inputPreview ∨ t = e.outputPreview ∨ t = e.errorMessage → t.all encodable = true
  metadata : ∀ d, e.rawMetadata = some d → (Json.obj d).distinctKeys = true ∧ (Json.obj d).all encodable enc.exact = true

end

/-! ## Validating the dump -/

theorem get_mem {d : Members} (hn : (d.map Prod.fst).Nodup) {k : Text} {v : Json} (h : (k,v) ∈ d) : get k d = some v := by
  induction d with
  | nil => cases h
  | cons m d ih =>
    rw [List.map_cons, List.nodup_cons] at hn
    unfold PyJson.get
    rcases List.mem_cons.mp h with rfl | hd
    · simp
    · have hne : (m.1 == k) = false := by
        rw [beq_eq_false_iff_ne]
        rintro rfl
        exact hn.1 (List.mem_map.mpr ⟨(m.1,v),hd,rfl⟩)
      rw [List.find?_cons_of_neg (by simp [hne])]
      exact ih hn.2 hd

theorem fieldNames_nodup : fieldNames.Nodup := by decide

section
variable {enc : Encoder} {py : Pydantic} (h : enc.Lawful py) {e : EventFields}

theorem dump_keys : (e.dump enc).map Prod.fst = fieldNames := rfl

theorem get_dump {loc : String} {j : Json} (hm : (text loc,j) ∈ e.dump enc) : get (text loc) (e.dump enc) = some j :=
  get_mem (by rw [dump_keys]; exact fieldNames_nodup) hm

theorem required_dump {α : Type} {loc : String} {conv : Json → Option α} {j : Json} {a : α} (hm : (text loc,j) ∈ e.dump enc)
    (hc : conv j = some a) : required (e.dump enc) loc conv = .ok a := by
  unfold required
  rw [get_dump hm]
  simp only [hc]

theorem defaulted_dump {α : Type} {loc : String} {dflt : α} {conv : Json → Option α} {j : Json} {a : α}
    (hm : (text loc,j) ∈ e.dump enc) (hc : conv j = some a) : defaulted (e.dump enc) loc dflt conv = .ok a := by
  unfold defaulted
  rw [get_dump hm]
  simp only [hc]

theorem extras_dump : extras (e.dump enc) = [] := by
  unfold extras
  rw [List.map_eq_nil_iff, List.filter_eq_nil_iff]
  intro m hm
  have hk : m.1 ∈ fieldNames := by
    change m.1 ∈ (e.dump enc).map Prod.fst
    exact List.mem_map_of_mem hm
  simp [hk]

theorem nullable_orNull {α : Type} {f : α → Json} {conv : Json → Option α} {o : Option α} (hf : ∀ a, f a ≠ .null)
    (hc : ∀ a, o = some a → conv (f a) = some a) : nullable conv (orNull f o) = some o := by
  cases o with
  | none => rfl
  | some a =>
    have hback := hc a rfl
    have hne := hf a
    unfold orNull nullable
    split
    · rename_i hnull
      exact absurd hnull hne
    · rw [hback]
      rfl

theorem check_nil {ok : Bool} {loc : String} (h : check ok loc = []) : ok = true := by
  cases ok with
  | true => rfl
  | false => cases h

theorem encodable_bounded {low high : ℕ} {t : Text} (h : boundedStr low high t = true) : encodable t = true := by
  unfold boundedStr at h
  rw [Bool.and_eq_true, Bool.and_eq_true] at h
  exact h.1.1

/-- The bounds a valid event meets. -/
theorem fieldErrors_nil (hv : e.fieldErrors = []) :
    providerOk e.provider = true ∧ modelOk e.model = true ∧ nonNegative e.latencyMs = true ∧ nonNegative e.ttftMs = true ∧
      nonNegative e.inputTokens = true ∧ nonNegative e.outputTokens = true ∧ errorTypeOk e.errorType = true ∧
      finishReasonOk e.finishReason = true := by
  unfold EventFields.fieldErrors at hv
  simp only [List.append_eq_nil_iff] at hv
  obtain ⟨⟨⟨⟨⟨⟨⟨h1,h2⟩,h3⟩,h4⟩,h5⟩,h6⟩,h7⟩,h8⟩ := hv
  exact ⟨check_nil h1,check_nil h2,check_nil h3,check_nil h4,check_nil h5,check_nil h6,check_nil h7,check_nil h8⟩

include h

theorem nullable_text {o : Option Text} (ho : o.all encodable = true) : nullable py.str (orNull .str o) = some o := by
  apply nullable_orNull (by simp)
  rintro t rfl
  exact h.str_back t ho

theorem countOf_orNull {o : Option ℤ} (ho : nonNegative o = true) : countOf py (orNull .int o) = some o := by
  unfold countOf
  rw [nullable_orNull (by simp) fun n _ => h.int_back n]
  simp [ho]

theorem nullable_uuid (o : Option Uuid) : nullable py.uuid (orNull (.str ∘ uuidText) o) = some o :=
  nullable_orNull (by simp) fun u _ => h.uuid_back u

/-- Every field of the dump is converted back to what it was. -/
theorem parseFields_dump (ht : e.Typed enc) (hv : e.fieldErrors = []) : parseFields py (e.dump enc) = .ok e := by
  obtain ⟨hprovider,hmodel,hlatency,httft,hinput,houtput,htype,hreason⟩ := fieldErrors_nil hv
  have hdatetime : ∀ {t : Datetime}, (∃ m, representable m ∧ t = .utc m) → py.datetime (.str (enc.datetime t)) = some t := by
    rintro t ⟨m,hm,rfl⟩
    exact h.datetime_back m hm
  have hliteral : literal EVENT_TYPE_INFERENCE (.str EVENT_TYPE_INFERENCE) = some () := by simp [literal]
  have hstatus : statusOf (.str e.status.value) = some e.status := InferenceStatus.ofValue_value e.status
  have hmetadata : nullable dictOf (orNull .obj e.rawMetadata) = some e.rawMetadata :=
    nullable_orNull (by simp) fun d _ => rfl
  have hbounded : ∀ {low high : ℕ} {o : Option Text}, o.all (boundedStr low high) = true →
      (nullable py.str (orNull .str o)).filter (fun t => t.all (boundedStr low high)) = some o := by
    intro low high o ho
    have hall : o.all encodable = true := by
      cases o with
      | none => rfl
      | some t => exact encodable_bounded ho
    rw [nullable_text h hall]
    simp [ho]
  have htext : ∀ {ok : Text → Bool} {t : Text}, encodable t = true → ok t = true → (py.str (.str t)).filter ok = some t := by
    intro ok t he hok
    rw [h.str_back t he]
    simp [hok]
  have r1 : defaulted (e.dump enc) "schema_version" SCHEMA_VERSION py.int = .ok e.schemaVersion :=
    defaulted_dump (by simp [EventFields.dump]) (h.int_back e.schemaVersion)
  have r2 : defaulted (e.dump enc) "event_type" () (literal EVENT_TYPE_INFERENCE) = .ok () :=
    defaulted_dump (by simp [EventFields.dump]) hliteral
  have r3 : required (e.dump enc) "id" py.uuid = .ok e.id :=
    required_dump (by simp [EventFields.dump]) (h.uuid_back e.id)
  have r4 : defaulted (e.dump enc) "conversation_id" none (nullable py.uuid) = .ok e.conversationId :=
    defaulted_dump (by simp [EventFields.dump]) (nullable_uuid h e.conversationId)
  have r5 : defaulted (e.dump enc) "message_id" none (nullable py.uuid) = .ok e.messageId :=
    defaulted_dump (by simp [EventFields.dump]) (nullable_uuid h e.messageId)
  have r6 : required (e.dump enc) "provider" (fun j => (py.str j).filter providerOk) = .ok e.provider :=
    required_dump (by simp [EventFields.dump]) (htext (encodable_bounded hprovider) hprovider)
  have r7 : required (e.dump enc) "model" (fun j => (py.str j).filter modelOk) = .ok e.model :=
    required_dump (by simp [EventFields.dump]) (htext (encodable_bounded hmodel) hmodel)
  have r8 : required (e.dump enc) "status" statusOf = .ok e.status :=
    required_dump (by simp [EventFields.dump]) hstatus
  have r9 : defaulted (e.dump enc) "streamed" false py.bool = .ok e.streamed :=
    defaulted_dump (by simp [EventFields.dump]) (h.bool_back e.streamed)
  have r10 : required (e.dump enc) "started_at" py.datetime = .ok e.startedAt :=
    required_dump (by simp [EventFields.dump]) (hdatetime ht.started)
  have r11 : required (e.dump enc) "completed_at" py.datetime = .ok e.completedAt :=
    required_dump (by simp [EventFields.dump]) (hdatetime ht.completed)
  have r12 : defaulted (e.dump enc) "latency_ms" none (countOf py) = .ok e.latencyMs :=
    defaulted_dump (by simp [EventFields.dump]) (countOf_orNull h hlatency)
  have r13 : defaulted (e.dump enc) "ttft_ms" none (countOf py) = .ok e.ttftMs :=
    defaulted_dump (by simp [EventFields.dump]) (countOf_orNull h httft)
  have r14 : defaulted (e.dump enc) "input_tokens" none (countOf py) = .ok e.inputTokens :=
    defaulted_dump (by simp [EventFields.dump]) (countOf_orNull h hinput)
  have r15 : defaulted (e.dump enc) "output_tokens" none (countOf py) = .ok e.outputTokens :=
    defaulted_dump (by simp [EventFields.dump]) (countOf_orNull h houtput)
  have r16 : defaulted (e.dump enc) "input_preview" none (nullable py.str) = .ok e.inputPreview :=
    defaulted_dump (by simp [EventFields.dump]) (nullable_text h (ht.texts e.inputPreview (.inl rfl)))
  have r17 : defaulted (e.dump enc) "output_preview" none (nullable py.str) = .ok e.outputPreview :=
    defaulted_dump (by simp [EventFields.dump]) (nullable_text h (ht.texts e.outputPreview (.inr (.inl rfl))))
  have r18 : defaulted (e.dump enc) "error_type" none (fun j => (nullable py.str j).filter errorTypeOk) = .ok e.errorType :=
    defaulted_dump (by simp [EventFields.dump]) (hbounded htype)
  have r19 : defaulted (e.dump enc) "error_message" none (nullable py.str) = .ok e.errorMessage :=
    defaulted_dump (by simp [EventFields.dump]) (nullable_text h (ht.texts e.errorMessage (.inr (.inr rfl))))
  have r20 : defaulted (e.dump enc) "finish_reason" none (fun j => (nullable py.str j).filter finishReasonOk) =
      .ok e.finishReason :=
    defaulted_dump (by simp [EventFields.dump]) (hbounded hreason)
  have r21 : defaulted (e.dump enc) "raw_metadata" none (nullable dictOf) = .ok e.rawMetadata :=
    defaulted_dump (by simp [EventFields.dump]) hmetadata
  unfold parseFields
  simp only [r1,r2,r3,r4,r5,r6,r7,r8,r9,r10,r11,r12,r13,r14,r15,r16,r17,r18,r19,r20,r21,extras_dump,errorOf,List.append_nil]
  rfl

end

/-- Validating the dump of an event gives the event back. -/
theorem modelValidate_dump {enc : Encoder} {py : Pydantic} (h : enc.Lawful py) (e : InferenceEvent) (ht : e.fields.Typed enc) :
    InferenceEvent.modelValidate py (e.fields.dump enc) = .ok e := by
  have hfields := parseFields_dump h ht (EventFields.validate_ok_iff.mp e.valid).1
  unfold InferenceEvent.modelValidate
  rw [hfields]
  exact InferenceEvent.construct_ok_iff.mpr ⟨e.valid,rfl⟩

end InferenceLogger
