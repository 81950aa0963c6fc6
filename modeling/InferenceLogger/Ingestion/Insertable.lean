import InferenceLogger.Worker.System

/-! # From the contract to the table

The event contract and the table of logs are written down twice. What the contract ensures of a
row (the lengths, the signs, the order of the timestamps, the message of an error) is taken from
it here; what the table asks beyond that decides whether the row can be inserted.
-/
namespace InferenceLogger
open PyText PyJson Cluster

/-- Timestamps are stored in their order. -/
structure Postgres.Ordered (pg : Postgres) : Prop where
  keeps : ∀ a b x y, a.lt? b = some false → pg.timestamptz a = some x → pg.timestamptz b = some y → y ≤ x

namespace EventFields

def measures (f : EventFields) : List ℤ :=
  f.latencyMs.toList ++ f.ttftMs.toList ++ f.inputTokens.toList ++ f.outputTokens.toList

/-- The texts of the columns with a length. -/
def shortTexts (f : EventFields) : List Text := f.provider :: f.model :: (f.errorType.toList ++ f.finishReason.toList)

/-- The texts of the columns without one. -/
def longTexts (f : EventFields) : List Text :=
  f.inputPreview.toList ++ f.outputPreview.toList ++ f.errorMessage.toList

end EventFields

/-- What the table asks of a valid event and the contract does not ensure. -/
structure BeyondContract (pg : Postgres) (f : EventFields) : Prop where
  schemaVersion : -2147483648 ≤ f.schemaVersion ∧ f.schemaVersion ≤ 2147483647
  measures : ∀ n ∈ f.measures, n ≤ 2147483647
  shortTexts : ∀ t ∈ f.shortTexts, ∀ c ∈ t, c.val ≠ 0
  longTexts : ∀ t ∈ f.longTexts, pg.admitsText t = true
  rawMetadata : ∀ d, f.rawMetadata = some d → pg.admitsJson (.obj d) = true
  startedAt : (pg.timestamptz f.startedAt).isSome = true
  completedAt : (pg.timestamptz f.completedAt).isSome = true

/-- The event's row meets the constraints, and inserting it does not raise. -/
def Insertable (pg : Postgres) (c : Cluster) (me : ℕ) (event : InferenceEvent) (now : ℤ) : Prop :=
  pg.admitsLog event.toRow = true ∧ ∀ c' e, c.upsertLog me pg event.toRow now ≠ some (c',.error e)

/-! ## Column by column -/

theorem storable_iff {t : Text} : storable t = true ↔ encodable t = true ∧ ∀ c ∈ t, c.val ≠ 0 := by
  simp only [storable, encodable, List.all_eq_true, Bool.and_eq_true, bne_iff_ne]
  exact forall₂_and

theorem varchar_iff {low high : ℕ} {t : Text} (h : boundedStr low high t = true) :
    Postgres.varchar high t = true ↔ ∀ c ∈ t, c.val ≠ 0 := by
  simp only [boundedStr, Bool.and_eq_true, decide_eq_true_eq] at h
  simp only [Postgres.varchar, Bool.and_eq_true, decide_eq_true_eq, storable_iff]
  tauto

theorem count_iff {n : ℤ} (h : 0 ≤ n) : Postgres.count n = true ↔ n ≤ 2147483647 := by
  simp only [Postgres.count, Postgres.int32, Bool.and_eq_true, decide_eq_true_eq]
  omega

theorem all_count_iff {o : Option ℤ} (h : nonNegative o = true) :
    o.all Postgres.count = true ↔ ∀ n ∈ o.toList, n ≤ 2147483647 := by
  cases o with
  | none => simp
  | some n => simpa using count_iff (by simpa [nonNegative] using h)

theorem all_varchar_iff {high : ℕ} {o : Option Text} (h : o.all (boundedStr 0 high) = true) :
    o.all (Postgres.varchar high) = true ↔ ∀ t ∈ o.toList, ∀ c ∈ t, c.val ≠ 0 := by
  cases o with
  | none => simp
  | some t => simpa using varchar_iff (by simpa using h)

theorem all_iff {α : Type} (p : α → Bool) (o : Option α) : o.all p = true ↔ ∀ a ∈ o.toList, p a = true := by
  cases o <;> simp

/-- What validation ensures of the single fields. -/
theorem valid_fields {f : EventFields} (h : f.validate = .ok ()) :
    providerOk f.provider = true ∧ modelOk f.model = true ∧ nonNegative f.latencyMs = true ∧
    nonNegative f.ttftMs = true ∧ nonNegative f.inputTokens = true ∧ nonNegative f.outputTokens = true ∧
    errorTypeOk f.errorType = true ∧ finishReasonOk f.finishReason = true ∧
    f.completedAt.lt? f.startedAt = some false := by
  obtain ⟨hfields,hinv⟩ := EventFields.validate_ok_iff.mp h
  have hcheck : ∀ {ok : Bool} {loc : String}, check ok loc = [] → ok = true := by
    intro ok loc hok
    cases ok
    · cases hok
    · rfl
  simp only [EventFields.fieldErrors, List.append_eq_nil_iff] at hfields
  obtain ⟨⟨⟨⟨⟨⟨⟨hp,hm⟩,hl⟩,ht⟩,hi⟩,ho⟩,he⟩,hf⟩ := hfields
  refine ⟨hcheck hp,hcheck hm,hcheck hl,hcheck ht,hcheck hi,hcheck ho,hcheck he,hcheck hf,?_⟩
  unfold EventFields.checkInvariants at hinv
  split at hinv
  · cases hinv
  · cases hinv
  · assumption

/-- Both timestamps have a place in the table, in their order. -/
def clockStored (pg : Postgres) (f : EventFields) : Bool :=
  match pg.timestamptz f.startedAt, pg.timestamptz f.completedAt with
  | some started, some completed => decide (started ≤ completed)
  | _, _ => false

theorem admitsLog_eq (pg : Postgres) (f : EventFields) : pg.admitsLog f =
    (Postgres.int32 f.schemaVersion && Postgres.varchar 64 f.provider && Postgres.varchar 128 f.model &&
      f.latencyMs.all Postgres.count && f.ttftMs.all Postgres.count && f.inputTokens.all Postgres.count &&
      f.outputTokens.all Postgres.count && f.inputPreview.all pg.admitsText && f.outputPreview.all pg.admitsText &&
      f.errorType.all (Postgres.varchar 128) && f.errorMessage.all pg.admitsText &&
      f.finishReason.all (Postgres.varchar 64) && f.rawMetadata.all (fun d => pg.admitsJson (.obj d)) &&
      clockStored pg f) := rfl

theorem clockStored_iff {pg : Postgres} (hpg : pg.Ordered) {f : EventFields}
    (h : f.completedAt.lt? f.startedAt = some false) : clockStored pg f = true ↔
      (pg.timestamptz f.startedAt).isSome = true ∧ (pg.timestamptz f.completedAt).isSome = true := by
  unfold clockStored
  cases hs : pg.timestamptz f.startedAt with
  | none => simp
  | some started =>
    cases hc : pg.timestamptz f.completedAt with
    | none => simp
    | some completed => simpa using hpg.keeps _ _ _ _ h hc hs

/-- A valid event's row meets the constraints when it meets what they ask beyond the contract. -/
theorem admitsLog_iff {pg : Postgres} (hpg : pg.Ordered) {f : EventFields} (h : f.validate = .ok ()) :
    pg.admitsLog f = true ↔ BeyondContract pg f := by
  obtain ⟨hprovider,hmodel,hlatency,httft,hinput,houtput,herror,hfinish,hclock⟩ := valid_fields h
  simp only [admitsLog_eq, Bool.and_eq_true, clockStored_iff hpg hclock, varchar_iff hprovider, varchar_iff hmodel,
    all_count_iff hlatency, all_count_iff httft, all_count_iff hinput, all_count_iff houtput,
    all_varchar_iff herror, all_varchar_iff hfinish, all_iff, Postgres.int32, decide_eq_true_eq, and_assoc]
  constructor
  · rintro ⟨hlow,hhigh,hp,hm,hl,ht,hi,ho,hip,hop,het,hem,hfr,hmeta,hstart,hcomplete⟩
    refine ⟨⟨hlow,hhigh⟩,?_,?_,?_,by simpa using hmeta,hstart,hcomplete⟩
    · simp only [EventFields.measures, List.forall_mem_append]
      exact ⟨⟨⟨hl,ht⟩,hi⟩,ho⟩
    · simp only [EventFields.shortTexts, List.forall_mem_cons, List.forall_mem_append]
      exact ⟨hp,hm,het,hfr⟩
    · simp only [EventFields.longTexts, List.forall_mem_append]
      exact ⟨⟨hip,hop⟩,hem⟩
  · rintro ⟨⟨hlow,hhigh⟩,hmeasures,hshort,hlong,hmeta,hstart,hcomplete⟩
    simp only [EventFields.measures, List.forall_mem_append] at hmeasures
    simp only [EventFields.shortTexts, List.forall_mem_cons, List.forall_mem_append] at hshort
    simp only [EventFields.longTexts, List.forall_mem_append] at hlong
    obtain ⟨⟨⟨hl,ht⟩,hi⟩,ho⟩ := hmeasures
    obtain ⟨hp,hm,het,hfr⟩ := hshort
    obtain ⟨⟨hip,hop⟩,hem⟩ := hlong
    exact ⟨hlow,hhigh,hp,hm,hl,ht,hi,ho,hip,hop,het,hem,hfr,by simpa using hmeta,hstart,hcomplete⟩

/-- In a sound transaction, a row that meets the constraints and refers to what is there is inserted
or was there before. -/
theorem upsertLog_quiet {pg : Postgres} {c : Cluster} {me : ℕ} {row : EventFields} {now : ℤ}
    (hme : me ∉ c.aborted) (hrow : pg.admitsLog row = true) (hrefs : c.db.refersOk row = true) (c' : Cluster)
    (e : Exc) : c.upsertLog me pg row now ≠ some (c',.error e) := by
  unfold upsertLog statement
  rw [if_neg hme, if_neg (by simp [hrow]), if_pos hrefs]
  intro h
  split at h
  · cases h
  · split at h
    · cases h
    · cases h

/-- The row of an accepted payload whose references exist can be inserted exactly when it meets what
the table asks beyond the contract. -/
theorem accepted_insertable_iff {pg : Postgres} (hpg : pg.Ordered) (py : Pydantic) (c : Cluster) (me : ℕ) (now : ℤ)
    (hme : me ∉ c.aborted) (payload : Members) (event : InferenceEvent) :
    InferenceEvent.modelValidate py payload = .ok event → c.db.refersOk event.fields = true →
      (Insertable pg c me event now ↔ BeyondContract pg event.fields) := by
  intro _ hrefs
  rw [← admitsLog_iff hpg event.valid]
  exact ⟨fun h => h.1,fun hadmits => ⟨hadmits,upsertLog_quiet hme hadmits hrefs⟩⟩

/-! ## A latency of 2^31 milliseconds -/

theorem plain_ordered : plain.pg.Ordered := by
  refine ⟨fun a b x y hlt hx hy => ?_⟩
  cases hx
  cases hy
  unfold Datetime.lt? at hlt
  cases ha : a.offset <;> cases hb : b.offset <;> simp [ha,hb] at hlt ⊢ <;> omega

def latencyPayload (latencyMs : ℤ) : Members :=
  [(text "id",.str (text "00000000-0000-0000-0000-00000000000a")),(text "provider",.str (text "mock")),
    (text "model",.str (text "m")),(text "status",.str (text "success")),(text "started_at",.int 0),
    (text "completed_at",.int 1),(text "latency_ms",.int latencyMs)]

def emptyCluster : Cluster := {db := ⟨.empty,.empty,.empty,.empty⟩}

/-- The event reads this latency and refers to nothing. -/
def hasLatency (latencyMs : ℤ) : Except EventError InferenceEvent → Bool
  | .ok event => decide (event.fields.latencyMs = some latencyMs) && emptyCluster.db.refersOk event.fields
  | .error _ => false

theorem latency_accepted (latencyMs : ℤ)
    (h : hasLatency latencyMs (InferenceEvent.modelValidate plain.py (latencyPayload latencyMs)) = true) :
    ∃ event, InferenceEvent.modelValidate plain.py (latencyPayload latencyMs) = .ok event ∧
      event.fields.latencyMs = some latencyMs ∧ emptyCluster.db.refersOk event.fields = true := by
  cases hv : InferenceEvent.modelValidate plain.py (latencyPayload latencyMs) with
  | error e =>
    rw [hv] at h
    cases h
  | ok event =>
    rw [hv] at h
    obtain ⟨hl,hr⟩ := Bool.and_eq_true_iff.mp h
    exact ⟨event,rfl,of_decide_eq_true hl,hr⟩

def admitted : Except EventError InferenceEvent → Bool
  | .ok event => plain.pg.admitsLog event.toRow
  | .error _ => false

theorem accepted_insertable_quick : ∃ event : InferenceEvent, event.fields.latencyMs = some 12 ∧
    Insertable plain.pg emptyCluster 0 event 9 ∧ BeyondContract plain.pg event.fields := by
  obtain ⟨event,hv,hl,hr⟩ := latency_accepted 12 (by decide +kernel)
  have hadmitted : admitted (InferenceEvent.modelValidate plain.py (latencyPayload 12)) = true := by decide +kernel
  rw [hv] at hadmitted
  have hbeyond := (admitsLog_iff plain_ordered event.valid).mp hadmitted
  exact ⟨event,hl,(accepted_insertable_iff plain_ordered plain.py emptyCluster 0 9 (by decide) _ event hv hr).mpr hbeyond,
    hbeyond⟩

/-- The contract accepts the latency, and the column does not hold it. -/
theorem long_latency_refused : ∃ event, InferenceEvent.modelValidate plain.py (latencyPayload 2147483648) = .ok event ∧
    emptyCluster.db.refersOk event.fields = true ∧ ¬ Insertable plain.pg emptyCluster 0 event 9 := by
  obtain ⟨event,hv,hl,hr⟩ := latency_accepted 2147483648 (by decide +kernel)
  refine ⟨event,hv,hr,?_⟩
  rintro ⟨hadmits,-⟩
  have hmeasures := ((admitsLog_iff plain_ordered event.valid).mp hadmits).measures
  have hbad := hmeasures 2147483648 (by simp [EventFields.measures,hl])
  omega

end InferenceLogger
