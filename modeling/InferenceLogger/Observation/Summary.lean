import InferenceLogger.Foundation.Reports
import InferenceLogger.Observation.Adapters
import InferenceLogger.Observation.Disclosure
import InferenceLogger.Observation.Transparency

/-! # What an event says of its call

The published event against the chunks the call received and the way it ended, whatever those
were. The two ways of draining a stream are compared in the same terms.
-/
namespace InferenceLogger
open PyText PyJson AsyncTask Reports

variable {B : Signature}

/-- `d.get(key)` of what a sequence of items makes of a dict. -/
def memberAt (key : Text) (m : Text × Json) : Option Json := if m.1 = key then some m.2 else none

theorem get_updateMembers (key : Text) (d other : Members) :
    get key (updateMembers d other) = (last (memberAt key) other).or (get key d) := by
  refine foldl_field (get key) (memberAt key) (fun d m => ?_) other d
  rw [get_setItem]
  unfold memberAt
  by_cases h : m.1 = key
  · rw [if_pos h, if_pos h]
    rfl
  · rw [if_neg h, if_neg h]
    rfl

theorem nodup_updateMembers {d : Members} (h : (d.map Prod.fst).Nodup) (other : Members) :
    ((updateMembers d other).map Prod.fst).Nodup := by
  unfold updateMembers
  induction other generalizing d with
  | nil => exact h
  | cons m other ih => exact ih (nodup_setItem h m.1 m.2)

/-- The right-biased union of dicts: each key once, with the value of the last that has it. -/
structure UnionOf (ds : List Members) (d : Members) : Prop where
  nodup : (d.map Prod.fst).Nodup
  get : ∀ key, get key d = last (fun d => last (memberAt key) d) ds

theorem UnionOf.eq_nil_iff {ds : List Members} {d : Members} (h : UnionOf ds d) :
    d = [] ↔ ∀ d ∈ ds, d = [] := by
  constructor
  · rintro rfl d hd
    cases d with
    | nil => rfl
    | cons m d =>
      have hnone := last_eq_none.mp (last_eq_none.mp (h.get m.1).symm _ hd) m List.mem_cons_self
      simp [memberAt] at hnone
  · intro hall
    cases d with
    | nil => rfl
    | cons m d =>
      have hnone : PyJson.get m.1 (m :: d) = none := by
        rw [h.get]
        exact last_eq_none.mpr fun d hd => by rw [hall d hd]; rfl
      exact absurd rfl (get_eq_none.mp hnone m List.mem_cons_self)

theorem Observed.foldl_metadata (got : List StreamChunk) :
    UnionOf (got.map StreamChunk.metadata) (got.foldl absorb {}).metadata := by
  have hfold : (got.foldl absorb {}).metadata = (got.map StreamChunk.metadata).foldl updateMembers [] := by
    suffices h : ∀ o : Observed, (got.foldl absorb o).metadata =
        (got.map StreamChunk.metadata).foldl updateMembers o.metadata from h {}
    induction got with
    | nil => exact fun _ => rfl
    | cons c got ih => exact fun o => ih (o.absorb c)
  rw [hfold]
  refine ⟨?_,fun key => ?_⟩
  · suffices h : ∀ d : Members, (d.map Prod.fst).Nodup →
        (((got.map StreamChunk.metadata).foldl updateMembers d).map Prod.fst).Nodup from h [] List.nodup_nil
    induction got.map StreamChunk.metadata with
    | nil => exact fun _ h => h
    | cons other ds ih => exact fun d h => ih _ (nodup_updateMembers h other)
  · rw [foldl_field (PyJson.get key) _ (get_updateMembers key)]
    exact Option.or_none

/-- `d or None`. -/
def unlessEmpty (d : Members) : Option Members := if d = [] then none else some d

theorem unlessEmpty_getD (d : Members) : (unlessEmpty d).getD [] = d := by
  cases d <;> rfl

theorem unlessEmpty_eq_none {d : Members} : unlessEmpty d = none ↔ d = [] := by
  cases d <;> simp [unlessEmpty]

/-- The exceptions that stand for a caller who went away. -/
def isCancellation : ExcClass → Bool
  | .cancelledError => true
  | .generatorExit => true
  | _ => false

/-- What the event says of a call that received these chunks and ended this way. -/
structure Summary (r : Redactor) (got : List StreamChunk) (exit : Except Exc Unit) (e : EventFields) : Prop where
  success : e.status = .success ↔ exit = .ok ()
  cancelled : e.status = .cancelled ↔ ∃ x, exit = .error x ∧ isCancellation x.cls = true
  error : e.status = .error ↔ ∃ x, exit = .error x ∧ isCancellation x.cls = false
  message : e.status = .error → ∃ m, e.errorMessage = some m ∧ m ≠ []
  inputTokens : e.inputTokens = last (fun c => c.usage.bind TokenUsage.inputTokens) got
  outputTokens : e.outputTokens = last (fun c => c.usage.bind TokenUsage.outputTokens) got
  finishReason : e.finishReason = last (fun c => c.finishReason.filter fun t => !t.isEmpty) got
  rawMetadata : UnionOf (got.map StreamChunk.metadata) (e.rawMetadata.getD [])
  noMetadata : e.rawMetadata = none ↔ ∀ c ∈ got, c.metadata = []
  outputPreview : e.outputPreview = r.preview (some (got.map StreamChunk.deltaText).flatten)
  ttft : e.ttftMs.isSome = true ↔ ∃ c ∈ got, c.deltaText ≠ []
  ttft_le : ∀ t, e.ttftMs = some t → 0 ≤ t ∧ ∃ l, e.latencyMs = some l ∧ t ≤ l

theorem EventFields.checkInvariants_message {e : EventFields} (h : e.checkInvariants = .ok ())
    (hs : e.status = .error) : ∃ m, e.errorMessage = some m ∧ m ≠ [] := by
  unfold checkInvariants at h
  split at h
  · cases h
  · cases h
  · split at h
    · cases h
    · rename_i hnot
      cases hm : e.errorMessage with
      | none => exact absurd ⟨hs,by rw [hm]; rfl⟩ hnot
      | some m =>
        refine ⟨m,rfl,?_⟩
        rintro rfl
        exact hnot ⟨hs,by rw [hm]; rfl⟩

theorem orText_none (a : Option Text) : orText a none = a.filter fun t => !t.isEmpty := by
  rcases a with _ | _ | _ <;> rfl

namespace Instrumentation
variable {w : Instrumentation} {inner : BaseProvider B} {request : ChatRequest}

theorem classify_status (c : ExcClass) :
    ((classify c).1 = .cancelled ↔ isCancellation c = true) ∧ (classify c).1 ≠ .success := by
  cases c with
  | appError a =>
    by_cases h : a.kind = .provider <;> simp [classify,isCancellation,h]
  | _ => simp [classify,isCancellation]

theorem terminal_status (exit : Except Exc Unit) :
    ((terminal exit).1 = .success ↔ exit = .ok ()) ∧
    ((terminal exit).1 = .cancelled ↔ ∃ x, exit = .error x ∧ isCancellation x.cls = true) ∧
    ((terminal exit).1 = .error ↔ ∃ x, exit = .error x ∧ isCancellation x.cls = false) := by
  cases exit with
  | ok u => simp [terminal]
  | error x =>
    obtain ⟨hcancelled,hsuccess⟩ := classify_status x.cls
    have hstatus : (terminal (.error x)).1 = (classify x.cls).1 := rfl
    rw [hstatus]
    refine ⟨by simp [hsuccess],by simp [hcancelled],?_⟩
    cases hs : (classify x.cls).1 with
    | success => exact absurd hs hsuccess
    | cancelled => simp [hcancelled.mp hs]
    | error =>
      have hnot : isCancellation x.cls ≠ true := fun h => by simp [hcancelled.mpr h] at hs
      simpa using hnot

namespace CallRun
variable {tr : CallTrace B} {out : Except Exc Unit} (c : CallRun w inner request tr out)

theorem ttft_le_latency (hm : (monotonicReadings (bases tr)).Pairwise (· ≤ ·)) {t : ℤ}
    (ht : c.o.ttftMs = some t) : 0 ≤ t ∧ t ≤ elapsedMs c.start c.stop := by
  have hreadings : monotonicReadings (bases tr) =
      c.start :: (monotonicReadings (bases c.body) ++ c.stop :: monotonicReadings (bases c.rest)) := by
    rw [c.bases_eq]
    simp [monotonicReadings,List.filterMap_cons,List.filterMap_append,monotonicEvent]
  rw [hreadings, List.pairwise_cons, List.pairwise_append] at hm
  obtain ⟨hstart,-,-,hstop⟩ := hm
  rcases c.loop.ttft with hnone | ⟨stop,hs,hsome⟩
  · rw [ht] at hnone
    cases hnone
  · rw [ht] at hsome
    cases hsome
    have hle : c.start ≤ stop := hstart _ (List.mem_append_left _ hs)
    exact ⟨elapsedMs_nonneg hle,elapsedMs_mono hle (hstop _ hs _ List.mem_cons_self)⟩

/-- The accumulated fields of the event. -/
theorem accumulated {got : List StreamChunk}
    (ho : c.o = {got.foldl Observed.absorb {} with ttftMs := c.o.ttftMs}) {event : InferenceEvent}
    (hc : InferenceEvent.construct (w.eventFields inner request c.eventId c.startedAt c.completedAt
      (elapsedMs c.start c.stop) c.o c.exit) = .ok event) :
    event.fields.inputTokens = last (fun c => c.usage.bind TokenUsage.inputTokens) got ∧
    event.fields.outputTokens = last (fun c => c.usage.bind TokenUsage.outputTokens) got ∧
    event.fields.finishReason = last (fun c => c.finishReason.filter fun t => !t.isEmpty) got ∧
    event.fields.rawMetadata = unlessEmpty (got.foldl Observed.absorb {}).metadata := by
  rw [(InferenceEvent.construct_ok_iff.mp hc).2]
  change c.o.usage.inputTokens = _ ∧ c.o.usage.outputTokens = _ ∧ c.o.finishReason = _ ∧
    unlessEmpty c.o.metadata = _
  rw [ho, Observed.foldl_inputTokens, Observed.foldl_outputTokens, Observed.foldl_finishReason]
  refine ⟨Option.or_none,Option.or_none,?_,rfl⟩
  simp only [orText_none]
  exact Option.or_none

/-- The event that is built from what the loop accumulated. -/
theorem summary (hm : (monotonicReadings (bases tr)).Pairwise (· ≤ ·)) {got : List StreamChunk}
    (hg : Reception (inner.streamChat request) (visible c.body) got c.exit)
    (ho : c.o = {got.foldl Observed.absorb {} with ttftMs := c.o.ttftMs}) {event : InferenceEvent}
    (hc : InferenceEvent.construct (w.eventFields inner request c.eventId c.startedAt c.completedAt
      (elapsedMs c.start c.stop) c.o c.exit) = .ok event) :
    Summary w.redactor got c.exit event.fields := by
  obtain ⟨hvalid,hfields⟩ := InferenceEvent.construct_ok_iff.mp hc
  obtain ⟨hsuccess,hcancelled,herror⟩ := terminal_status c.exit
  obtain ⟨hinput,houtput,hfinish,hraw⟩ := c.accumulated ho hc
  have hmetadata := Observed.foldl_metadata got
  have hread : yielded c.body = got := by
    rw [← yielded_visible]
    exact hg.yielded_eq
  refine ⟨?_,?_,?_,?_,?_,?_,?_,?_,?_,?_,?_,?_⟩
  · exact hfields ▸ hsuccess
  · exact hfields ▸ hcancelled
  · exact hfields ▸ herror
  · rw [hfields]
    exact EventFields.checkInvariants_message (EventFields.validate_ok_iff.mp hvalid).2
  · exact hinput
  · exact houtput
  · exact hfinish
  · rw [hraw, unlessEmpty_getD]
    exact hmetadata
  · rw [hraw, unlessEmpty_eq_none, hmetadata.eq_nil_iff, List.forall_mem_map]
  · rw [hfields]
    change w.redactor.preview (some c.o.chunks.flatten) = _
    rw [ho, Observed.foldl_chunks]
    rfl
  · rw [hfields]
    change c.o.ttftMs.isSome = true ↔ _
    have huntimed : c.o.ttftMs = none ↔ ∀ chunk ∈ got, chunk.deltaText = [] := by
      rw [c.loop.untimed, hread]
      exact and_iff_right rfl
    rw [← Option.ne_none_iff_isSome, ne_eq, huntimed]
    simp
  · rw [hfields]
    intro t ht
    obtain ⟨hnonneg,hle⟩ := c.ttft_le_latency hm ht
    exact ⟨hnonneg,_,rfl,hle⟩

end CallRun

/-- A call whose event validates has published it, once, and what a call has published is the
summary of what it received and how it ended. -/
theorem published_summary {tr : CallTrace B} {out : Except Exc Unit}
    (h : Run Possible (w.streamChat inner request) tr out)
    (hm : (monotonicReadings (bases tr)).Pairwise (· ≤ ·)) :
    ∃ got exit, Reception (inner.streamChat request) (visible tr) got exit ∧
      (Loggable inner.name request.model got exit (wallReadings (bases tr)) ↔
        ∃ event, started (bases tr) = [event]) ∧
      ∀ event ∈ started (bases tr), Summary w.redactor got exit event.fields := by
  obtain ⟨c⟩ := streamChat_run h
  obtain ⟨got,hg,ho⟩ := c.loop.received
  refine ⟨got,c.exit,c.visible_eq ▸ hg,?_,fun event he => c.summary hm hg ho (c.constructed he)⟩
  rw [← c.loggable_iff hm ho]
  constructor
  · rintro ⟨event,he⟩
    exact ⟨event,by rw [c.started_eq, c.finish.of_valid he]; rfl⟩
  · rintro ⟨event,he⟩
    exact ⟨event,c.constructed (by rw [he]; exact List.mem_cons_self)⟩

theorem published_summary_short :
    ∃ got exit event, Reception oneChunk (visible (calmRun (text "mock-1")).1) got exit ∧
      started (bases (calmRun (text "mock-1")).1) = [event] ∧
      event.fields.status = .success ∧ event.fields.outputPreview = some (text "hi") ∧
      Summary plainInstrumentation.redactor got exit event.fields := by
  have hrun : Run Possible (plainInstrumentation.streamChat oneChunkProvider {messages := [], model := text "mock-1"})
      (calmRun (text "mock-1")).1 (calmRun (text "mock-1")).2 := drive_run (fun _ => calm_possible) 0 _
  obtain ⟨got,exit,hreception,-,hsummary⟩ := published_summary hrun (by decide +kernel)
  have hfields : (started (bases (calmRun (text "mock-1")).1)).map
      (fun e => (e.fields.status,e.fields.outputPreview)) = [(.success,some (text "hi"))] := by decide +kernel
  obtain ⟨event,hstarted,hevent⟩ := List.map_eq_singleton_iff.mp hfields
  obtain ⟨hstatus,hpreview⟩ := Prod.mk.inj hevent
  exact ⟨got,exit,event,hreception,hstarted,hstatus,hpreview,
    hsummary event (by rw [hstarted]; exact List.mem_cons_self)⟩

end Instrumentation
end InferenceLogger
