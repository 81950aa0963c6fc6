import InferenceLogger.Observation.Summary

/-! # The two drains of a stream

`complete` folds the chunks it is given into a response, and the wrapper folds the same
chunks into an event. The one keeps the last usage object and the last finish reason as they
came; the other merges usage field by field and passes over empty finish reasons.
-/
namespace InferenceLogger
open PyText PyJson AsyncTask Reports

variable {B : Signature}

namespace BaseProvider

theorem foldl_usage (got : List StreamChunk) (t : Text) :
    (got.foldl collect {text := t}).usage = last StreamChunk.usage got := by
  rw [foldl_field CompletedResponse.usage StreamChunk.usage fun _ _ => rfl]
  exact Option.or_none

theorem foldl_finishReason (got : List StreamChunk) (t : Text) :
    (got.foldl collect {text := t}).finishReason = last StreamChunk.finishReason got := by
  rw [foldl_field CompletedResponse.finishReason StreamChunk.finishReason fun _ _ => rfl]
  exact Option.or_none

theorem foldl_metadata (got : List StreamChunk) (r : CompletedResponse) (o : Observed)
    (h : r.metadata = o.metadata) :
    (got.foldl collect r).metadata = (got.foldl Observed.absorb o).metadata := by
  induction got generalizing r o with
  | nil => exact h
  | cons c got ih => exact ih _ _ (congrArg (updateMembers · c.metadata) h)

end BaseProvider

/-- The response and the event say the same of a call. -/
structure DrainsAgree (r : CompletedResponse) (e : EventFields) : Prop where
  inputTokens : r.usage.bind TokenUsage.inputTokens = e.inputTokens
  outputTokens : r.usage.bind TokenUsage.outputTokens = e.outputTokens
  finishReason : r.finishReason = e.finishReason
  rawMetadata : unlessEmpty r.metadata = e.rawMetadata

/-- The last usage object has every count that was reported at all, and the last finish reason
is not empty. -/
structure LastTellsAll (got : List StreamChunk) : Prop where
  inputTokens : (last StreamChunk.usage got).bind TokenUsage.inputTokens = none →
    ∀ c ∈ got, c.usage.bind TokenUsage.inputTokens = none
  outputTokens : (last StreamChunk.usage got).bind TokenUsage.outputTokens = none →
    ∀ c ∈ got, c.usage.bind TokenUsage.outputTokens = none
  finishReason : last StreamChunk.finishReason got ≠ some []

instance (got : List StreamChunk) : Decidable (LastTellsAll got) :=
  decidable_of_iff (((last StreamChunk.usage got).bind TokenUsage.inputTokens = none →
      ∀ c ∈ got, c.usage.bind TokenUsage.inputTokens = none) ∧
    ((last StreamChunk.usage got).bind TokenUsage.outputTokens = none →
      ∀ c ∈ got, c.usage.bind TokenUsage.outputTokens = none) ∧ last StreamChunk.finishReason got ≠ some [])
    ⟨fun h => ⟨h.1,h.2.1,h.2.2⟩,fun h => ⟨h.inputTokens,h.outputTokens,h.finishReason⟩⟩

/-- The last text, against the last that is not empty. -/
theorem last_nonempty_iff {α : Type} (f : α → Option Text) (xs : List α) :
    last f xs = last (fun x => (f x).filter fun t => !t.isEmpty) xs ↔ last f xs ≠ some [] := by
  have hbind : ∀ a : Option Text, a.bind (Option.guard fun t => !t.isEmpty) = a.filter fun t => !t.isEmpty := by
    intro a
    rw [Option.bind_guard]
  have hiff := last_bind_iff f (Option.guard fun t => !t.isEmpty) xs
  simp only [hbind] at hiff
  constructor
  · intro h hempty
    have hlast : (last f xs).filter (fun t => !t.isEmpty) = last f xs := by
      rw [h]
      cases hs : last (fun x => (f x).filter fun t => !t.isEmpty) xs with
      | none => rfl
      | some t =>
        obtain ⟨x,-,hx⟩ := last_eq_some hs
        rw [(Option.filter_eq_some_iff.mp hx).1] at hx
        exact hx
    rw [hempty] at hlast
    cases hlast
  · intro h
    cases hs : last f xs with
    | none => exact (last_eq_none.mpr fun x hx => by rw [last_eq_none.mp hs x hx]; rfl).symm
    | some t =>
      have hnonempty : (some t).filter (fun t : Text => !t.isEmpty) = some t := by
        cases t with
        | nil => exact absurd hs h
        | cons a t => rfl
      rw [hs, hnonempty] at hiff
      exact hiff.mpr (fun hnone => by cases hnone)

namespace Instrumentation
variable {w : Instrumentation} {inner : BaseProvider B} {request : ChatRequest}

/-- A call that completes has published one event, built from the chunks of its response. -/
theorem complete_run {tr : Trace (callSignature B) Exc} {response : CompletedResponse}
    (h : Run PossibleCall ((w.provider inner).complete request) tr (.ok response)) :
    ∃ call event, Run (Drained PossibleCall) (w.streamChat inner request) call (.ok ()) ∧ tr = bases call ∧
      started tr = [event] ∧ response = (yielded call).foldl BaseProvider.collect {text := []} ∧
      event.fields.inputTokens = last (fun c => c.usage.bind TokenUsage.inputTokens) (yielded call) ∧
      event.fields.outputTokens = last (fun c => c.usage.bind TokenUsage.outputTokens) (yielded call) ∧
      event.fields.finishReason =
        last (fun c => c.finishReason.filter fun t => !t.isEmpty) (yielded call) ∧
      event.fields.rawMetadata = unlessEmpty ((yielded call).foldl Observed.absorb {}).metadata := by
  obtain ⟨call,exit,hcall,rfl,hout⟩ := BaseProvider.drain_iff.mp h
  cases exit with
  | error e => cases hout
  | ok u =>
    cases hout
    obtain ⟨c⟩ := streamChat_run (hcall.mono fun _ _ => drained_possible)
    obtain ⟨got,hg,ho⟩ := c.loop.received
    rw [← c.visible_eq] at hg
    have hgot : yielded call = got := by
      rw [← yielded_visible]
      exact hg.yielded_eq
    subst hgot
    cases hc : InferenceEvent.construct (w.eventFields inner request c.eventId c.startedAt c.completedAt
        (elapsedMs c.start c.stop) c.o c.exit) with
    | error e =>
      have hfailed := c.out_eq
      rw [(c.finish.of_invalid hc).2] at hfailed
      cases hfailed
    | ok event =>
      refine ⟨call,event,hcall,rfl,?_,rfl,c.accumulated ho hc⟩
      rw [c.started_eq, c.finish.of_valid hc]
      rfl

/-- The response of a completed call agrees with its event exactly when the last reports leave
nothing out. -/
theorem drains_agree_iff {tr : Trace (callSignature B) Exc} {response : CompletedResponse}
    (h : Run PossibleCall ((w.provider inner).complete request) tr (.ok response)) :
    ∃ call event, Run (Drained PossibleCall) (w.streamChat inner request) call (.ok ()) ∧ tr = bases call ∧
      started tr = [event] ∧ (DrainsAgree response event.fields ↔ LastTellsAll (yielded call)) := by
  obtain ⟨call,event,hcall,htr,hs,rfl,hinput,houtput,hfinish,hraw⟩ := complete_run h
  refine ⟨call,event,hcall,htr,hs,?_⟩
  have hin := last_bind_iff StreamChunk.usage TokenUsage.inputTokens (yielded call)
  have hout := last_bind_iff StreamChunk.usage TokenUsage.outputTokens (yielded call)
  have hfin := last_nonempty_iff StreamChunk.finishReason (yielded call)
  constructor
  · rintro ⟨hi,ho,hf,-⟩
    rw [BaseProvider.foldl_usage, hinput] at hi
    rw [BaseProvider.foldl_usage, houtput] at ho
    rw [BaseProvider.foldl_finishReason, hfinish] at hf
    exact ⟨hin.mp hi,hout.mp ho,hfin.mp hf⟩
  · rintro ⟨hi,ho,hf⟩
    refine ⟨?_,?_,?_,?_⟩
    · rw [BaseProvider.foldl_usage, hinput]
      exact hin.mpr hi
    · rw [BaseProvider.foldl_usage, houtput]
      exact hout.mpr ho
    · rw [BaseProvider.foldl_finishReason, hfinish]
      exact hfin.mpr hf
    · rw [hraw, BaseProvider.foldl_metadata (yielded call) _ {} rfl]

/-! ## The counts of an Anthropic stream, half on each end -/

def endTurn : List AnthropicEvent :=
  [.messageStart (text "msg_1") ⟨some 5,some 1⟩,.textDelta (text "hi"),
    .messageDelta (some (text "end_turn")) ⟨none,some 7⟩]

def scriptedProvider (events : List AnthropicEvent) : BaseProvider quietSignature :=
  (scriptedAnthropic events).provider

/-- The call over a scripted stream, drained with nothing failing. -/
@[irreducible] def scriptedRun (events : List AnthropicEvent) : CallTrace quietSignature × Except Exc Unit :=
  drive (fun _ => calm) 0 (plainInstrumentation.streamChat (scriptedProvider events) shortRequest)

theorem calm_drained (op : GenOp (callSignature quietSignature) StreamChunk) :
    Drained PossibleCall op (calm op) := by
  cases op with
  | base op => exact calm_possible (.base op)
  | «yield» chunk => rfl

def succeeded : Except Exc Unit → Bool
  | .ok () => true
  | .error _ => false

theorem scripted_call {events : List AnthropicEvent} (h : succeeded (scriptedRun events).2 = true) :
    Run (Drained PossibleCall) (plainInstrumentation.streamChat (scriptedProvider events) shortRequest)
      (scriptedRun events).1 (.ok ()) := by
  have hrun : Run (Drained PossibleCall)
      (plainInstrumentation.streamChat (scriptedProvider events) shortRequest)
      (scriptedRun events).1 (scriptedRun events).2 := by
    unfold scriptedRun
    exact drive_run (fun _ => calm_drained) 0 _
  cases hout : (scriptedRun events).2 with
  | ok u => exact hout ▸ hrun
  | error e =>
    rw [hout] at h
    cases h

theorem scripted_complete {events : List AnthropicEvent} (h : succeeded (scriptedRun events).2 = true) :
    Run PossibleCall ((plainInstrumentation.provider (scriptedProvider events)).complete shortRequest)
      (bases (scriptedRun events).1)
      (.ok ((yielded (scriptedRun events).1).foldl BaseProvider.collect {text := []})) :=
  BaseProvider.drain_iff.mpr ⟨_,_,scripted_call h,rfl,rfl⟩

/-- The same stream without its end. -/
def unfinished : List AnthropicEvent := [.messageStart (text "msg_1") ⟨some 5,some 1⟩,.textDelta (text "hi")]

/-- With its output count the response loses the input count; without it they agree. -/
theorem drains_agree_scripted :
    (∃ event, started (bases (scriptedRun endTurn).1) = [event] ∧ ¬ LastTellsAll (yielded (scriptedRun endTurn).1) ∧
      ¬ DrainsAgree ((yielded (scriptedRun endTurn).1).foldl BaseProvider.collect {text := []}) event.fields) ∧
    ∃ event, started (bases (scriptedRun unfinished).1) = [event] ∧ LastTellsAll (yielded (scriptedRun unfinished).1) ∧
      DrainsAgree ((yielded (scriptedRun unfinished).1).foldl BaseProvider.collect {text := []}) event.fields := by
  have hends : succeeded (scriptedRun endTurn).2 = true := by decide +kernel
  have hbreaks : succeeded (scriptedRun unfinished).2 = true := by decide +kernel
  have hlost : ¬ LastTellsAll (yielded (scriptedRun endTurn).1) := by decide +kernel
  have htold : LastTellsAll (yielded (scriptedRun unfinished).1) := by decide +kernel
  obtain ⟨call,event,hcall,hb,hs,hiff⟩ := drains_agree_iff (scripted_complete hends)
  obtain ⟨rfl,-⟩ := (scripted_call hends).drained_unique hcall hb
  obtain ⟨call',event',hcall',hb',hs',hiff'⟩ := drains_agree_iff (scripted_complete hbreaks)
  obtain ⟨rfl,-⟩ := (scripted_call hbreaks).drained_unique hcall' hb'
  exact ⟨⟨event,hs,hlost,fun hagree => hlost (hiff.mp hagree)⟩,event',hs',htold,hiff'.mpr htold⟩

/-- The response has lost the input count that the event has. -/
theorem end_turn_loses_input : ∃ tr response event,
    Run PossibleCall ((plainInstrumentation.provider (scriptedProvider endTurn)).complete shortRequest) tr
      (.ok response) ∧ started tr = [event] ∧ ¬ DrainsAgree response event.fields := by
  have hok : succeeded (scriptedRun endTurn).2 = true := by decide +kernel
  obtain ⟨call,event,hcall,hb,hs,-,hinput,-⟩ := complete_run (scripted_complete hok)
  obtain ⟨rfl,-⟩ := (scripted_call hok).drained_unique hcall hb
  refine ⟨_,_,event,scripted_complete hok,hs,fun hagree => ?_⟩
  have hlost := hagree.inputTokens
  rw [hinput] at hlost
  have hne : ((yielded (scriptedRun endTurn).1).foldl BaseProvider.collect {text := []}).usage.bind
      TokenUsage.inputTokens ≠
      last (fun c => c.usage.bind TokenUsage.inputTokens) (yielded (scriptedRun endTurn).1) := by
    decide +kernel
  exact hne hlost

end Instrumentation
end InferenceLogger
