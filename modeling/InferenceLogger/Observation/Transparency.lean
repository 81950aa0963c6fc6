import InferenceLogger.Observation.OneEvent

/-! # Observing a call does not change it

The caller of an instrumented provider sees what the inner provider alone would show it,
chunk by chunk and in the way it ends, exactly when the event of the call can be built and
nothing is thrown in while its publish is awaited.
-/
namespace InferenceLogger
open PyText PyJson AsyncTask

variable {B : Signature}

/-- Exceptions are objects: the refusal of the event, which only the wrapper raises, and what is
thrown in while it publishes are not what the inner provider alone would have ended with. -/
structure FreshExceptions (chunks : Gen B StreamChunk Exc Unit) (tr : CallTrace B) : Prop where
  own : ∀ e, ¬ Run Whatever chunks (visible tr) (.error (.own (.eventInvalid e)))
  publish : ∀ e, .error e ∈ publishAnswers (bases tr) → ¬ Run Whatever chunks (visible tr) (.error e)

/-- The event can be built, its publish is awaited undisturbed, and the inner provider lets out
what the caller throws in at a `yield`. -/
structure Undisturbed (inner : BaseProvider B) (request : ChatRequest) (tr : CallTrace B) : Prop where
  loggable : ∃ got exit, Reception (inner.streamChat request) (visible tr) got exit ∧
    Loggable inner.name request.model got exit (wallReadings (bases tr)) ∧
    Run Whatever (inner.streamChat request) (visible tr) exit
  awaited : ∀ r ∈ publishAnswers (bases tr), r = .ok ()

namespace Instrumentation
variable {w : Instrumentation} {inner : BaseProvider B} {request : ChatRequest}

theorem CallRun.publishAnswers_eq {tr : CallTrace B} {out : Except Exc Unit}
    (c : CallRun w inner request tr out) : publishAnswers (bases tr) = publishAnswers (bases c.rest) := by
  have hbody := c.loop.publish
  unfold publishAnswers at hbody
  rw [c.bases_eq]
  simp [publishAnswers,List.filterMap_cons,List.filterMap_append,publishAnswer,hbody]

theorem stream_transparent {tr : CallTrace B} {out : Except Exc Unit}
    (h : Run Possible (w.streamChat inner request) tr out)
    (hm : (monotonicReadings (bases tr)).Pairwise (· ≤ ·))
    (hfresh : FreshExceptions (inner.streamChat request) tr) :
    Run Whatever (inner.streamChat request) (visible tr) out ↔ Undisturbed inner request tr := by
  obtain ⟨c⟩ := streamChat_run h
  obtain ⟨got,hg,ho⟩ := c.loop.received
  rw [← c.visible_eq] at hg
  have hlog := c.loggable_iff hm ho
  cases hc : InferenceEvent.construct (w.eventFields inner request c.eventId c.startedAt c.completedAt
      (elapsedMs c.start c.stop) c.o c.exit) with
  | error e =>
    rw [hc] at hlog
    obtain ⟨-,hfin⟩ := c.finish.of_invalid hc
    have hout : out = .error (.own (.eventInvalid e)) := c.out_eq.trans (by rw [hfin]; rfl)
    constructor
    · intro hrun
      exact absurd (hout ▸ hrun) (hfresh.own _)
    · rintro ⟨⟨got',exit',hg',hl',-⟩,-⟩
      obtain ⟨rfl,rfl⟩ := hg.unique hg'
      obtain ⟨event,he⟩ := hlog.mpr hl'
      cases he
  | ok event =>
    rw [hc] at hlog
    have hl := hlog.mp ⟨event,rfl⟩
    have hpub : publishAnswers (bases tr) = [c.finished] := by
      rw [c.publishAnswers_eq, c.finish.of_valid hc]
      rfl
    have hended : c.finished = .ok () → out = c.exit := fun hf => c.out_eq.trans (by rw [hf]; rfl)
    constructor
    · intro hrun
      cases hf : c.finished with
      | error e =>
        have hout : out = .error e := c.out_eq.trans (by rw [hf]; rfl)
        exact absurd (hout ▸ hrun) (hfresh.publish e (by simp [hpub,hf]))
      | ok u => exact ⟨⟨got,c.exit,hg,hl,hended hf ▸ hrun⟩,by simp [hpub,hf]⟩
    · rintro ⟨⟨got',exit',hg',-,hrun⟩,hok⟩
      obtain ⟨rfl,rfl⟩ := hg.unique hg'
      rw [hended (hok c.finished (by simp [hpub]))]
      exact hrun

/-- The trace of a drained call is a possible one. -/
theorem drained_possible {op : GenOp (callSignature B) StreamChunk}
    {r : Except Exc ((genSignature (callSignature B) StreamChunk).Answer op)}
    (h : Drained PossibleCall op r) : Possible op r := by
  cases op with
  | base op => exact h
  | «yield» chunk =>
    intro e he
    cases h
    cases he

theorem visible_drained {tr : CallTrace B}
    {allowed : (op : CallOp B) → Except Exc ((callSignature B).Answer op) → Prop}
    (h : ∀ e ∈ tr, Drained (B := callSignature B) (Y := StreamChunk) allowed e.op e.answer) :
    ∀ e ∈ visible tr, Drained (B := B) (Y := StreamChunk) (fun _ _ => True) e.op e.answer := by
  intro e he
  obtain ⟨e',he',hv⟩ := List.mem_filterMap.mp he
  have hd := h e' he'
  rcases e' with ⟨op,r⟩
  cases op with
  | «yield» chunk =>
    cases hv
    exact hd
  | base op =>
    cases op with
    | inner op =>
      cases hv
      trivial
    | _ => cases hv

theorem yielded_visible (tr : CallTrace B) : yielded (visible tr) = yielded tr := by
  unfold yielded visible
  rw [List.filterMap_filterMap]
  congr 1
  funext e
  rcases e with ⟨op,r⟩
  cases op with
  | «yield» chunk => rfl
  | base op => cases op <;> rfl

theorem bases_visible (tr : CallTrace B) : bases (visible tr) = innerCalls (bases tr) := by
  unfold bases visible innerCalls
  rw [List.filterMap_filterMap, List.filterMap_filterMap]
  congr 1
  funext e
  rcases e with ⟨op,r⟩
  cases op with
  | «yield» chunk => rfl
  | base op => cases op <;> rfl

/-- A call that completes has delivered all of the inner provider's own run. -/
theorem complete_delivers {tr : Trace (callSignature B) Exc} {response : CompletedResponse}
    (h : Run PossibleCall ((w.provider inner).complete request) tr (.ok response)) :
    ∃ source, Run (Drained Whatever) (inner.streamChat request) source (.ok ()) ∧ bases source = innerCalls tr ∧
      response = (yielded source).foldl BaseProvider.collect {text := []} := by
  obtain ⟨call,exit,hcall,rfl,hout⟩ := BaseProvider.drain_iff.mp h
  cases exit with
  | error e => cases hout
  | ok u =>
    cases hout
    obtain ⟨c⟩ := streamChat_run (hcall.mono fun _ _ => drained_possible)
    obtain ⟨got,hgot,-⟩ := c.loop.received
    rw [← c.visible_eq] at hgot
    have hexit : c.exit = .ok () := by
      have hout := c.out_eq
      cases hf : c.finished with
      | ok v =>
        rw [hf] at hout
        exact hout.symm
      | error e =>
        rw [hf] at hout
        cases hout
    rw [hexit] at hgot
    refine ⟨visible call,hgot.drained (visible_drained hcall.answers),bases_visible call,?_⟩
    rw [yielded_visible]

/-- `complete` drains the call it makes, and shows what the inner provider's own `complete`
shows under the same condition. -/
theorem complete_transparent {tr : Trace (callSignature B) Exc} {out : Except Exc CompletedResponse}
    (h : Run PossibleCall ((w.provider inner).complete request) tr out) :
    ∃ (call : CallTrace B) (exit : Except Exc Unit),
      Run (Drained PossibleCall) (w.streamChat inner request) call exit ∧ tr = bases call ∧
      ((monotonicReadings tr).Pairwise (· ≤ ·) → FreshExceptions (inner.streamChat request) call →
        (Run Whatever (inner.complete request) (bases (visible call)) out ↔
          Undisturbed inner request call)) := by
  obtain ⟨call,exit,hcall,rfl,rfl⟩ := BaseProvider.drain_iff.mp h
  refine ⟨call,exit,hcall,rfl,fun hm hfresh => ?_⟩
  have hpossible := hcall.mono (fun _ _ => drained_possible)
  have hvisible := visible_drained hcall.answers
  rw [← stream_transparent hpossible hm hfresh]
  unfold BaseProvider.complete
  rw [BaseProvider.drain_iff, ← yielded_visible]
  constructor
  · rintro ⟨gtr,exit',hg,hb,ho⟩
    obtain ⟨c⟩ := streamChat_run hpossible
    obtain ⟨got,hgot,-⟩ := c.loop.received
    rw [← c.visible_eq] at hgot
    have halone := hgot.drained hvisible
    obtain ⟨rfl,rfl⟩ := halone.drained_unique hg hb
    have hexit : exit = c.exit := by
      cases exit with
      | ok u =>
        cases hx : c.exit with
        | ok v => rfl
        | error e =>
          rw [hx] at ho
          cases ho
      | error e =>
        cases hx : c.exit with
        | ok v =>
          rw [hx] at ho
          cases ho
        | error e' =>
          rw [hx] at ho
          cases ho
          rfl
    rw [hexit]
    exact halone.mono fun _ _ _ => trivial
  · intro hrun
    have hdrained := hrun.restrict hvisible
    exact ⟨visible call,exit,hdrained,rfl,rfl⟩

/-- Observation leaves the chunks and the outcome of a call alone, streamed or not, exactly in
the undisturbed calls. -/
theorem observation_transparent_iff (w : Instrumentation) (inner : BaseProvider B) (request : ChatRequest) :
    (∀ (tr : CallTrace B) (out : Except Exc Unit),
      Run Possible (w.streamChat inner request) tr out →
      (monotonicReadings (bases tr)).Pairwise (· ≤ ·) → FreshExceptions (inner.streamChat request) tr →
      (Run Whatever (inner.streamChat request) (visible tr) out ↔ Undisturbed inner request tr)) ∧
    (∀ (tr : Trace (callSignature B) Exc) (out : Except Exc CompletedResponse),
      Run PossibleCall ((w.provider inner).complete request) tr out →
      ∃ (call : CallTrace B) (exit : Except Exc Unit),
        Run (Drained PossibleCall) (w.streamChat inner request) call exit ∧ tr = bases call ∧
        ((monotonicReadings tr).Pairwise (· ≤ ·) → FreshExceptions (inner.streamChat request) call →
          (Run Whatever (inner.complete request) (bases (visible call)) out ↔
            Undisturbed inner request call))) :=
  ⟨fun _ _ h hm hfresh => stream_transparent h hm hfresh,fun _ _ h => complete_transparent h⟩

/-! ## One chunk, and a model name the event cannot hold -/

def answersOk (tr : Trace (genSignature quietSignature StreamChunk) Exc) : Bool :=
  tr.all fun
    | ⟨.yield _,.error _⟩ => false
    | _ => true

theorem oneChunk_ends {tr : Trace (genSignature quietSignature StreamChunk) Exc} {e : Exc}
    (ha : answersOk tr = true) : ¬ Run Whatever oneChunk tr (.error e) := by
  intro h
  obtain ⟨rfl,-⟩ := Run.call_iff.mp h
  cases ha

theorem calm_fresh {model : Text} (hv : answersOk (visible (calmRun model).1) = true) :
    FreshExceptions oneChunk (calmRun model).1 :=
  ⟨fun _ => oneChunk_ends hv,fun _ _ => oneChunk_ends hv⟩

def raised : Except Exc Unit → Bool
  | .error _ => true
  | .ok _ => false

/-- The one chunk was handed out, and the caller went on. -/
def handedOut : Trace (genSignature quietSignature StreamChunk) Exc → Bool
  | [⟨.yield ⟨t,none,none,[]⟩,.ok _⟩] => decide (t = text "hi")
  | _ => false

theorem oneChunk_handedOut {tr : Trace (genSignature quietSignature StreamChunk) Exc}
    {out : Except Exc Unit} (hs : handedOut tr = true) (hr : raised out = false) : Run Whatever oneChunk tr out := by
  unfold handedOut at hs
  split at hs
  · cases of_decide_eq_true hs
    cases out with
    | ok u => exact Run.call_iff.mpr ⟨rfl,trivial⟩
    | error e => cases hr
  · cases hs

/-- The calm call is undisturbed, and its caller sees what the inner provider shows. -/
theorem observation_transparent_short :
    Run Whatever oneChunk (visible (calmRun (text "mock-1")).1) (calmRun (text "mock-1")).2 ∧
      Undisturbed oneChunkProvider {messages := [], model := text "mock-1"} (calmRun (text "mock-1")).1 := by
  have hshown : Run Whatever oneChunk (visible (calmRun (text "mock-1")).1) (calmRun (text "mock-1")).2 :=
    oneChunk_handedOut (by decide +kernel) (by decide +kernel)
  refine ⟨hshown,?_⟩
  exact ((observation_transparent_iff plainInstrumentation oneChunkProvider
    {messages := [], model := text "mock-1"}).1 _ _ (drive_run (fun _ => calm_possible) 0 _)
    (by decide +kernel) (calm_fresh (by decide +kernel))).mp hshown

/-- With a model name of 129 characters the caller gets an exception in place of the normal end. -/
theorem long_model_replaced :
    ∃ (model : Text) (tr : CallTrace quietSignature) (out : Except Exc Unit), model ≠ [] ∧
      Run Possible (plainInstrumentation.streamChat oneChunkProvider {messages := [], model := model}) tr out ∧
      (monotonicReadings (bases tr)).Pairwise (· ≤ ·) ∧ FreshExceptions oneChunk tr ∧
      ¬ Run Whatever oneChunk (visible tr) out := by
  have hanswers : answersOk (visible (calmRun (List.replicate 129 0x6d)).1) = true := by decide +kernel
  refine ⟨List.replicate 129 0x6d,_,_,by decide,drive_run (fun _ => calm_possible) 0 _,by decide +kernel,
    calm_fresh hanswers,?_⟩
  have hraised : raised (calmRun (List.replicate 129 0x6d)).2 = true := by decide +kernel
  intro hrun
  have hrun' : Run Whatever oneChunk (visible (calmRun (List.replicate 129 0x6d)).1)
    (calmRun (List.replicate 129 0x6d)).2 := hrun
  cases hout : (calmRun (List.replicate 129 0x6d)).2 with
  | ok u =>
    rw [hout] at hraised
    cases hraised
  | error e =>
    rw [hout] at hrun'
    exact oneChunk_ends hanswers hrun'

end Instrumentation
end InferenceLogger
