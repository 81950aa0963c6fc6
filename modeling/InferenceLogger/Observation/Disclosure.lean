import InferenceLogger.Instrumentation.DefaultRules
import InferenceLogger.Observation.OneEvent
import InferenceLogger.Providers.Vendors

/-! # What an event discloses

The three free-text fields of the published event, as functions of what the call was about. Two
of them go through the redactor; the text of an exception does not.
-/
namespace InferenceLogger
open PyText AsyncTask

/-- How a call ends. -/
inductive Ending where
  | success
  | cancelled
  | providerError
  | otherError
  deriving DecidableEq

def ExcClass.ending : ExcClass → Ending
  | .cancelledError => .cancelled
  | .generatorExit => .cancelled
  | .appError a => if a.kind = .provider then .providerError else .otherError
  | _ => .otherError

def endingOf : Except Exc Unit → Ending
  | .ok () => .success
  | .error e => e.cls.ending

/-- The text of the exception a failed call ends with. -/
def errorText : Except Exc Unit → Option Text
  | .ok () => none
  | .error e => if e.cls.ending = .cancelled then none else some e.cls.str

theorem ExcClass.ending_ne_success (c : ExcClass) : c.ending ≠ .success := by
  unfold ending
  split
  · simp
  · simp
  · split <;> simp
  · simp

variable {B : Signature}

/-- Two calls the redactor does not tell apart: the same kind of outcome, equal previews of the
newest user text and of the output, and error texts that are equal once redacted. -/
structure Alike (r : Redactor) (request₁ request₂ : ChatRequest) (got₁ got₂ : List StreamChunk)
    (exit₁ exit₂ : Except Exc Unit) : Prop where
  ending : endingOf exit₁ = endingOf exit₂
  input : r.preview (lastUserText request₁) = r.preview (lastUserText request₂)
  output : r.preview (some (got₁.map StreamChunk.deltaText).flatten) =
    r.preview (some (got₂.map StreamChunk.deltaText).flatten)
  redacted : (errorText exit₁).map r.redact = (errorText exit₂).map r.redact
  previewed : r.preview (errorText exit₁) = r.preview (errorText exit₂)
  nonempty : errorText exit₁ ≠ some [] ∧ errorText exit₂ ≠ some []

/-- The free-text fields are the same. -/
def SameTexts (a b : EventFields) : Prop :=
  a.inputPreview = b.inputPreview ∧ a.outputPreview = b.outputPreview ∧ a.errorMessage = b.errorMessage

theorem Observed.foldl_chunks (got : List StreamChunk) (o : Observed) :
    (got.foldl absorb o).chunks = o.chunks ++ got.map StreamChunk.deltaText := by
  induction got generalizing o with
  | nil => simp
  | cons c got ih =>
    rw [List.foldl_cons, ih]
    simp [absorb]

namespace Instrumentation
variable {w w₁ w₂ : Instrumentation}

/-- The message of a failed call is the exception's text, unless that is empty. -/
theorem terminal_message {exit : Except Exc Unit} (h : errorText exit ≠ some []) :
    (terminal exit).2.2 = match endingOf exit with
      | .success => none
      | .cancelled => some (text "Cancelled by client")
      | _ => errorText exit := by
  cases exit with
  | ok u => rfl
  | error e =>
    have hnonempty : ∀ {t c : Text}, some t ≠ some [] → some ((orText (some t) none).getD c) = some t := by
      intro t c ht
      obtain ⟨a,as,rfl⟩ := List.exists_cons_of_ne_nil (fun h => ht (congrArg some h))
      rfl
    simp only [terminal, errorText, endingOf] at h ⊢
    generalize e.cls = c at h ⊢
    cases c with
    | cancelledError => rfl
    | generatorExit => rfl
    | baseException name message => exact hnonempty h
    | eventInvalid err => exact hnonempty h
    | exception name message => exact hnonempty h
    | appError a =>
      by_cases hk : a.kind = .provider
      · simp only [classify, ExcClass.ending, hk, if_true]
        rfl
      · simp only [ExcClass.ending, hk, if_false, reduceCtorEq] at h
        simp only [classify, ExcClass.ending, hk, if_false, reduceCtorEq]
        exact hnonempty h

/-- The free-text fields of the event a call publishes. -/
theorem published_texts {inner : BaseProvider B} {request : ChatRequest} {tr : CallTrace B} {out : Except Exc Unit}
    {event : InferenceEvent} {got : List StreamChunk} {exit : Except Exc Unit}
    (h : Run Possible (w.streamChat inner request) tr out) (he : event ∈ started (bases tr))
    (hg : Reception (inner.streamChat request) (visible tr) got exit) :
    event.fields.inputPreview = w.redactor.preview (lastUserText request) ∧
    event.fields.outputPreview = w.redactor.preview (some (got.map StreamChunk.deltaText).flatten) ∧
    event.fields.errorMessage = (terminal exit).2.2 := by
  obtain ⟨c⟩ := streamChat_run h
  obtain ⟨got',hg',ho⟩ := c.loop.received
  rw [← c.visible_eq] at hg'
  obtain ⟨rfl,rfl⟩ := hg.unique hg'
  rw [(InferenceEvent.construct_ok_iff.mp (c.constructed he)).2]
  have hchunks : c.o.chunks = got.map StreamChunk.deltaText := by
    rw [ho]
    exact Observed.foldl_chunks got {}
  refine ⟨rfl,?_,rfl⟩
  rw [← hchunks]
  rfl

/-- Of two calls the redactor does not tell apart, the published texts are the same exactly when
the exceptions carried the same text. -/
theorem published_texts_iff {B₁ B₂ : Signature} {inner₁ : BaseProvider B₁} {inner₂ : BaseProvider B₂}
    {request₁ request₂ : ChatRequest} {tr₁ : CallTrace B₁} {tr₂ : CallTrace B₂} {out₁ out₂ : Except Exc Unit}
    {event₁ event₂ : InferenceEvent} {got₁ got₂ : List StreamChunk} {exit₁ exit₂ : Except Exc Unit}
    (h₁ : Run Possible (w₁.streamChat inner₁ request₁) tr₁ out₁)
    (h₂ : Run Possible (w₂.streamChat inner₂ request₂) tr₂ out₂) (hw : w₁.redactor = w₂.redactor)
    (he₁ : event₁ ∈ started (bases tr₁)) (he₂ : event₂ ∈ started (bases tr₂))
    (hg₁ : Reception (inner₁.streamChat request₁) (visible tr₁) got₁ exit₁)
    (hg₂ : Reception (inner₂.streamChat request₂) (visible tr₂) got₂ exit₂)
    (halike : Alike w₁.redactor request₁ request₂ got₁ got₂ exit₁ exit₂) :
    SameTexts event₁.fields event₂.fields ↔ errorText exit₁ = errorText exit₂ := by
  obtain ⟨hin₁,hout₁,herr₁⟩ := published_texts h₁ he₁ hg₁
  obtain ⟨hin₂,hout₂,herr₂⟩ := published_texts h₂ he₂ hg₂
  have hin : event₁.fields.inputPreview = event₂.fields.inputPreview := by
    rw [hin₁, hin₂, ← hw]
    exact halike.input
  have hout : event₁.fields.outputPreview = event₂.fields.outputPreview := by
    rw [hout₁, hout₂, ← hw]
    exact halike.output
  have hending := halike.ending
  rw [terminal_message halike.nonempty.1] at herr₁
  rw [terminal_message halike.nonempty.2, ← hending] at herr₂
  have hquiet : ∀ {exit : Except Exc Unit}, endingOf exit = .success ∨ endingOf exit = .cancelled →
      errorText exit = none := by
    intro exit h
    cases exit with
    | ok u => rfl
    | error e =>
      rcases h with h | h
      · exact absurd h e.cls.ending_ne_success
      · exact if_pos h
  have herr : event₁.fields.errorMessage = event₂.fields.errorMessage ↔ errorText exit₁ = errorText exit₂ := by
    rw [herr₁, herr₂]
    cases hk : endingOf exit₁ with
    | success =>
      rw [hquiet (.inl hk), hquiet (.inl (hending.symm.trans hk))]
    | cancelled =>
      rw [hquiet (.inr hk), hquiet (.inr (hending.symm.trans hk))]
      exact iff_of_true rfl rfl
    | providerError => rfl
    | otherError => rfl
  exact ⟨fun h => herr.mp h.2.2,fun h => ⟨hin,hout,herr.mpr h⟩⟩

/-! ## A vendor that quotes the key it was given -/

/-- A provider whose vendor refuses the call with this text. -/
def refusing (str : Text) : BaseProvider quietSignature where
  name := text "openai"
  defaultModel := text "m"
  isConfigured := true
  maxOutputTokensCap := none
  streamChat _ := .raise (.foreign 0 (.appError (OpenAIProvider.translate (text "AuthenticationError") str)))

def guarded : Instrumentation := ⟨defaultRedactor (fun _ => true) 500,none,true⟩

def quotingA : Text := text "bad key sk-aaaaaaaaaaaaaaaa"
def quotingB : Text := text "bad key sk-bbbbbbbbbbbbbbbb"

def anyRequest : ChatRequest := {messages := [], model := text "m"}

/-- The call that is refused with this text. -/
@[irreducible] def refusedRun (str : Text) : CallTrace quietSignature × Except Exc Unit :=
  drive (fun _ => calm) 0 (guarded.streamChat (refusing str) anyRequest)

def refusedExit (str : Text) : Except Exc Unit :=
  .error (.foreign 0 (.appError (OpenAIProvider.translate (text "AuthenticationError") str)))

theorem refused_ending (str : Text) : endingOf (refusedExit str) = .providerError := rfl

theorem refused_run (str : Text) :
    Run Possible (guarded.streamChat (refusing str) anyRequest) (refusedRun str).1 (refusedRun str).2 := by
  unfold refusedRun
  exact drive_run (fun _ => calm_possible) 0 _

theorem refused_reception {str : Text} (h : (visible (refusedRun str).1).isEmpty = true) :
    Reception ((refusing str).streamChat anyRequest) (visible (refusedRun str).1) [] (refusedExit str) := by
  rw [List.isEmpty_iff.mp h]
  exact .raised _

theorem refused_published (str : Text) (h : (started (bases (refusedRun str).1)).isEmpty = false) :
    ∃ event, event ∈ started (bases (refusedRun str).1) :=
  List.exists_mem_of_ne_nil _ fun hnil => by simp [hnil] at h

theorem quoting_alike :
    Alike guarded.redactor anyRequest anyRequest [] [] (refusedExit quotingA) (refusedExit quotingB) := by
  refine ⟨(refused_ending _).trans (refused_ending _).symm,rfl,rfl,?_,?_,?_⟩
  · decide
  · decide
  · decide

theorem published_texts_quoting : ∃ event₁ event₂, event₁ ∈ started (bases (refusedRun quotingA).1) ∧
    event₂ ∈ started (bases (refusedRun quotingB).1) ∧ errorText (refusedExit quotingA) ≠ errorText (refusedExit quotingB) ∧
    ¬ SameTexts event₁.fields event₂.fields := by
  obtain ⟨event₁,he₁⟩ := refused_published quotingA (by decide +kernel)
  obtain ⟨event₂,he₂⟩ := refused_published quotingB (by decide +kernel)
  have hiff := published_texts_iff (refused_run _) (refused_run _) rfl he₁ he₂
    (refused_reception (by decide +kernel)) (refused_reception (by decide +kernel)) quoting_alike
  have hquoted : errorText (refusedExit quotingA) ≠ errorText (refusedExit quotingB) := by decide
  exact ⟨event₁,event₂,he₁,he₂,hquoted,fun hsame => hquoted (hiff.mp hsame)⟩

/-- Two refused calls that differ only in the key the vendor quotes: the events differ. -/
theorem quoted_key_published : ∃ event₁ event₂, event₁ ∈ started (bases (refusedRun quotingA).1) ∧
    event₂ ∈ started (bases (refusedRun quotingB).1) ∧
    Alike guarded.redactor anyRequest anyRequest [] [] (refusedExit quotingA) (refusedExit quotingB) ∧
    ¬ SameTexts event₁.fields event₂.fields := by
  obtain ⟨event₁,he₁⟩ := refused_published quotingA (by decide +kernel)
  obtain ⟨event₂,he₂⟩ := refused_published quotingB (by decide +kernel)
  refine ⟨event₁,event₂,he₁,he₂,quoting_alike,?_⟩
  rintro ⟨-,-,herr⟩
  rw [(published_texts (refused_run _) he₁ (refused_reception (by decide +kernel))).2.2,
    (published_texts (refused_run _) he₂ (refused_reception (by decide +kernel))).2.2] at herr
  have hne : (terminal (refusedExit quotingA)).2.2 ≠ (terminal (refusedExit quotingB)).2.2 := by decide
  exact hne herr

end Instrumentation
end InferenceLogger
