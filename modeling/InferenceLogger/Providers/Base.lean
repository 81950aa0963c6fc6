import InferenceLogger.Core.Errors
import InferenceLogger.Foundation.Task

/-! # The provider abstraction

A provider is a generator of chunks over operations of its own, about which nothing is
assumed: `B` is whatever the vendor's client awaits. A provider that would go on for
ever is represented by the generators that agree with it as far as a call reads it.
-/
namespace InferenceLogger
open PyText PyJson AsyncTask

structure ChatMessage where
  role : MessageRole
  content : Text

structure TokenUsage where
  inputTokens : Option ℤ := none
  outputTokens : Option ℤ := none

structure StreamChunk where
  deltaText : Text := []
  finishReason : Option Text := none
  usage : Option TokenUsage := none
  metadata : Members := []

structure ChatRequest where
  messages : List ChatMessage
  model : Text
  maxOutputTokens : ℤ := 16000
  system : Option Text := none

structure CompletedResponse where
  text : Text
  usage : Option TokenUsage := none
  finishReason : Option Text := none
  metadata : Members := []

/-- `d.update(other)`. -/
def updateMembers (d other : Members) : Members := other.foldl (fun d m => setItem d m.1 m.2) d

structure BaseProvider (B : Signature) where
  name : Text
  defaultModel : Text
  isConfigured : Bool
  maxOutputTokensCap : Option ℤ
  streamChat : ChatRequest → Gen B StreamChunk Exc Unit

namespace BaseProvider
variable {B : Signature}

def clampOutputTokens (p : BaseProvider B) (requested : ℤ) : ℤ :=
  match p.maxOutputTokensCap with
  | some cap => min requested cap
  | none => requested

/-- The loop body of `complete`. -/
def collect (r : CompletedResponse) (chunk : StreamChunk) : CompletedResponse where
  text := r.text ++ chunk.deltaText
  usage := chunk.usage.or r.usage
  finishReason := chunk.finishReason.or r.finishReason
  metadata := updateMembers r.metadata chunk.metadata

theorem foldl_text (got : List StreamChunk) (r : CompletedResponse) :
    (got.foldl collect r).text = r.text ++ (got.map StreamChunk.deltaText).flatten := by
  induction got generalizing r with
  | nil => simp
  | cons c got ih =>
    rw [List.foldl_cons, ih]
    simp [collect]

/-- The drain behind `complete`, for any generator of chunks. -/
def drain (chunks : Gen B StreamChunk Exc Unit) : Task B Exc CompletedResponse := do
  let (response,ended) ← asyncFor (S := B) Task.call chunks {text := []} fun r chunk =>
    .done (collect r chunk,.ok ())
  Task.ofExcept ended
  return response

/-- A drain is a run of the generator in which every chunk is accepted. -/
theorem drain_iff {allowed : (op : B.Op) → Except Exc (B.Answer op) → Prop}
    {chunks : Gen B StreamChunk Exc Unit} {tr : Trace B Exc} {out : Except Exc CompletedResponse} :
    Run allowed (drain chunks) tr out ↔
      ∃ gtr exit, Run (Drained allowed) chunks gtr exit ∧ tr = bases gtr ∧
        out = exit.map fun _ => (yielded gtr).foldl collect {text := []} := by
  unfold drain
  rw [Run.bind_iff]
  constructor
  · rintro (⟨tr₁,⟨response,ended⟩,tr₂,rfl,h₁,h₂⟩ | ⟨e,-,h₁⟩)
    · obtain ⟨gtr,exit,hg,rfl,ho⟩ := asyncFor_pure_iff.mp h₁
      cases ho
      refine ⟨gtr,ended,hg,?_⟩
      cases ended with
      | ok u =>
        obtain ⟨rfl,rfl⟩ := Run.done_iff.mp h₂
        exact ⟨by simp,rfl⟩
      | error e =>
        obtain ⟨rfl,rfl⟩ := Run.raise_iff.mp h₂
        exact ⟨by simp,rfl⟩
    · obtain ⟨gtr,exit,-,-,ho⟩ := asyncFor_pure_iff.mp h₁
      cases ho
  · rintro ⟨gtr,exit,hg,rfl,rfl⟩
    refine .inl ⟨bases gtr,_,[],by simp,asyncFor_pure_iff.mpr ⟨gtr,exit,hg,rfl,rfl⟩,?_⟩
    cases exit with
    | ok u => exact .done _
    | error e => exact .raise e

def complete (p : BaseProvider B) (request : ChatRequest) : Task B Exc CompletedResponse :=
  drain (p.streamChat request)

end BaseProvider
end InferenceLogger
