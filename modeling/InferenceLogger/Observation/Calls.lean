import InferenceLogger.Instrumentation.Wrapper
import Mathlib.Data.List.Basic
import Mathlib.Data.Int.Order.Basic

/-! # What a run of an instrumented call shows

A run is read through its trace: the ids minted, the publishes started, the readings of
the two clocks, and what the caller and the inner provider exchanged.
-/
namespace InferenceLogger
open PyText PyJson AsyncTask

variable {B : Signature}

abbrev CallTrace (B : Signature) := Trace (genSignature (callSignature B) StreamChunk) Exc

/-- What an operation of the call's environment can answer. Anything may be thrown in at an
await or a `yield`; the synchronous calls return. -/
def PossibleCall : (op : CallOp B) → Except Exc ((callSignature B).Answer op) → Prop
  | .inner _, r => ∀ e, r = .error e → e.isForeign = true
  | .awaitPublish _, r => ∀ e, r = .error e → e.isForeign = true
  | .uuid4, r => ∃ a, r = .ok a
  | .now, r => ∃ a, r = .ok a
  | .monotonic, r => ∃ a, r = .ok a
  | .createPublish _, r => ∃ a, r = .ok a

def Possible : (op : GenOp (callSignature B) StreamChunk) →
    Except Exc ((genSignature (callSignature B) StreamChunk).Answer op) → Prop
  | .base op, r => PossibleCall op r
  | .yield _, r => ∀ e, r = .error e → e.isForeign = true

abbrev CallEvents (B : Signature) := Trace (callSignature B) Exc

section Projections

def visibleEvent : Event (genSignature (callSignature B) StreamChunk) Exc →
    Option (Event (genSignature B StreamChunk) Exc)
  | ⟨.base (.inner op),r⟩ => some ⟨.base op,r⟩
  | ⟨.yield chunk,r⟩ => some ⟨.yield chunk,r⟩
  | _ => none

/-- What passed between the inner provider and the caller. -/
def visible (tr : CallTrace B) : Trace (genSignature B StreamChunk) Exc := tr.filterMap visibleEvent

def innerEvent : Event (callSignature B) Exc → Option (Event B Exc)
  | ⟨.inner op,r⟩ => some ⟨op,r⟩
  | _ => none

/-- What the inner provider awaited. -/
def innerCalls (tr : CallEvents B) : Trace B Exc := tr.filterMap innerEvent

def startedEvent : Event (callSignature B) Exc → Option InferenceEvent
  | ⟨.createPublish event,_⟩ => some event
  | _ => none

def started (tr : CallEvents B) : List InferenceEvent := tr.filterMap startedEvent

def mintedEvent : Event (callSignature B) Exc → Option Uuid
  | ⟨.uuid4,.ok u⟩ => some u
  | _ => none

def minted (tr : CallEvents B) : List Uuid := tr.filterMap mintedEvent

def wallEvent : Event (callSignature B) Exc → Option ℤ
  | ⟨.now,.ok t⟩ => some t
  | _ => none

def wallReadings (tr : CallEvents B) : List ℤ := tr.filterMap wallEvent

def monotonicEvent : Event (callSignature B) Exc → Option ℕ
  | ⟨.monotonic,.ok t⟩ => some t
  | _ => none

def monotonicReadings (tr : CallEvents B) : List ℕ := tr.filterMap monotonicEvent

/-- A cancellation that reaches the publish task through the await. -/
def cancelsPublish (tr : CallEvents B) : Bool := tr.any fun
  | ⟨.awaitPublish .direct,.error e⟩ => e.isCancelled
  | _ => false

def publishAnswer : Event (callSignature B) Exc → Option (Except Exc Unit)
  | ⟨.awaitPublish _,r⟩ => some r
  | _ => none

/-- How the await of the publish came back. -/
def publishAnswers (tr : CallEvents B) : List (Except Exc Unit) := tr.filterMap publishAnswer

end Projections

/-! ## The loop -/

namespace Observed

theorem absorb_timed (o : Observed) (t : Option ℤ) (chunk : StreamChunk) :
    ({o with ttftMs := t} : Observed).absorb chunk = {o.absorb chunk with ttftMs := t} := rfl

theorem foldl_absorb_timed (got : List StreamChunk) (o : Observed) (t : Option ℤ) :
    got.foldl absorb {o with ttftMs := t} = {got.foldl absorb o with ttftMs := t} := by
  induction got generalizing o with
  | nil => rfl
  | cons chunk got ih =>
    simp only [List.foldl_cons, absorb_timed]
    exact ih (o.absorb chunk)

end Observed

namespace Instrumentation
variable (w : Instrumentation) (inner : BaseProvider B)

/-- The loop of `stream_chat` over any generator. -/
def loop (start : ℕ) (chunks : Gen B StreamChunk Exc Unit) (o : Observed) :
    CallGen B (Observed × Except Exc Unit) :=
  asyncFor (S := genSignature (callSignature B) StreamChunk)
    (fun op => Gen.baseCall (B := callSignature B) (.inner op)) chunks o (observe start)

/-- What one run of the loop can have done. -/
structure LoopRun (start : ℕ) (chunks : Gen B StreamChunk Exc Unit) (o : Observed) (tr : CallTrace B)
    (o' : Observed) (exit : Except Exc Unit) : Prop where
  received : ∃ got, Reception chunks (visible tr) got exit ∧
    o' = {got.foldl Observed.absorb o with ttftMs := o'.ttftMs}
  ttft : o'.ttftMs = o.ttftMs ∨ ∃ stop ∈ monotonicReadings (bases tr), o'.ttftMs = some (elapsedMs start stop)
  untimed : o'.ttftMs = none ↔ o.ttftMs = none ∧ ∀ c ∈ yielded tr, c.deltaText = []
  started : started (bases tr) = []
  minted : minted (bases tr) = []
  wall : wallReadings (bases tr) = []
  publish : publishAnswers (bases tr) = []
  cancels : cancelsPublish (bases tr) = false

theorem timed_run {start : ℕ} {o : Observed} {chunk : StreamChunk} {tr out}
    (h : Run PossibleCall (timed (B := B) start o chunk) tr out) :
    ∃ t, out = .ok {o with ttftMs := t} ∧
      ((tr = [] ∧ t = o.ttftMs) ∨ ∃ stop, tr = [⟨.monotonic,.ok stop⟩] ∧ t = some (elapsedMs start stop)) ∧
      (t = none ↔ o.ttftMs = none ∧ chunk.deltaText = []) := by
  unfold timed at h
  split at h
  · rename_i hfirst
    rcases Run.bind_iff.mp h with ⟨tr₁,stop,tr₂,rfl,h₁,h₂⟩ | ⟨e,rfl,h₁⟩
    · obtain ⟨rfl,-⟩ := Run.call_iff.mp h₁
      obtain ⟨rfl,rfl⟩ := Run.done_iff.mp h₂
      exact ⟨_,rfl,.inr ⟨stop,rfl,rfl⟩,by simp [hfirst.2]⟩
    · obtain ⟨-,a,ha⟩ := Run.call_iff.mp h₁
      cases ha
  · rename_i hlater
    obtain ⟨rfl,rfl⟩ := Run.done_iff.mp h
    refine ⟨_,rfl,.inl ⟨rfl,rfl⟩,fun ht => ⟨ht,?_⟩,And.left⟩
    by_contra hne
    exact hlater ⟨ht,hne⟩

theorem observe_run {start : ℕ} {o : Observed} {chunk : StreamChunk} {tr : CallTrace B} {out}
    (h : Run Possible (observe start o chunk) tr out) :
    ∃ t resumed before, out = .ok (({o with ttftMs := t} : Observed).absorb chunk,resumed) ∧
      tr = before ++ [⟨.yield chunk,resumed⟩] ∧
      ((before = [] ∧ t = o.ttftMs) ∨
        ∃ stop, before = [⟨.base .monotonic,.ok stop⟩] ∧ t = some (elapsedMs start stop)) ∧
      (t = none ↔ o.ttftMs = none ∧ chunk.deltaText = []) := by
  rcases Run.bind_iff.mp h with ⟨tr₁,o₁,tr₂,rfl,h₁,h₂⟩ | ⟨e,rfl,h₁⟩
  · obtain ⟨base,rfl,hb⟩ := Run.ofBase_iff.mp h₁
    obtain ⟨t,ho,ht,hnone⟩ := timed_run hb
    cases ho
    rcases Run.bind_iff.mp h₂ with ⟨tr₃,resumed,tr₄,rfl,h₃,h₄⟩ | ⟨e,rfl,h₃⟩
    · obtain ⟨r,hr,hy⟩ := Run.attempt_iff.mp h₃
      cases hr
      obtain ⟨rfl,-⟩ := Run.call_iff.mp hy
      obtain ⟨rfl,rfl⟩ := Run.done_iff.mp h₄
      refine ⟨t,resumed,base.map Gen.baseEvent,rfl,by simp,?_,hnone⟩
      rcases ht with ⟨rfl,rfl⟩ | ⟨stop,rfl,rfl⟩
      · exact .inl ⟨rfl,rfl⟩
      · exact .inr ⟨stop,rfl,rfl⟩
    · obtain ⟨r,hr,-⟩ := Run.attempt_iff.mp h₃
      cases hr
  · obtain ⟨base,-,hb⟩ := Run.ofBase_iff.mp h₁
    obtain ⟨t,ho,-⟩ := timed_run hb
    cases ho

theorem loop_run {start : ℕ} {chunks : Gen B StreamChunk Exc Unit} {o : Observed} {tr : CallTrace B} {out}
    (h : Run Possible (loop start chunks o) tr out) :
    ∃ o' exit, out = .ok (o',exit) ∧ LoopRun start chunks o tr o' exit := by
  induction chunks generalizing o tr with
  | done a =>
    obtain ⟨rfl,rfl⟩ := Run.done_iff.mp h
    exact ⟨o,_,rfl,⟨[],.exhausted,rfl⟩,.inl rfl,by simp [yielded],rfl,rfl,rfl,rfl,rfl⟩
  | raise e =>
    obtain ⟨rfl,rfl⟩ := Run.done_iff.mp h
    exact ⟨o,_,rfl,⟨[],.raised e,rfl⟩,.inl rfl,by simp [yielded],rfl,rfl,rfl,rfl,rfl⟩
  | await op k ih =>
    cases op with
    | base op =>
      obtain ⟨tr₁,r,tr₂,rfl,h₁,h₂⟩ := Run.resume_iff.mp h
      obtain ⟨rfl,-⟩ := Run.call_iff.mp h₁
      obtain ⟨o',exit,rfl,hl⟩ := ih r h₂
      obtain ⟨got,hg,ho⟩ := hl.received
      exact ⟨o',exit,rfl,⟨got,hg.base,ho⟩,hl.ttft,hl.untimed,hl.started,hl.minted,hl.wall,hl.publish,hl.cancels⟩
    | «yield» chunk =>
      obtain ⟨tr₁,r,tr₂,rfl,h₁,h₂⟩ := Run.resume_iff.mp h
      obtain ⟨t,resumed,before,rfl,rfl,hb,hnone⟩ := observe_run h₁
      cases resumed with
      | error e =>
        obtain ⟨rfl,rfl⟩ := Run.done_iff.mp h₂
        refine ⟨_,_,rfl,?_⟩
        rcases hb with ⟨rfl,rfl⟩ | ⟨stop,rfl,rfl⟩
        · exact ⟨⟨[chunk],.interrupted e,rfl⟩,.inl rfl,hnone.trans (by simp [yielded,yieldOf]),
            rfl,rfl,rfl,rfl,rfl⟩
        · exact ⟨⟨[chunk],.interrupted e,rfl⟩,.inr ⟨stop,.head _,rfl⟩,
            hnone.trans (by simp [yielded,yieldOf]),rfl,rfl,rfl,rfl,rfl⟩
      | ok u =>
        obtain ⟨o',exit,rfl,hl⟩ := ih (.ok ()) h₂
        obtain ⟨got,hg,ho⟩ := hl.received
        refine ⟨o',exit,rfl,?_⟩
        have hfold : o' = {(chunk :: got).foldl Observed.absorb o with ttftMs := o'.ttftMs} := by
          rw [ho, Observed.absorb_timed, Observed.foldl_absorb_timed]
          rfl
        have huntimed : o'.ttftMs = none ↔
            o.ttftMs = none ∧ ∀ c ∈ chunk :: yielded tr₂, c.deltaText = [] := by
          rw [hl.untimed, List.forall_mem_cons, ← and_assoc, ← hnone]
          rfl
        rcases hb with ⟨rfl,rfl⟩ | ⟨stop,rfl,rfl⟩
        · exact ⟨⟨_,hg.resumed,hfold⟩,hl.ttft,huntimed,hl.started,hl.minted,hl.wall,hl.publish,hl.cancels⟩
        · refine ⟨⟨_,hg.resumed,hfold⟩,?_,huntimed,hl.started,hl.minted,hl.wall,hl.publish,hl.cancels⟩
          rcases hl.ttft with ht | ⟨stop',hs,ht⟩
          · exact .inr ⟨stop,.head _,ht⟩
          · exact .inr ⟨stop',.tail _ hs,ht⟩

/-! ## The whole call -/

/-- How the `finally` block can go, given the fields it fills in: the event is invalid and the
exception replaces the outcome, or its publish is started and awaited. -/
inductive FinishRun (fields : EventFields) : CallTrace B → Except Exc Unit → Prop where
  | invalid {e : EventError} :
      InferenceEvent.construct fields = .error e → FinishRun fields [] (.error (.own (.eventInvalid e)))
  | published {event : InferenceEvent} (r : Except Exc Unit) :
      InferenceEvent.construct fields = .ok event →
      FinishRun fields [⟨.base (.createPublish event),.ok ()⟩,⟨.base (.awaitPublish .shielded),r⟩] r

namespace FinishRun
variable {fields : EventFields} {rest : CallTrace B} {out : Except Exc Unit}

theorem wall (h : FinishRun fields rest out) : wallReadings (bases rest) = [] := by
  cases h <;> rfl

theorem visible (h : FinishRun fields rest out) : visible rest = [] := by
  cases h <;> rfl

theorem minted (h : FinishRun fields rest out) : minted (bases rest) = [] := by
  cases h <;> rfl

theorem cancels (h : FinishRun fields rest out) : cancelsPublish (bases rest) = false := by
  cases h <;> rfl

theorem of_invalid (h : FinishRun fields rest out) {e : EventError}
    (he : InferenceEvent.construct fields = .error e) :
    rest = [] ∧ out = .error (.own (.eventInvalid e)) := by
  cases h with
  | invalid h =>
    rw [he] at h
    cases h
    exact ⟨rfl,rfl⟩
  | published r h =>
    rw [he] at h
    cases h

theorem of_valid (h : FinishRun fields rest out) {event : InferenceEvent}
    (he : InferenceEvent.construct fields = .ok event) :
    rest = [⟨.base (.createPublish event),.ok ()⟩,⟨.base (.awaitPublish .shielded),out⟩] := by
  cases h with
  | invalid h =>
    rw [he] at h
    cases h
  | published r h =>
    rw [he] at h
    cases h
    rfl

end FinishRun

variable {w inner}

theorem finish_run {request : ChatRequest} {eventId : Uuid} {startedAt : ℤ} {start : ℕ} {o : Observed}
    {exit : Except Exc Unit} {tr : CallTrace B} {out : Except Exc Unit}
    (h : Run Possible (Gen.ofBase (w.finish inner request eventId startedAt start o exit) :
      CallGen B Unit) tr out) :
    ∃ completedAt stop rest, tr = ⟨.base .now,.ok completedAt⟩ :: ⟨.base .monotonic,.ok stop⟩ :: rest ∧
      FinishRun (w.eventFields inner request eventId startedAt completedAt (elapsedMs start stop) o exit)
        rest out := by
  obtain ⟨base,rfl,hb⟩ := Run.ofBase_iff.mp h
  unfold finish at hb
  rcases Run.bind_iff.mp hb with ⟨tr₁,completedAt,tr₂,rfl,h₁,h₂⟩ | ⟨e,-,h₁⟩
  · obtain ⟨rfl,-⟩ := Run.call_iff.mp h₁
    rcases Run.bind_iff.mp h₂ with ⟨tr₃,stop,tr₄,rfl,h₃,h₄⟩ | ⟨e,-,h₃⟩
    · obtain ⟨rfl,-⟩ := Run.call_iff.mp h₃
      refine ⟨completedAt,stop,tr₄.map Gen.baseEvent,rfl,?_⟩
      split at h₄
      · rename_i e he
        obtain ⟨rfl,rfl⟩ := Run.raise_iff.mp h₄
        exact .invalid he
      · rename_i event he
        rcases Run.bind_iff.mp h₄ with ⟨tr₅,u,tr₆,rfl,h₅,h₆⟩ | ⟨e,-,h₅⟩
        · obtain ⟨rfl,-⟩ := Run.call_iff.mp h₅
          obtain ⟨rfl,-⟩ := Run.call_iff.mp h₆
          exact .published out he
        · obtain ⟨-,u,hu⟩ := Run.call_iff.mp h₅
          cases hu
    · obtain ⟨-,u,hu⟩ := Run.call_iff.mp h₃
      cases hu
  · obtain ⟨-,u,hu⟩ := Run.call_iff.mp h₁
    cases hu

/-- The outcome of the call, from that of the loop and that of the `finally` block. -/
def combine (exit finished : Except Exc Unit) : Except Exc Unit :=
  match finished with
  | .ok () => exit
  | .error e => .error e

/-- Everything a complete run of `stream_chat` does, in order. -/
structure CallRun (w : Instrumentation) (inner : BaseProvider B) (request : ChatRequest)
    (tr : CallTrace B) (out : Except Exc Unit) where
  eventId : Uuid
  startedAt : ℤ
  start : ℕ
  body : CallTrace B
  o : Observed
  exit : Except Exc Unit
  completedAt : ℤ
  stop : ℕ
  rest : CallTrace B
  finished : Except Exc Unit
  trace : tr = ⟨.base .uuid4,.ok eventId⟩ :: ⟨.base .now,.ok startedAt⟩ ::
    ⟨.base .monotonic,.ok start⟩ :: (body ++ ⟨.base .now,.ok completedAt⟩ ::
    ⟨.base .monotonic,.ok stop⟩ :: rest)
  loop : LoopRun start (inner.streamChat request) {} body o exit
  finish : FinishRun
    (w.eventFields inner request eventId startedAt completedAt (elapsedMs start stop) o exit) rest finished
  out_eq : out = combine exit finished

theorem streamChat_run {request : ChatRequest} {tr : CallTrace B} {out : Except Exc Unit}
    (h : Run Possible (w.streamChat inner request) tr out) : Nonempty (CallRun w inner request tr out) := by
  have hsync : ∀ {op : CallOp B} {tr e}, (∀ r, PossibleCall op r → ∃ a, r = .ok a) →
      ¬ Run Possible (Gen.ofBase (Task.call (S := callSignature B) op) : CallGen B _) tr (.error e) := by
    intro op tr e hok hr
    obtain ⟨base,-,hb⟩ := Run.ofBase_iff.mp hr
    obtain ⟨a,ha⟩ := hok _ (Run.call_iff.mp hb).2
    cases ha
  have hcall : ∀ {op : CallOp B} {tr out},
      Run Possible (Gen.ofBase (Task.call (S := callSignature B) op) : CallGen B _) tr out →
      tr = [⟨.base op,out⟩] := by
    intro op tr out hr
    obtain ⟨base,rfl,hb⟩ := Run.ofBase_iff.mp hr
    obtain ⟨rfl,-⟩ := Run.call_iff.mp hb
    rfl
  rcases Run.bind_iff.mp h with ⟨tr₁,eventId,tr₂,rfl,h₁,h₂⟩ | ⟨e,-,h₁⟩
  swap
  · exact absurd h₁ (hsync fun _ hr => hr)
  rcases Run.bind_iff.mp h₂ with ⟨tr₃,startedAt,tr₄,rfl,h₃,h₄⟩ | ⟨e,-,h₃⟩
  swap
  · exact absurd h₃ (hsync fun _ hr => hr)
  rcases Run.bind_iff.mp h₄ with ⟨tr₅,start,tr₆,rfl,h₅,h₆⟩ | ⟨e,-,h₅⟩
  swap
  · exact absurd h₅ (hsync fun _ hr => hr)
  rcases Run.bind_iff.mp h₆ with ⟨body,oe,tr₈,rfl,h₇,h₈⟩ | ⟨e,-,h₇⟩
  swap
  · obtain ⟨o',exit,ho,-⟩ := loop_run h₇
    cases ho
  obtain ⟨o,exit,ho,hl⟩ := loop_run h₇
  cases ho
  have hid := hcall h₁
  have hnow := hcall h₃
  have hmono := hcall h₅
  rcases Run.bind_iff.mp h₈ with ⟨tr₉,u,tr₁₀,rfl,h₉,h₁₀⟩ | ⟨e,rfl,h₉⟩
  · obtain ⟨rfl,rfl⟩ := Run.ofExcept_iff.mp h₁₀
    obtain ⟨completedAt,stop,rest,rfl,hf⟩ := finish_run h₉
    exact ⟨⟨eventId,startedAt,start,body,o,out,completedAt,stop,rest,.ok u,
      by simp [hid,hnow,hmono],hl,hf,rfl⟩⟩
  · obtain ⟨completedAt,stop,rest,rfl,hf⟩ := finish_run h₉
    exact ⟨⟨eventId,startedAt,start,body,o,exit,completedAt,stop,rest,.error e,
      by simp [hid,hnow,hmono],hl,hf,rfl⟩⟩

end Instrumentation
end InferenceLogger
