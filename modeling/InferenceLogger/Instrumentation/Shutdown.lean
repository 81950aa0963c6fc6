import InferenceLogger.Foundation.Transition
import Mathlib.Data.List.Basic

/-! # Draining the publishes at shutdown

`drain_pending_publishes` gathers the tasks that are still running under a timeout. The event
loop lets time pass, runs the tasks, fires the timeout, hands the cancellation on to each
gathered task, and wakes the drain when the gather is over. A task that was asked to cancel ends
cancelled: `publish` catches timeouts and Redis errors only.
-/
namespace InferenceLogger
open Transition

/-- How a publish task ends. -/
inductive PublishEnd where
  | returned (delivered : Bool)
  | raised
  | cancelled
  deriving DecidableEq

/-- A publish task, running or ended. -/
abbrev PublishTask := Option PublishEnd

/-- `task.done()`. -/
def PublishTask.done (t : PublishTask) : Bool := t.isSome

/-- The publish came to an end of its own: it returned `True` or `False`. -/
def PublishTask.completed : PublishTask → Bool
  | some (.returned _) => true
  | _ => false

/-- Local state of the drain, with the tasks it gathers. -/
structure Drain where
  grace : ℕ
  clock : ℕ := 0
  pending : List PublishTask
  expired : Bool := false
  result : Option ℕ := none

/-- `{task for task in tasks if not task.done()}`. -/
def stillPending (tasks : List PublishTask) : List PublishTask := tasks.filter fun t => !t.done

/-- The call, up to its await. -/
def drainPendingPublishes (inflight : List PublishTask) (grace : ℕ) : Drain where
  grace := grace
  pending := stillPending inflight
  result := if (stillPending inflight).isEmpty then some 0 else none

inductive LoopAction where
  | pass (ticks : ℕ)
  | finish (i : ℕ) (how : PublishEnd)
  | timeout
  | cancel (i : ℕ)
  | wake
  deriving DecidableEq

def Drain.setTask (d : Drain) (i : ℕ) (how : PublishEnd) : Drain := {d with pending := d.pending.set i (some how)}

/-- One callback of the loop. The timeout cancels the drain's await, and with it every task of
the gather; the gather is over when all its tasks are. -/
def loopStep (d : Drain) : LoopAction → Option Drain
  | .pass ticks => if d.result = none then some {d with clock := d.clock + ticks} else none
  | .finish i how =>
    if d.pending[i]? = some none ∧ d.expired = false ∧ how ≠ .cancelled then some (d.setTask i how) else none
  | .timeout =>
    if d.result = none ∧ d.expired = false ∧ d.grace ≤ d.clock then some {d with expired := true} else none
  | .cancel i => if d.pending[i]? = some none ∧ d.expired = true then some (d.setTask i .cancelled) else none
  | .wake =>
    if d.result = none ∧ d.pending.all PublishTask.done = true then
      some {d with result := some (stillPending d.pending).length}
    else none

/-- The drain's answer is the number of publishes that did not complete, and zero only when no
task was cancelled or left running. -/
def Reports (d : Drain) (lost : ℕ) : Prop :=
  lost = (d.pending.filter fun t => !t.completed).length ∧
  (lost = 0 → ∀ t ∈ d.pending, t ≠ none ∧ t ≠ some .cancelled)

/-- What the loop ran before the timeout, if that fired at all. -/
def untilTimeout (acts : List LoopAction) : List LoopAction := acts.takeWhile fun a => decide (a ≠ .timeout)

/-- The publish returned within the grace period. -/
def ReturnedInTime (acts : List LoopAction) (i : ℕ) : Prop := ∃ b, .finish i (.returned b) ∈ untilTimeout acts

namespace Drain

theorem get_setTask (d : Drain) (i j : ℕ) (how : PublishEnd) (h : d.pending[i]? = some none) :
    (d.setTask i how).pending[j]? = if i = j then some (some how) else d.pending[j]? := by
  have hlen : i < d.pending.length := (List.getElem?_eq_some_iff.mp h).1
  rw [setTask, List.getElem?_set]
  by_cases hij : i = j
  · rw [if_pos hij, if_pos hij, if_pos hlen]
  · rw [if_neg hij, if_neg hij]

/-- The answer is given when every task is done, so it is zero. -/
def Settled (d : Drain) : Prop := ∀ n, d.result = some n → n = 0 ∧ ∀ t ∈ d.pending, t.done = true

theorem settled_start (inflight : List PublishTask) (grace : ℕ) : (drainPendingPublishes inflight grace).Settled := by
  intro n hn
  change (if (stillPending inflight).isEmpty then some 0 else none) = some n at hn
  obtain ⟨hempty,hzero⟩ := Option.ite_none_right_eq_some.mp hn
  cases hzero
  refine ⟨rfl,fun t ht => ?_⟩
  rw [drainPendingPublishes, List.isEmpty_iff.mp hempty] at ht
  cases ht

theorem settled_step {d d' : Drain} {a : LoopAction} (h : d.Settled) (hs : loopStep d a = some d') :
    d'.Settled := by
  have hnone : ∀ {i : ℕ}, d.pending[i]? = some none → d.result = none := by
    intro i hi
    cases hr : d.result with
    | none => rfl
    | some n => exact absurd ((h n hr).2 none (List.mem_of_getElem? hi)) (by decide)
  intro n hn
  cases a with
  | pass ticks =>
    obtain ⟨hr,hd⟩ := Option.ite_none_right_eq_some.mp hs
    cases hd
    simp [hr] at hn
  | finish i how =>
    obtain ⟨hi,hd⟩ := Option.ite_none_right_eq_some.mp hs
    cases hd
    simp [setTask,hnone hi.1] at hn
  | timeout =>
    obtain ⟨hr,hd⟩ := Option.ite_none_right_eq_some.mp hs
    cases hd
    simp [hr.1] at hn
  | cancel i =>
    obtain ⟨hi,hd⟩ := Option.ite_none_right_eq_some.mp hs
    cases hd
    simp [setTask,hnone hi.1] at hn
  | wake =>
    obtain ⟨hr,hd⟩ := Option.ite_none_right_eq_some.mp hs
    cases hd
    cases hn
    have hall : ∀ t ∈ d.pending, t.done = true := List.all_eq_true.mp hr.2
    refine ⟨?_,hall⟩
    rw [stillPending, List.filter_eq_nil_iff.mpr fun t ht => by simp [hall t ht]]
    rfl

theorem length_step {d d' : Drain} {a : LoopAction} (hs : loopStep d a = some d') :
    d'.pending.length = d.pending.length := by
  cases a <;> obtain ⟨-,hd⟩ := Option.ite_none_right_eq_some.mp hs <;> cases hd <;> simp [setTask]

theorem returned_play {d d' : Drain} {acts : List LoopAction} (h : play loopStep d acts = some d') (i : ℕ)
    (b : Bool) : d'.pending[i]? = some (some (.returned b)) ↔
      d.pending[i]? = some (some (.returned b)) ∨
      d.expired = false ∧ .finish i (.returned b) ∈ untilTimeout acts := by
  induction acts generalizing d with
  | nil =>
    cases h
    simp [untilTimeout]
  | cons a acts ih =>
    obtain ⟨d₁,hs,hrest⟩ := Option.bind_eq_some_iff.mp h
    rw [ih hrest]
    unfold untilTimeout
    cases a with
    | pass ticks =>
      obtain ⟨-,hd⟩ := Option.ite_none_right_eq_some.mp hs
      cases hd
      simp
    | finish j how =>
      obtain ⟨⟨hj,he,-⟩,hd⟩ := Option.ite_none_right_eq_some.mp hs
      cases hd
      rw [get_setTask d j i how hj]
      by_cases hij : j = i
      · subst hij
        simp [hj,he,setTask,eq_comm]
      · simp [hij,he,setTask,Ne.symm hij]
    | timeout =>
      obtain ⟨-,hd⟩ := Option.ite_none_right_eq_some.mp hs
      cases hd
      simp
    | cancel j =>
      obtain ⟨⟨hj,he⟩,hd⟩ := Option.ite_none_right_eq_some.mp hs
      cases hd
      rw [get_setTask d j i .cancelled hj]
      by_cases hij : j = i
      · subst hij
        simp [hj,he,setTask]
      · simp [hij,he,setTask]
    | wake =>
      obtain ⟨-,hd⟩ := Option.ite_none_right_eq_some.mp hs
      cases hd
      simp

theorem completed_iff {t : PublishTask} : t.completed = true ↔ ∃ b, t = some (.returned b) := by
  rcases t with _ | _ | _ | _ <;> simp [PublishTask.completed]

end Drain

/-- The drain answers truthfully exactly when every publish that was still running returned
within the grace period. -/
theorem drain_reports_iff {inflight : List PublishTask} {grace : ℕ} {acts : List LoopAction} {d : Drain} {lost : ℕ}
    (h : play loopStep (drainPendingPublishes inflight grace) acts = some d) (hr : d.result = some lost) :
    Reports d lost ↔ ∀ i < (stillPending inflight).length, ReturnedInTime acts i := by
  have hinv := (play_reach h).invariant (Drain.settled_start inflight grace)
    (fun _ _ _ hi _ hs => Drain.settled_step hi hs)
  obtain ⟨rfl,hdone⟩ := hinv lost hr
  have hlen : d.pending.length = (stillPending inflight).length :=
    (play_reach h).invariant (I := fun d => d.pending.length = (stillPending inflight).length) rfl
      (fun _ _ _ hi _ hs => (Drain.length_step hs).trans hi)
  have hreturned : ∀ i b, d.pending[i]? = some (some (.returned b)) ↔
      .finish i (.returned b) ∈ untilTimeout acts := by
    intro i b
    rw [Drain.returned_play h i b]
    constructor
    · rintro (hstart | ⟨-,hmem⟩)
      · have hrunning := List.mem_of_getElem? hstart
        simp [drainPendingPublishes,stillPending,PublishTask.done] at hrunning
      · exact hmem
    · exact fun hmem => .inr ⟨rfl,hmem⟩
  have hcompleted : (∀ t ∈ d.pending, t.completed = true) ↔ ∀ i < (stillPending inflight).length, ReturnedInTime acts i := by
    constructor
    · intro hall i hi
      have hget := List.getElem?_eq_getElem (hlen.symm ▸ hi : i < d.pending.length)
      obtain ⟨b,hb⟩ := Drain.completed_iff.mp (hall _ (List.mem_of_getElem? hget))
      exact ⟨b,(hreturned i b).mp (hget.trans (congrArg some hb))⟩
    · intro hall t ht
      obtain ⟨i,hi,rfl⟩ := List.mem_iff_getElem.mp ht
      obtain ⟨b,hb⟩ := hall i (hlen ▸ hi)
      have hget := (hreturned i b).mpr hb
      rw [List.getElem?_eq_getElem hi] at hget
      exact Drain.completed_iff.mpr ⟨b,Option.some.inj hget⟩
  rw [← hcompleted]
  constructor
  · rintro ⟨hcount,-⟩ t ht
    have hnil := List.eq_nil_of_length_eq_zero hcount.symm
    by_contra hnot
    exact List.filter_eq_nil_iff.mp hnil t ht (by simpa using hnot)
  · intro hall
    refine ⟨?_,fun _ t ht => ?_⟩
    · rw [List.filter_eq_nil_iff.mpr fun t ht => by simp [hall t ht]]
      rfl
    · obtain ⟨b,rfl⟩ := Drain.completed_iff.mp (hall t ht)
      exact ⟨by simp,by simp⟩

/-! ## A publish that is stuck -/

/-- One publish is quick and one never ends; the grace period runs out. -/
def stuckRun : List LoopAction :=
  [.pass 1,.finish 0 (.returned true),.pass 1,.timeout,.cancel 1,.wake]

/-- Both are quick. -/
def quickRun : List LoopAction := [.pass 1,.finish 0 (.returned true),.finish 1 (.returned false),.wake]

def isAnswered (lost : ℕ) (d : Drain) : Bool := decide (d.result = some lost)

theorem stuckRun_answers : (play loopStep (drainPendingPublishes [none,none] 2) stuckRun).any (isAnswered 0) = true := by
  decide

theorem quickRun_answers : (play loopStep (drainPendingPublishes [none,none] 2) quickRun).any (isAnswered 0) = true := by
  decide

theorem quickRun_returns : ∀ i < 2, ReturnedInTime quickRun i := by
  intro i hi
  rcases (show i = 0 ∨ i = 1 by omega) with rfl | rfl
  · exact ⟨true,by decide⟩
  · exact ⟨false,by decide⟩

theorem stuckRun_stuck : ¬ ReturnedInTime stuckRun 1 := by
  rintro ⟨b,hb⟩
  cases b <;> exact absurd hb (by decide)

/-- The answer is the same, and true of the quick run only. -/
theorem drain_reports_quick :
    (∃ d, play loopStep (drainPendingPublishes [none,none] 2) quickRun = some d ∧ d.result = some 0 ∧ Reports d 0) ∧
    ∃ d, play loopStep (drainPendingPublishes [none,none] 2) stuckRun = some d ∧ d.result = some 0 ∧ ¬ Reports d 0 := by
  obtain ⟨quick,hquick,hresult⟩ := play_any quickRun_answers
  obtain ⟨stuck,hstuck,hresult'⟩ := play_any stuckRun_answers
  have hresult := of_decide_eq_true hresult
  have hresult' := of_decide_eq_true hresult'
  refine ⟨⟨quick,hquick,hresult,(drain_reports_iff hquick hresult).mpr quickRun_returns⟩,
    stuck,hstuck,hresult',fun hreports => ?_⟩
  exact stuckRun_stuck ((drain_reports_iff hstuck hresult').mp hreports 1 (by decide))

/-- The drain answers that nothing was lost, and one publish was cancelled. -/
theorem stuck_publish_unreported : ∃ d, play loopStep (drainPendingPublishes [none,none] 2) stuckRun = some d ∧
    d.result = some 0 ∧ ¬ Reports d 0 := by
  refine ⟨_,rfl,rfl,?_⟩
  rintro ⟨hcount,-⟩
  exact absurd hcount (by decide)

end InferenceLogger
