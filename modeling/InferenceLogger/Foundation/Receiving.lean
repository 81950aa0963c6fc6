import InferenceLogger.Foundation.Task

/-! # What can be received from a generator

Received values and the end, whatever was awaited in between: rules that follow the program of
the generator step by step.
-/
namespace AsyncTask
variable {B : Signature} {Y ε α β : Type}

/-- Some reception of the generator receives these values and ends this way. -/
def Receives (gen : Gen B Y ε Unit) (ys : List Y) (exit : Except ε Unit) : Prop := ∃ tr, Reception gen tr ys exit

theorem Reception.receives {gen : Gen B Y ε Unit} {tr : Trace (genSignature B Y) ε} {ys : List Y} {exit : Except ε Unit}
    (h : Reception gen tr ys exit) : Receives gen ys exit := ⟨tr,h⟩

/-- A consumer that reads to the end receives everything. -/
theorem Run.receives {allowed : (op : B.Op) → Except ε (B.Answer op) → Prop} {gen : Gen B Y ε Unit}
    {tr : Trace (genSignature B Y) ε} {exit : Except ε Unit} (h : Run (Drained allowed) gen tr exit) :
    Receives gen (yielded tr) exit := by
  induction h with
  | done a => exact ⟨[],.exhausted⟩
  | raise e => exact ⟨[],.raised e⟩
  | @await op k r rest _ ha _ ih =>
    obtain ⟨tr,htr⟩ := ih
    cases op with
    | base op => exact ⟨_,.base htr⟩
    | «yield» y =>
      cases ha
      exact ⟨_,.resumed htr⟩

namespace Reception
variable {tr : Trace (genSignature B Y) ε} {ys : List Y} {exit : Except ε Unit}

/-- A value is received first, and last if the consumer throws there. -/
theorem yield_bind {y : Y} {f : Unit → Gen B Y ε Unit} (h : Reception (Gen.yield y >>= f) tr ys exit) :
    (∃ rest more, tr = ⟨.yield y,.ok ()⟩ :: rest ∧ ys = y :: more ∧ Reception (f ()) rest more exit) ∨
      ∃ e, tr = [⟨.yield y,.error e⟩] ∧ ys = [y] ∧ exit = .error e := by
  change Reception (.await (.yield y) _) tr ys exit at h
  cases h with
  | resumed h => exact .inl ⟨_,_,rfl,rfl,h⟩
  | interrupted e => exact .inr ⟨e,rfl,rfl,rfl⟩

/-- A coroutine awaited inside hands out nothing. -/
theorem ofBase_bind {t : Task B ε α} {f : α → Gen B Y ε Unit} (h : Reception (Gen.ofBase t >>= f) tr ys exit) :
    ∃ base, (∃ a rest, Run Whatever t base (.ok a) ∧ tr = base.map Gen.baseEvent ++ rest ∧ Reception (f a) rest ys exit) ∨
      ∃ e, Run Whatever t base (.error e) ∧ tr = base.map Gen.baseEvent ∧ ys = [] ∧ exit = .error e := by
  induction t generalizing tr with
  | done a => exact ⟨[],.inl ⟨a,tr,.done a,rfl,h⟩⟩
  | raise e =>
    change Reception (.raise e) tr ys exit at h
    cases h
    exact ⟨[],.inr ⟨e,.raise e,rfl,rfl,rfl⟩⟩
  | await op k ih =>
    have hstep : (Gen.ofBase (.await op k) >>= f : Gen B Y ε Unit) = .await (.base op) fun r => Gen.ofBase (k r) >>= f := by
      change Task.await _ _ = Task.await _ _
      congr 1
      funext r
      cases r <;> rfl
    rw [hstep] at h
    cases h with
    | @base _ _ r rest _ _ h =>
      obtain ⟨base,⟨a,more,hrun,rfl,hmore⟩ | ⟨e,hrun,rfl,rfl,rfl⟩⟩ := ih r h
      · exact ⟨⟨op,r⟩ :: base,.inl ⟨a,more,.await trivial hrun,rfl,hmore⟩⟩
      · exact ⟨⟨op,r⟩ :: base,.inr ⟨e,.await trivial hrun,rfl,rfl,rfl⟩⟩

end Reception

namespace Receives
variable {ys : List Y} {exit : Except ε Unit}

theorem done_iff {a : Unit} : Receives (.done a : Gen B Y ε Unit) ys exit ↔ ys = [] ∧ exit = .ok () := by
  constructor
  · rintro ⟨tr,h⟩
    cases h
    exact ⟨rfl,rfl⟩
  · rintro ⟨rfl,rfl⟩
    exact ⟨[],.exhausted⟩

theorem raise_iff {e : ε} : Receives (.raise e : Gen B Y ε Unit) ys exit ↔ ys = [] ∧ exit = .error e := by
  constructor
  · rintro ⟨tr,h⟩
    cases h
    exact ⟨rfl,rfl⟩
  · rintro ⟨rfl,rfl⟩
    exact ⟨[],.raised e⟩

theorem yield_bind {y : Y} {f : Unit → Gen B Y ε Unit} (h : Receives (Gen.yield y >>= f) ys exit) :
    (∃ rest, ys = y :: rest ∧ Receives (f ()) rest exit) ∨ ys = [y] ∧ ∃ e, exit = .error e := by
  obtain ⟨tr,h⟩ := h
  rcases h.yield_bind with ⟨rest,more,-,rfl,hmore⟩ | ⟨e,-,rfl,rfl⟩
  · exact .inl ⟨more,rfl,hmore.receives⟩
  · exact .inr ⟨rfl,e,rfl⟩

theorem ofBase_bind {t : Task B ε α} {f : α → Gen B Y ε Unit} (h : Receives (Gen.ofBase t >>= f) ys exit) :
    (∃ a, Receives (f a) ys exit) ∨ ys = [] ∧ ∃ e, exit = .error e := by
  obtain ⟨tr,h⟩ := h
  obtain ⟨-,⟨a,rest,-,-,hrest⟩ | ⟨e,-,-,rfl,rfl⟩⟩ := h.ofBase_bind
  · exact .inl ⟨a,hrest.receives⟩
  · exact .inr ⟨rfl,e,rfl⟩

end Receives
end AsyncTask
