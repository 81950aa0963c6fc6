import Mathlib.Data.Nat.Notation
import Mathlib.Logic.Basic
import Mathlib.Tactic.Cases

/-! # Programs that await their environment

A program is the tree of what it awaits: at every `await` the environment answers
with a value or with an exception thrown at that point, and the program goes on
from there. A cancellation is such an exception. Loops run over data, so every tree
is well founded and every run ends with a value or an exception.
-/
namespace AsyncTask

/-- The operations a program may await, with the type of what each one answers. -/
structure Signature where
  Op : Type
  Answer : Op → Type

inductive Task (S : Signature) (ε α : Type) : Type where
  | done (a : α)
  | raise (e : ε)
  | await (op : S.Op) (k : Except ε (S.Answer op) → Task S ε α)

namespace Task
variable {S S' : Signature} {ε α β γ : Type}

/-- Continue after the task, however it ended. -/
def resume (t : Task S ε α) (f : Except ε α → Task S ε β) : Task S ε β :=
  match t with
  | .done a => f (.ok a)
  | .raise e => f (.error e)
  | .await op k => .await op (fun r => (k r).resume f)

def ofExcept : Except ε α → Task S ε α
  | .ok a => .done a
  | .error e => .raise e

/-- `try: return Ok(await t) except BaseException as e: return Err(e)`. -/
def attempt (t : Task S ε α) : Task S ε (Except ε α) := t.resume .done

def andThen (t : Task S ε α) (f : α → Task S ε β) : Task S ε β :=
  t.resume (fun | .ok a => f a | .error e => .raise e)

def call (op : S.Op) : Task S ε (S.Answer op) := .await op ofExcept

instance : Monad (Task S ε) where
  pure := .done
  bind := andThen

instance : MonadExceptOf ε (Task S ε) where
  throw := .raise
  tryCatch t h := t.resume (fun | .ok a => .done a | .error e => h e)

@[simp] theorem resume_done (a : α) (f : Except ε α → Task S ε β) :
    (done a : Task S ε α).resume f = f (.ok a) := rfl
@[simp] theorem resume_raise (e : ε) (f : Except ε α → Task S ε β) :
    (raise e : Task S ε α).resume f = f (.error e) := rfl
@[simp] theorem resume_await (op : S.Op) (k : Except ε (S.Answer op) → Task S ε α)
    (f : Except ε α → Task S ε β) :
    (await op k).resume f = await op (fun r => (k r).resume f) := rfl

theorem resume_assoc (t : Task S ε α) (f : Except ε α → Task S ε β) (g : Except ε β → Task S ε γ) :
    (t.resume f).resume g = t.resume (fun r => (f r).resume g) := by
  induction t with
  | done a => rfl
  | raise e => rfl
  | await op k ih =>
    simp only [resume_await]
    congr 1
    funext r
    exact ih r

theorem resume_ofExcept (t : Task S ε α) : t.resume ofExcept = t := by
  induction t with
  | done a => rfl
  | raise e => rfl
  | await op k ih =>
    simp only [resume_await]
    congr 1
    funext r
    exact ih r

@[simp] theorem pure_def (a : α) : (pure a : Task S ε α) = done a := rfl
theorem bind_def (t : Task S ε α) (f : α → Task S ε β) :
    (t >>= f) = t.resume (fun | .ok a => f a | .error e => .raise e) := rfl
@[simp] theorem done_bind (a : α) (f : α → Task S ε β) : ((done a : Task S ε α) >>= f) = f a := rfl
@[simp] theorem raise_bind (e : ε) (f : α → Task S ε β) : ((raise e : Task S ε α) >>= f) = raise e := rfl
@[simp] theorem await_bind (op : S.Op) (k : Except ε (S.Answer op) → Task S ε α) (f : α → Task S ε β) :
    (await op k >>= f) = await op (fun r => k r >>= f) := rfl
@[simp] theorem throw_def (e : ε) : (throw e : Task S ε α) = raise e := rfl

instance : LawfulMonad (Task S ε) := LawfulMonad.mk' _
  (fun t => by
    change t.resume _ = t
    refine Eq.trans (congrArg t.resume ?_) (resume_ofExcept t)
    funext r
    cases r <;> rfl)
  (fun _ _ => rfl)
  (fun t f g => by
    simp only [bind_def, resume_assoc]
    congr 1
    funext r
    cases r <;> rfl)

/-- Replace every operation by a program over other operations. -/
def interp (h : (op : S.Op) → Task S' ε (S.Answer op)) : Task S ε α → Task S' ε α
  | .done a => .done a
  | .raise e => .raise e
  | .await op k => (h op).resume (fun r => interp h (k r))

end Task

/-! ## Runs against an unconstrained environment -/

/-- One awaited operation and the answer it got. -/
structure Event (S : Signature) (ε : Type) where
  op : S.Op
  answer : Except ε (S.Answer op)

abbrev Trace (S : Signature) (ε : Type) := List (Event S ε)

section Runs
variable {S : Signature} {ε α β : Type}

/-- A complete run. `allowed` says which answers an operation can get at all. -/
inductive Run (allowed : (op : S.Op) → Except ε (S.Answer op) → Prop) :
    Task S ε α → Trace S ε → Except ε α → Prop where
  | done (a : α) : Run allowed (.done a) [] (.ok a)
  | raise (e : ε) : Run allowed (.raise e) [] (.error e)
  | await {op : S.Op} {k : Except ε (S.Answer op) → Task S ε α} {r : Except ε (S.Answer op)}
      {tr : Trace S ε} {out : Except ε α} :
      allowed op r → Run allowed (k r) tr out → Run allowed (.await op k) (⟨op,r⟩ :: tr) out

variable {allowed : (op : S.Op) → Except ε (S.Answer op) → Prop}

namespace Run

@[simp] theorem done_iff {a : α} {tr : Trace S ε} {out : Except ε α} :
    Run allowed (.done a : Task S ε α) tr out ↔ tr = [] ∧ out = .ok a := by
  constructor
  · intro h
    cases h
    exact ⟨rfl,rfl⟩
  · rintro ⟨rfl,rfl⟩
    exact .done a

@[simp] theorem raise_iff {e : ε} {tr : Trace S ε} {out : Except ε α} :
    Run allowed (.raise e : Task S ε α) tr out ↔ tr = [] ∧ out = .error e := by
  constructor
  · intro h
    cases h
    exact ⟨rfl,rfl⟩
  · rintro ⟨rfl,rfl⟩
    exact .raise e

@[simp] theorem ofExcept_iff {x : Except ε α} {tr : Trace S ε} {out : Except ε α} :
    Run allowed (Task.ofExcept x : Task S ε α) tr out ↔ tr = [] ∧ out = x := by
  cases x <;> simp [Task.ofExcept]

@[simp] theorem await_iff {op : S.Op} {k : Except ε (S.Answer op) → Task S ε α} {tr : Trace S ε}
    {out : Except ε α} :
    Run allowed (.await op k) tr out ↔
      ∃ r rest, tr = ⟨op,r⟩ :: rest ∧ allowed op r ∧ Run allowed (k r) rest out := by
  constructor
  · intro h
    cases h with
    | await ha hr => exact ⟨_,_,rfl,ha,hr⟩
  · rintro ⟨r,rest,rfl,ha,hr⟩
    exact .await ha hr

/-- A run of a composite is a run of the first part followed by one of the second. -/
theorem resume_iff {t : Task S ε α} {f : Except ε α → Task S ε β} {tr : Trace S ε} {out : Except ε β} :
    Run allowed (t.resume f) tr out ↔
      ∃ tr₁ r tr₂, tr = tr₁ ++ tr₂ ∧ Run allowed t tr₁ r ∧ Run allowed (f r) tr₂ out := by
  induction t generalizing tr with
  | done a =>
    constructor
    · intro h
      exact ⟨[],.ok a,tr,rfl,.done a,h⟩
    · rintro ⟨tr₁,r,tr₂,rfl,h₁,h₂⟩
      obtain ⟨rfl,rfl⟩ := done_iff.mp h₁
      exact h₂
  | raise e =>
    constructor
    · intro h
      exact ⟨[],.error e,tr,rfl,.raise e,h⟩
    · rintro ⟨tr₁,r,tr₂,rfl,h₁,h₂⟩
      obtain ⟨rfl,rfl⟩ := raise_iff.mp h₁
      exact h₂
  | await op k ih =>
    rw [Task.resume_await, await_iff]
    constructor
    · rintro ⟨a,rest,rfl,ha,h⟩
      obtain ⟨tr₁,r,tr₂,rfl,h₁,h₂⟩ := (ih a).mp h
      exact ⟨⟨op,a⟩ :: tr₁,r,tr₂,rfl,.await ha h₁,h₂⟩
    · rintro ⟨tr₁,r,tr₂,rfl,h₁,h₂⟩
      obtain ⟨a,rest,rfl,ha,h⟩ := await_iff.mp h₁
      exact ⟨a,rest ++ tr₂,rfl,ha,(ih a).mpr ⟨rest,r,tr₂,rfl,h,h₂⟩⟩

theorem bind_iff {t : Task S ε α} {f : α → Task S ε β} {tr : Trace S ε} {out : Except ε β} :
    Run allowed (t >>= f) tr out ↔
      (∃ tr₁ a tr₂, tr = tr₁ ++ tr₂ ∧ Run allowed t tr₁ (.ok a) ∧ Run allowed (f a) tr₂ out) ∨
      (∃ e, out = .error e ∧ Run allowed t tr (.error e)) := by
  rw [Task.bind_def, resume_iff]
  constructor
  · rintro ⟨tr₁,r,tr₂,rfl,h₁,h₂⟩
    cases r with
    | ok a => exact .inl ⟨tr₁,a,tr₂,rfl,h₁,h₂⟩
    | error e =>
      obtain ⟨rfl,rfl⟩ := raise_iff.mp h₂
      exact .inr ⟨e,rfl,by simpa using h₁⟩
  · rintro (⟨tr₁,a,tr₂,rfl,h₁,h₂⟩ | ⟨e,rfl,h⟩)
    · exact ⟨tr₁,.ok a,tr₂,rfl,h₁,h₂⟩
    · exact ⟨tr,.error e,[],by simp,h,.raise e⟩

theorem attempt_iff {t : Task S ε α} {tr : Trace S ε} {out : Except ε (Except ε α)} :
    Run allowed t.attempt tr out ↔ ∃ r, out = .ok r ∧ Run allowed t tr r := by
  unfold Task.attempt
  rw [resume_iff]
  constructor
  · rintro ⟨tr₁,r,tr₂,rfl,h₁,h₂⟩
    obtain ⟨rfl,rfl⟩ := done_iff.mp h₂
    exact ⟨r,rfl,by simpa using h₁⟩
  · rintro ⟨r,rfl,h⟩
    exact ⟨tr,r,[],by simp,h,.done r⟩

theorem call_iff {op : S.Op} {tr : Trace S ε} {out : Except ε (S.Answer op)} :
    Run allowed (Task.call op) tr out ↔ tr = [⟨op,out⟩] ∧ allowed op out := by
  unfold Task.call
  rw [await_iff]
  constructor
  · rintro ⟨r,rest,rfl,ha,h⟩
    obtain ⟨rfl,rfl⟩ := ofExcept_iff.mp h
    exact ⟨rfl,ha⟩
  · rintro ⟨rfl,ha⟩
    exact ⟨out,[],rfl,ha,by simp⟩

end Run

theorem Run.restrict {allowed' : (op : S.Op) → Except ε (S.Answer op) → Prop} {t : Task S ε α}
    {tr : Trace S ε} {out : Except ε α} (h : Run allowed t tr out)
    (ha : ∀ e ∈ tr, allowed' e.op e.answer) : Run allowed' t tr out := by
  induction h with
  | done a => exact .done a
  | raise e => exact .raise e
  | await _ _ ih => exact .await (ha _ List.mem_cons_self) (ih fun e he => ha e (List.mem_cons_of_mem _ he))

theorem Run.mono {allowed' : (op : S.Op) → Except ε (S.Answer op) → Prop} {t : Task S ε α}
    {tr : Trace S ε} {out : Except ε α} (h : Run allowed t tr out)
    (ha : ∀ op r, allowed op r → allowed' op r) : Run allowed' t tr out := by
  induction h with
  | done a => exact .done a
  | raise e => exact .raise e
  | await hr _ ih => exact .await (ha _ _ hr) ih

theorem Run.answers {t : Task S ε α} {tr : Trace S ε} {out : Except ε α} (h : Run allowed t tr out) :
    ∀ e ∈ tr, allowed e.op e.answer := by
  induction h with
  | done a => simp
  | raise e => simp
  | await hr _ ih =>
    intro e he
    rcases List.mem_cons.mp he with rfl | he
    · exact hr
    · exact ih e he

/-- A program whose operations are each replaced by one of another signature runs as it runs
alone. -/
theorem Run.interp_iff {S' : Signature} {allowed' : (op : S'.Op) → Except ε (S'.Answer op) → Prop}
    {h : (op : S.Op) → Task S' ε (S.Answer op)} {lift : Event S ε → Event S' ε}
    (hcall : ∀ op tr r, Run allowed' (h op) tr r ↔ tr = [lift ⟨op,r⟩] ∧ allowed op r)
    {t : Task S ε α} {tr : Trace S' ε} {out : Except ε α} :
    Run allowed' (t.interp h) tr out ↔ ∃ own, tr = own.map lift ∧ Run allowed t own out := by
  induction t generalizing tr with
  | done a =>
    constructor
    · intro h
      obtain ⟨rfl,rfl⟩ := Run.done_iff.mp h
      exact ⟨[],rfl,.done a⟩
    · rintro ⟨own,rfl,h⟩
      obtain ⟨rfl,rfl⟩ := Run.done_iff.mp h
      exact .done a
  | raise e =>
    constructor
    · intro h
      obtain ⟨rfl,rfl⟩ := Run.raise_iff.mp h
      exact ⟨[],rfl,.raise e⟩
    · rintro ⟨own,rfl,h⟩
      obtain ⟨rfl,rfl⟩ := Run.raise_iff.mp h
      exact .raise e
  | await op k ih =>
    change Run allowed' ((h op).resume fun r => (k r).interp h) tr out ↔ _
    rw [Run.resume_iff]
    constructor
    · rintro ⟨tr₁,r,tr₂,rfl,h₁,h₂⟩
      obtain ⟨rfl,ha⟩ := (hcall _ _ _).mp h₁
      obtain ⟨own,rfl,hr⟩ := (ih r).mp h₂
      exact ⟨⟨op,r⟩ :: own,rfl,.await ha hr⟩
    · rintro ⟨own,rfl,h⟩
      obtain ⟨r,rest,rfl,ha,hr⟩ := Run.await_iff.mp h
      exact ⟨[lift ⟨op,r⟩],r,rest.map lift,rfl,(hcall _ _ _).mpr ⟨rfl,ha⟩,(ih r).mpr ⟨rest,rfl,hr⟩⟩

/-- Any answer at all. -/
def Whatever (op : S.Op) (_ : Except ε (S.Answer op)) : Prop := True

/-- The run in which an oracle answers the operations, numbered as they come. -/
def drive (oracle : ℕ → (op : S.Op) → Except ε (S.Answer op)) : ℕ → Task S ε α → Trace S ε × Except ε α
  | _, .done a => ([],.ok a)
  | _, .raise e => ([],.error e)
  | n, .await op k =>
    let rest := drive oracle (n + 1) (k (oracle n op))
    (⟨op,oracle n op⟩ :: rest.1,rest.2)

theorem drive_run {oracle : ℕ → (op : S.Op) → Except ε (S.Answer op)}
    (ho : ∀ n op, allowed op (oracle n op)) (n : ℕ) (t : Task S ε α) :
    Run allowed t (drive oracle n t).1 (drive oracle n t).2 := by
  induction t generalizing n with
  | done a => exact .done a
  | raise e => exact .raise e
  | await op k ih => exact .await (ho n op) (ih _ (n + 1))

/-! ### Where exceptions come from -/

/-- Nothing that was awaited failed. -/
def Smooth (tr : Trace S ε) : Prop := ∀ e ∈ tr, ∃ a, e.answer = .ok a

@[simp] theorem smooth_nil : Smooth ([] : Trace S ε) := by simp [Smooth]

theorem smooth_append {tr₁ tr₂ : Trace S ε} : Smooth (tr₁ ++ tr₂) ↔ Smooth tr₁ ∧ Smooth tr₂ := by
  unfold Smooth
  constructor
  · intro h
    exact ⟨fun e he => h e (List.mem_append_left _ he),fun e he => h e (List.mem_append_right _ he)⟩
  · rintro ⟨h₁,h₂⟩ e he
    rcases List.mem_append.mp he with he | he
    · exact h₁ e he
    · exact h₂ e he

/-- The outcome is one of the failures in the trace. -/
def Failed (tr : Trace S ε) (out : Except ε α) : Prop := ∃ e ∈ tr, ∃ x, e.answer = .error x ∧ out = .error x

theorem Failed.not_smooth {tr : Trace S ε} {out : Except ε α} (h : Failed tr out) : ¬ Smooth tr := by
  obtain ⟨e,he,x,hx,-⟩ := h
  intro hs
  obtain ⟨a,ha⟩ := hs e he
  rw [hx] at ha
  cases ha

/-- A program that ends with a failure of its environment whenever there was one. -/
def Candid (t : Task S ε α) : Prop :=
  ∀ allowed tr out, Run allowed t tr out → Smooth tr ∨ Failed tr out

/-- A candid program that returns has been answered throughout. -/
theorem Candid.smooth {t : Task S ε α} (h : Candid t) {tr : Trace S ε} {a : α} (hr : Run allowed t tr (.ok a)) :
    Smooth tr := by
  rcases h _ _ _ hr with hs | ⟨e,-,x,-,hx⟩
  · exact hs
  · cases hx

theorem candid_done (a : α) : Candid (.done a : Task S ε α) := by
  intro allowed tr out h
  obtain ⟨rfl,-⟩ := Run.done_iff.mp h
  exact .inl smooth_nil

theorem candid_raise (x : ε) : Candid (.raise x : Task S ε α) := by
  intro allowed tr out h
  obtain ⟨rfl,-⟩ := Run.raise_iff.mp h
  exact .inl smooth_nil

theorem candid_call (op : S.Op) : Candid (Task.call (ε := ε) op) := by
  intro allowed tr out h
  obtain ⟨rfl,-⟩ := Run.call_iff.mp h
  cases out with
  | ok a => exact .inl (by simp [Smooth])
  | error x => exact .inr ⟨_,List.mem_singleton_self _,x,rfl,rfl⟩

/-- The continuation may do more after a failure, as long as it ends with one. -/
theorem Candid.resume {t : Task S ε α} {f : Except ε α → Task S ε β} (ht : Candid t)
    (hf : ∀ r, Candid (f r))
    (hkeep : ∀ x allowed tr out, Run allowed (f (.error x)) tr out → Smooth tr → out = .error x) :
    Candid (t.resume f) := by
  intro allowed tr out h
  obtain ⟨tr₁,r,tr₂,rfl,h₁,h₂⟩ := Run.resume_iff.mp h
  rcases hf r _ _ _ h₂ with hs | ⟨e,he,x,hx,rfl⟩
  · rcases ht _ _ _ h₁ with hs₁ | ⟨e,he,x,hx,rfl⟩
    · exact .inl (smooth_append.mpr ⟨hs₁,hs⟩)
    · rw [hkeep x _ _ _ h₂ hs]
      exact .inr ⟨e,List.mem_append_left _ he,x,hx,rfl⟩
  · exact .inr ⟨e,List.mem_append_right _ he,x,hx,rfl⟩

theorem Candid.bind {t : Task S ε α} {f : α → Task S ε β} (ht : Candid t) (hf : ∀ a, Candid (f a)) :
    Candid (t >>= f) := by
  rw [Task.bind_def]
  refine ht.resume ?_ ?_
  · intro r
    cases r with
    | ok a => exact hf a
    | error x => exact candid_raise x
  · intro x allowed tr out h _
    exact (Run.raise_iff.mp h).2

/-- A program that raises nothing of its own. -/
def Faultless (t : Task S ε α) : Prop :=
  ∀ allowed tr out, Run allowed t tr out → Smooth tr → ∃ a, out = .ok a

theorem faultless_call (op : S.Op) : Faultless (Task.call (ε := ε) op) := by
  intro allowed tr out h hs
  obtain ⟨rfl,-⟩ := Run.call_iff.mp h
  exact hs _ (List.mem_singleton_self _)

/-- Every operation the program awaits satisfies the predicate. -/
def Awaits (p : S.Op → Prop) (t : Task S ε α) : Prop :=
  ∀ allowed tr out, Run allowed t tr out → ∀ e ∈ tr, p e.op

theorem awaits_done {p : S.Op → Prop} (a : α) : Awaits p (.done a : Task S ε α) := by
  intro allowed tr out h
  obtain ⟨rfl,-⟩ := Run.done_iff.mp h
  simp

theorem awaits_raise {p : S.Op → Prop} (x : ε) : Awaits p (.raise x : Task S ε α) := by
  intro allowed tr out h
  obtain ⟨rfl,-⟩ := Run.raise_iff.mp h
  simp

theorem awaits_call {p : S.Op → Prop} {op : S.Op} (h : p op) : Awaits p (Task.call (ε := ε) op) := by
  intro allowed tr out hr
  obtain ⟨rfl,-⟩ := Run.call_iff.mp hr
  simpa using h

theorem Awaits.resume {p : S.Op → Prop} {t : Task S ε α} {f : Except ε α → Task S ε β} (ht : Awaits p t)
    (hf : ∀ r, Awaits p (f r)) : Awaits p (t.resume f) := by
  intro allowed tr out h
  obtain ⟨tr₁,r,tr₂,rfl,h₁,h₂⟩ := Run.resume_iff.mp h
  intro e he
  rcases List.mem_append.mp he with he | he
  · exact ht _ _ _ h₁ e he
  · exact hf r _ _ _ h₂ e he

theorem Awaits.bind {p : S.Op → Prop} {t : Task S ε α} {f : α → Task S ε β} (ht : Awaits p t)
    (hf : ∀ a, Awaits p (f a)) : Awaits p (t >>= f) := by
  rw [Task.bind_def]
  refine ht.resume fun r => ?_
  cases r with
  | ok a => exact hf a
  | error x => exact awaits_raise x

/-- The first operation of a run in which nothing fails. -/
theorem Run.call_bind_smooth {op : S.Op} {f : S.Answer op → Task S ε β} {tr : Trace S ε}
    {out : Except ε β} (h : Run allowed (Task.call op >>= f) tr out) (hs : Smooth tr) :
    ∃ a rest, tr = ⟨op,.ok a⟩ :: rest ∧ Run allowed (f a) rest out ∧ Smooth rest := by
  rcases Run.bind_iff.mp h with ⟨tr₁,a,tr₂,rfl,h₁,h₂⟩ | ⟨x,rfl,h₁⟩
  · obtain ⟨rfl,-⟩ := Run.call_iff.mp h₁
    exact ⟨a,tr₂,rfl,h₂,(smooth_append.mp hs).2⟩
  · obtain ⟨rfl,-⟩ := Run.call_iff.mp h₁
    obtain ⟨a,ha⟩ := hs _ (List.mem_singleton_self _)
    cases ha

end Runs

/-! ## Generators -/

/-- An operation of the base, or the delivery of a value to the consumer. The answer to a
delivery is the resumption, or the exception thrown in at the `yield`. -/
inductive GenOp (B : Signature) (Y : Type) where
  | base (op : B.Op)
  | yield (value : Y)

@[reducible] def genSignature (B : Signature) (Y : Type) : Signature where
  Op := GenOp B Y
  Answer
    | .base op => B.Answer op
    | .yield _ => Unit

abbrev Gen (B : Signature) (Y : Type) (ε α : Type) := Task (genSignature B Y) ε α

section Generators
variable {B S : Signature} {Y ε α σ : Type}

def Gen.yield (value : Y) : Gen B Y ε Unit :=
  Task.call (S := genSignature B Y) (.yield value)

def Gen.baseCall (op : B.Op) : Gen B Y ε (B.Answer op) :=
  Task.call (S := genSignature B Y) (.base op)

/-- A coroutine awaited inside a generator. -/
def Gen.ofBase (t : Task B ε α) : Gen B Y ε α := t.interp Gen.baseCall

instance : MonadLift (Task B ε) (Task (genSignature B Y) ε) where
  monadLift := Gen.ofBase

def Gen.baseEvent (e : Event B ε) : Event (genSignature B Y) ε := ⟨.base e.op,e.answer⟩

/-- A coroutine runs inside a generator as it runs alone. -/
theorem Run.ofBase_iff {allowed : (op : GenOp B Y) → Except ε ((genSignature B Y).Answer op) → Prop}
    {t : Task B ε α} {tr : Trace (genSignature B Y) ε} {out : Except ε α} :
    Run allowed (Gen.ofBase t) tr out ↔
      ∃ base, tr = base.map Gen.baseEvent ∧ Run (fun op r => allowed (.base op) r) t base out :=
  Run.interp_iff fun _ _ _ => Run.call_iff

/-- What a consumer receives from a generator, and how its reception ends: the generator
ends, or the consumer throws at a `yield` and reads no further. -/
inductive Reception : Gen B Y ε Unit → Trace (genSignature B Y) ε → List Y → Except ε Unit → Prop where
  | exhausted : Reception (.done ()) [] [] (.ok ())
  | raised (e : ε) : Reception (.raise e) [] [] (.error e)
  | base {op : B.Op} {k r tr ys exit} :
      Reception (k r) tr ys exit → Reception (.await (.base op) k) (⟨.base op,r⟩ :: tr) ys exit
  | resumed {y : Y} {k tr ys exit} :
      Reception (k (.ok ())) tr ys exit →
      Reception (.await (.yield y) k) (⟨.yield y,.ok ()⟩ :: tr) (y :: ys) exit
  | interrupted {y : Y} {k} (e : ε) :
      Reception (.await (.yield y) k) [⟨.yield y,.error e⟩] [y] (.error e)

theorem Reception.unique {gen : Gen B Y ε Unit} {tr : Trace (genSignature B Y) ε} {ys ys' : List Y}
    {exit exit' : Except ε Unit} (h : Reception gen tr ys exit) (h' : Reception gen tr ys' exit') :
    ys = ys' ∧ exit = exit' := by
  induction h generalizing ys' with
  | exhausted =>
    cases h'
    exact ⟨rfl,rfl⟩
  | raised e =>
    cases h'
    exact ⟨rfl,rfl⟩
  | base _ ih =>
    cases h' with
    | base h => exact ih h
  | resumed _ ih =>
    cases h' with
    | resumed h =>
      obtain ⟨rfl,rfl⟩ := ih h
      exact ⟨rfl,rfl⟩
  | interrupted e =>
    cases h'
    exact ⟨rfl,rfl⟩

/-- What a consumer throws at a `yield` is how its reception ends. -/
theorem Reception.thrown {gen : Gen B Y ε Unit} {tr : Trace (genSignature B Y) ε} {ys : List Y}
    {exit : Except ε Unit} (h : Reception gen tr ys exit) {y : Y} {e : ε} (he : ⟨.yield y,.error e⟩ ∈ tr) :
    exit = .error e := by
  induction h with
  | exhausted => cases he
  | raised e => cases he
  | base _ ih => exact ih (by simpa using he)
  | resumed _ ih => exact ih (by simpa using he)
  | interrupted e =>
    simp only [List.mem_singleton, Event.mk.injEq, GenOp.yield.injEq] at he
    obtain ⟨rfl,he⟩ := he
    cases he
    rfl

/-- `async for value in gen: body`, with the loop's variables as a state that outlives an
exception. When the body ends with an exception the generator is left where it is
suspended: nothing closes it. -/
def asyncFor (lift : (op : B.Op) → Task S ε (B.Answer op)) (gen : Gen B Y ε Unit)
    (state : σ) (body : σ → Y → Task S ε (σ × Except ε Unit)) : Task S ε (σ × Except ε Unit) :=
  match gen with
  | .done _ => .done (state, .ok ())
  | .raise e => .done (state, .error e)
  | .await (.base op) k => (lift op).resume (fun r => asyncFor lift (k r) state body)
  | .await (.yield value) k =>
    (body state value).resume fun
      | .ok (next, .ok ()) => asyncFor lift (k (.ok ())) next body
      | .ok (next, .error e) => .done (next, .error e)
      | .error e => .raise e

/-! ### Draining a generator -/

def baseOf : Event (genSignature B Y) ε → Option (Event B ε)
  | ⟨.base op,r⟩ => some ⟨op,r⟩
  | _ => none

/-- The part of a generator's trace that its consumer's task sees. -/
def bases (tr : Trace (genSignature B Y) ε) : Trace B ε := tr.filterMap baseOf

def yieldOf : Event (genSignature B Y) ε → Option Y
  | ⟨.yield y,_⟩ => some y
  | _ => none

def yielded (tr : Trace (genSignature B Y) ε) : List Y := tr.filterMap yieldOf

@[simp] theorem bases_append (tr₁ tr₂ : Trace (genSignature B Y) ε) :
    bases (tr₁ ++ tr₂) = bases tr₁ ++ bases tr₂ := List.filterMap_append

@[simp] theorem yielded_append (tr₁ tr₂ : Trace (genSignature B Y) ε) :
    yielded (tr₁ ++ tr₂) = yielded tr₁ ++ yielded tr₂ := List.filterMap_append

@[simp] theorem bases_baseEvent (tr : Trace B ε) :
    bases (tr.map Gen.baseEvent : Trace (genSignature B Y) ε) = tr := by
  unfold bases
  rw [List.filterMap_map]
  exact List.filterMap_some

@[simp] theorem yielded_baseEvent (tr : Trace B ε) :
    yielded (tr.map Gen.baseEvent : Trace (genSignature B Y) ε) = [] := by
  unfold yielded
  rw [List.filterMap_map]
  exact List.filterMap_eq_nil_iff.mpr fun _ _ => rfl

/-- The consumer resumes every `yield`. -/
def Drained (allowed : (op : B.Op) → Except ε (B.Answer op) → Prop) :
    (op : GenOp B Y) → Except ε ((genSignature B Y).Answer op) → Prop
  | .base op, r => allowed op r
  | .yield _, r => r = .ok ()

/-- A loop whose body awaits nothing folds over what the generator yields. -/
theorem asyncFor_pure_iff {allowed : (op : B.Op) → Except ε (B.Answer op) → Prop} {gen : Gen B Y ε Unit}
    {f : σ → Y → σ} {s : σ} {tr : Trace B ε} {out : Except ε (σ × Except ε Unit)} :
    Run allowed (asyncFor (S := B) Task.call gen s (fun s y => .done (f s y,.ok ()))) tr out ↔
      ∃ gtr exit, Run (Drained allowed) gen gtr exit ∧ tr = bases gtr ∧
        out = .ok ((yielded gtr).foldl f s,exit) := by
  induction gen generalizing s tr with
  | done a =>
    constructor
    · intro h
      obtain ⟨rfl,rfl⟩ := Run.done_iff.mp h
      exact ⟨[],_,.done a,rfl,rfl⟩
    · rintro ⟨gtr,exit,h,rfl,rfl⟩
      obtain ⟨rfl,rfl⟩ := Run.done_iff.mp h
      exact .done _
  | raise e =>
    constructor
    · intro h
      obtain ⟨rfl,rfl⟩ := Run.done_iff.mp h
      exact ⟨[],_,.raise e,rfl,rfl⟩
    · rintro ⟨gtr,exit,h,rfl,rfl⟩
      obtain ⟨rfl,rfl⟩ := Run.raise_iff.mp h
      exact .done _
  | await op k ih =>
    cases op with
    | base op =>
      constructor
      · intro h
        obtain ⟨tr₁,r,tr₂,rfl,h₁,h₂⟩ := Run.resume_iff.mp h
        obtain ⟨rfl,ha⟩ := Run.call_iff.mp h₁
        obtain ⟨gtr,exit,hg,rfl,rfl⟩ := (ih r).mp h₂
        exact ⟨⟨.base op,r⟩ :: gtr,exit,.await ha hg,rfl,rfl⟩
      · rintro ⟨gtr,exit,h,rfl,rfl⟩
        obtain ⟨r,rest,rfl,ha,hr⟩ := Run.await_iff.mp h
        have hrest := (ih r).mpr ⟨rest,exit,hr,rfl,rfl⟩
        exact Run.resume_iff.mpr ⟨[⟨op,r⟩],r,bases rest,rfl,Run.call_iff.mpr ⟨rfl,ha⟩,hrest⟩
    | «yield» y =>
      constructor
      · intro h
        obtain ⟨gtr,exit,hg,rfl,rfl⟩ := (ih (.ok ())).mp h
        exact ⟨⟨.yield y,.ok ()⟩ :: gtr,exit,.await rfl hg,rfl,rfl⟩
      · rintro ⟨gtr,exit,h,rfl,rfl⟩
        obtain ⟨r,rest,rfl,rfl,hr⟩ := Run.await_iff.mp h
        exact (ih (.ok ())).mpr ⟨rest,exit,hr,rfl,rfl⟩

/-- A consumer that resumes every `yield` receives all of the generator's own run. -/
theorem Reception.drained {gen : Gen B Y ε Unit} {tr : Trace (genSignature B Y) ε} {ys : List Y}
    {exit : Except ε Unit} (h : Reception gen tr ys exit)
    (hd : ∀ e ∈ tr, Drained (Y := Y) (fun _ _ => True) e.op e.answer) :
    Run (Drained fun _ _ => True) gen tr exit := by
  induction h with
  | exhausted => exact .done ()
  | raised e => exact .raise e
  | base _ ih => exact .await trivial (ih fun e he => hd e (List.mem_cons_of_mem _ he))
  | resumed _ ih => exact .await rfl (ih fun e he => hd e (List.mem_cons_of_mem _ he))
  | interrupted e =>
    have hy := hd _ List.mem_cons_self
    cases hy

theorem Reception.yielded_eq {gen : Gen B Y ε Unit} {tr : Trace (genSignature B Y) ε} {ys : List Y}
    {exit : Except ε Unit} (h : Reception gen tr ys exit) : yielded tr = ys := by
  induction h with
  | exhausted => rfl
  | raised e => rfl
  | base _ ih => exact ih
  | resumed _ ih => exact congrArg (List.cons _) ih
  | interrupted e => rfl

/-- A drained generator is determined by what its awaits answered. -/
theorem Run.drained_unique {allowed : (op : B.Op) → Except ε (B.Answer op) → Prop} {gen : Gen B Y ε Unit}
    {tr tr' : Trace (genSignature B Y) ε} {exit exit' : Except ε Unit}
    (h : Run (Drained allowed) gen tr exit) (h' : Run (Drained allowed) gen tr' exit')
    (hb : bases tr = bases tr') : tr = tr' ∧ exit = exit' := by
  induction gen generalizing tr tr' with
  | done a =>
    obtain ⟨rfl,rfl⟩ := Run.done_iff.mp h
    obtain ⟨rfl,rfl⟩ := Run.done_iff.mp h'
    exact ⟨rfl,rfl⟩
  | raise e =>
    obtain ⟨rfl,rfl⟩ := Run.raise_iff.mp h
    obtain ⟨rfl,rfl⟩ := Run.raise_iff.mp h'
    exact ⟨rfl,rfl⟩
  | await op k ih =>
    obtain ⟨r,rest,rfl,ha,hr⟩ := Run.await_iff.mp h
    obtain ⟨r',rest',rfl,ha',hr'⟩ := Run.await_iff.mp h'
    cases op with
    | base op =>
      obtain ⟨he,hrest⟩ := List.cons.inj hb
      cases he
      obtain ⟨rfl,rfl⟩ := ih r hr hr' hrest
      exact ⟨rfl,rfl⟩
    | «yield» y =>
      cases ha
      cases ha'
      obtain ⟨rfl,rfl⟩ := ih (.ok ()) hr hr' hb
      exact ⟨rfl,rfl⟩

/-! ### Passing a generator on -/

section Relay
variable {X : Type}

/-- A loop body that yields what it makes of a value, if anything. -/
def relay : Option Y → Gen B Y ε (Unit × Except ε Unit)
  | none => .done ((),.ok ())
  | some y => (Gen.yield y).attempt.resume fun
    | .ok resumed => .done ((),resumed)
    | .error e => .raise e

theorem relay_drained {allowed : (op : B.Op) → Except ε (B.Answer op) → Prop} {y : Y}
    {tr : Trace (genSignature B Y) ε} {out : Except ε (Unit × Except ε Unit)}
    (h : Run (Drained allowed) (relay (B := B) (some y)) tr out) :
    tr = [⟨.yield y,.ok ()⟩] ∧ out = .ok ((),.ok ()) := by
  obtain ⟨tr₁,r,tr₂,rfl,h₁,h₂⟩ := Run.resume_iff.mp h
  obtain ⟨resumed,rfl,hy⟩ := Run.attempt_iff.mp h₁
  obtain ⟨rfl,hd⟩ := Run.call_iff.mp hy
  cases hd
  obtain ⟨rfl,rfl⟩ := Run.done_iff.mp h₂
  exact ⟨rfl,rfl⟩

/-- What a drained relay yields is what it makes of all that its source yields. -/
theorem asyncFor_relay_drained {allowed : (op : B.Op) → Except ε (B.Answer op) → Prop}
    {gen : Gen B X ε Unit} {f : X → Option Y} {tr : Trace (genSignature B Y) ε}
    {out : Except ε (Unit × Except ε Unit)}
    (h : Run (Drained allowed) (asyncFor (S := genSignature B Y) Gen.baseCall gen () fun _ x => relay (f x))
      tr out) :
    ∃ source exit, Run (Drained allowed) gen source exit ∧ out = .ok ((),exit) ∧ bases source = bases tr ∧
      yielded tr = (yielded source).filterMap f := by
  induction gen generalizing tr with
  | done a =>
    obtain ⟨rfl,rfl⟩ := Run.done_iff.mp h
    exact ⟨[],_,.done a,rfl,rfl,rfl⟩
  | raise e =>
    obtain ⟨rfl,rfl⟩ := Run.done_iff.mp h
    exact ⟨[],_,.raise e,rfl,rfl,rfl⟩
  | await op k ih =>
    cases op with
    | base op =>
      obtain ⟨tr₁,r,tr₂,rfl,h₁,h₂⟩ := Run.resume_iff.mp h
      obtain ⟨rfl,ha⟩ := Run.call_iff.mp h₁
      obtain ⟨source,exit,hg,rfl,hb,hy⟩ := ih r h₂
      exact ⟨⟨.base op,r⟩ :: source,exit,.await ha hg,rfl,congrArg (List.cons (⟨op,r⟩ : Event B ε)) hb,hy⟩
    | «yield» x =>
      obtain ⟨tr₁,r,tr₂,rfl,h₁,h₂⟩ := Run.resume_iff.mp h
      change Run (Drained allowed) (relay (f x)) tr₁ r at h₁
      cases hx : f x with
      | none =>
        rw [hx] at h₁
        obtain ⟨rfl,rfl⟩ := Run.done_iff.mp h₁
        obtain ⟨source,exit,hg,rfl,hb,hy⟩ := ih (.ok ()) h₂
        refine ⟨⟨.yield x,.ok ()⟩ :: source,exit,.await rfl hg,rfl,hb,hy.trans ?_⟩
        exact (List.filterMap_cons_none hx).symm
      | some y =>
        rw [hx] at h₁
        obtain ⟨rfl,rfl⟩ := relay_drained h₁
        obtain ⟨source,exit,hg,rfl,hb,hy⟩ := ih (.ok ()) h₂
        refine ⟨⟨.yield x,.ok ()⟩ :: source,exit,.await rfl hg,rfl,hb,(congrArg (List.cons y) hy).trans ?_⟩
        exact (List.filterMap_cons_some hx).symm

end Relay
end Generators

end AsyncTask
