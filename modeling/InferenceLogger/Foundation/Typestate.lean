import InferenceLogger.Foundation.Task

/-! # Typestates

Which operations a program may issue, as a relation between phases. A program follows it when
from its phase every operation it issues is allowed, whatever the environment answers.
-/
namespace AsyncTask
variable {S : Signature} {ε α β γ Φ : Type}

/-- In the first phase the operation may be issued, and this answer leads to the second. -/
abbrev Typestate (S : Signature) (ε Φ : Type) := Φ → (op : S.Op) → Except ε (S.Answer op) → Φ → Prop

def Follows (P : Typestate S ε Φ) (post : Except ε α → Φ → Prop) : Task S ε α → Φ → Prop
  | .done a, φ => post (.ok a) φ
  | .raise e, φ => post (.error e) φ
  | .await op k, φ => ∀ r, ∃ φ', P φ op r φ' ∧ Follows P post (k r) φ'

namespace Follows
variable {P : Typestate S ε Φ} {φ : Φ}

theorem mono {post post' : Except ε α → Φ → Prop} {t : Task S ε α} (h : Follows P post t φ)
    (hp : ∀ r φ, post r φ → post' r φ) : Follows P post' t φ := by
  induction t generalizing φ with
  | done a => exact hp _ _ h
  | raise e => exact hp _ _ h
  | await op k ih =>
    intro r
    obtain ⟨φ',ha,hk⟩ := h r
    exact ⟨φ',ha,ih r hk⟩

theorem resume {post : Except ε β → Φ → Prop} {t : Task S ε α} {f : Except ε α → Task S ε β}
    (h : Follows P (fun r φ => Follows P post (f r) φ) t φ) : Follows P post (t.resume f) φ := by
  induction t generalizing φ with
  | done a => exact h
  | raise e => exact h
  | await op k ih =>
    intro r
    obtain ⟨φ',ha,hk⟩ := h r
    exact ⟨φ',ha,ih r hk⟩

theorem bind {post : Except ε β → Φ → Prop} {t : Task S ε α} {f : α → Task S ε β}
    (h : Follows P (fun r φ => match r with
      | .ok a => Follows P post (f a) φ
      | .error e => post (.error e) φ) t φ) : Follows P post (t >>= f) φ := by
  rw [Task.bind_def]
  apply resume
  refine h.mono fun r φ hr => ?_
  cases r with
  | ok a => exact hr
  | error e => exact hr

theorem call {q : ∀ op : S.Op, Except ε (S.Answer op) → Φ → Prop} {op : S.Op}
    (h : ∀ r, ∃ φ', P φ op r φ' ∧ q op r φ') : Follows P (q op) (Task.call op) φ := by
  intro r
  obtain ⟨φ',ha,hp⟩ := h r
  refine ⟨φ',ha,?_⟩
  cases r with
  | ok a => exact hp
  | error e => exact hp

/-- A loop whose body comes back to the phase it starts in. -/
theorem foldlM {f : β → γ → Task S ε β} {items : List γ} {b : β}
    (h : ∀ b x, Follows P (fun _ φ' => φ' = φ) (f b x) φ) :
    Follows P (fun _ φ' => φ' = φ) (items.foldlM f b) φ := by
  induction items generalizing b with
  | nil => exact rfl
  | cons x items ih =>
    rw [List.foldlM_cons]
    apply bind
    refine (h b x).mono fun r φ' hφ => ?_
    subst hφ
    cases r with
    | ok b => exact ih
    | error e => exact rfl

/-- Operations replaced by programs that follow another typestate. -/
theorem interp {T : Signature} {Q : Typestate T ε Φ} {h : (op : S.Op) → Task T ε (S.Answer op)}
    {q : Except ε α → Φ → Prop} {t : Task S ε α}
    (hop : ∀ (φ : Φ) (op : S.Op) (post : Except ε (S.Answer op) → Φ → Prop),
      (∀ r, ∃ φ', P φ op r φ' ∧ post r φ') → Follows Q post (h op) φ)
    (ht : Follows P q t φ) : Follows Q q (t.interp h) φ := by
  induction t generalizing φ with
  | done a => exact ht
  | raise e => exact ht
  | await op k ih =>
    apply resume
    apply hop φ op
    intro r
    obtain ⟨φ',ha,hk⟩ := ht r
    exact ⟨φ',ha,ih r hk⟩

end Follows

/-- Every operation the program can come to issue is one of these. -/
abbrev Issues (p : S.Op → Prop) (t : Task S ε α) : Prop :=
  Follows (fun (_ : Unit) op _ _ => p op) (fun _ _ => True) t ()

namespace Issues
variable {p : S.Op → Prop}

theorem resume {t : Task S ε α} {f : Except ε α → Task S ε β} (ht : Issues p t) (hf : ∀ r, Issues p (f r)) :
    Issues p (t.resume f) :=
  Follows.resume (ht.mono fun r _ _ => hf r)

theorem bind {t : Task S ε α} {f : α → Task S ε β} (ht : Issues p t) (hf : ∀ a, Issues p (f a)) :
    Issues p (t >>= f) := by
  apply Issues.resume ht
  intro r
  cases r with
  | ok a => exact hf a
  | error e => exact trivial

theorem call {op : S.Op} (h : p op) : Issues p (Task.call (ε := ε) op) :=
  Follows.call (q := fun _ _ _ => True) fun _ => ⟨(),h,trivial⟩

/-- A program that issues only these stays in a phase that allows them. -/
theorem follows {P : Typestate S ε Φ} {φ : Φ} {t : Task S ε α} (ht : Issues p t) (hp : ∀ op r, p op → P φ op r φ) :
    Follows P (fun _ φ' => φ' = φ) t φ := by
  induction t with
  | done a => exact rfl
  | raise e => exact rfl
  | await op k ih =>
    intro r
    obtain ⟨_,ha,hk⟩ := ht r
    exact ⟨φ,hp op r ha,ih r hk⟩

/-- A program that issues only what every phase allows may start in any. -/
theorem anywhere {P : Typestate S ε Φ} {t : Task S ε α} (ht : Issues p t)
    (hp : ∀ φ op r, p op → ∃ φ', P φ op r φ') (φ : Φ) : Follows P (fun _ _ => True) t φ := by
  induction t generalizing φ with
  | done a => exact trivial
  | raise e => exact trivial
  | await op k ih =>
    intro r
    obtain ⟨_,ha,hk⟩ := ht r
    obtain ⟨φ',hφ⟩ := hp φ op r ha
    exact ⟨φ',hφ,ih r hk φ'⟩

/-- Whatever phase the first part ends in, the rest may start there. -/
theorem after {P : Typestate S ε Φ} {q : Except ε α → Φ → Prop} {t : Task S ε α} {f : α → Task S ε β} {φ : Φ}
    (hp : ∀ φ op r, p op → ∃ φ', P φ op r φ') (h : Follows P q t φ) (hf : ∀ a, Issues p (f a)) :
    Follows P (fun _ _ => True) (t >>= f) φ := by
  apply Follows.bind
  refine h.mono fun r φ' _ => ?_
  cases r with
  | ok a => exact (hf a).anywhere hp φ'
  | error e => exact trivial

end Issues

section Generators
variable {B : Signature} {Y σ : Type}

/-- The same of a generator, whatever it yields. -/
abbrev GenIssues (p : B.Op → Prop) (gen : Gen B Y ε α) : Prop :=
  Issues (S := genSignature B Y) (fun op => ∀ b, op = .base b → p b) gen

theorem Issues.ofBase {p : B.Op → Prop} {t : Task B ε α} (ht : Issues p t) :
    GenIssues (Y := Y) p (Gen.ofBase t) := by
  refine Follows.interp (T := genSignature B Y)
    (Q := fun (_ : Unit) (op : GenOp B Y) _ _ => ∀ b, op = .base b → p b) ?_ ht
  intro φ op post h r
  obtain ⟨φ',hp,hpost⟩ := h r
  refine ⟨φ',fun b hb => ?_,?_⟩
  · cases hb
    exact hp
  · cases r with
    | ok a => exact hpost
    | error e => exact hpost

/-- A coroutine in a generator follows what the generator allows of its operations. -/
theorem Follows.ofBase {P : Typestate B ε Φ} {Q : Typestate (genSignature B Y) ε Φ} {q : Except ε α → Φ → Prop}
    {t : Task B ε α} {φ : Φ} (hPQ : ∀ φ op r φ', P φ op r φ' → Q φ (.base op) r φ') (h : Follows P q t φ) :
    Follows Q q (Gen.ofBase t) φ := by
  refine Follows.interp (T := genSignature B Y) ?_ h
  intro φ op post h r
  obtain ⟨φ',ha,hp⟩ := h r
  refine ⟨φ',hPQ φ op r φ' ha,?_⟩
  cases r with
  | ok a => exact hp
  | error e => exact hp

/-- A loop over a generator that issues only these, whose body comes back to its phase. -/
theorem Follows.asyncFor [Nonempty ε] {P : Typestate S ε Φ} {φ : Φ} {p : B.Op → Prop}
    {lift : (op : B.Op) → Task S ε (B.Answer op)} {gen : Gen B Y ε Unit} {s : σ}
    {body : σ → Y → Task S ε (σ × Except ε Unit)} (hg : GenIssues p gen)
    (hl : ∀ op, p op → Follows P (fun _ φ' => φ' = φ) (lift op) φ)
    (hb : ∀ s y, Follows P (fun _ φ' => φ' = φ) (body s y) φ) :
    Follows P (fun _ φ' => φ' = φ) (asyncFor lift gen s body) φ := by
  induction gen generalizing s with
  | done u => exact rfl
  | raise e => exact rfl
  | await op k ih =>
    cases op with
    | base op =>
      have hop : p op := by
        obtain ⟨e⟩ := ‹Nonempty ε›
        obtain ⟨_,ha,-⟩ := hg (.error e)
        exact ha op rfl
      apply Follows.resume
      refine (hl op hop).mono fun r φ' hφ => ?_
      subst hφ
      obtain ⟨_,-,hk⟩ := hg r
      exact ih r hk
    | yield y =>
      apply Follows.resume
      refine (hb s y).mono fun r φ' hφ => ?_
      subst hφ
      match r with
      | .error e => exact rfl
      | .ok (next,.error e) => exact rfl
      | .ok (next,.ok ()) =>
        obtain ⟨_,-,hk⟩ := hg (.ok ())
        exact ih (.ok ()) hk

end Generators
end AsyncTask
