import Mathlib.Logic.Relation

/-! # Labelled transition systems

Runs, invariants, and invariants of the runs whose steps all meet a condition.
-/
namespace Transition

variable {σ A : Type}

/-- A partial step function; `none` means the action is not possible in the state. -/
abbrev Step (σ A : Type) := σ → A → Option σ

/-- A run whose every step meets the condition in the state it is taken from. -/
inductive Guarded (step : Step σ A) (guard : σ → A → Prop) : σ → σ → Prop where
  | refl (s : σ) : Guarded step guard s s
  | step {s t u : σ} {a : A} : Guarded step guard s t → guard t a → step t a = some u → Guarded step guard s u

/-- A run with any steps. -/
abbrev Reach (step : Step σ A) : σ → σ → Prop := Guarded step (fun _ _ => True)

variable {step : Step σ A} {guard guard' : σ → A → Prop}

theorem Guarded.weaken {s t : σ} (h : Guarded step guard s t)
    (hg : ∀ s a, guard s a → guard' s a) : Guarded step guard' s t := by
  induction h with
  | refl => exact .refl _
  | step _ ha he ih => exact ih.step (hg _ _ ha) he

theorem Guarded.reach {s t : σ} (h : Guarded step guard s t) : Reach step s t :=
  h.weaken (fun _ _ _ => trivial)

theorem Guarded.trans {s t u : σ} (h : Guarded step guard s t) (h' : Guarded step guard t u) :
    Guarded step guard s u := by
  induction h' with
  | refl => exact h
  | step _ ha he ih => exact ih.step ha he

theorem Guarded.single {s t : σ} {a : A} (hg : guard s a) (h : step s a = some t) :
    Guarded step guard s t := (Guarded.refl s).step hg h

/-- What holds at the start and is kept by every step that meets the condition holds in
every state such a run reaches. -/
theorem Guarded.invariant {I : σ → Prop} {s t : σ} (h : Guarded step guard s t) (hs : I s)
    (hstep : ∀ s a t, I s → guard s a → step s a = some t → I t) : I t := by
  induction h with
  | refl => exact hs
  | step _ ha he ih => exact hstep _ _ _ ih ha he

/-- A list of actions taken in order. -/
def play (step : Step σ A) : σ → List A → Option σ
  | s, [] => some s
  | s, a :: as => (step s a).bind (play step · as)

theorem play_append {s t u : σ} {as bs : List A}
    (h : play step s as = some t) (h' : play step t bs = some u) : play step s (as ++ bs) = some u := by
  induction as generalizing s with
  | nil =>
    cases h
    exact h'
  | cons a as ih =>
    obtain ⟨v,hv,hr⟩ := Option.bind_eq_some_iff.mp h
    simp only [List.cons_append, play, hv, Option.bind_some]
    exact ih hr

theorem play_any {as : List A} {s : σ} {p : σ → Bool} (h : (play step s as).any p = true) :
    ∃ t, play step s as = some t ∧ p t = true := by
  cases ht : play step s as with
  | none => simp [ht] at h
  | some t => exact ⟨t,rfl,by simpa [ht] using h⟩

theorem play_guarded {as : List A} {s t : σ} (h : play step s as = some t)
    (hg : ∀ a ∈ as, ∀ s, guard s a) : Guarded step guard s t := by
  induction as generalizing s with
  | nil =>
    cases h
    exact .refl _
  | cons a as ih =>
    obtain ⟨u,hu,hr⟩ := Option.bind_eq_some_iff.mp h
    have ht := ih hr (fun b hb => hg b (List.mem_cons_of_mem _ hb))
    exact (Guarded.single (hg a List.mem_cons_self s) hu).trans ht

/-- Actions that are checked before they are taken. -/
def checked (step : Step σ A) (check : σ → A → Bool) : Step σ A := fun s a => if check s a then step s a else none

theorem play_checked {check : σ → A → Bool} {as : List A} {s t : σ} (hc : ∀ s a, check s a = true → guard s a)
    (h : play (checked step check) s as = some t) : Guarded step guard s t := by
  induction as generalizing s with
  | nil =>
    cases h
    exact .refl _
  | cons a as ih =>
    obtain ⟨u,hu,hr⟩ := Option.bind_eq_some_iff.mp h
    unfold checked at hu
    split at hu
    · rename_i ha
      exact (Guarded.single (hc s a ha) hu).trans (ih hr)
    · cases hu

theorem play_reach {as : List A} {s t : σ} (h : play step s as = some t) : Reach step s t :=
  play_guarded h (fun _ _ _ => trivial)

end Transition
