import Mathlib.Data.List.Basic

/-! # The last report

A record is brought up to date by one report after another, each of which speaks of some of
its fields and leaves the others alone. What the record ends up with is, field by field, the
last thing said.
-/
namespace Reports

variable {α β γ σ : Type}

/-- The last value reported. -/
def last (f : α → Option β) (reports : List α) : Option β := (reports.filterMap f).getLast?

@[simp] theorem last_nil (f : α → Option β) : last f [] = none := rfl

@[simp] theorem last_cons (f : α → Option β) (x : α) (xs : List α) :
    last f (x :: xs) = (last f xs).or (f x) := by
  unfold last
  cases hx : f x with
  | none => simp [hx]
  | some b =>
    rw [List.filterMap_cons_some hx, List.getLast?_cons]
    cases (xs.filterMap f).getLast? <;> rfl

theorem last_append (f : α → Option β) (xs ys : List α) :
    last f (xs ++ ys) = (last f ys).or (last f xs) := by
  induction xs with
  | nil => simp
  | cons x xs ih => rw [List.cons_append, last_cons, ih, last_cons, Option.or_assoc]

theorem last_eq_none {f : α → Option β} {xs : List α} : last f xs = none ↔ ∀ x ∈ xs, f x = none := by
  induction xs with
  | nil => simp
  | cons x xs ih => rw [last_cons, Option.or_eq_none_iff, ih, List.forall_mem_cons, and_comm]

theorem last_eq_some {f : α → Option β} {xs : List α} {b : β} (h : last f xs = some b) :
    ∃ x ∈ xs, f x = some b :=
  List.mem_filterMap.mp (List.mem_of_getLast? h)

theorem last_congr {f g : α → Option β} {xs : List α} (h : ∀ x ∈ xs, f x = g x) :
    last f xs = last g xs := by
  unfold last
  rw [List.filterMap_congr h]

theorem last_filterMap (f : α → Option β) (piece : γ → Option α) (xs : List γ) :
    last f (xs.filterMap piece) = last (fun x => (piece x).bind f) xs := by
  induction xs with
  | nil => rfl
  | cons x xs ih =>
    rw [last_cons, ← ih]
    cases hx : piece x with
    | none => simp [hx]
    | some a => simp [hx]

/-- The silent ones can be left out. -/
theorem last_filter {f : α → Option β} {p : α → Bool} {xs : List α} (h : ∀ x ∈ xs, p x = false → f x = none) :
    last f (xs.filter p) = last f xs := by
  induction xs with
  | nil => rfl
  | cons x xs ih =>
    obtain ⟨hx,hxs⟩ := List.forall_mem_cons.mp h
    rw [List.filter_cons, last_cons, ← ih hxs]
    cases hp : p x with
    | true => exact last_cons f x _
    | false => simp [hx hp]

/-- A field that each step leaves alone or overwrites holds the last report of it. -/
theorem foldl_field {step : σ → α → σ} (field : σ → Option β) (f : α → Option β)
    (h : ∀ s x, field (step s x) = (f x).or (field s)) (xs : List α) (s : σ) :
    field (xs.foldl step s) = (last f xs).or (field s) := by
  induction xs generalizing s with
  | nil => rfl
  | cons x xs ih => rw [List.foldl_cons, ih, h, last_cons, Option.or_assoc]

/-- Whole reports against their fields: the last whole report has the last value of a field
exactly when it is not silent about a field that was ever reported. -/
theorem last_bind_iff (f : α → Option β) (g : β → Option γ) (xs : List α) :
    (last f xs).bind g = last (fun x => (f x).bind g) xs ↔
      ((last f xs).bind g = none → ∀ x ∈ xs, (f x).bind g = none) := by
  rw [← last_eq_none]
  constructor
  · intro h hnone
    rw [← h, hnone]
  · intro h
    cases hg : (last f xs).bind g with
    | none => exact (h hg).symm
    | some c =>
      clear h
      induction xs with
      | nil => cases hg
      | cons x xs ih =>
        rw [last_cons] at hg ⊢
        cases hl : last f xs with
        | none =>
          rw [hl] at hg
          have hsilent : last (fun x => (f x).bind g) xs = none :=
            last_eq_none.mpr fun y hy => by rw [last_eq_none.mp hl y hy]; rfl
          rw [hsilent]
          exact hg.symm
        | some b =>
          rw [hl] at hg ih
          rw [← ih hg]
          rfl

end Reports
