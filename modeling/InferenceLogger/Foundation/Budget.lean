import InferenceLogger.Foundation.Grouping

/-! # Taking what a budget affords

Items with weights are taken from the front of a list while a budget lasts. What is taken is
the longest affordable prefix; read backwards, the longest suffix with that property.
-/
namespace Budget
open Grouping

variable {α : Type}

/-- The longest suffix of a list with a property. -/
structure LongestSuffix (P : List α → Prop) (l s : List α) : Prop where
  suffix : s <:+ l
  holds : P s
  longest : ∀ t, t <:+ l → P t → t.length ≤ s.length

theorem suffix_eq {l s t : List α} (hs : s <:+ l) (ht : t <:+ l) (h : s.length = t.length) : s = t :=
  (List.suffix_of_suffix_length_le hs ht (Nat.le_of_eq h)).eq_of_length h

theorem LongestSuffix.unique {P : List α → Prop} {l s t : List α} (hs : LongestSuffix P l s)
    (ht : LongestSuffix P l t) : s = t :=
  suffix_eq hs.suffix ht.suffix (Nat.le_antisymm (ht.longest s hs.suffix hs.holds) (hs.longest t ht.suffix ht.holds))

section
variable (weight : α → ℤ)

/-- Items are taken while what is left of the budget does not go below zero. -/
def afforded : ℤ → List α → List α
  | _, [] => []
  | budget, x :: xs => if 0 ≤ budget - weight x then x :: afforded (budget - weight x) xs else []

theorem afforded_initial (budget : ℤ) (xs : List α) : afforded weight budget xs <+: xs := by
  induction xs generalizing budget with
  | nil => exact List.prefix_refl []
  | cons x xs ih =>
    rw [afforded]
    split
    · exact List.cons_prefix_cons.mpr ⟨rfl,ih _⟩
    · exact List.nil_prefix

theorem afforded_total {budget : ℤ} (xs : List α) (h : 0 ≤ budget) : total weight (afforded weight budget xs) ≤ budget := by
  induction xs generalizing budget with
  | nil => exact h
  | cons x xs ih =>
    rw [afforded]
    split
    · rename_i hleft
      have hrest := ih hleft
      rw [total]
      omega
    · exact h

/-- Nothing is afforded once the budget is overdrawn. -/
theorem afforded_overdrawn (hw : ∀ x, 0 ≤ weight x) {budget : ℤ} (h : budget < 0) (xs : List α) :
    afforded weight budget xs = [] := by
  cases xs with
  | nil => rfl
  | cons x xs =>
    have hx := hw x
    rw [afforded, if_neg (by omega)]

theorem total_nonneg (hw : ∀ x, 0 ≤ weight x) (xs : List α) : 0 ≤ total weight xs := by
  induction xs with
  | nil => exact le_rfl
  | cons x xs ih =>
    have hx := hw x
    rw [total]
    omega

/-- No affordable prefix is longer. -/
theorem afforded_longest (hw : ∀ x, 0 ≤ weight x) {budget : ℤ} {p xs : List α} (hp : p <+: xs)
    (ht : total weight p ≤ budget) : p.length ≤ (afforded weight budget xs).length := by
  induction xs generalizing budget p with
  | nil => exact hp.length_le
  | cons x xs ih =>
    cases p with
    | nil => exact Nat.zero_le _
    | cons y p =>
      obtain ⟨rfl,hrest⟩ := List.cons_prefix_cons.mp hp
      have hnonneg := total_nonneg weight hw p
      rw [total] at ht
      rw [afforded, if_pos (by omega)]
      exact Nat.succ_le_succ (ih hrest (by omega))

end
end Budget
