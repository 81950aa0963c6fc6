import Mathlib.Data.List.Basic

/-! # Words

A text is split at runs of separators, and what is kept are its words. Spacing the words out
again and splitting gives them back.
-/
namespace Words
variable {α : Type} {sp : α → Bool}

/-- The stretches without a separator, but for the empty ones. -/
def words (sp : α → Bool) (t : List α) : List (List α) := (t.splitOnP sp).filter fun w => !w.isEmpty

/-- Every word followed by a separator. -/
def spaced (sep : α) (ws : List (List α)) : List α := (ws.map fun w => w ++ [sep]).flatten

structure IsWord (sp : α → Bool) (w : List α) : Prop where
  ne_nil : w ≠ []
  solid : ∀ c ∈ w, sp c = false

@[simp] theorem words_nil : words sp [] = [] := by
  simp [words,List.splitOnP_nil]

theorem splitOnP_solid (t : List α) : ∀ w ∈ t.splitOnP sp, ∀ c ∈ w, sp c = false := by
  induction t with
  | nil =>
    intro w hw c hc
    rw [List.splitOnP_nil, List.mem_singleton] at hw
    rw [hw] at hc
    cases hc
  | cons a t ih =>
    rw [List.splitOnP_cons_eq_if_modifyHead]
    split
    · intro w hw
      rcases List.mem_cons.mp hw with rfl | hw
      · exact fun c hc => by cases hc
      · exact ih w hw
    · rename_i ha
      obtain ⟨first,rest,hsplit⟩ := List.exists_cons_of_ne_nil (List.splitOnP_ne_nil sp t)
      rw [hsplit] at ih ⊢
      intro w hw c hc
      rcases List.mem_cons.mp hw with rfl | hw
      · rcases List.mem_cons.mp hc with rfl | hc
        · exact eq_false_of_ne_true ha
        · exact ih first List.mem_cons_self c hc
      · exact ih w (List.mem_cons_of_mem _ hw) c hc

theorem words_isWord (t : List α) : ∀ w ∈ words sp t, IsWord sp w := by
  intro w hw
  obtain ⟨hmem,hne⟩ := List.mem_filter.mp hw
  exact ⟨by simpa using hne,splitOnP_solid t w hmem⟩

/-- A separator splits. -/
theorem words_append {sep : α} (hsep : sp sep = true) (x y : List α) : words sp (x ++ sep :: y) = words sp x ++ words sp y := by
  unfold words
  rw [List.splitOnP_append_cons x y hsep, List.filter_append]

theorem words_word {w : List α} (h : IsWord sp w) : words sp w = [w] := by
  unfold words
  rw [List.splitOnP_eq_singleton h.solid]
  exact List.filter_eq_self.mpr fun v hv => by simpa [List.mem_singleton.mp hv] using h.ne_nil

theorem words_spaced {sep : α} (hsep : sp sep = true) {ws : List (List α)} (h : ∀ w ∈ ws, IsWord sp w) :
    words sp (spaced sep ws) = ws := by
  induction ws with
  | nil => exact words_nil
  | cons w ws ih =>
    have hrest := ih fun v hv => h v (List.mem_cons_of_mem _ hv)
    have hcons : spaced sep (w :: ws) = w ++ sep :: spaced sep ws := by
      simp [spaced]
    rw [hcons, words_append hsep, words_word (h w List.mem_cons_self), hrest]
    rfl

end Words
