import InferenceLogger.Foundation.Rewriting
import Mathlib.Data.List.Flatten

/-! # What rewriting leaves, place by place

Where the characters of a text carry distinct places, each pattern in turn takes away the places
in its hits and leaves the others.
-/
namespace Backtracking
variable {α : Type} {word : α → Bool}

/-- The pieces of a text make it up. -/
theorem pieces_text {p : Pattern α} (hc : p.body.consumes = true) (n : ℕ) {t : List α} (hn : t.length ≤ n) (b : Option α) :
    (pieces word p n b t).flatMap Piece.text = t := by
  induction n generalizing b t with
  | zero =>
    have hnil : t = [] := List.length_eq_zero_iff.mp (by omega)
    subst hnil
    rfl
  | succ n ih =>
    cases t with
    | nil => rfl
    | cons a t =>
      rw [List.length_cons] at hn
      unfold pieces
      cases hmatch : p.matchAt word b (a :: t) with
      | none =>
        simp only [List.flatMap_cons, Piece.text, List.singleton_append]
        rw [ih (by omega)]
      | some rest =>
        obtain ⟨m,hne,ht,-⟩ := matchAt_some hc hmatch
        have hlen := congrArg List.length ht
        have hpos := List.length_pos_iff.mpr hne
        rw [List.length_cons, List.length_append] at hlen
        simp only [List.flatMap_cons, Piece.text]
        rw [ih (by omega)]
        have htake : (a :: t).take ((a :: t).length - rest.length) = m := by
          rw [ht, List.length_append, Nat.add_sub_cancel, List.take_left]
        rw [htake, ← ht]

section
variable {ι : Type} (place : α → Option ι)

/-- The places a text still shows. -/
def places (t : List α) : List ι := t.filterMap place

theorem places_flatMap {β : Type} (f : β → List α) (qs : List β) :
    places place (qs.flatMap f) = qs.flatMap fun q => places place (f q) := by
  induction qs with
  | nil => rfl
  | cons q qs ih =>
    rw [List.flatMap_cons, List.flatMap_cons, ← ih]
    exact List.filterMap_append

variable {place} {placeholder : List α} (hp : places place placeholder = [])
include hp

theorem places_replaced_sublist (qs : List (Piece α)) :
    (qs.flatMap fun q => places place (q.replaced placeholder)).Sublist (qs.flatMap fun q => places place q.text) := by
  induction qs with
  | nil => exact List.Sublist.slnil
  | cons q qs ih =>
    rw [List.flatMap_cons, List.flatMap_cons]
    refine List.Sublist.append ?_ ih
    cases q with
    | keep a => exact List.Sublist.refl _
    | hit m =>
      simp only [Piece.replaced, hp]
      exact List.nil_sublist _

theorem mem_replaced {qs : List (Piece α)} (hnodup : (qs.flatMap fun q => places place q.text).Nodup) {j : ι} :
    j ∈ (qs.flatMap fun q => places place (q.replaced placeholder)) ↔
      j ∈ (qs.flatMap fun q => places place q.text) ∧ ¬ ∃ m, .hit m ∈ qs ∧ j ∈ places place m := by
  induction qs with
  | nil => simp
  | cons q qs ih =>
    rw [List.flatMap_cons] at hnodup
    obtain ⟨-,hrest,hdisjoint⟩ := List.nodup_append.mp hnodup
    rw [List.flatMap_cons, List.flatMap_cons, List.mem_append, List.mem_append, ih hrest]
    have hlater : ∀ m, .hit m ∈ qs → j ∈ places place m → j ∈ qs.flatMap fun q => places place q.text :=
      fun m hm hj => List.mem_flatMap.mpr ⟨.hit m,hm,hj⟩
    cases q with
    | keep a =>
      have hfirst : (∃ m, .hit m ∈ Piece.keep a :: qs ∧ j ∈ places place m) ↔ ∃ m, .hit m ∈ qs ∧ j ∈ places place m := by
        simp
      rw [hfirst]
      constructor
      · rintro (hj | ⟨hj,hnone⟩)
        · exact ⟨.inl hj,fun ⟨m,hm,hjm⟩ => hdisjoint j hj j (hlater m hm hjm) rfl⟩
        · exact ⟨.inr hj,hnone⟩
      · rintro ⟨hj | hj,hnone⟩
        · exact .inl hj
        · exact .inr ⟨hj,hnone⟩
    | hit m =>
      simp only [Piece.replaced, hp, List.not_mem_nil, false_or]
      constructor
      · rintro ⟨hj,hnone⟩
        refine ⟨.inr hj,?_⟩
        rintro ⟨m',hm',hjm'⟩
        rcases List.mem_cons.mp hm' with heq | hm'
        · cases heq
          exact hdisjoint j hjm' j hj rfl
        · exact hnone ⟨m',hm',hjm'⟩
      · rintro ⟨hj | hj,hnone⟩
        · exact absurd ⟨m,List.mem_cons_self,hj⟩ hnone
        · exact ⟨hj,fun ⟨m',hm',hjm'⟩ => hnone ⟨m',List.mem_cons_of_mem _ hm',hjm'⟩⟩

end

section
variable {ι : Type} (place : α → Option ι) (word : α → Bool)

/-- The place lies in a hit of one of the patterns, in the text as those before it leave it. -/
def Masked : List (Pattern α × List α) → List α → ι → Prop
  | [], _, _ => False
  | r :: rules, t, j => (∃ m, .hit m ∈ pieces word r.1 t.length none t ∧ j ∈ places place m) ∨
      Masked rules (sub word r.1 r.2 t) j

variable {place word}

/-- The places that are left are those of the text that are not masked. -/
theorem mem_places_subAll {rules : List (Pattern α × List α)} (hc : ∀ r ∈ rules, r.1.body.consumes = true)
    (hp : ∀ r ∈ rules, places place r.2 = []) {t : List α} (hnodup : (places place t).Nodup) {j : ι} :
    j ∈ places place (subAll word rules t) ↔ j ∈ places place t ∧ ¬ Masked place word rules t j := by
  induction rules generalizing t with
  | nil => exact ⟨fun h => ⟨h,id⟩,And.left⟩
  | cons r rules ih =>
    have hplaceholder := hp r List.mem_cons_self
    have htext : (pieces word r.1 t.length none t).flatMap (fun q => places place q.text) = places place t := by
      rw [← places_flatMap, pieces_text (hc r List.mem_cons_self) _ (Nat.le_refl _)]
    have hsub : places place (sub word r.1 r.2 t) =
        (pieces word r.1 t.length none t).flatMap fun q => places place (q.replaced r.2) := places_flatMap _ _ _
    have hleft := mem_replaced hplaceholder (htext.symm ▸ hnodup) (j := j)
    rw [htext, ← hsub] at hleft
    have hnodup' : (places place (sub word r.1 r.2 t)).Nodup := by
      rw [hsub]
      refine List.Nodup.sublist (places_replaced_sublist hplaceholder _) ?_
      rw [htext]
      exact hnodup
    have hrest := ih (fun r' h => hc r' (List.mem_cons_of_mem _ h)) (fun r' h => hp r' (List.mem_cons_of_mem _ h)) hnodup'
    change j ∈ places place (subAll word rules (sub word r.1 r.2 t)) ↔ _
    rw [hrest, hleft, Masked, not_or, and_assoc]

end
end Backtracking
