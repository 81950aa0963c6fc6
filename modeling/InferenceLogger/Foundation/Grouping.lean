import Mathlib.Data.List.Basic
import Mathlib.Data.List.Dedup
import Mathlib.Data.Int.Order.Basic

/-! # Grouping rows

Rows with the same key form a group. However the groups are ordered afterwards, every row is
in the one group of its key, and a total over all rows is the total over the groups of the
totals within each.
-/
namespace Grouping

variable {α β γ K : Type}

/-- `SUM`. -/
def total (f : α → ℤ) : List α → ℤ
  | [] => 0
  | x :: xs => f x + total f xs

theorem total_map (f : β → ℤ) (g : α → β) (xs : List α) : total f (xs.map g) = total (fun x => f (g x)) xs := by
  induction xs with
  | nil => rfl
  | cons x xs ih => exact congrArg (f (g x) + ·) ih

theorem total_congr {f g : α → ℤ} {xs : List α} (h : ∀ x ∈ xs, f x = g x) : total f xs = total g xs := by
  induction xs with
  | nil => rfl
  | cons x xs ih =>
    rw [total, total, h x List.mem_cons_self, ih fun y hy => h y (List.mem_cons_of_mem _ hy)]

theorem total_add (f g : α → ℤ) (xs : List α) : total (fun x => f x + g x) xs = total f xs + total g xs := by
  induction xs with
  | nil => rfl
  | cons x xs ih =>
    simp only [total, ih]
    omega

theorem total_zero (xs : List α) : total (fun _ => 0) xs = 0 := by
  induction xs with
  | nil => rfl
  | cons x xs ih =>
    simp only [total, ih]
    rfl

theorem total_append (f : α → ℤ) (xs ys : List α) : total f (xs ++ ys) = total f xs + total f ys := by
  induction xs with
  | nil =>
    simp only [List.nil_append, total]
    omega
  | cons x xs ih =>
    simp only [List.cons_append, total, ih]
    omega

theorem total_perm {xs ys : List α} (h : xs.Perm ys) (f : α → ℤ) : total f xs = total f ys := by
  induction h with
  | nil => rfl
  | cons x _ ih => rw [total, total, ih]
  | swap x y zs =>
    simp only [total]
    omega
  | trans _ _ ih₁ ih₂ => rw [ih₁, ih₂]

/-- A count is a total of ones. -/
theorem total_indicator (p : α → Bool) (xs : List α) :
    total (fun x => if p x = true then 1 else 0) xs = (xs.filter p).length := by
  induction xs with
  | nil => rfl
  | cons x xs ih =>
    rw [total, ih, List.filter_cons]
    split
    · rw [List.length_cons]
      omega
    · omega

section
variable [DecidableEq K] (key : α → K)

/-- The rows of one group. -/
def group (xs : List α) (k : K) : List α := xs.filter fun x => decide (key x = k)

def keys (xs : List α) : List K := (xs.map key).dedup

/-- `GROUP BY`: one result for each key that occurs. -/
def groupBy (result : K → List α → β) (xs : List α) : List β :=
  (keys key xs).map fun k => result k (group key xs k)

theorem total_only {f : K → ℤ} {ks : List K} (hks : ks.Nodup) {k₀ : K} (hk : k₀ ∈ ks) :
    total (fun k => if k₀ = k then f k else 0) ks = f k₀ := by
  have hzero : ∀ ks : List K, k₀ ∉ ks → total (fun k => if k₀ = k then f k else 0) ks = 0 := by
    intro ks hnot
    refine (total_congr (g := fun _ => 0) fun k hmem => if_neg ?_).trans (total_zero ks)
    rintro rfl
    exact hnot hmem
  induction ks with
  | nil => cases hk
  | cons k ks ih =>
    obtain ⟨hnew,hks⟩ := List.nodup_cons.mp hks
    rw [total]
    by_cases h : k₀ = k
    · subst h
      rw [if_pos rfl, hzero ks hnew]
      omega
    · rw [if_neg h, ih hks ((List.mem_cons.mp hk).resolve_left h)]
      omega

theorem total_groups_of {ks : List K} (hks : ks.Nodup) (f : α → ℤ) (xs : List α)
    (hxs : ∀ x ∈ xs, key x ∈ ks) : total (fun k => total f (group key xs k)) ks = total f xs := by
  induction xs with
  | nil => exact total_zero ks
  | cons x xs ih =>
    have hsplit : ∀ k, total f (group key (x :: xs) k) =
        (if key x = k then f x else 0) + total f (group key xs k) := by
      intro k
      unfold group
      by_cases h : key x = k
      · rw [List.filter_cons_of_pos (by simpa using h), if_pos h, total]
      · rw [List.filter_cons_of_neg (by simpa using h), if_neg h]
        omega
    simp only [hsplit]
    rw [total_add, total_only (f := fun _ => f x) hks (hxs x List.mem_cons_self),
      ih fun y hy => hxs y (List.mem_cons_of_mem _ hy), total]

/-- What a column of the results adds up to. -/
theorem total_groupBy {result : K → List α → β} {column : β → ℤ} {f : α → ℤ}
    (h : ∀ k xs, column (result k xs) = total f xs) (xs : List α) :
    total column (groupBy key result xs) = total f xs := by
  unfold groupBy
  rw [total_map]
  simp only [h]
  exact total_groups_of key (List.nodup_dedup _) f xs fun x hx =>
    List.mem_dedup.mpr (List.mem_map_of_mem hx)

theorem mem_groupBy {result : K → List α → β} {xs : List α} {b : β} :
    b ∈ groupBy key result xs ↔ ∃ x ∈ xs, result (key x) (group key xs (key x)) = b := by
  unfold groupBy keys
  constructor
  · intro h
    obtain ⟨k,hk,rfl⟩ := List.mem_map.mp h
    obtain ⟨x,hx,rfl⟩ := List.mem_map.mp (List.mem_dedup.mp hk)
    exact ⟨x,hx,rfl⟩
  · rintro ⟨x,hx,rfl⟩
    exact List.mem_map.mpr ⟨key x,List.mem_dedup.mpr (List.mem_map_of_mem hx),rfl⟩

theorem filter_unique {ks : List K} (hks : ks.Nodup) {k₀ : K} (hk : k₀ ∈ ks) :
    ks.filter (fun k => decide (k = k₀)) = [k₀] := by
  induction ks with
  | nil => cases hk
  | cons k ks ih =>
    obtain ⟨hnew,hks⟩ := List.nodup_cons.mp hks
    by_cases h : k = k₀
    · subst h
      rw [List.filter_cons_of_pos (by simp), List.filter_eq_nil_iff.mpr]
      intro a ha
      simpa using fun hak : a = k => hnew (hak ▸ ha)
    · rw [List.filter_cons_of_neg (by simpa using h)]
      exact ih hks ((List.mem_cons.mp hk).resolve_left (Ne.symm h))

/-- Of the results, in whatever order, one and only one has the key of a given row. -/
theorem one_result {result : K → List α → β} (keyOf : β → K) (h : ∀ k xs, keyOf (result k xs) = k)
    {xs : List α} {x : α} (hx : x ∈ xs) {results : List β} (hr : results.Perm (groupBy key result xs)) :
    results.filter (fun b => decide (keyOf b = key x)) = [result (key x) (group key xs (key x))] := by
  have hkeys : (groupBy key result xs).filter (fun b => decide (keyOf b = key x)) =
      [result (key x) (group key xs (key x))] := by
    unfold groupBy
    rw [List.filter_map]
    have hcomp : ((fun b => decide (keyOf b = key x)) ∘ fun k => result k (group key xs k)) =
        fun k => decide (k = key x) := by
      funext k
      simp [h]
    have hkey : key x ∈ keys key xs := List.mem_dedup.mpr (List.mem_map_of_mem hx)
    have hnodup : (keys key xs).Nodup := List.nodup_dedup _
    rw [hcomp, filter_unique hnodup hkey]
    rfl
  exact List.perm_singleton.mp (hkeys ▸ hr.filter _)

/-- Rows in another order give the same results in another order. -/
theorem groupBy_perm {result : K → List α → β} (hresult : ∀ k {xs ys : List α}, xs.Perm ys → result k xs = result k ys)
    {xs ys : List α} (h : xs.Perm ys) : (groupBy key result xs).Perm (groupBy key result ys) := by
  have hgroups : (fun k => result k (group key xs k)) = fun k => result k (group key ys k) := by
    funext k
    exact hresult k (h.filter _)
  unfold groupBy
  rw [hgroups]
  exact (h.map key).dedup.map _

/-- Rows of another kind, read through a function that keeps their keys. -/
theorem groupBy_map {result : K → List α → β} {result' : K → List γ → β} {f : γ → α} {key' : γ → K}
    (hkey : ∀ x, key (f x) = key' x)
    (hresult : ∀ k xs, result k (xs.map f) = result' k xs) (xs : List γ) :
    groupBy key result (xs.map f) = groupBy key' result' xs := by
  have hcomp : key ∘ f = key' := funext hkey
  have hkeys : keys key (xs.map f) = keys key' xs := by
    unfold keys
    rw [List.map_map, hcomp]
  unfold groupBy
  rw [hkeys]
  apply List.map_congr_left
  intro k _
  rw [← hresult]
  congr 1
  unfold group
  rw [List.filter_map]
  simp only [Function.comp_def, hkey]

/-- The results are told apart by their keys, so that sorting them by these leaves no choice. -/
theorem mergeSort_groupBy (le : K → K → Bool) (htrans : ∀ a b c, le a b = true → le b c = true → le a c = true)
    (htotal : ∀ a b, (le a b || le b a) = true) (hanti : ∀ a b, le a b = true → le b a = true → a = b)
    {result : K → List α → β} (keyOf : β → K) (hkey : ∀ k xs, keyOf (result k xs) = k)
    {xs : List α} {results : List β} (h : results.Perm (groupBy key result xs)) :
    results.mergeSort (fun a b => le (keyOf a) (keyOf b)) = (groupBy key result xs).mergeSort fun a b =>
    le (keyOf a) (keyOf b) := by
  have hsorted : ∀ l : List β, (l.mergeSort fun a b => le (keyOf a) (keyOf b)).Pairwise fun a b =>
      le (keyOf a) (keyOf b) = true := by
    intro l
    apply List.pairwise_mergeSort
    · exact fun a b c => htrans _ _ _
    · exact fun a b => htotal _ _
  apply List.Perm.eq_of_pairwise _ (hsorted _) (hsorted _)
  · exact (List.mergeSort_perm _ _).trans (h.trans (List.mergeSort_perm _ _).symm)
  · intro a b ha hb hab hba
    have ha' := h.mem_iff.mp ((List.mergeSort_perm _ _).mem_iff.mp ha)
    have hb' := (List.mergeSort_perm _ _).mem_iff.mp hb
    obtain ⟨x,-,rfl⟩ := (mem_groupBy key).mp ha'
    obtain ⟨y,-,rfl⟩ := (mem_groupBy key).mp hb'
    rw [hkey, hkey] at hab hba
    rw [hanti _ _ hab hba]

end
end Grouping
