import Mathlib.Data.List.Basic
import Mathlib.Data.List.Nodup
import Mathlib.Data.Option.Basic

/-! # Keyed tables

A table is a finite list of rows with distinct keys, as a primary key makes it. The
distinctness is a field, so no operation can build a table with a repeated key, and
two tables hold the same rows exactly when all their lookups agree.
-/
namespace KeyedTable
variable {K V : Type} [DecidableEq K]

structure Table (K V : Type) where
  rows : List (K × V)
  nodup : (rows.map Prod.fst).Nodup

namespace Table

def empty : Table K V := ⟨[],by simp⟩

def get (t : Table K V) (k : K) : Option V := (t.rows.find? (fun r => decide (r.1 = k))).map Prod.snd

def has (t : Table K V) (k : K) : Bool := (t.get k).isSome

omit [DecidableEq K] in
theorem find_key {rows : List (K × V)} [DecidableEq K] {k : K} {r : K × V}
    (h : rows.find? (fun r => decide (r.1 = k)) = some r) : r ∈ rows ∧ r.1 = k :=
  ⟨List.mem_of_find?_eq_some h,by simpa using List.find?_some h⟩

theorem get_eq_none {t : Table K V} {k : K} : t.get k = none ↔ k ∉ t.rows.map Prod.fst := by
  unfold get
  rw [Option.map_eq_none_iff, List.find?_eq_none]
  constructor
  · intro h hk
    obtain ⟨r,hr,rfl⟩ := List.mem_map.mp hk
    exact h r hr (by simp)
  · intro h r hr hk
    simp only [decide_eq_true_eq] at hk
    exact h (hk ▸ List.mem_map_of_mem hr)

/-- `INSERT … ON CONFLICT DO NOTHING`. -/
def insertNew (t : Table K V) (k : K) (v : V) : Table K V :=
  if h : t.get k = none then
    ⟨t.rows ++ [(k,v)],by
      rw [List.map_append, List.nodup_append]
      refine ⟨t.nodup,by simp,?_⟩
      intro a ha b hb hab
      simp only [List.map_cons, List.map_nil, List.mem_singleton] at hb
      exact get_eq_none.mp h (hb ▸ hab ▸ ha)⟩
  else t

/-- `UPDATE`: every row goes through `f`, which sees the key. -/
def update (t : Table K V) (f : K → V → V) : Table K V :=
  ⟨t.rows.map (fun r => (r.1,f r.1 r.2)),by
    rw [List.map_map]
    exact t.nodup⟩

def updateAt (t : Table K V) (k : K) (f : V → V) : Table K V :=
  t.update (fun k' v => if k' = k then f v else v)

/-- `DELETE` of the rows that fail `p`. -/
def filter (t : Table K V) (p : K → V → Bool) : Table K V :=
  ⟨t.rows.filter (fun r => p r.1 r.2),(t.nodup.sublist (List.filter_sublist.map Prod.fst))⟩

def erase (t : Table K V) (k : K) : Table K V := t.filter (fun k' _ => decide (k' ≠ k))

/-- Insert, replacing a row with the same key. -/
def set (t : Table K V) (k : K) (v : V) : Table K V := (t.erase k).insertNew k v

@[simp] theorem get_empty (k : K) : (empty : Table K V).get k = none := rfl

theorem rows_insertNew {t : Table K V} {k : K} (h : t.get k = none) (v : V) :
    (t.insertNew k v).rows = t.rows ++ [(k,v)] := by
  unfold insertNew
  rw [dif_pos h]

theorem get_insertNew (t : Table K V) (k : K) (v : V) (k' : K) :
    (t.insertNew k v).get k' = if k' = k ∧ t.get k = none then some v else t.get k' := by
  unfold insertNew
  split
  · rename_i h
    by_cases hk : k' = k
    · subst hk
      have hf : t.rows.find? (fun r => decide (r.1 = k')) = none := by simpa [get] using h
      simp [get, List.find?_append, hf]
    · simp [get, List.find?_append, hk, Ne.symm hk]
  · rename_i h
    simp [h]

theorem get_update (t : Table K V) (f : K → V → V) (k : K) :
    (t.update f).get k = (t.get k).map (f k) := by
  unfold get update
  rw [List.find?_map]
  cases h : t.rows.find? (fun r => decide (r.1 = k)) with
  | none =>
    have h' : List.find? ((fun r : K × V => decide (r.1 = k)) ∘ fun r => (r.1,f r.1 r.2)) t.rows = none := h
    rw [h']
    rfl
  | some r =>
    have h' : List.find? ((fun r : K × V => decide (r.1 = k)) ∘ fun r => (r.1,f r.1 r.2)) t.rows = some r := h
    rw [h']
    exact congrArg (fun k => some (f k r.2)) (find_key h).2

theorem get_updateAt (t : Table K V) (k : K) (f : V → V) (k' : K) :
    (t.updateAt k f).get k' = if k' = k then (t.get k').map f else t.get k' := by
  unfold updateAt
  rw [get_update]
  by_cases hk : k' = k
  · simp [hk]
  · simp only [hk, if_false]
    cases t.get k' <;> rfl

theorem get_eq_some {t : Table K V} {k : K} {v : V} : t.get k = some v ↔ (k,v) ∈ t.rows := by
  constructor
  · intro h
    obtain ⟨r,hr,rfl⟩ := Option.map_eq_some_iff.mp h
    obtain ⟨hm,rfl⟩ := find_key hr
    exact hm
  · intro h
    cases hg : t.get k with
    | none => exact absurd (List.mem_map_of_mem h) (get_eq_none.mp hg)
    | some w =>
      obtain ⟨r,hr,rfl⟩ := Option.map_eq_some_iff.mp hg
      obtain ⟨hm,hk⟩ := find_key hr
      have hw := List.inj_on_of_nodup_map t.nodup hm h hk
      rw [hw]

theorem get_filter (t : Table K V) (p : K → V → Bool) (k : K) :
    (t.filter p).get k = (t.get k).filter (p k) := by
  apply Option.ext
  intro v
  rw [get_eq_some, Option.filter_eq_some_iff, get_eq_some]
  exact List.mem_filter

theorem get_erase (t : Table K V) (k k' : K) :
    (t.erase k).get k' = if k' = k then none else t.get k' := by
  unfold erase
  rw [get_filter]
  by_cases hk : k' = k
  · simp [hk]
  · cases t.get k' <;> simp [hk]

theorem get_set (t : Table K V) (k : K) (v : V) (k' : K) :
    (t.set k v).get k' = if k' = k then some v else t.get k' := by
  unfold set
  rw [get_insertNew, get_erase, get_erase]
  by_cases hk : k' = k
  · simp [hk]
  · simp [hk]

theorem has_iff {t : Table K V} {k : K} : t.has k = true ↔ ∃ v, t.get k = some v := by
  unfold has
  exact Option.isSome_iff_exists

theorem has_insertNew (t : Table K V) (k : K) (v : V) (k' : K) :
    (t.insertNew k v).has k' = true ↔ t.has k' = true ∨ k' = k := by
  rw [has_iff, has_iff, get_insertNew]
  by_cases hk : k' = k
  · subst hk
    cases h : t.get k' <;> simp
  · simp [hk]

theorem has_set (t : Table K V) (k : K) (v : V) (k' : K) :
    (t.set k v).has k' = true ↔ t.has k' = true ∨ k' = k := by
  rw [has_iff, has_iff, get_set]
  by_cases hk : k' = k <;> simp [hk]

theorem mem_keys {t : Table K V} {k : K} : k ∈ t.rows.map Prod.fst ↔ t.has k = true := by
  have hnone := get_eq_none (t := t) (k := k)
  unfold has
  cases hg : t.get k with
  | none => simpa using hnone.mp hg
  | some v =>
    rw [hg] at hnone
    simpa using hnone

theorem has_filter {t : Table K V} {p : K → V → Bool} {k : K} :
    (t.filter p).has k = true ↔ ∃ v, t.get k = some v ∧ p k v = true := by
  rw [has_iff, get_filter]
  simp only [Option.filter_eq_some_iff]

/-- A table whose keys are all keys of another one has no more rows. -/
theorem length_le {W : Type} {t : Table K V} {u : Table K W} (h : ∀ k, t.has k = true → u.has k = true) :
    t.rows.length ≤ u.rows.length := by
  have hsub : t.rows.map Prod.fst ⊆ u.rows.map Prod.fst := fun k hk => mem_keys.mpr (h k (mem_keys.mp hk))
  have hle := List.Nodup.length_le_of_subset t.nodup hsub
  rwa [List.length_map, List.length_map] at hle

end Table
end KeyedTable
