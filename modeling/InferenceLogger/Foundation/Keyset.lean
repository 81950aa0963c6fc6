import Mathlib.Data.List.Sort

/-! # Keyset scans

A table is read in descending key order, a page at a time. A page starts strictly below
the last key of the page before, and a page that is not full is the last one. Between two
pages the rows may change, as long as the keys that were there at the start stay.
-/
namespace Keyset
variable {R K : Type} [LinearOrder K] (key : R → K)

/-- `ORDER BY key DESC`. -/
def newestFirst (rows : List R) : List R := rows.insertionSort (fun a b => key b ≤ key a)

/-- `ORDER BY key DESC LIMIT n`. -/
def page (rows : List R) (limit : ℕ) : List R := (newestFirst key rows).take limit

variable {key} {rows : List R} {limit : ℕ}

theorem mem_of_mem_page {r : R} (h : r ∈ page key rows limit) : r ∈ rows :=
  (List.mem_insertionSort _).mp (List.mem_of_mem_take h)

theorem newestFirst_descending (hk : (rows.map key).Nodup) :
    ((newestFirst key rows).map key).Pairwise (· > ·) := by
  have htotal : Std.Total (fun a b : R => key b ≤ key a) := ⟨fun a b => le_total (key b) (key a)⟩
  have htrans : IsTrans R (fun a b : R => key b ≤ key a) := ⟨fun a b c hab hbc => le_trans hbc hab⟩
  have hsorted := List.pairwise_insertionSort (fun a b : R => key b ≤ key a) rows
  have hle : ((newestFirst key rows).map key).Pairwise (· ≥ ·) := List.pairwise_map.mpr hsorted
  have hne : ((newestFirst key rows).map key).Nodup :=
    ((List.perm_insertionSort _ rows).map key).nodup_iff.mpr hk
  exact hle.imp₂ (fun a b hge hn => lt_of_le_of_ne hge (Ne.symm hn)) hne

theorem page_descending (hk : (rows.map key).Nodup) :
    ((page key rows limit).map key).Pairwise (· > ·) :=
  (newestFirst_descending hk).sublist ((List.take_sublist _ _).map key)

/-- A page that is not full holds every row. -/
theorem mem_page_of_short (hs : (page key rows limit).length ≠ limit) {r : R} (hr : r ∈ rows) :
    r ∈ page key rows limit := by
  have hlen : (page key rows limit).length = min limit rows.length := by
    simp [page,newestFirst]
  have hall : page key rows limit = newestFirst key rows := by
    apply List.take_of_length_le
    simp only [newestFirst, List.length_insertionSort]
    omega
  rw [hall]
  exact (List.mem_insertionSort _).mpr hr

/-- A page holds every row down to its last one. -/
theorem mem_page_of_le (hk : (rows.map key).Nodup) {last r : R}
    (hl : (page key rows limit).getLast? = some last) (hr : r ∈ rows) (hle : key last ≤ key r) :
    r ∈ page key rows limit := by
  have hsplit : page key rows limit ++ (newestFirst key rows).drop limit = newestFirst key rows :=
    List.take_append_drop _ _
  have hmem : r ∈ newestFirst key rows := (List.mem_insertionSort _).mpr hr
  rw [← hsplit] at hmem
  rcases List.mem_append.mp hmem with hm | hm
  · exact hm
  · have hdesc := newestFirst_descending hk
    rw [← hsplit, List.map_append, List.pairwise_append] at hdesc
    have hlt := hdesc.2.2 _ (List.mem_map_of_mem (List.mem_of_getLast? hl)) _ (List.mem_map_of_mem hm)
    exact absurd hle (not_le.mpr hlt)

theorem last_le (hk : (rows.map key).Nodup) {last r : R}
    (hl : (page key rows limit).getLast? = some last) (hr : r ∈ page key rows limit) :
    key last ≤ key r := by
  obtain ⟨init,hi⟩ := List.getLast?_eq_some_iff.mp hl
  have hdesc : ((page key rows limit).map key).Pairwise (· > ·) := page_descending hk
  rw [hi] at hdesc hr
  rw [List.map_append, List.pairwise_append] at hdesc
  rcases List.mem_append.mp hr with hm | hm
  · exact le_of_lt (hdesc.2.2 _ (List.mem_map_of_mem hm) _ (by simp))
  · rw [List.mem_singleton.mp hm]

/-- Where the next page starts. -/
inductive Resume (K : Type) where
  | first
  | after (k : K)
  | finished
  deriving DecidableEq

def Resume.admits : Resume K → K → Bool
  | .first, _ => true
  | .after c, k => decide (k < c)
  | .finished, _ => false

/-- The cursor a page offers: none unless the page is full. -/
def Resume.next (key : R → K) (limit : ℕ) (found : List R) : Resume K :=
  if found.length = limit then
    match found.getLast? with
    | some last => .after (key last)
    | none => .finished
  else .finished

/-- The rows returned so far, and where the next page starts. -/
structure Scan (R K : Type) where
  seen : List R
  resume : Resume K

namespace Scan

def start : Scan R K := ⟨[],.first⟩

/-- The rows the next page is taken from. -/
def remaining (key : R → K) (s : Scan R K) (rows : List R) : List R :=
  rows.filter (fun r => s.resume.admits (key r))

def fetch (key : R → K) (limit : ℕ) (s : Scan R K) (rows : List R) : Scan R K :=
  let found := page key (s.remaining key rows) limit
  ⟨s.seen ++ found,.next key limit found⟩

/-- What is seen is in order and above everything still admitted, and an old key that is
not admitted any more has been seen. -/
structure Sound (key : R → K) (old : K → Prop) (s : Scan R K) : Prop where
  descending : (s.seen.map key).Pairwise (· > ·)
  ahead : ∀ r ∈ s.seen, ∀ k, s.resume.admits k = true → k < key r
  complete : ∀ k, old k → s.resume.admits k = false → k ∈ s.seen.map key

variable {old : K → Prop} {s : Scan R K}

theorem mem_remaining {r : R} : r ∈ s.remaining key rows ↔ r ∈ rows ∧ s.resume.admits (key r) = true :=
  List.mem_filter

theorem remaining_nodup (hk : (rows.map key).Nodup) : ((s.remaining key rows).map key).Nodup :=
  hk.sublist (List.filter_sublist.map key)

/-- A key admitted by the next cursor is below the whole page. -/
theorem next_admits {k : K}
    (h : (Resume.next key limit (page key rows limit)).admits k = true) :
    ∃ last, (page key rows limit).getLast? = some last ∧ k < key last := by
  unfold Resume.next at h
  split at h
  · split at h
    · rename_i last hl
      exact ⟨last,hl,of_decide_eq_true h⟩
    · cases h
  · cases h

/-- A row not admitted by the next cursor is in the page. -/
theorem next_rejects (hl : 1 ≤ limit) (hk : (rows.map key).Nodup) {r : R} (hr : r ∈ rows)
    (h : (Resume.next key limit (page key rows limit)).admits (key r) = false) :
    r ∈ page key rows limit := by
  unfold Resume.next at h
  split at h
  · rename_i hfull
    split at h
    · rename_i last hlast
      exact mem_page_of_le hk hlast hr (not_lt.mp (of_decide_eq_false h))
    · rename_i hnone
      rw [List.getLast?_eq_none_iff] at hnone
      simp only [hnone, List.length_nil] at hfull
      omega
  · rename_i hshort
    exact mem_page_of_short hshort hr

/-- One page, from rows among which every old key still is. -/
theorem Sound.fetched (hs : s.Sound key old) (hl : 1 ≤ limit) (hk : (rows.map key).Nodup)
    (hold : ∀ k, old k → k ∈ rows.map key) : (s.fetch key limit rows).Sound key old := by
  have hk' : ((s.remaining key rows).map key).Nodup := remaining_nodup hk
  have hfound : ∀ r ∈ page key (s.remaining key rows) limit, s.resume.admits (key r) = true :=
    fun r hr => (mem_remaining.mp (mem_of_mem_page hr)).2
  constructor
  · simp only [fetch, List.map_append, List.pairwise_append]
    refine ⟨hs.descending,page_descending hk',?_⟩
    intro a ha b hb
    obtain ⟨r,hr,rfl⟩ := List.mem_map.mp ha
    obtain ⟨q,hq,rfl⟩ := List.mem_map.mp hb
    exact hs.ahead r hr _ (hfound q hq)
  · intro r hr k ha
    obtain ⟨last,hlast,hlt⟩ := next_admits ha
    rcases List.mem_append.mp hr with hr | hr
    · have hmem := hfound last (List.mem_of_getLast? hlast)
      exact hlt.trans (hs.ahead r hr _ hmem)
    · exact hlt.trans_le (last_le hk' hlast hr)
  · intro k hk₀ ha
    simp only [fetch, List.map_append, List.mem_append]
    by_cases hb : s.resume.admits k = true
    · right
      obtain ⟨r,hr,rfl⟩ := List.mem_map.mp (hold k hk₀)
      exact List.mem_map_of_mem (next_rejects hl hk' (mem_remaining.mpr ⟨hr,hb⟩) ha)
    · left
      exact hs.complete k hk₀ (by simpa using hb)

end Scan
end Keyset
