import InferenceLogger.Foundation.Backtracking

/-! # Bodies on a segment of a text

What a body leaves is a suffix. Where a character follows that no class of the body takes, the
body leaves what it would leave of the part before that character; of a longer text it leaves
that and more.
-/
namespace Backtracking
variable {α β : Type}

/-- Every round of a repetition consumes something. -/
def Body.consumes : Body α → Bool
  | .sat _ => true
  | .seq r s => r.consumes || s.consumes
  | .alt r s => r.consumes && s.consumes
  | .rep r low _ => decide (0 < low) && r.consumes

def Body.proper : Body α → Bool
  | .sat _ => true
  | .seq r s => r.proper && s.proper
  | .alt r s => r.proper && s.proper
  | .rep r _ _ => r.consumes && r.proper

/-- No class of the body takes the character. -/
def Body.avoids (c : α) : Body α → Bool
  | .sat p => !p c
  | .seq r s => r.avoids c && s.avoids c
  | .alt r s => r.avoids c && s.avoids c
  | .rep r _ _ => r.avoids c

/-- The body cannot do with these characters alone. -/
def Body.refuses (cs : List α) : Body α → Bool
  | .sat p => cs.all fun c => !p c
  | .seq r s => r.refuses cs || s.refuses cs
  | .alt r s => r.refuses cs && s.refuses cs
  | .rep r low _ => decide (0 < low) && r.refuses cs

/-! ## What is left is a suffix -/

theorem iterate_suffix {step : List α → List (List α)} (hs : ∀ t, ∀ rest ∈ step t, rest <:+ t) (n low : ℕ) (t : List α) :
    ∀ rest ∈ iterate step n low t, rest <:+ t := by
  induction n generalizing low t with
  | zero =>
    intro rest h
    unfold iterate at h
    split at h
    · rw [List.mem_singleton.mp h]
    · cases h
  | succ n ih =>
    intro rest h
    unfold iterate at h
    rcases List.mem_append.mp h with h | h
    · obtain ⟨mid,hmid,hrest⟩ := List.mem_flatMap.mp h
      exact (ih _ _ rest hrest).trans (hs t mid hmid)
    · split at h
      · rw [List.mem_singleton.mp h]
      · cases h

theorem Body.rests_suffix (b : Body α) : ∀ t, ∀ rest ∈ b.rests t, rest <:+ t := by
  induction b with
  | sat p =>
    intro t rest h
    cases t with
    | nil => cases h
    | cons a t =>
      unfold Body.rests at h
      split at h
      · rw [List.mem_singleton.mp h]
        exact List.suffix_cons a t
      · cases h
  | seq r s ihr ihs =>
    intro t rest h
    obtain ⟨mid,hmid,hrest⟩ := List.mem_flatMap.mp h
    exact (ihs mid rest hrest).trans (ihr t mid hmid)
  | alt r s ihr ihs =>
    intro t rest h
    rcases List.mem_append.mp h with h | h
    · exact ihr t rest h
    · exact ihs t rest h
  | rep r low high ih =>
    intro t rest h
    exact iterate_suffix ih _ _ _ rest h

theorem iterate_consumes {step : List α → List (List α)} (hs : ∀ t, ∀ rest ∈ step t, rest <:+ t)
    (hc : ∀ t, ∀ rest ∈ step t, rest.length < t.length) (n : ℕ) {low : ℕ} (hl : 0 < low) (t : List α) :
    ∀ rest ∈ iterate step n low t, rest.length < t.length := by
  intro rest h
  cases n with
  | zero =>
    unfold iterate at h
    rw [if_neg (by omega)] at h
    cases h
  | succ n =>
    unfold iterate at h
    rw [if_neg (by omega), List.append_nil] at h
    obtain ⟨mid,hmid,hrest⟩ := List.mem_flatMap.mp h
    have hle := (iterate_suffix hs n _ _ rest hrest).length_le
    have hlt := hc t mid hmid
    omega

theorem Body.rests_consumes (b : Body α) (hb : b.consumes = true) : ∀ t, ∀ rest ∈ b.rests t, rest.length < t.length := by
  induction b with
  | sat p =>
    intro t rest h
    cases t with
    | nil => cases h
    | cons a t =>
      unfold Body.rests at h
      split at h
      · rw [List.mem_singleton.mp h]
        simp
      · cases h
  | seq r s ihr ihs =>
    intro t rest h
    obtain ⟨mid,hmid,hrest⟩ := List.mem_flatMap.mp h
    have hr := (r.rests_suffix t mid hmid).length_le
    have hs := (s.rests_suffix mid rest hrest).length_le
    rw [Body.consumes, Bool.or_eq_true] at hb
    rcases hb with hb | hb
    · have hlt := ihr hb t mid hmid
      omega
    · have hlt := ihs hb mid rest hrest
      omega
  | alt r s ihr ihs =>
    intro t rest h
    rw [Body.consumes, Bool.and_eq_true] at hb
    rcases List.mem_append.mp h with h | h
    · exact ihr hb.1 t rest h
    · exact ihs hb.2 t rest h
  | rep r low high ih =>
    intro t rest h
    rw [Body.consumes, Bool.and_eq_true, decide_eq_true_eq] at hb
    exact iterate_consumes r.rests_suffix (ih hb.2) _ hb.1 t rest h

theorem Body.rests_refused {cs : List α} (b : Body α) (hb : b.refuses cs = true) : ∀ t : List α, t ⊆ cs → b.rests t = [] := by
  induction b with
  | sat p =>
    intro t ht
    cases t with
    | nil => rfl
    | cons a t =>
      have ha := List.all_eq_true.mp hb a (ht List.mem_cons_self)
      exact if_neg (by simpa using ha)
  | seq r s ihr ihs =>
    intro t ht
    rw [Body.refuses, Bool.or_eq_true] at hb
    rw [Body.rests, List.flatMap_eq_nil_iff]
    intro mid hmid
    rcases hb with hb | hb
    · rw [ihr hb t ht] at hmid
      cases hmid
    · exact ihs hb mid (List.Subset.trans (r.rests_suffix t mid hmid).subset ht)
  | alt r s ihr ihs =>
    intro t ht
    rw [Body.refuses, Bool.and_eq_true] at hb
    rw [Body.rests, ihr hb.1 t ht, ihs hb.2 t ht, List.append_nil]
  | rep r low high ih =>
    intro t ht
    rw [Body.refuses, Bool.and_eq_true, decide_eq_true_eq] at hb
    rw [Body.rests]
    cases high.getD t.length with
    | zero => exact if_neg (by omega)
    | succ n =>
      rw [iterate, ih hb.2 t ht, if_neg (by omega)]
      rfl

/-! ## A segment and what follows it -/

/-- More rounds than there are characters change nothing. -/
theorem iterate_fuel {step : List α → List (List α)} (hc : ∀ t, ∀ rest ∈ step t, rest.length < t.length) {n m : ℕ} (low : ℕ)
    {t : List α} (hn : t.length ≤ n) (hm : t.length ≤ m) : iterate step n low t = iterate step m low t := by
  induction n generalizing m low t with
  | zero =>
    have hnil : t = [] := List.length_eq_zero_iff.mp (by omega)
    subst hnil
    cases m with
    | zero => rfl
    | succ m =>
      have hstep : step [] = [] := by
        rw [List.eq_nil_iff_forall_not_mem]
        intro rest hrest
        exact absurd (hc [] rest hrest) (by simp)
      unfold iterate
      rw [hstep, List.flatMap_nil, List.nil_append]
  | succ n ih =>
    cases m with
    | zero =>
      have hnil : t = [] := List.length_eq_zero_iff.mp (by omega)
      subst hnil
      have hstep : step [] = [] := by
        rw [List.eq_nil_iff_forall_not_mem]
        intro rest hrest
        exact absurd (hc [] rest hrest) (by simp)
      unfold iterate
      rw [hstep, List.flatMap_nil, List.nil_append]
    | succ m =>
      have hrounds : (step t).flatMap (iterate step n (low - 1)) = (step t).flatMap (iterate step m (low - 1)) := by
        apply List.flatMap_congr
        intro rest hrest
        have hlt := hc t rest hrest
        exact ih (low - 1) (by omega) (by omega)
      unfold iterate
      rw [hrounds]

/-- Of what is left, that which ends before `tail`. -/
def endingIn (tail : List α) (rests : List (List α)) : List (List α) :=
  rests.filter fun rest => decide (tail.length ≤ rest.length)

/-- On a segment the step leaves the same, whatever follows. -/
def Local (step : List α → List (List α)) (tail : List α) : Prop :=
  ∀ seg, endingIn tail (step (seg ++ tail)) = (step seg).map (· ++ tail)

theorem endingIn_beyond {tail rest : List α} {step : List α → List (List α)} (hs : ∀ t, ∀ rest ∈ step t, rest <:+ t)
    (h : rest.length < tail.length) : endingIn tail (step rest) = [] := by
  unfold endingIn
  rw [List.filter_eq_nil_iff]
  intro r hr
  have hle := (hs rest r hr).length_le
  rw [decide_eq_true_eq]
  omega

/-- What is left of a segment and its tail either ends in the segment or is shorter than the tail. -/
theorem suffix_segment {seg tail rest : List α} (h : rest <:+ seg ++ tail) (hl : tail.length ≤ rest.length) :
    ∃ s, rest = s ++ tail ∧ s <:+ seg := by
  obtain ⟨front,hf⟩ := h
  have hlen : front.length + rest.length = seg.length + tail.length := by
    have hcount := congrArg List.length hf
    simpa using hcount
  have hdrop : rest = seg.drop front.length ++ tail := by
    have hcut := congrArg (List.drop front.length) hf
    rw [List.drop_left, List.drop_append_of_le_length (by omega)] at hcut
    exact hcut
  exact ⟨_,hdrop,List.drop_suffix _ _⟩

theorem endingIn_flatMap {step next : List α → List (List α)} {tail : List α} (hs : ∀ t, ∀ rest ∈ step t, rest <:+ t)
    (hn : ∀ t, ∀ rest ∈ next t, rest <:+ t) (hstep : Local step tail) (hnext : Local next tail) :
    Local (fun t => (step t).flatMap next) tail := by
  intro seg
  have hcut : ∀ l : List (List α), (∀ r ∈ l, r <:+ seg ++ tail) →
      endingIn tail (l.flatMap next) = (endingIn tail l).flatMap (fun r => endingIn tail (next r)) := by
    intro l hl
    induction l with
    | nil => rfl
    | cons r l ih =>
      have htail := ih (fun r hr => hl r (List.mem_cons_of_mem _ hr))
      have happ : endingIn tail ((r :: l).flatMap next) = endingIn tail (next r) ++ endingIn tail (l.flatMap next) := by
        rw [List.flatMap_cons, endingIn, List.filter_append]
        rfl
      by_cases hr : tail.length ≤ r.length
      · have hkeep : endingIn tail (r :: l) = r :: endingIn tail l := List.filter_cons_of_pos (by simpa using hr)
        rw [happ, htail, hkeep, List.flatMap_cons]
      · have hdrop : endingIn tail (r :: l) = endingIn tail l := List.filter_cons_of_neg (by simpa using hr)
        rw [happ, htail, hdrop, endingIn_beyond hn (by omega), List.nil_append]
  change endingIn tail ((step (seg ++ tail)).flatMap next) = _
  rw [hcut _ (hs _), hstep seg, List.flatMap_map, List.map_flatMap]
  apply List.flatMap_congr
  intro s _
  exact hnext s

theorem iterate_local {step : List α → List (List α)} {tail : List α} (hs : ∀ t, ∀ rest ∈ step t, rest <:+ t)
    (hstep : Local step tail) (n low : ℕ) : Local (iterate step n low) tail := by
  have hstop : ∀ (l : ℕ) (seg : List α), endingIn tail (if l = 0 then [seg ++ tail] else []) =
      (if l = 0 then [seg] else []).map (· ++ tail) := by
    intro l seg
    split <;> simp [endingIn]
  induction n generalizing low with
  | zero =>
    intro seg
    unfold iterate
    exact hstop low seg
  | succ n ih =>
    intro seg
    have hrounds := endingIn_flatMap hs (iterate_suffix hs n (low - 1)) hstep (ih (low - 1)) seg
    unfold iterate
    rw [endingIn, List.filter_append, List.map_append]
    exact congrArg₂ (· ++ ·) hrounds (hstop low seg)

/-- The body on a segment and on a longer text. -/
theorem Body.rests_local (b : Body α) (hb : b.proper = true) (tail : List α) : Local b.rests tail := by
  induction b with
  | sat p =>
    intro seg
    cases seg with
    | nil =>
      cases tail with
      | nil => rfl
      | cons a tail =>
        have hshort : ∀ rest ∈ (Body.sat p).rests (a :: tail), rest.length < (a :: tail).length :=
          Body.rests_consumes (.sat p) rfl (a :: tail)
        have hnone : endingIn (a :: tail) ((Body.sat p).rests (a :: tail)) = [] := by
          unfold endingIn
          rw [List.filter_eq_nil_iff]
          intro rest hrest
          have hlt := hshort rest hrest
          rw [decide_eq_true_eq]
          omega
        rw [List.nil_append, hnone]
        rfl
    | cons a seg =>
      simp only [List.cons_append, Body.rests, endingIn]
      by_cases ha : p a = true
      · simp [ha]
      · simp [ha]
  | seq r s ihr ihs =>
    rw [Body.proper, Bool.and_eq_true] at hb
    exact endingIn_flatMap r.rests_suffix s.rests_suffix (ihr hb.1) (ihs hb.2)
  | alt r s ihr ihs =>
    rw [Body.proper, Bool.and_eq_true] at hb
    intro seg
    have hr := ihr hb.1 seg
    have hs := ihs hb.2 seg
    unfold Body.rests
    rw [List.map_append, ← hr, ← hs, endingIn, List.filter_append]
    rfl
  | rep r low high ih =>
    rw [Body.proper, Bool.and_eq_true] at hb
    intro seg
    have hround := iterate_local r.rests_suffix (ih hb.2)
    unfold Body.rests
    cases high with
    | some n => exact hround n low seg
    | none =>
      have hfuel : iterate r.rests seg.length low seg = iterate r.rests (seg ++ tail).length low seg :=
        iterate_fuel (r.rests_consumes hb.1) low (Nat.le_refl _) (by simp)
      simp only [Option.getD_none]
      rw [hfuel]
      exact hround _ low seg

/-- A step that stops at the character `c`. -/
theorem iterate_stops {step : List α → List (List α)} {c : α} {more : List α}
    (hstep : ∀ seg, ∀ rest ∈ step (seg ++ c :: more), more.length < rest.length) (hs : ∀ t, ∀ rest ∈ step t, rest <:+ t)
    (n low : ℕ) (seg : List α) : ∀ rest ∈ iterate step n low (seg ++ c :: more), more.length < rest.length := by
  induction n generalizing low seg with
  | zero =>
    intro rest h
    unfold iterate at h
    split at h
    · rw [List.mem_singleton.mp h]
      simp
      omega
    · cases h
  | succ n ih =>
    intro rest h
    unfold iterate at h
    rcases List.mem_append.mp h with h | h
    · obtain ⟨mid,hmid,hrest⟩ := List.mem_flatMap.mp h
      obtain ⟨s,rfl,-⟩ := suffix_segment (hs _ mid hmid) (hstep seg mid hmid)
      exact ih _ s rest hrest
    · split at h
      · rw [List.mem_singleton.mp h]
        simp
        omega
      · cases h

theorem Body.rests_stops (b : Body α) {c : α} (hb : b.avoids c = true) (more : List α) :
    ∀ seg, ∀ rest ∈ b.rests (seg ++ c :: more), more.length < rest.length := by
  induction b with
  | sat p =>
    intro seg rest h
    have hc : p c = false := by simpa [Body.avoids] using hb
    cases seg with
    | nil =>
      rw [List.nil_append, Body.rests, if_neg (by simp [hc])] at h
      cases h
    | cons a seg =>
      rw [List.cons_append, Body.rests] at h
      split at h
      · rw [List.mem_singleton.mp h]
        simp
        omega
      · cases h
  | seq r s ihr ihs =>
    rw [Body.avoids, Bool.and_eq_true] at hb
    intro seg rest h
    obtain ⟨mid,hmid,hrest⟩ := List.mem_flatMap.mp h
    obtain ⟨s',rfl,-⟩ := suffix_segment (r.rests_suffix _ mid hmid) (ihr hb.1 seg mid hmid)
    exact ihs hb.2 s' rest hrest
  | alt r s ihr ihs =>
    rw [Body.avoids, Bool.and_eq_true] at hb
    intro seg rest h
    rcases List.mem_append.mp h with h | h
    · exact ihr hb.1 seg rest h
    · exact ihs hb.2 seg rest h
  | rep r low high ih =>
    rw [Body.avoids] at hb
    intro seg rest h
    exact iterate_stops (ih hb) r.rests_suffix _ _ seg rest h

/-- The body on a segment that ends at a character it does not take. -/
theorem Body.rests_before (b : Body α) (hp : b.proper = true) {c : α} (hb : b.avoids c = true) (seg more : List α) :
    b.rests (seg ++ c :: more) = (b.rests seg).map (· ++ c :: more) := by
  have hall : endingIn (c :: more) (b.rests (seg ++ c :: more)) = b.rests (seg ++ c :: more) := by
    unfold endingIn
    rw [List.filter_eq_self]
    intro rest hrest
    have hlt := b.rests_stops hb more seg rest hrest
    rw [decide_eq_true_eq, List.length_cons]
    omega
  rw [← hall]
  exact b.rests_local hp (c :: more) seg

/-! ## Characters seen through a function -/

/-- The body on characters that carry more than it looks at. -/
def Body.comap (f : β → α) : Body α → Body β
  | .sat p => .sat fun b => p (f b)
  | .seq r s => .seq (r.comap f) (s.comap f)
  | .alt r s => .alt (r.comap f) (s.comap f)
  | .rep r low high => .rep (r.comap f) low high

theorem iterate_map {f : β → α} {step : List α → List (List α)} {lifted : List β → List (List β)}
    (h : ∀ t, (lifted t).map (List.map f) = step (t.map f)) (n low : ℕ) (t : List β) :
    (iterate lifted n low t).map (List.map f) = iterate step n low (t.map f) := by
  induction n generalizing low t with
  | zero =>
    unfold iterate
    split <;> rfl
  | succ n ih =>
    unfold iterate
    rw [List.map_append, List.map_flatMap, ← h, List.flatMap_map]
    congr 1
    · exact List.flatMap_congr fun rest _ => ih (low - 1) rest
    · split <;> rfl

theorem Body.rests_comap (f : β → α) (b : Body α) : ∀ t : List β, ((b.comap f).rests t).map (List.map f) =
    b.rests (t.map f) := by
  induction b with
  | sat p =>
    intro t
    cases t with
    | nil => rfl
    | cons a t =>
      simp only [Body.comap, Body.rests, List.map_cons]
      split <;> rfl
  | seq r s ihr ihs =>
    intro t
    simp only [Body.comap, Body.rests]
    rw [List.map_flatMap, ← ihr, List.flatMap_map]
    exact List.flatMap_congr fun rest _ => ihs rest
  | alt r s ihr ihs =>
    intro t
    simp only [Body.comap, Body.rests, List.map_append]
    rw [ihr, ihs]
  | rep r low high ih =>
    intro t
    simp only [Body.comap, Body.rests]
    rw [iterate_map ih, List.length_map]

theorem Body.consumes_comap (f : β → α) (b : Body α) : (b.comap f).consumes = b.consumes := by
  induction b with
  | sat p => rfl
  | seq r s ihr ihs => simp only [Body.comap, Body.consumes, ihr, ihs]
  | alt r s ihr ihs => simp only [Body.comap, Body.consumes, ihr, ihs]
  | rep r low high ih => simp only [Body.comap, Body.consumes, ih]

theorem Body.proper_comap (f : β → α) (b : Body α) : (b.comap f).proper = b.proper := by
  induction b with
  | sat p => rfl
  | seq r s ihr ihs => simp only [Body.comap, Body.proper, ihr, ihs]
  | alt r s ihr ihs => simp only [Body.comap, Body.proper, ihr, ihs]
  | rep r low high ih => simp only [Body.comap, Body.proper, Body.consumes_comap, ih]

theorem Body.avoids_comap (f : β → α) (c : β) (b : Body α) : (b.comap f).avoids c = b.avoids (f c) := by
  induction b with
  | sat p => rfl
  | seq r s ihr ihs => simp only [Body.comap, Body.avoids, ihr, ihs]
  | alt r s ihr ihs => simp only [Body.comap, Body.avoids, ihr, ihs]
  | rep r low high ih => simp only [Body.comap, Body.avoids, ih]

end Backtracking
