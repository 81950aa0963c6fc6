import InferenceLogger.Foundation.Segments

/-! # Scanning a text for a pattern

The equations of a scan without its bound on the pieces, where its hits are, and the match of a
pattern at the front of a segment that is followed by one text or by another.
-/
namespace Backtracking
variable {α β : Type}

/-! ## One match -/

theorem beforeRest_append (b : Option α) (m rest : List α) : beforeRest b (m ++ rest) rest = m.getLast?.or b := by
  have htake : (m ++ rest).take ((m ++ rest).length - rest.length) = m := by
    rw [List.length_append, Nat.add_sub_cancel]
    exact List.take_left
  rw [beforeRest, htake]

theorem getLast?_or {m : List α} (hm : m ≠ []) (b : Option α) : m.getLast?.or b = m.getLast? := by
  rw [List.getLast?_eq_some_getLast hm]
  rfl

theorem getLast?_cons_or (a : α) (x : List α) (b : Option α) : (a :: x).getLast?.or b = x.getLast?.or (some a) := by
  cases x with
  | nil => rfl
  | cons c x => simp [List.getLast?_cons]

theorem getLast?_append_or {m : List α} (hm : m ≠ []) (x : List α) (b : Option α) :
    (m ++ x).getLast?.or b = x.getLast?.or m.getLast? := by
  rw [List.getLast?_append]
  cases x with
  | nil => simp [getLast?_or hm]
  | cons c x => simp [List.getLast?_cons]

section
variable {word : α → Bool} {p : Pattern α} {b : Option α}

/-- What is known of a match. -/
theorem matchAt_some (hc : p.body.consumes = true) {t rest : List α} (h : p.matchAt word b t = some rest) :
    ∃ m, m ≠ [] ∧ t = m ++ rest ∧ (p.opening = true → boundary word b t = true) ∧
      (p.closing = true → boundary word m.getLast? rest = true) := by
  unfold Pattern.matchAt at h
  split at h
  · cases h
  · rename_i hopen
    have hrest := List.mem_of_find?_eq_some h
    have htest := List.find?_some h
    obtain ⟨m,hm⟩ := p.body.rests_suffix t rest hrest
    have hlt := p.body.rests_consumes hc t rest hrest
    have hne : m ≠ [] := by
      rintro rfl
      rw [List.nil_append] at hm
      rw [hm] at hlt
      omega
    subst hm
    refine ⟨m,hne,rfl,fun ho => by simpa [ho] using hopen,fun hcl => ?_⟩
    rw [beforeRest_append, getLast?_or hne] at htest
    simpa [hcl] using htest

end

/-! ## A scan -/

section
variable (word : α → Bool) (p : Pattern α)

/-- The pieces of a text after the character `b`. -/
def scan (b : Option α) (t : List α) : List (Piece α) := pieces word p t.length b t

variable {word p} (hc : p.body.consumes = true)

include hc in
theorem pieces_fuel {n m : ℕ} {t : List α} (hn : t.length ≤ n) (hm : t.length ≤ m) (b : Option α) :
    pieces word p n b t = pieces word p m b t := by
  induction n generalizing m t b with
  | zero =>
    have hnil : t = [] := List.length_eq_zero_iff.mp (by omega)
    subst hnil
    cases m <;> rfl
  | succ n ih =>
    cases t with
    | nil => cases m <;> rfl
    | cons a t =>
      rw [List.length_cons] at hn hm
      obtain ⟨m,rfl⟩ : ∃ k, m = k + 1 := ⟨m - 1,by omega⟩
      unfold pieces
      cases hmatch : p.matchAt word b (a :: t) with
      | none => simp only [ih (m := m) (t := t) (by omega) (by omega)]
      | some rest =>
        obtain ⟨front,hne,ht,-⟩ := matchAt_some hc hmatch
        have hlen := congrArg List.length ht
        have hpos := List.length_pos_iff.mpr hne
        rw [List.length_cons, List.length_append] at hlen
        simp only [ih (m := m) (t := rest) (by omega) (by omega)]

theorem scan_keep {b : Option α} {a : α} {t : List α} (h : p.matchAt word b (a :: t) = none) :
    scan word p b (a :: t) = .keep a :: scan word p (some a) t := by
  unfold scan
  rw [List.length_cons, pieces, h]

include hc in
theorem scan_hit {b : Option α} {m rest : List α} (hm : m ≠ []) (h : p.matchAt word b (m ++ rest) = some rest) :
    scan word p b (m ++ rest) = .hit m :: scan word p m.getLast? rest := by
  obtain ⟨a,m,rfl⟩ := List.exists_cons_of_ne_nil hm
  have htake : (a :: m ++ rest).take ((a :: m ++ rest).length - rest.length) = a :: m := by
    rw [List.length_append, Nat.add_sub_cancel]
    exact List.take_left
  have hbefore : beforeRest b (a :: m ++ rest) rest = (a :: m).getLast? := by
    rw [beforeRest_append, getLast?_or hm]
  unfold scan
  rw [List.cons_append] at h htake hbefore ⊢
  rw [List.length_cons, pieces, h]
  simp only
  rw [htake, hbefore, pieces_fuel hc (by simp) (Nat.le_refl _)]

end

/-- Where the hits of a scan begin, and what they hit. -/
def spans : ℕ → List (Piece α) → List (ℕ × List α)
  | _, [] => []
  | i, .keep _ :: ps => spans (i + 1) ps
  | i, .hit m :: ps => (i,m) :: spans (i + m.length) ps

/-- The position lies in one of the hits. -/
def Covered (hits : List (ℕ × List α)) (j : ℕ) : Prop := ∃ h ∈ hits, h.1 ≤ j ∧ j < h.1 + h.2.length

theorem covered_append {hits more : List (ℕ × List α)} {j : ℕ} : Covered (hits ++ more) j ↔ Covered hits j ∨ Covered more j := by
  simp only [Covered, List.mem_append, or_and_right, exists_or]

theorem covered_cons {h : ℕ × List α} {hits : List (ℕ × List α)} {j : ℕ} :
    Covered (h :: hits) j ↔ (h.1 ≤ j ∧ j < h.1 + h.2.length) ∨ Covered hits j := by
  simp only [Covered, List.mem_cons, or_and_right, exists_or, exists_eq_left]

theorem spans_after {i : ℕ} {ps : List (Piece α)} : ∀ h ∈ spans i ps, i ≤ h.1 := by
  induction ps generalizing i with
  | nil =>
    intro h hm
    cases hm
  | cons q ps ih =>
    intro h hm
    cases q with
    | keep a =>
      have hle := ih h hm
      omega
    | hit m =>
      rcases List.mem_cons.mp hm with rfl | hm
      · exact Nat.le_refl _
      · have hle := ih h hm
        omega

section
variable {word : α → Bool} {p : Pattern α} (hc : p.body.consumes = true)
include hc

/-- A scan that no hit carries across the end of `x` comes to that end. -/
theorem scan_through (n : ℕ) {x t : List α} (hx : x.length ≤ n) (b : Option α) (i : ℕ)
    (h : ∀ s ∈ spans i (scan word p b (x ++ t)), s.1 < i + x.length → s.1 + s.2.length ≤ i + x.length) :
    ∃ hits, spans i (scan word p b (x ++ t)) = hits ++ spans (i + x.length) (scan word p (x.getLast?.or b) t) ∧
      ∀ s ∈ hits, s.1 + s.2.length ≤ i + x.length := by
  induction n generalizing x b i with
  | zero =>
    have hnil : x = [] := List.length_eq_zero_iff.mp (by omega)
    subst hnil
    exact ⟨[],rfl,by simp⟩
  | succ n ih =>
    cases x with
    | nil => exact ⟨[],rfl,by simp⟩
    | cons a x =>
      rw [List.length_cons] at hx
      cases hmatch : p.matchAt word b (a :: (x ++ t)) with
      | none =>
        have hscan : scan word p b (a :: x ++ t) = .keep a :: scan word p (some a) (x ++ t) := scan_keep hmatch
        have hspans : spans i (scan word p b (a :: x ++ t)) = spans (i + 1) (scan word p (some a) (x ++ t)) := by
          rw [hscan, spans]
        have hlen : i + (a :: x).length = i + 1 + x.length := by
          rw [List.length_cons]
          omega
        rw [hspans, hlen] at h ⊢
        obtain ⟨hits,heq,hin⟩ := ih (by omega) (some a) (i + 1) h
        rw [getLast?_cons_or]
        exact ⟨hits,heq,hin⟩
      | some rest =>
        obtain ⟨m,hm,ht,-⟩ := matchAt_some hc hmatch
        have hscan : scan word p b (a :: x ++ t) = .hit m :: scan word p m.getLast? rest := by
          rw [List.cons_append, ht]
          rw [ht] at hmatch
          exact scan_hit hc hm hmatch
        have hspans : spans i (scan word p b (a :: x ++ t)) = (i,m) :: spans (i + m.length) (scan word p m.getLast? rest) := by
          rw [hscan, spans]
        have hpos := List.length_pos_iff.mpr hm
        rw [hspans] at h ⊢
        have hfirst : i + m.length ≤ i + (a :: x).length := by
          apply h (i,m) List.mem_cons_self
          rw [List.length_cons]
          omega
        obtain ⟨y,hy⟩ : m <+: a :: x := by
          have hwhole : m <+: a :: x ++ t := ⟨rest,by rw [List.cons_append, ht]⟩
          exact List.prefix_of_prefix_length_le hwhole ⟨t,rfl⟩ (by omega)
        have hrest : rest = y ++ t := by
          rw [← List.cons_append, ← hy, List.append_assoc] at ht
          exact (List.append_cancel_left ht).symm
        have hlen : (a :: x).length = m.length + y.length := by
          rw [← hy, List.length_append]
        have hsum : i + (a :: x).length = i + m.length + y.length := by omega
        subst hrest
        rw [List.length_cons] at hlen
        obtain ⟨hits,heq,hin⟩ := ih (x := y) (by omega) m.getLast? (i + m.length) (by
          intro s hs
          rw [← hsum]
          exact h s (List.mem_cons_of_mem _ hs))
        have hlast : (a :: x).getLast?.or b = y.getLast?.or m.getLast? := by
          rw [← hy]
          exact getLast?_append_or hm y b
        rw [hlast, hsum]
        refine ⟨(i,m) :: hits,by rw [heq]; rfl,?_⟩
        intro s hs
        rcases List.mem_cons.mp hs with rfl | hs
        · simp only
          omega
        · exact hin s hs

/-- Hits end where the text ends. -/
theorem spans_within (n : ℕ) {t : List α} (ht : t.length ≤ n) (b : Option α) (i : ℕ) :
    ∀ s ∈ spans i (scan word p b t), s.2 ≠ [] ∧ s.1 + s.2.length ≤ i + t.length := by
  induction n generalizing t b i with
  | zero =>
    have hnil : t = [] := List.length_eq_zero_iff.mp (by omega)
    subst hnil
    intro s hs
    cases hs
  | succ n ih =>
    cases t with
    | nil =>
      intro s hs
      cases hs
    | cons a t =>
      rw [List.length_cons] at ht
      intro s hs
      cases hmatch : p.matchAt word b (a :: t) with
      | none =>
        rw [scan_keep hmatch, spans] at hs
        obtain ⟨hne,hle⟩ := ih (by omega) (some a) (i + 1) s hs
        rw [List.length_cons]
        exact ⟨hne,by omega⟩
      | some rest =>
        obtain ⟨m,hm,hcut,-⟩ := matchAt_some hc hmatch
        have hlen := congrArg List.length hcut
        have hpos := List.length_pos_iff.mpr hm
        rw [List.length_cons, List.length_append] at hlen
        rw [hcut] at hmatch hs
        rw [scan_hit hc hm hmatch, spans] at hs
        rw [List.length_cons]
        rcases List.mem_cons.mp hs with rfl | hs
        · exact ⟨hm,by simp only; omega⟩
        · obtain ⟨hne,hle⟩ := ih (by omega) m.getLast? (i + m.length) s hs
          exact ⟨hne,by omega⟩

end

/-! ## A segment before one text or another -/

theorem find_congr {l : List α} {f g : α → Bool} (h : ∀ x ∈ l, f x = g x) : l.find? f = l.find? g := by
  induction l with
  | nil => rfl
  | cons x l ih =>
    rw [List.find?_cons, List.find?_cons, h x List.mem_cons_self, ih fun y hy => h y (List.mem_cons_of_mem _ hy)]

/-- Two tests that differ at most on the empty list. -/
theorem find_agree {rests : List (List α)} {first second : List α → Bool} (h : ∀ x ∈ rests, x ≠ [] → first x = second x) :
    rests.find? second = rests.find? first ∨ (rests.find? second = some [] ∧ first [] = false) ∨
      (rests.find? first = some [] ∧ second [] = false) := by
  induction rests with
  | nil => exact .inl rfl
  | cons x rests ih =>
    have hrest := ih fun y hy => h y (List.mem_cons_of_mem _ hy)
    by_cases hx : x = []
    · subst hx
      cases hf : first [] <;> cases hs : second []
      · rw [List.find?_cons_of_neg (by simp [hs]), List.find?_cons_of_neg (by simp [hf])]
        rcases hrest with hrest | ⟨hrest,-⟩ | ⟨hrest,-⟩
        · exact .inl hrest
        · exact .inr (.inl ⟨hrest,rfl⟩)
        · exact .inr (.inr ⟨hrest,rfl⟩)
      · exact .inr (.inl ⟨List.find?_cons_of_pos hs,rfl⟩)
      · exact .inr (.inr ⟨List.find?_cons_of_pos hf,rfl⟩)
      · exact .inl (by rw [List.find?_cons_of_pos hs, List.find?_cons_of_pos hf])
    · have hsame := h x List.mem_cons_self hx
      cases hf : first x
      · rw [hf] at hsame
        rw [List.find?_cons_of_neg (by simp [← hsame]), List.find?_cons_of_neg (by simp [hf])]
        exact hrest
      · rw [hf] at hsame
        exact .inl (by rw [List.find?_cons_of_pos hsame.symm, List.find?_cons_of_pos hf])

/-- A pattern that ends at a boundary and takes no character `l`. -/
structure Pattern.Sealed (l : α) (p : Pattern α) : Prop where
  consumes : p.body.consumes = true
  proper : p.body.proper = true
  closing : p.closing = true
  avoids : p.body.avoids l = true

section
variable {word : α → Bool} {l : α} {p : Pattern α} (hp : p.Sealed l) {seg tail utail : List α} {b bu : Option α}
include hp

/-- The match at the front of a segment, before the text `tail` and before a text `utail` that
stops the pattern: the same one, or one that runs to the end of the segment where only one of the
two texts lets it end. -/
theorem matchAt_segment (hu : tail = [] ∧ utail = [] ∨ ∃ more, utail = l :: more)
    (hopen : (p.opening && !boundary word b (seg ++ tail)) = (p.opening && !boundary word bu (seg ++ utail))) :
    (∀ s, p.matchAt word b (seg ++ tail) = some (s ++ tail) → p.matchAt word bu (seg ++ utail) = some (s ++ utail) ∨
      (p.matchAt word bu (seg ++ utail) = some utail ∧ boundary word seg.getLast? tail = false) ∨
      (s = [] ∧ boundary word seg.getLast? utail = false)) ∧
    (p.matchAt word b (seg ++ tail) = none → p.matchAt word bu (seg ++ utail) = none ∨
      (p.matchAt word bu (seg ++ utail) = some utail ∧ boundary word seg.getLast? tail = false)) := by
  have hrests : p.body.rests (seg ++ utail) = (p.body.rests seg).map (· ++ utail) := by
    rcases hu with ⟨-,rfl⟩ | ⟨more,rfl⟩
    · simp
    · exact p.body.rests_before hp.proper hp.avoids seg more
  have hlocal := p.body.rests_local hp.proper tail seg
  -- the closing test, as a test on what is left of the segment
  have htest : ∀ (c : Option α) (w : List α), ∀ s ∈ p.body.rests seg,
      (!p.closing || boundary word (beforeRest c (seg ++ w) (s ++ w)) (s ++ w)) =
        boundary word (beforeRest none seg s) (s ++ w) := by
    intro c w s hs
    obtain ⟨m,rfl⟩ := p.body.rests_suffix seg s hs
    have hlt := p.body.rests_consumes hp.consumes _ s hs
    have hne : m ≠ [] := by
      rintro rfl
      rw [List.nil_append] at hlt
      omega
    rw [hp.closing, List.append_assoc, beforeRest_append, beforeRest_append, getLast?_or hne, getLast?_or hne]
    rfl
  have hfind : ∀ (c : Option α) (w : List α), ((p.body.rests seg).map (· ++ w)).find?
      (fun rest => !p.closing || boundary word (beforeRest c (seg ++ w) rest) rest) =
        ((p.body.rests seg).find? fun s => boundary word (beforeRest none seg s) (s ++ w)).map (· ++ w) := by
    intro c w
    rw [List.find?_map]
    exact congrArg _ (find_congr (htest c w))
  have hlast : ∀ x ∈ p.body.rests seg, x ≠ [] →
      boundary word (beforeRest none seg x) (x ++ tail) = boundary word (beforeRest none seg x) (x ++ utail) := by
    intro x _ hx
    obtain ⟨a,x,rfl⟩ := List.exists_cons_of_ne_nil hx
    rfl
  have hagree := find_agree hlast
  have hwhole : beforeRest none seg [] = seg.getLast? := by
    have happ := beforeRest_append (none : Option α) seg []
    rw [List.append_nil] at happ
    rw [happ, Option.or_none]
  simp only [hwhole, List.nil_append] at hagree
  unfold Pattern.matchAt
  rw [← hopen, hrests, hfind]
  split
  · exact ⟨by simp,by simp⟩
  · constructor
    · intro s hs
      have hin : ((p.body.rests seg).map (· ++ tail)).find?
          (fun rest => !p.closing || boundary word (beforeRest b (seg ++ tail) rest) rest) = some (s ++ tail) := by
        rw [← hlocal, endingIn, List.find?_filter]
        have hmem := List.find?_some hs
        rw [List.find?_eq_some_iff_append] at hs ⊢
        obtain ⟨hok,as,bs,hsplit,hnone⟩ := hs
        refine ⟨by simp [hmem],as,bs,hsplit,fun a ha => ?_⟩
        have hfail := hnone a ha
        simp only [Bool.not_eq_true'] at hfail
        simp [hfail]
      rw [hfind, Option.map_eq_some_iff] at hin
      obtain ⟨s',hs',happ⟩ := hin
      have hss : s' = s := List.append_cancel_right happ
      subst hss
      rcases hagree with hagree | ⟨hagree,hfalse⟩ | ⟨hagree,hfalse⟩
      · left
        rw [hagree, hs']
        rfl
      · right
        left
        rw [hagree]
        exact ⟨rfl,hfalse⟩
      · right
        right
        rw [hs'] at hagree
        exact ⟨Option.some.inj hagree,hfalse⟩
    · intro hnone
      have hin : (p.body.rests seg).find? (fun s => boundary word (beforeRest none seg s) (s ++ tail)) = none := by
        have hmap : ((p.body.rests seg).map (· ++ tail)).find?
            (fun rest => !p.closing || boundary word (beforeRest b (seg ++ tail) rest) rest) = none := by
          rw [← hlocal, endingIn, List.find?_filter]
          rw [List.find?_eq_none] at hnone ⊢
          intro x hx
          have hfail := hnone x hx
          simp only [Bool.not_eq_true] at hfail
          simp [hfail]
        rw [hfind, Option.map_eq_none_iff] at hmap
        exact hmap
      rcases hagree with hagree | ⟨hagree,hfalse⟩ | ⟨hagree,-⟩
      · left
        rw [hagree, hin]
        rfl
      · right
        rw [hagree]
        exact ⟨rfl,hfalse⟩
      · rw [hin] at hagree
        cases hagree

/-- Where no hit runs across the end of a segment, or ends there on a character that is no word's,
the segment before another text has hits in the same places and maybe more. -/
theorem covered_segment (hl : word l = false) {more : List α} (n : ℕ) {seg : List α} (hn : seg.length ≤ n) (b : Option α) (i : ℕ)
    (hclear : ∀ s ∈ spans i (scan word p b (seg ++ tail)), s.1 < i + seg.length →
      s.1 + s.2.length ≤ i + seg.length ∧ (s.1 + s.2.length = i + seg.length → s.2.getLast?.any word = true)) {j : ℕ}
    (hj : j < i + seg.length) (hcov : Covered (spans i (scan word p b (seg ++ tail))) j) :
    Covered (spans i (scan word p b (seg ++ l :: more))) j := by
  have hc := hp.consumes
  induction n generalizing seg b i with
  | zero =>
    obtain ⟨s,hs,hle,-⟩ := hcov
    have hafter := spans_after s hs
    omega
  | succ n ih =>
    cases seg with
    | nil =>
      obtain ⟨s,hs,hle,-⟩ := hcov
      have hafter := spans_after s hs
      rw [List.length_nil] at hj
      omega
    | cons a x =>
      have hle : i ≤ j := by
        obtain ⟨s,hs,hle,-⟩ := hcov
        have hafter := spans_after s hs
        omega
      have hopen : (p.opening && !boundary word b (a :: x ++ tail)) =
          (p.opening && !boundary word b (a :: x ++ l :: more)) := rfl
      have hfront := matchAt_segment hp (.inr ⟨more,rfl⟩) hopen
      have hwhole : p.matchAt word b (a :: x ++ l :: more) = some (l :: more) →
          Covered (spans i (scan word p b (a :: x ++ l :: more))) j := by
        intro hmatch
        rw [scan_hit hc (by simp) hmatch, spans, covered_cons]
        exact .inl ⟨hle,hj⟩
      rw [List.length_cons] at hn
      cases hmatch : p.matchAt word b (a :: x ++ tail) with
      | none =>
        have hsame : i + (a :: x).length = i + 1 + x.length := by
          rw [List.length_cons]
          omega
        have hspans : spans i (scan word p b (a :: x ++ tail)) = spans (i + 1) (scan word p (some a) (x ++ tail)) := by
          rw [List.cons_append] at hmatch ⊢
          rw [scan_keep hmatch, spans]
        rw [hspans] at hclear hcov
        rw [hsame] at hclear hj
        rcases hfront.2 hmatch with hnone | ⟨hrest,-⟩
        · rw [List.cons_append] at hnone ⊢
          rw [scan_keep hnone, spans]
          exact ih (by omega) (some a) (i + 1) hclear hj hcov
        · exact hwhole hrest
      | some rest =>
        obtain ⟨m,hm,ht,-⟩ := matchAt_some hc hmatch
        have hspans : spans i (scan word p b (a :: x ++ tail)) =
            (i,m) :: spans (i + m.length) (scan word p m.getLast? rest) := by
          rw [ht] at hmatch ⊢
          rw [scan_hit hc hm hmatch, spans]
        have hpos := List.length_pos_iff.mpr hm
        rw [hspans] at hclear hcov
        obtain ⟨hfit,hedge⟩ := hclear (i,m) List.mem_cons_self (by rw [List.length_cons]; omega)
        obtain ⟨s,hs⟩ : m <+: a :: x := List.prefix_of_prefix_length_le ⟨rest,ht.symm⟩ ⟨tail,rfl⟩ (by simp only at hfit; omega)
        have hrest : rest = s ++ tail := by
          rw [← hs, List.append_assoc] at ht
          exact (List.append_cancel_left ht).symm
        subst hrest
        have hlen := congrArg List.length hs
        rw [List.length_append] at hlen
        rcases hfront.1 s hmatch with hsame | ⟨hrest,-⟩ | ⟨hnil,hfalse⟩
        · have hclip : spans i (scan word p b (a :: x ++ l :: more)) =
              (i,m) :: spans (i + m.length) (scan word p m.getLast? (s ++ l :: more)) := by
            rw [← hs, List.append_assoc] at hsame ⊢
            rw [scan_hit hc hm hsame, spans]
          rw [hclip, covered_cons]
          rw [covered_cons] at hcov
          refine hcov.imp id fun hcov => ?_
          have hsum : i + (a :: x).length = i + m.length + s.length := by omega
          rw [List.length_cons] at hlen
          refine ih (by omega) m.getLast? (i + m.length) ?_ (hsum ▸ hj) hcov
          intro s' hs'
          rw [← hsum]
          exact hclear s' (List.mem_cons_of_mem _ hs')
        · exact hwhole hrest
        · subst hnil
          rw [List.append_nil] at hs
          subst hs
          simp [boundary,hedge rfl,hl] at hfalse

end
/-! ## Characters seen through a function -/

def Pattern.comap (f : β → α) (p : Pattern α) : Pattern β where
  opening := p.opening
  body := p.body.comap f
  closing := p.closing

def Piece.map (f : β → α) : Piece β → Piece α
  | .keep b => .keep (f b)
  | .hit m => .hit (m.map f)

section
variable (word : α → Bool) (p : Pattern α) (f : β → α)

theorem boundary_comap (b : Option β) (t : List β) : boundary (fun c => word (f c)) b t = boundary word (b.map f) (t.map f) := by
  cases b <;> cases t <;> rfl

theorem beforeRest_comap (b : Option β) (t rest : List β) :
    (beforeRest b t rest).map f = beforeRest (b.map f) (t.map f) (rest.map f) := by
  simp only [beforeRest, List.length_map, ← List.map_take, List.getLast?_map, Option.map_or]

theorem matchAt_comap (b : Option β) (t : List β) :
    ((p.comap f).matchAt (fun c => word (f c)) b t).map (List.map f) = p.matchAt word (b.map f) (t.map f) := by
  unfold Pattern.matchAt
  simp only [Pattern.comap, boundary_comap]
  split
  · rfl
  · rw [← Body.rests_comap, List.find?_map]
    congr 1
    apply find_congr
    intro rest _
    simp only [Function.comp_apply, beforeRest_comap]

theorem pieces_comap (n : ℕ) (b : Option β) (t : List β) :
    (pieces (fun c => word (f c)) (p.comap f) n b t).map (Piece.map f) = pieces word p n (b.map f) (t.map f) := by
  induction n generalizing b t with
  | zero => rfl
  | succ n ih =>
    cases t with
    | nil => rfl
    | cons a t =>
      have hmatch := matchAt_comap word p f b (a :: t)
      rw [List.map_cons] at hmatch
      rw [List.map_cons, pieces, pieces, ← hmatch]
      cases hm : (p.comap f).matchAt (fun c => word (f c)) b (a :: t) with
      | none =>
        simp only [Option.map_none, List.map_cons, Piece.map]
        rw [ih]
        rfl
      | some rest =>
        simp only [Option.map_some, List.map_cons, Piece.map, List.map_take, List.length_cons, List.length_map]
        rw [ih, beforeRest_comap, List.map_cons]

theorem sub_comap (placeholder : List β) (t : List β) :
    (sub (fun c => word (f c)) (p.comap f) placeholder t).map f = sub word p (placeholder.map f) (t.map f) := by
  have hpiece : ∀ q : Piece β, (q.replaced placeholder).map f = (q.map f).replaced (placeholder.map f) := by
    intro q
    cases q <;> rfl
  unfold sub
  rw [List.map_flatMap, List.length_map]
  have hpieces := pieces_comap word p f t.length none t
  rw [Option.map_none] at hpieces
  rw [← hpieces, List.flatMap_map]
  exact List.flatMap_congr fun q _ => hpiece q

theorem spans_map (i : ℕ) (qs : List (Piece β)) :
    (spans i qs).map (fun h => (h.1,h.2.map f)) = spans i (qs.map (Piece.map f)) := by
  induction qs generalizing i with
  | nil => rfl
  | cons q qs ih =>
    cases q with
    | keep b =>
      simp only [List.map_cons, Piece.map, spans]
      exact ih (i + 1)
    | hit m =>
      simp only [List.map_cons, Piece.map, spans, List.length_map]
      rw [ih]

theorem covered_map {hits : List (ℕ × List β)} {j : ℕ} : Covered (hits.map fun h => (h.1,h.2.map f)) j ↔ Covered hits j := by
  simp [Covered]

theorem Pattern.Sealed.comap {l : α} (hp : p.Sealed l) {k : β} (hk : f k = l) : (p.comap f).Sealed k where
  consumes := by
    rw [Pattern.comap, Body.consumes_comap]
    exact hp.consumes
  proper := by
    rw [Pattern.comap, Body.proper_comap]
    exact hp.proper
  closing := hp.closing
  avoids := by
    rw [Pattern.comap, Body.avoids_comap, hk]
    exact hp.avoids

end
end Backtracking
