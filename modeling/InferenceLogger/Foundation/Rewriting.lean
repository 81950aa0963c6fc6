import InferenceLogger.Foundation.Scanning

/-! # Rewriting by several patterns in turn

A rewritten text keeps some characters of the original and has inert texts where runs of it were
removed. One more pattern, none of whose matches in the original is cut by what is already
removed, hits in the rewritten text what it hits in the original.
-/
namespace Backtracking
variable {α : Type} (word : α → Bool) (l : α) (own : α → Prop) (ps : List (Pattern α))

/-- A text of its own characters in which nothing matches and over which no match runs. -/
structure Inert (ins : List α) : Prop where
  head : ∃ w, ins = l :: w
  last : ins.getLast?.any word = false
  owned : ∀ c ∈ ins, own c
  unmatched : ∀ p ∈ ps, ∀ y, y <:+ ins → y ≠ [] → ∀ b u, p.matchAt word b (y ++ u) = none

/-- What is left of the positions not in `R`, with inert texts for the runs in `R`. A run ends at a
boundary of the original, and begins at one where that is known. -/
inductive Rewritten (R : ℕ → Prop) (known : Bool) : Option α → ℕ → List α → List α → Prop
  | nil (b : Option α) (i : ℕ) : Rewritten R known b i [] []
  | keep {b : Option α} {i : ℕ} {a : α} {t u : List α} (hR : ¬ R i) (h : Rewritten R known (some a) (i + 1) t u) :
      Rewritten R known b i (a :: t) (a :: u)
  | gap {b : Option α} {i : ℕ} {g t ins u : List α} (hg : g ≠ []) (hR : ∀ j, i ≤ j → j < i + g.length → R j)
      (hmax : t ≠ [] → ¬ R (i + g.length)) (hstart : known = true → boundary word b (g ++ t) = true)
      (hend : boundary word g.getLast? t = true) (hins : Inert word l own ps ins)
      (h : Rewritten R known g.getLast? (i + g.length) t u) : Rewritten R known b i (g ++ t) (ins ++ u)

variable {word l own ps} {R : ℕ → Prop} {known : Bool}

theorem Inert.append {ins more : List α} (hi : Inert word l own ps ins) (hm : Inert word l own ps more) :
    Inert word l own ps (ins ++ more) := by
  obtain ⟨w,hw⟩ := hi.head
  obtain ⟨w',hw'⟩ := hm.head
  constructor
  · exact ⟨w ++ more,by rw [hw]; rfl⟩
  · have hne : more ≠ [] := by simp [hw']
    rw [List.getLast?_append, getLast?_or hne]
    exact hm.last
  · intro c hc
    exact (List.mem_append.mp hc).elim (hi.owned c) (hm.owned c)
  · intro p hp y hy hne b u
    by_cases hlen : y.length ≤ more.length
    · have hin : y <:+ more := List.suffix_of_suffix_length_le hy (List.suffix_append ins more) hlen
      exact hm.unmatched p hp y hin hne b u
    · obtain ⟨y',rfl,hy'⟩ := suffix_segment hy (by omega)
      have hne' : y' ≠ [] := by
        rintro rfl
        simp at hlen
      rw [List.append_assoc]
      exact hi.unmatched p hp y' hy' hne' b (more ++ u)

/-! ## The relation -/

theorem boundary_front {b : Option α} {g t t' : List α} (hg : g ≠ []) : boundary word b (g ++ t) =
    boundary word b (g ++ t') := by
  obtain ⟨a,g,rfl⟩ := List.exists_cons_of_ne_nil hg
  rfl

theorem Rewritten.congr {R' : ℕ → Prop} {known' : Bool} {b : Option α} {i : ℕ} {t u : List α} (hk : known' = true → known = true)
    (hR : ∀ j, i ≤ j → (R j ↔ R' j)) (h : Rewritten word l own ps R known b i t u) :
    Rewritten word l own ps R' known' b i t u := by
  induction h with
  | nil b i => exact .nil b i
  | keep hnot _ ih => exact .keep (fun hr => hnot ((hR _ (Nat.le_refl _)).mpr hr)) (ih fun j hj => hR j (by omega))
  | gap hg hin hmax hstart hend hins _ ih =>
    exact .gap hg (fun j hj hlt => (hR j hj).mp (hin j hj hlt)) (fun ht hr => hmax ht ((hR _ (by omega)).mpr hr))
      (fun hk' => hstart (hk hk')) hend hins (ih fun j hj => hR j (by omega))

/-- One more run removed; it may touch the next. -/
theorem Rewritten.removed {b : Option α} {i : ℕ} {m t ins u : List α} (hm : m ≠ []) (hR : ∀ j, i ≤ j → j < i + m.length → R j)
    (hstart : known = true → boundary word b (m ++ t) = true)
    (hend : t = [] ∨ ¬ R (i + m.length) → boundary word m.getLast? t = true) (hins : Inert word l own ps ins)
    (h : Rewritten word l own ps R known m.getLast? (i + m.length) t u) :
    Rewritten word l own ps R known b i (m ++ t) (ins ++ u) := by
  by_cases hlast : t = [] ∨ ¬ R (i + m.length)
  · refine .gap hm hR (fun ht => ?_) hstart (hend hlast) hins h
    exact hlast.resolve_left ht
  · have hne : t ≠ [] := fun ht => hlast (.inl ht)
    have hnext : R (i + m.length) := by
      by_contra hnot
      exact hlast (.inr hnot)
    generalize hc : m.getLast? = c at h
    generalize hk : i + m.length = k at h hnext
    cases h with
    | nil => exact absurd rfl hne
    | keep hnot _ => exact absurd hnext hnot
    | @gap _ _ g t ins' u hg hin hmax _ hgend hgins hrest =>
      have hboth : (m ++ g).getLast? = g.getLast? := by
        rw [List.getLast?_append, getLast?_or hg]
      have hlen : i + (m ++ g).length = k + g.length := by
        rw [List.length_append]
        omega
      rw [← List.append_assoc, ← List.append_assoc]
      apply Rewritten.gap (by simp [hm])
      · intro j hj hlt
        rw [hlen] at hlt
        by_cases hjm : j < i + m.length
        · exact hR j hj hjm
        · exact hin j (by omega) hlt
      · rw [hlen]
        exact hmax
      · rw [List.append_assoc]
        exact hstart
      · rw [hboth]
        exact hgend
      · exact hins.append hgins
      · rw [hboth, hlen]
        exact hrest

/-- A position that is kept. -/
theorem Rewritten.tail {b : Option α} {i : ℕ} {a : α} {t u : List α} (hR : ¬ R i)
    (h : Rewritten word l own ps R known b i (a :: t) u) :
    ∃ u', u = a :: u' ∧ Rewritten word l own ps R known (some a) (i + 1) t u' := by
  generalize hx : a :: t = x at h
  cases h with
  | nil => cases hx
  | keep _ h =>
    cases hx
    exact ⟨_,rfl,h⟩
  | gap hg hin _ _ _ _ _ => exact absurd (hin i (Nat.le_refl _) (by have hpos := List.length_pos_iff.mpr hg; omega)) hR

/-- A kept part. -/
theorem Rewritten.after (m : List α) {b : Option α} {i : ℕ} {t u : List α} (hR : ∀ j, i ≤ j → j < i + m.length → ¬ R j)
    (h : Rewritten word l own ps R known b i (m ++ t) (m ++ u)) : Rewritten word l own ps R known (m.getLast?.or b)
    (i + m.length) t u := by
  induction m generalizing b i with
  | nil => exact h
  | cons a m ih =>
    obtain ⟨u',hu,h⟩ := h.tail (hR i (Nat.le_refl _) (by simp))
    have hcut : m ++ u = u' := (List.cons.inj hu).2
    subst hcut
    have hlen : i + (a :: m).length = i + 1 + m.length := by
      rw [List.length_cons]
      omega
    rw [getLast?_cons_or, hlen]
    exact ih (fun j hj hlt => hR j (by omega) (by rw [hlen]; exact hlt)) h

/-- The kept part at the front, and what follows it: nothing, or a removed run. -/
theorem Rewritten.segment {b : Option α} {i : ℕ} {t u : List α} (h : Rewritten word l own ps R known b i t u) :
    ∃ seg tail utail, t = seg ++ tail ∧ u = seg ++ utail ∧ (∀ j, i ≤ j → j < i + seg.length → ¬ R j) ∧
      (tail = [] ∧ utail = [] ∨ tail ≠ [] ∧ R (i + seg.length) ∧ (∃ more, utail = l :: more) ∧
        (known = true → boundary word (seg.getLast?.or b) tail = true)) := by
  induction h with
  | nil b i => exact ⟨[],[],[],rfl,rfl,by simp; omega,.inl ⟨rfl,rfl⟩⟩
  | @keep b i a t u hnot _ ih =>
    obtain ⟨seg,tail,utail,rfl,rfl,hseg,hafter⟩ := ih
    have hlen : i + (a :: seg).length = i + 1 + seg.length := by
      rw [List.length_cons]
      omega
    refine ⟨a :: seg,tail,utail,rfl,rfl,?_,?_⟩
    · intro j hj hlt
      by_cases hji : j = i
      · rw [hji]
        exact hnot
      · exact hseg j (by omega) (by omega)
    · rw [hlen, getLast?_cons_or]
      exact hafter
  | @gap b i g t ins u hg hin hmax hstart hend hins _ ih =>
    obtain ⟨w,rfl⟩ := hins.head
    have hpos := List.length_pos_iff.mpr hg
    exact ⟨[],g ++ t,l :: w ++ u,rfl,rfl,by simp; omega,
      .inr ⟨by simp [hg],hin i (Nat.le_refl _) (by omega),⟨w ++ u,rfl⟩,hstart⟩⟩

/-- What is left is a placeholder's own or was kept. -/
theorem Rewritten.kept {b : Option α} {i : ℕ} {t u : List α} (h : Rewritten word l own ps R known b i t u) {x : α} (hx : x ∈ u) :
    own x ∨ ∃ j, ¬ R (i + j) ∧ t[j]? = some x := by
  induction h with
  | nil b i => cases hx
  | @keep b i a t u hnot _ ih =>
    rcases List.mem_cons.mp hx with rfl | hx
    · exact .inr ⟨0,hnot,rfl⟩
    · rcases ih hx with hins | ⟨j,hj,hget⟩
      · exact .inl hins
      · have hsum : i + (j + 1) = i + 1 + j := by omega
        refine .inr ⟨j + 1,?_,hget⟩
        rw [hsum]
        exact hj
  | @gap b i g t ins u hg hin hmax hstart hend hins _ ih =>
    rcases List.mem_append.mp hx with hx | hx
    · exact .inl (hins.owned x hx)
    · rcases ih hx with hins | ⟨j,hj,hget⟩
      · exact .inl hins
      · have hsum : i + (g.length + j) = i + g.length + j := by omega
        refine .inr ⟨g.length + j,?_,?_⟩
        · rw [hsum]
          exact hj
        · rw [List.getElem?_append_right (by omega), Nat.add_sub_cancel_left]
          exact hget

/-! ## One more pattern -/

/-- A hit is covered by what is removed already, or clear of it; and where it then touches a removed
character, the pattern can see its own edge without it. -/
def Uncut (word : α → Bool) (R : ℕ → Prop) (p : Pattern α) (h : ℕ × List α) : Prop :=
  (∀ j, h.1 ≤ j → j < h.1 + h.2.length → R j) ∨
    (∀ j, h.1 ≤ j → j < h.1 + h.2.length → ¬ R j) ∧
      (p.opening = true → 0 < h.1 → R (h.1 - 1) → h.2.head?.any word = true) ∧
      (R (h.1 + h.2.length) → h.2.getLast?.any word = true)

/-- The text after the character `b`, rewritten. -/
def rewrite (word : α → Bool) (p : Pattern α) (placeholder : List α) (b : Option α) (t : List α) : List α :=
  (scan word p b t).flatMap (Piece.replaced placeholder)

/-- The characters before a position in the two texts: the same, or the position is right after a
removed run. -/
def Meets (word : α → Bool) (R : ℕ → Prop) (b bu : Option α) (i : ℕ) (t : List α) : Prop :=
  bu = b ∨ 0 < i ∧ R (i - 1) ∧ bu.any word = false ∧ boundary word b t = true

theorem rewrite_inert {p : Pattern α} (hp : p ∈ ps) {ins : List α} (hi : Inert word l own ps ins)
    (placeholder : List α) (b : Option α)
    (u : List α) : rewrite word p placeholder b (ins ++ u) = ins ++ rewrite word p placeholder ins.getLast? u := by
  have hsuffix : ∀ y, y <:+ ins → ∀ b, rewrite word p placeholder b (y ++ u) =
      y ++ rewrite word p placeholder (y.getLast?.or b) u := by
    intro y
    induction y with
    | nil => exact fun _ b => rfl
    | cons a y ih =>
      intro hy b
      have hnone := hi.unmatched p hp (a :: y) hy (by simp) b u
      have hrest := ih ((List.suffix_cons a y).trans hy) (some a)
      rw [getLast?_cons_or, rewrite, List.cons_append, scan_keep (by simpa using hnone), List.flatMap_cons, ← rewrite, hrest]
      rfl
  obtain ⟨w,hw⟩ := hi.head
  have hne : ins ≠ [] := by simp [hw]
  rw [hsuffix ins (List.suffix_refl ins) b, getLast?_or hne]

section
variable {p : Pattern α} (hs : p.Sealed l) (hl : word l = false)
include hs

/-- A hit of the scan that begins in a kept part ends in it. -/
theorem hit_in_segment {b : Option α} {i : ℕ} {seg tail : List α} (hseg : ∀ j, i ≤ j → j < i + seg.length → ¬ R j)
    (htail : tail = [] ∨ R (i + seg.length)) (huncut : ∀ h ∈ spans i (scan word p b (seg ++ tail)), Uncut word R p h) :
    ∀ h ∈ spans i (scan word p b (seg ++ tail)), h.1 < i + seg.length → h.1 + h.2.length ≤ i + seg.length := by
  intro h hmem hlt
  have hge := spans_after h hmem
  obtain ⟨hne,hend⟩ := spans_within hs.consumes _ (Nat.le_refl _) b i h hmem
  have hpos := List.length_pos_iff.mpr hne
  rcases htail with rfl | hR
  · rw [List.append_nil] at hend
    exact hend
  · by_contra hover
    rcases huncut h hmem with hin | ⟨hout,-⟩
    · exact hseg h.1 hge hlt (hin h.1 (Nat.le_refl _) (by omega))
    · exact hout (i + seg.length) (by omega) (by omega) hR

include hl

/-- At a kept character: no match in either text, or a match in the rewritten one of a kept part to
whose end the scan of the original comes as well. -/
theorem match_front {b bu : Option α} {i : ℕ} {a : α} {t u : List α} (hR : ¬ R i)
    (hrel : Rewritten word l own ps R known b i (a :: t) (a :: u)) (hmeet : Meets word R b bu i (a :: t))
    (huncut : ∀ h ∈ spans i (scan word p b (a :: t)), Uncut word R p h) :
    (p.matchAt word b (a :: t) = none ∧ p.matchAt word bu (a :: u) = none) ∨
      ∃ m rest urest, m ≠ [] ∧ a :: t = m ++ rest ∧ a :: u = m ++ urest ∧ p.matchAt word bu (m ++ urest) = some urest ∧
        (∀ j, i ≤ j → j < i + m.length → ¬ R j) ∧
        (∃ hits, spans i (scan word p b (m ++ rest)) = hits ++ spans (i + m.length) (scan word p m.getLast? rest) ∧
          (∀ h ∈ hits, h.1 + h.2.length ≤ i + m.length) ∧
          (known = true → ∀ j, i ≤ j → j < i + m.length → Covered hits j)) ∧
        (known = true → p.opening = true → boundary word b (m ++ rest) = true) ∧
        (rest = [] ∨ ¬ R (i + m.length) → boundary word m.getLast? rest = true) := by
  obtain ⟨seg,tail,utail,ht,hu,hseg,hafter⟩ := hrel.segment
  have hne : seg ≠ [] := by
    rintro rfl
    rcases hafter with ⟨rfl,-⟩ | ⟨-,hnext,-⟩
    · cases ht
    · exact hR hnext
  have htail : tail = [] ∨ R (i + seg.length) := by
    rcases hafter with ⟨h,-⟩ | ⟨-,h,-⟩
    · exact .inl h
    · exact .inr h
  have hutail : tail = [] ∧ utail = [] ∨ ∃ more, utail = l :: more := by
    rcases hafter with h | ⟨-,-,h,-⟩
    · exact .inl h
    · exact .inr h
  rw [ht] at hmeet huncut ⊢
  rw [hu]
  have hclear := hit_in_segment hs hseg htail huncut
  have hpos := List.length_pos_iff.mpr hne
  -- the match of the original at this place is a hit of its scan
  have hfirst : ∀ {m rest : List α}, m ≠ [] → seg ++ tail = m ++ rest → p.matchAt word b (m ++ rest) = some rest →
      (i,m) ∈ spans i (scan word p b (seg ++ tail)) := by
    intro m rest hm hcut hmatch
    rw [hcut, scan_hit hs.consumes hm hmatch, spans]
    exact List.mem_cons_self
  have hfront : ∀ c : Option α, boundary word c (seg ++ utail) = boundary word c (seg ++ tail) := fun c => boundary_front hne
  by_cases hspecial : p.opening = true ∧ boundary word b (seg ++ tail) = true ∧ boundary word bu (seg ++ utail) = false
  · -- the boundary before the character went with the run before it
    obtain ⟨hopening,hb,hbu⟩ := hspecial
    left
    constructor
    · by_contra hsome
      obtain ⟨rest,hrest⟩ := Option.ne_none_iff_exists'.mp hsome
      obtain ⟨m,hm,hcut,-⟩ := matchAt_some hs.consumes hrest
      rw [hcut] at hrest
      have hmem := hfirst hm hcut hrest
      have hmpos := List.length_pos_iff.mpr hm
      rcases hmeet with rfl | ⟨hi,hprev,hword,-⟩
      · rw [hfront, hb] at hbu
        cases hbu
      · rcases huncut _ hmem with hin | ⟨-,hedge,-⟩
        · exact hR (hin i (Nat.le_refl _) (by simp only; omega))
        · have hhead : m.head?.any word = true := hedge hopening hi hprev
          obtain ⟨c,m,rfl⟩ := List.exists_cons_of_ne_nil hm
          rw [hfront, hcut] at hbu
          simp only [boundary, hword, List.cons_append, List.head?_cons] at hbu hhead
          rw [hhead] at hbu
          cases hbu
    · unfold Pattern.matchAt
      rw [if_pos (by simp [hopening,hbu])]
  · have hopen : (p.opening && !boundary word b (seg ++ tail)) = (p.opening && !boundary word bu (seg ++ utail)) := by
      by_cases hopening : p.opening = true
      · rcases hmeet with rfl | ⟨-,-,-,hb⟩
        · rw [hfront]
        · have hbu : boundary word bu (seg ++ utail) = true := by
            by_contra hfalse
            exact hspecial ⟨hopening,hb,by simpa using hfalse⟩
          rw [hb, hbu]
      · rw [Bool.not_eq_true] at hopening
        rw [hopening, Bool.false_and, Bool.false_and]
    obtain ⟨hsome,hnone⟩ := matchAt_segment hs hutail hopen
    -- a match that runs to the end of the segment in the rewritten text alone
    have hjump : p.matchAt word bu (seg ++ utail) = some utail → boundary word seg.getLast? tail = false →
        ∃ m rest urest, m ≠ [] ∧ seg ++ tail = m ++ rest ∧ seg ++ utail = m ++ urest ∧
          p.matchAt word bu (m ++ urest) = some urest ∧ (∀ j, i ≤ j → j < i + m.length → ¬ R j) ∧
          (∃ hits, spans i (scan word p b (m ++ rest)) = hits ++ spans (i + m.length) (scan word p m.getLast? rest) ∧
            (∀ h ∈ hits, h.1 + h.2.length ≤ i + m.length) ∧
            (known = true → ∀ j, i ≤ j → j < i + m.length → Covered hits j)) ∧
          (known = true → p.opening = true → boundary word b (m ++ rest) = true) ∧
          (rest = [] ∨ ¬ R (i + m.length) → boundary word m.getLast? rest = true) := by
      intro hmatch hfalse
      rcases hafter with ⟨rfl,rfl⟩ | ⟨htne,hnext,-,hstart⟩
      · obtain ⟨m,-,hcut,-,hclose⟩ := matchAt_some hs.consumes hmatch
        have hm : m = seg := by simpa using hcut.symm
        rw [hm] at hclose
        rw [hclose hs.closing] at hfalse
        cases hfalse
      · have hunknown : known ≠ true := by
          intro hk
          have hb := hstart hk
          rw [getLast?_or hne, hfalse] at hb
          cases hb
        obtain ⟨hits,hspans,hin⟩ := scan_through hs.consumes _ (Nat.le_refl _) b i hclear
        rw [getLast?_or hne] at hspans
        refine ⟨seg,tail,utail,hne,rfl,rfl,hmatch,hseg,⟨hits,hspans,hin,fun hk => absurd hk hunknown⟩,
          fun hk => absurd hk hunknown,?_⟩
        rintro (hnil | hnot)
        · exact absurd hnil htne
        · exact absurd hnext hnot
    cases hT : p.matchAt word b (seg ++ tail) with
    | none =>
      rcases hnone hT with hU | ⟨hU,hfalse⟩
      · exact .inl ⟨rfl,hU⟩
      · exact .inr (hjump hU hfalse)
    | some rest =>
      right
      obtain ⟨m,hm,hcut,hbegin,hclose⟩ := matchAt_some hs.consumes hT
      have hmatch := hT
      rw [hcut] at hmatch
      have hmem := hfirst hm hcut hmatch
      have hmpos := List.length_pos_iff.mpr hm
      have hmlen : i + m.length ≤ i + seg.length := hclear (i,m) hmem (by simp only; omega)
      obtain ⟨s,rfl⟩ : m <+: seg := by
        have hwhole : m <+: seg ++ tail := ⟨rest,hcut.symm⟩
        exact List.prefix_of_prefix_length_le hwhole ⟨tail,rfl⟩ (by omega)
      have hrest : rest = s ++ tail := by
        rw [List.append_assoc] at hcut
        exact (List.append_cancel_left hcut).symm
      subst hrest
      rcases hsome s hT with hU | ⟨hU,hfalse⟩ | ⟨rfl,hfalse⟩
      · refine ⟨m,s ++ tail,s ++ utail,hm,by rw [List.append_assoc],by rw [List.append_assoc],?_,?_,⟨[(i,m)],?_,?_,?_⟩,?_,?_⟩
        · rw [← List.append_assoc]
          exact hU
        · intro j hj hlt
          exact hseg j hj (by omega)
        · rw [scan_hit hs.consumes hm hmatch, spans]
          rfl
        · intro h hh
          rw [List.mem_singleton.mp hh]
        · intro _ j hj hlt
          exact ⟨(i,m),List.mem_singleton.mpr rfl,hj,hlt⟩
        · intro _ hopening
          rw [← List.append_assoc]
          exact hbegin hopening
        · intro _
          exact hclose hs.closing
      · exact hjump hU hfalse
      · -- the run after the hit took its closing boundary, which the hit does not need
        rw [List.append_nil] at hfalse hafter htail
        have hclosed := hclose hs.closing
        rw [List.nil_append] at hclosed
        rcases hafter with ⟨rfl,rfl⟩ | ⟨-,hnext,⟨more,rfl⟩,-⟩
        · rw [hclosed] at hfalse
          cases hfalse
        · rcases huncut _ hmem with hin | ⟨-,-,hedge⟩
          · exact absurd (hin i (Nat.le_refl _) (by simp only; omega)) hR
          · have hword : m.getLast?.any word = true := hedge hnext
            simp only [boundary, hword, List.head?_cons, Option.any_some, hl] at hfalse
            cases hfalse

/-- Rewriting once more removes what the scan of the original hits; and no more than that, where
the runs removed before begin at boundaries. -/
theorem Rewritten.rewrite (hp : p ∈ ps) {placeholder : List α} (hph : Inert word l own ps placeholder) (n : ℕ)
    {b bu : Option α} {i : ℕ}
    {t u : List α} (hn : t.length ≤ n) (hrel : Rewritten word l own ps R known b i t u) (hmeet : Meets word R b bu i t)
    (huncut : ∀ h ∈ spans i (scan word p b t), Uncut word R p h) :
    ∃ R' : ℕ → Prop, (∀ j, i ≤ j → R j ∨ Covered (spans i (scan word p b t)) j → R' j) ∧
      (known = true → ∀ j, i ≤ j → R' j → R j ∨ Covered (spans i (scan word p b t)) j) ∧
      Rewritten word l own ps R' (known && p.opening) b i t (rewrite word p placeholder bu u) := by
  induction n generalizing b bu i t u with
  | zero =>
    have hnil : t = [] := List.length_eq_zero_iff.mp (by omega)
    subst hnil
    generalize hx : ([] : List α) = x at hrel
    cases hrel with
    | nil => exact ⟨R,fun j _ h => h.elim id (by rintro ⟨_,⟨⟩,_⟩),fun _ j _ h => .inl h,.nil b i⟩
    | keep => cases hx
    | gap hg => exact absurd (List.append_eq_nil_iff.mp hx.symm).1 hg
  | succ n ih =>
    cases hrel with
    | nil => exact ⟨R,fun j _ h => h.elim id (by rintro ⟨_,⟨⟩,_⟩),fun _ j _ h => .inl h,.nil b i⟩
    | @gap _ _ g t ins u hg hin hmax hstart hend hins h =>
      have hpos := List.length_pos_iff.mpr hg
      have hthrough : ∀ s ∈ spans i (scan word p b (g ++ t)), s.1 < i + g.length → s.1 + s.2.length ≤ i + g.length := by
        intro s hmem hlt
        have hge := spans_after s hmem
        obtain ⟨hne,hle⟩ := spans_within hs.consumes _ (Nat.le_refl _) b i s hmem
        have hspos := List.length_pos_iff.mpr hne
        by_contra hover
        have htne : t ≠ [] := by
          rintro rfl
          rw [List.append_nil] at hle
          exact hover hle
        rcases huncut s hmem with hall | ⟨hout,-⟩
        · exact hmax htne (hall _ (by omega) (by omega))
        · exact hout s.1 (Nat.le_refl _) (by omega) (hin s.1 hge hlt)
      obtain ⟨hits,hspans,hwithin⟩ := scan_through hs.consumes _ (Nat.le_refl _) b i hthrough
      rw [getLast?_or hg] at hspans
      have hnext : Meets word R g.getLast? ins.getLast? (i + g.length) t :=
        .inr ⟨by omega,hin _ (by omega) (by omega),hins.last,hend⟩
      rw [List.length_append] at hn
      obtain ⟨R1,hsup,hsub,hrest⟩ := ih (by omega) h hnext (by
        intro s hmem
        apply huncut s
        rw [hspans]
        exact List.mem_append_right _ hmem)
      refine ⟨fun j => j < i + g.length ∨ R1 j,?_,?_,?_⟩
      · intro j hj hor
        by_cases hlt : j < i + g.length
        · exact .inl hlt
        · right
          apply hsup j (by omega)
          rw [hspans, covered_append] at hor
          rcases hor with hor | ⟨s,hmem,-,hs2⟩ | hor
          · exact .inl hor
          · have hle := hwithin s hmem
            omega
          · exact .inr hor
      · intro hk j hj hor
        by_cases hlt : j < i + g.length
        · exact .inl (hin j hj hlt)
        · rw [hspans, covered_append]
          rcases hsub hk j (by omega) (hor.resolve_left hlt) with hR | hcov
          · exact .inl hR
          · exact .inr (.inr hcov)
      · rw [rewrite_inert hp hins]
        apply Rewritten.removed hg (fun j _ hlt => .inl hlt)
        · intro hk
          rw [Bool.and_eq_true] at hk
          exact hstart hk.1
        · exact fun _ => hend
        · exact hins
        · refine hrest.congr id fun j hj => ?_
          constructor
          · exact .inr
          · exact fun hor => hor.resolve_left (by omega)
    | @keep _ _ a t u hR h =>
      have hrel : Rewritten word l own ps R known b i (a :: t) (a :: u) := .keep hR h
      rw [List.length_cons] at hn
      rcases match_front hs hl hR hrel hmeet huncut with
        ⟨hT,hU⟩ | ⟨m,rest,urest,hm,hcut,hucut,hU,hout,⟨hits,hspans,hwithin,hcov⟩,hstart,hend⟩
      · have hspans : spans i (scan word p b (a :: t)) = spans (i + 1) (scan word p (some a) t) := by
          rw [scan_keep hT, spans]
        obtain ⟨R1,hsup,hsub,hrest⟩ := ih (by omega) h (.inl rfl) (by
          intro s hmem
          apply huncut s
          rw [hspans]
          exact hmem)
        rw [hspans]
        refine ⟨fun j => i < j ∧ R1 j,?_,?_,?_⟩
        · intro j hj hor
          have hlt : i < j := by
            by_contra hle
            have hji : j = i := by omega
            subst hji
            rcases hor with hor | ⟨s,hmem,hs1,-⟩
            · exact hR hor
            · have hge := spans_after s hmem
              omega
          exact ⟨hlt,hsup j hlt hor⟩
        · intro hk j _ hor
          exact hsub hk j hor.1 hor.2
        · have hkeep : Backtracking.rewrite word p placeholder bu (a :: u) =
              a :: Backtracking.rewrite word p placeholder (some a) u := by
            rw [Backtracking.rewrite, scan_keep hU]
            rfl
          rw [hkeep]
          apply Rewritten.keep (by simp)
          exact hrest.congr id fun j hj => ⟨fun hR1 => ⟨hj,hR1⟩,And.right⟩
      · have hpos := List.length_pos_iff.mpr hm
        have hlen := congrArg List.length hcut
        rw [List.length_cons, List.length_append] at hlen
        rw [hcut] at hrel huncut ⊢
        rw [hucut] at hrel ⊢
        have hafter := hrel.after m hout
        rw [getLast?_or hm] at hafter
        obtain ⟨R1,hsup,hsub,hrest⟩ := ih (by omega) hafter (.inl rfl) (by
          intro s hmem
          apply huncut s
          rw [hspans]
          exact List.mem_append_right _ hmem)
        refine ⟨fun j => j < i + m.length ∨ R1 j,?_,?_,?_⟩
        · intro j hj hor
          by_cases hlt : j < i + m.length
          · exact .inl hlt
          · right
            apply hsup j (by omega)
            rw [hspans, covered_append] at hor
            rcases hor with hor | ⟨s,hmem,-,hs2⟩ | hor
            · exact .inl hor
            · have hle := hwithin s hmem
              omega
            · exact .inr hor
        · intro hk j hj hor
          rw [hspans, covered_append]
          by_cases hlt : j < i + m.length
          · exact .inr (.inl (hcov hk j hj hlt))
          · rcases hsub hk j (by omega) (hor.resolve_left hlt) with hR1 | hcov1
            · exact .inl hR1
            · exact .inr (.inr hcov1)
        · have hhit : Backtracking.rewrite word p placeholder bu (m ++ urest) =
              placeholder ++ Backtracking.rewrite word p placeholder m.getLast? urest := by
            rw [Backtracking.rewrite, scan_hit hs.consumes hm hU]
            rfl
          rw [hhit]
          apply Rewritten.removed hm (fun j _ hlt => .inl hlt)
          · intro hk
            rw [Bool.and_eq_true] at hk
            exact hstart hk.1 hk.2
          · rintro (hnil | hnot)
            · exact hend (.inl hnil)
            · refine hend (.inr fun hR => hnot (.inr (hsup _ (by omega) (.inl hR))))
          · exact hph
          · refine hrest.congr id fun j hj => ?_
            constructor
            · exact .inr
            · exact fun hor => hor.resolve_left (by omega)

end

/-! ## All patterns in turn -/

/-- The hits of a pattern in a text. -/
def Pattern.hits (word : α → Bool) (p : Pattern α) (t : List α) : List (ℕ × List α) := spans 0 (pieces word p t.length none t)

/-- The position lies in a hit of one of the patterns. -/
def Removed (word : α → Bool) (done : List (Pattern α)) (t : List α) (j : ℕ) : Prop := ∃ p ∈ done, Covered (p.hits word t) j

/-- No hit of a pattern is cut by the hits of those before it. -/
def Whole (word : α → Bool) (t : List α) : List (Pattern α) → List (Pattern α) → Prop
  | _, [] => True
  | done, p :: later => (∀ h ∈ p.hits word t, Uncut word (Removed word done t) p h) ∧ Whole word t (done ++ [p]) later

/-- Each pattern with its placeholder. -/
def subAll (word : α → Bool) (rules : List (Pattern α × List α)) (t : List α) : List α :=
  rules.foldl (fun u r => sub word r.1 r.2 u) t

theorem removed_append {done more : List (Pattern α)} {t : List α} {j : ℕ} :
    Removed word (done ++ more) t j ↔ Removed word done t j ∨ Removed word more t j := by
  simp only [Removed, List.mem_append, or_and_right, exists_or]

theorem removed_single {p : Pattern α} {t : List α} {j : ℕ} : Removed word [p] t j ↔ Covered (p.hits word t) j := by
  simp only [Removed, List.mem_singleton, exists_eq_left]

theorem Rewritten.refl {t : List α} (b : Option α) (i : ℕ) : Rewritten word l own ps (fun _ => False) known b i t t := by
  induction t generalizing b i with
  | nil => exact .nil b i
  | cons a t ih => exact .keep id (ih (some a) (i + 1))

/-- A rule the others can follow. -/
structure Follows (word : α → Bool) (l : α) (own : α → Prop) (ps : List (Pattern α)) (r : Pattern α × List α) : Prop where
  listed : r.1 ∈ ps
  isSealed : r.1.Sealed l
  inert : Inert word l own ps r.2

section
variable (hl : word l = false) {t : List α}
include hl

/-- Rules that begin at boundaries remove their hits in the original and nothing else. -/
theorem subAll_exact {rules : List (Pattern α × List α)} (hf : ∀ r ∈ rules, Follows word l own ps r)
    (ho : ∀ r ∈ rules, r.1.opening = true)
    {done later : List (Pattern α)} {u : List α} (hrel : Rewritten word l own ps (Removed word done t) true none 0 t u)
    (hw : Whole word t done (rules.map Prod.fst ++ later)) :
    Rewritten word l own ps (Removed word (done ++ rules.map Prod.fst) t) true none 0 t (subAll word rules u) ∧
      Whole word t (done ++ rules.map Prod.fst) later := by
  induction rules generalizing done u with
  | nil =>
    rw [List.map_nil, List.append_nil]
    exact ⟨hrel,hw⟩
  | cons r rules ih =>
    obtain ⟨huncut,hw⟩ := hw
    obtain ⟨hlisted,hseal,hinert⟩ := hf r List.mem_cons_self
    obtain ⟨R',hsup,hsub,hrest⟩ := hrel.rewrite hseal hl hlisted hinert _ (Nat.le_refl _) (.inl rfl) huncut
    rw [ho r List.mem_cons_self] at hrest
    have hnext : Rewritten word l own ps (Removed word (done ++ [r.1]) t) true none 0 t (sub word r.1 r.2 u) := by
      refine hrest.congr id fun j hj => ?_
      rw [removed_append, removed_single]
      exact ⟨hsub rfl j hj,hsup j hj⟩
    have hdone := ih (fun r' hr => hf r' (List.mem_cons_of_mem _ hr)) (fun r' hr => ho r' (List.mem_cons_of_mem _ hr)) hnext hw
    rw [List.append_assoc] at hdone
    exact hdone

/-- Of the rules only the last but one may begin anywhere. -/
theorem subAll_removes {front : List (Pattern α × List α)} {r z : Pattern α × List α}
    (hf : ∀ s ∈ front ++ [r,z], Follows word l own ps s) (ho : ∀ s ∈ front, s.1.opening = true)
    (hw : Whole word t [] ((front ++ [r,z]).map Prod.fst)) :
    ∃ R' : ℕ → Prop, (∀ j, Removed word ((front ++ [r,z]).map Prod.fst) t j → R' j) ∧
      Rewritten word l own ps R' false none 0 t (subAll word (front ++ [r,z]) t) := by
  have hstart : Rewritten word l own ps (Removed word [] t) true none 0 t t := by
    refine (Rewritten.refl none 0).congr id fun j _ => ?_
    simp [Removed]
  rw [List.map_append] at hw
  obtain ⟨hfront,huncut,hw⟩ := subAll_exact hl (fun s hs => hf s (List.mem_append_left _ hs)) ho hstart hw
  obtain ⟨huncut',-⟩ := hw
  obtain ⟨hlisted,hseal,hinert⟩ := hf r (by simp)
  obtain ⟨R1,hsup,hsub,hrest⟩ := hfront.rewrite hseal hl hlisted hinert _ (Nat.le_refl _) (.inl rfl) huncut
  have hnext : Rewritten word l own ps (Removed word ([] ++ front.map Prod.fst ++ [r.1]) t) false none 0 t
      (sub word r.1 r.2 (subAll word front t)) := by
    refine hrest.congr (by simp) fun j hj => ?_
    rw [removed_append, removed_single]
    exact ⟨hsub rfl j hj,hsup j hj⟩
  obtain ⟨hlisted',hseal',hinert'⟩ := hf z (by simp)
  obtain ⟨R2,hsup2,-,hlast⟩ := hnext.rewrite hseal' hl hlisted' hinert' _ (Nat.le_refl _) (.inl rfl) huncut'
  refine ⟨R2,?_,?_⟩
  · intro j hj
    apply hsup2 j (Nat.zero_le j)
    have hsplit : (front ++ [r,z]).map Prod.fst = ([] ++ front.map Prod.fst ++ [r.1]) ++ [z.1] := by simp
    rw [hsplit, removed_append, removed_single] at hj
    exact hj
  · have hfold : subAll word (front ++ [r,z]) t = sub word z.1 z.2 (sub word r.1 r.2 (subAll word front t)) := by
      unfold subAll
      rw [List.foldl_append]
      rfl
    rw [hfold]
    exact hlast

end
end Backtracking
