import InferenceLogger.Foundation.Rewriting

/-! # Patterns that find nothing

A pattern is quiet in a text where it matches at no place. One more substitution keeps quiet what
was quiet, and makes its own pattern quiet, as long as none of its hits begins inside a word: such
a hit, once replaced, leaves a boundary where there was none.
-/
namespace Backtracking
variable {α : Type} {word : α → Bool} {l : α} {p q : Pattern α}

/-- The pattern matches nowhere in the text after the character `b`. -/
def Quiet (word : α → Bool) (p : Pattern α) (b : Option α) (t : List α) : Prop :=
  ∀ x y, t = x ++ y → p.matchAt word (x.getLast?.or b) y = none

/-- No hit begins inside a word. -/
def outsideWords (word : α → Bool) : Option α → List (Piece α) → Bool
  | _, [] => true
  | _, .keep a :: ps => outsideWords word (some a) ps
  | b, .hit m :: ps => !(b.any word && m.head?.any word) && outsideWords word m.getLast? ps

theorem matchAt_nil (hc : p.body.consumes = true) (b : Option α) : p.matchAt word b [] = none := by
  cases h : p.matchAt word b [] with
  | none => rfl
  | some rest =>
    obtain ⟨m,hm,ht,-⟩ := matchAt_some hc h
    exact absurd (List.append_eq_nil_iff.mp ht.symm).1 hm

theorem quiet_nil (hc : p.body.consumes = true) (b : Option α) : Quiet word p b [] := by
  intro x y hxy
  rw [(List.append_eq_nil_iff.mp hxy.symm).2]
  exact matchAt_nil hc _

theorem quiet_cons {b : Option α} {a : α} {t : List α} :
    Quiet word p b (a :: t) ↔ p.matchAt word b (a :: t) = none ∧ Quiet word p (some a) t := by
  constructor
  · intro h
    refine ⟨h [] (a :: t) rfl,fun x y hxy => ?_⟩
    rw [← getLast?_cons_or a x b]
    exact h (a :: x) y (by rw [hxy]; rfl)
  · rintro ⟨hfirst,hrest⟩ x y hxy
    cases x with
    | nil =>
      rw [List.nil_append] at hxy
      rw [← hxy]
      exact hfirst
    | cons c x =>
      rw [List.cons_append] at hxy
      cases hxy
      rw [getLast?_cons_or]
      exact hrest x y rfl

theorem scan_quiet {b : Option α} {t : List α} (h : Quiet word p b t) : scan word p b t = t.map .keep := by
  induction t generalizing b with
  | nil => rfl
  | cons a t ih =>
    obtain ⟨hfirst,hrest⟩ := quiet_cons.mp h
    rw [scan_keep hfirst, ih hrest]
    rfl

/-- Nothing is substituted where the pattern is quiet. -/
theorem sub_quiet {t : List α} (h : Quiet word p none t) (placeholder : List α) : sub word p placeholder t = t := by
  have hscan := scan_quiet h
  unfold scan at hscan
  unfold sub
  rw [hscan, List.flatMap_map]
  exact List.flatMap_singleton' t

/-- In front of a text, an inert one adds no match. -/
theorem quiet_inert {own : α → Prop} {ps : List (Pattern α)} (hq : q ∈ ps) {ins u : List α} (hi : Inert word l own ps ins)
    (h : Quiet word q ins.getLast? u) (b : Option α) : Quiet word q b (ins ++ u) := by
  have hsuffix : ∀ y, y <:+ ins → ∀ b, Quiet word q (y.getLast?.or b) u → Quiet word q b (y ++ u) := by
    intro y
    induction y with
    | nil => exact fun _ _ h => h
    | cons a y ih =>
      intro hy b h
      rw [getLast?_cons_or] at h
      refine quiet_cons.mpr ⟨?_,ih ((List.suffix_cons a y).trans hy) (some a) h⟩
      exact hi.unmatched q hq (a :: y) hy (by simp) b u
  obtain ⟨w,hw⟩ := hi.head
  have hne : ins ≠ [] := by simp [hw]
  apply hsuffix ins (List.suffix_refl ins) b
  rwa [getLast?_or hne]

/-! ## One substitution -/

/-- A pattern that begins at a boundary hits no inside of a word. -/
theorem outsideWords_of_opening (hc : p.body.consumes = true) (ho : p.opening = true) (n : ℕ) {t : List α} (hn : t.length ≤ n)
    (b : Option α) : outsideWords word b (scan word p b t) = true := by
  induction n generalizing b t with
  | zero =>
    have hnil : t = [] := List.length_eq_zero_iff.mp (by omega)
    subst hnil
    rfl
  | succ n ih =>
    cases t with
    | nil => rfl
    | cons a t =>
      rw [List.length_cons] at hn
      cases hmatch : p.matchAt word b (a :: t) with
      | none =>
        rw [scan_keep hmatch]
        exact ih (by omega) (some a)
      | some rest =>
        obtain ⟨m,hm,ht,hopen,-⟩ := matchAt_some hc hmatch
        have hlen := congrArg List.length ht
        have hpos := List.length_pos_iff.mpr hm
        rw [List.length_cons, List.length_append] at hlen
        have hboundary := hopen ho
        rw [ht] at hmatch hboundary ⊢
        rw [scan_hit hc hm hmatch, outsideWords, Bool.and_eq_true]
        refine ⟨?_,ih (by omega) m.getLast?⟩
        obtain ⟨c,m,rfl⟩ := List.exists_cons_of_ne_nil hm
        simp only [boundary, List.cons_append, List.head?_cons, Option.any_some] at hboundary ⊢
        cases hb : b.any word
        · rfl
        · rw [hb, Bool.true_xor] at hboundary
          rw [Bool.true_and]
          exact hboundary

/-- What a substitution keeps at the front, and the first hit after it. -/
theorem rewrite_front (hc : p.body.consumes = true) (placeholder : List α) (t : List α) (b : Option α) :
    ∃ seg tail, t = seg ++ tail ∧
      rewrite word p placeholder b t = seg ++ rewrite word p placeholder (seg.getLast?.or b) tail ∧
      (outsideWords word b (scan word p b t) = true →
      outsideWords word (seg.getLast?.or b) (scan word p (seg.getLast?.or b) tail) = true) ∧
      (tail = [] ∨ ∃ m rest, m ≠ [] ∧ tail = m ++ rest ∧ p.matchAt word (seg.getLast?.or b) (m ++ rest) = some rest) := by
  induction t generalizing b with
  | nil => exact ⟨[],[],rfl,rfl,id,.inl rfl⟩
  | cons a t ih =>
    cases hmatch : p.matchAt word b (a :: t) with
    | some rest =>
      obtain ⟨m,hm,ht,-⟩ := matchAt_some hc hmatch
      rw [ht] at hmatch
      exact ⟨[],a :: t,rfl,rfl,id,.inr ⟨m,rest,hm,ht,hmatch⟩⟩
    | none =>
      obtain ⟨seg,tail,rfl,hrewrite,hapart,htail⟩ := ih (some a)
      refine ⟨a :: seg,tail,rfl,?_,?_,?_⟩
      · rw [getLast?_cons_or, rewrite, scan_keep hmatch, List.flatMap_cons, ← rewrite, hrewrite]
        rfl
      · rw [getLast?_cons_or, scan_keep hmatch]
        exact hapart
      · rw [getLast?_cons_or]
        exact htail

/-- A hit is replaced. -/
theorem rewrite_hit (hc : p.body.consumes = true) {placeholder m rest : List α} {b : Option α} (hm : m ≠ [])
    (h : p.matchAt word b (m ++ rest) = some rest) :
    rewrite word p placeholder b (m ++ rest) = placeholder ++ rewrite word p placeholder m.getLast? rest := by
  rw [rewrite, scan_hit hc hm h]
  rfl

section
variable {own : α → Prop} {ps : List (Pattern α)} {placeholder : List α} (hp : p.Sealed l) (hq : q.Sealed l) (hmem : q ∈ ps)
  (hl : word l = false) (hi : Inert word l own ps placeholder)
include hp hq hmem hl hi

omit hmem in
/-- At a kept character: what the other text has after the segment gives the pattern no match that
it did not have. -/
theorem match_kept {b bu : Option α} {t : List α} (hmeet : bu = b ∨ bu.any word = false ∧ boundary word b t = true)
    (hapart : outsideWords word b (scan word p b t) = true) (hkept : p.matchAt word b t = none)
    (hquiet : q.matchAt word b t = none)
    (hne : t ≠ []) : q.matchAt word bu (rewrite word p placeholder b t) = none := by
  obtain ⟨seg,tail,rfl,hrewrite,hafter,htail⟩ := rewrite_front hp.consumes placeholder t b
  have hseg : seg ≠ [] := by
    rintro rfl
    rcases htail with rfl | ⟨m,rest,-,rfl,hmatch⟩
    · exact hne rfl
    · rw [List.nil_append] at hkept
      rw [List.getLast?_nil, Option.none_or, hkept] at hmatch
      cases hmatch
  rw [hrewrite]
  rw [getLast?_or hseg] at hafter htail ⊢
  -- what follows the segment: nothing, or a placeholder
  have hutail : tail = [] ∧ rewrite word p placeholder seg.getLast? tail = [] ∨
      ∃ more, rewrite word p placeholder seg.getLast? tail = l :: more := by
    rcases htail with rfl | ⟨m,rest,hm,rfl,hmatch⟩
    · exact .inl ⟨rfl,rfl⟩
    · obtain ⟨w,hw⟩ := hi.head
      rw [rewrite_hit hp.consumes hm hmatch, hw]
      exact .inr ⟨_,rfl⟩
  by_cases hclosed : q.opening = true ∧ boundary word bu (seg ++ rewrite word p placeholder seg.getLast? tail) = false
  · unfold Pattern.matchAt
    rw [hclosed.1, hclosed.2]
    rfl
  have hopen : (q.opening && !boundary word b (seg ++ tail)) =
      (q.opening && !boundary word bu (seg ++ rewrite word p placeholder seg.getLast? tail)) := by
    cases ho : q.opening with
    | false => rfl
    | true =>
      have hbu : boundary word bu (seg ++ rewrite word p placeholder seg.getLast? tail) = true := by
        by_contra hfalse
        exact hclosed ⟨ho,by simpa using hfalse⟩
      have hb : boundary word b (seg ++ tail) = true := by
        rcases hmeet with rfl | ⟨-,hb⟩
        · rw [boundary_front hseg]
          exact hbu
        · exact hb
      rw [hb, hbu]
  rcases (matchAt_segment hq hutail hopen).2 hquiet with hnone | ⟨hsome,hfalse⟩
  · exact hnone
  · exfalso
    obtain ⟨m,-,hcut,-,hclose⟩ := matchAt_some hq.consumes hsome
    have hm : m = seg := by simpa using hcut.symm
    have hedge := hclose hq.closing
    rw [hm] at hedge
    rcases htail with rfl | ⟨m,rest,hm,rfl,hmatch⟩
    · have hnil : rewrite word p placeholder seg.getLast? [] = [] := rfl
      rw [hnil, hfalse] at hedge
      cases hedge
    · -- the match ends where a hit begins inside a word
      obtain ⟨w,hw⟩ := hi.head
      rw [rewrite_hit hp.consumes hm hmatch, hw] at hedge
      have houtside := hafter hapart
      rw [scan_hit hp.consumes hm hmatch, outsideWords, Bool.and_eq_true] at houtside
      obtain ⟨c,m,rfl⟩ := List.exists_cons_of_ne_nil hm
      simp only [boundary, List.cons_append, List.head?_cons, Option.any_some, hl, Bool.xor_false] at hedge hfalse houtside
      rw [hedge, Bool.true_xor, Bool.not_eq_false'] at hfalse
      rw [hedge, hfalse] at houtside
      exact absurd houtside.1 (by decide)

/-- After a substitution that hits no inside of a word, a pattern matches nowhere if it matched at
none of the characters that were kept. -/
theorem rewrite_quiet (n : ℕ) {b bu : Option α} {t : List α} (hn : t.length ≤ n)
    (hmeet : bu = b ∨ bu.any word = false ∧ boundary word b t = true) (hapart : outsideWords word b (scan word p b t) = true)
    (hquiet : ∀ x y, t = x ++ y → p.matchAt word (x.getLast?.or b) y = none → q.matchAt word (x.getLast?.or b) y = none) :
    Quiet word q bu (rewrite word p placeholder b t) := by
  induction n generalizing b bu t with
  | zero =>
    have hnil : t = [] := List.length_eq_zero_iff.mp (by omega)
    subst hnil
    exact quiet_nil hq.consumes bu
  | succ n ih =>
    cases t with
    | nil => exact quiet_nil hq.consumes bu
    | cons a t =>
      rw [List.length_cons] at hn
      cases hmatch : p.matchAt word b (a :: t) with
      | none =>
        have hfront := match_kept hp hq hl hi hmeet hapart hmatch (hquiet [] (a :: t) rfl hmatch) (by simp)
        rw [scan_keep hmatch, outsideWords] at hapart
        rw [rewrite, scan_keep hmatch, List.flatMap_cons, ← rewrite] at hfront ⊢
        refine quiet_cons.mpr ⟨hfront,ih (by omega) (.inl rfl) hapart ?_⟩
        intro x y hxy
        rw [← getLast?_cons_or a x b]
        exact hquiet (a :: x) y (by rw [hxy]; rfl)
      | some rest =>
        obtain ⟨m,hm,ht,-,hclose⟩ := matchAt_some hp.consumes hmatch
        have hlen := congrArg List.length ht
        have hpos := List.length_pos_iff.mpr hm
        rw [List.length_cons, List.length_append] at hlen
        rw [ht] at hmatch hapart hquiet ⊢
        rw [scan_hit hp.consumes hm hmatch, outsideWords, Bool.and_eq_true] at hapart
        rw [rewrite_hit hp.consumes hm hmatch]
        apply quiet_inert hmem hi
        refine ih (by omega) (.inr ⟨hi.last,hclose hp.closing⟩) hapart.2 ?_
        intro x y hxy
        rw [← getLast?_append_or hm x b]
        exact hquiet (m ++ x) y (by rw [hxy, List.append_assoc])

end

/-! ## All substitutions in turn -/

/-- No rule hits the inside of a word in what the rules before it leave. -/
def Apart (word : α → Bool) : List (Pattern α × List α) → List α → Prop
  | [], _ => True
  | r :: rules, t => outsideWords word none (scan word r.1 none t) = true ∧ Apart word rules (sub word r.1 r.2 t)

theorem apart_append {rules more : List (Pattern α × List α)} {t : List α} :
    Apart word (rules ++ more) t ↔ Apart word rules t ∧ Apart word more (subAll word rules t) := by
  induction rules generalizing t with
  | nil => exact ⟨fun h => ⟨trivial,h⟩,And.right⟩
  | cons r rules ih =>
    rw [List.cons_append, Apart, Apart, ih, and_assoc]
    rfl

theorem apart_of_opening {own : α → Prop} {ps : List (Pattern α)} {rules : List (Pattern α × List α)}
    (hf : ∀ r ∈ rules, Follows word l own ps r)
    (ho : ∀ r ∈ rules, r.1.opening = true) (t : List α) : Apart word rules t := by
  induction rules generalizing t with
  | nil => exact trivial
  | cons r rules ih =>
    refine ⟨?_,ih (fun s hs => hf s (List.mem_cons_of_mem _ hs)) (fun s hs => ho s (List.mem_cons_of_mem _ hs)) _⟩
    exact outsideWords_of_opening (hf r List.mem_cons_self).isSealed.consumes (ho r List.mem_cons_self) _ (Nat.le_refl _) none

section
variable {own : α → Prop} {ps : List (Pattern α)} (hl : word l = false)
include hl

/-- The patterns that are quiet stay quiet, and those of the rules become it. -/
theorem subAll_quiet {rules : List (Pattern α × List α)} (hf : ∀ r ∈ rules, Follows word l own ps r) {done : List (Pattern α)}
    (hd : ∀ q ∈ done, q ∈ ps ∧ q.Sealed l) {t : List α} (hquiet : ∀ q ∈ done, Quiet word q none t)
    (hapart : Apart word rules t) :
    ∀ q ∈ done ++ rules.map Prod.fst, Quiet word q none (subAll word rules t) := by
  induction rules generalizing done t with
  | nil =>
    rw [List.map_nil, List.append_nil]
    exact hquiet
  | cons r rules ih =>
    obtain ⟨houtside,hapart⟩ := hapart
    obtain ⟨hlisted,hseal,hinert⟩ := hf r List.mem_cons_self
    have hd' : ∀ q ∈ done ++ [r.1], q ∈ ps ∧ q.Sealed l := by
      intro q hq
      rcases List.mem_append.mp hq with hq | hq
      · exact hd q hq
      · rw [List.mem_singleton.mp hq]
        exact ⟨hlisted,hseal⟩
    have hrest := ih (fun s hs => hf s (List.mem_cons_of_mem _ hs)) hd' (t := sub word r.1 r.2 t) ?_ hapart
    · rwa [List.append_assoc] at hrest
    · intro q hq
      obtain ⟨hmem,hqs⟩ := hd' q hq
      refine rewrite_quiet hseal hqs hmem hl hinert _ (Nat.le_refl _) (.inl rfl) houtside ?_
      intro x y hxy hkept
      rcases List.mem_append.mp hq with hq | hq
      · exact hquiet q hq x y hxy
      · rw [List.mem_singleton.mp hq]
        exact hkept

/-- The rules applied again find nothing. -/
theorem subAll_settles {rules : List (Pattern α × List α)} (hf : ∀ r ∈ rules, Follows word l own ps r) {t : List α}
    (hapart : Apart word rules t) : (∀ r ∈ rules, Quiet word r.1 none (subAll word rules t)) ∧
      subAll word rules (subAll word rules t) = subAll word rules t := by
  have hquiet : ∀ r ∈ rules, Quiet word r.1 none (subAll word rules t) := by
    intro r hr
    have hall : ∀ q ∈ [] ++ rules.map Prod.fst, Quiet word q none (subAll word rules t) :=
      subAll_quiet hl hf (List.forall_mem_nil _) (List.forall_mem_nil _) hapart
    exact hall r.1 (List.mem_map_of_mem hr)
  refine ⟨hquiet,?_⟩
  have hfixed : ∀ (some : List (Pattern α × List α)) (u : List α), (∀ r ∈ some, Quiet word r.1 none u) →
      subAll word some u = u := by
    intro some u h
    induction some with
    | nil => rfl
    | cons r some ih =>
      have hsub := sub_quiet (h r List.mem_cons_self) r.2
      change subAll word some (sub word r.1 r.2 u) = u
      rw [hsub]
      exact ih fun s hs => h s (List.mem_cons_of_mem _ hs)
  exact hfixed rules _ hquiet

end
end Backtracking
