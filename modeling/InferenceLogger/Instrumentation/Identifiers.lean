import InferenceLogger.Foundation.Rewriting
import InferenceLogger.Instrumentation.DefaultRules

/-! # Identifiers and the order of the rules

Every character carries its place in the original text, so that what a redacted text still holds
of an identifier can be told apart from an equal character elsewhere.
-/
namespace InferenceLogger
open PyText Backtracking

/-- A character and its place in the original text; a placeholder's has none. -/
abbrev Traced := CodePoint × Option ℕ

def traced (t : Text) : List Traced := t.zipIdx.map fun c => (c.1,some c.2)

section
variable (alnum : CodePoint → Bool)

def PatternRule.traced (r : PatternRule) : Pattern Traced × List Traced :=
  (r.pattern.comap Prod.fst,(text r.placeholder).map fun c => (c,none))

/-- `redact` with the default rules, on traced characters. -/
def redactTraced (t : Text) : List Traced :=
  subAll (fun c : Traced => isWord alnum c.1) ((defaultRules alnum).map PatternRule.traced) (traced t)

/-- The character at place `j` is still there. -/
def Survives (t : Text) (j : ℕ) : Prop := some j ∈ (redactTraced alnum t).map Prod.snd

instance (t : Text) (j : ℕ) : Decidable (Survives alnum t j) := inferInstanceAs (Decidable (_ ∈ _))

/-- The place lies in a match of the rule's pattern in the text. -/
def PatternRule.Inside (r : PatternRule) (t : Text) (j : ℕ) : Prop := Covered (r.pattern.hits (isWord alnum) t) j

/-- No match of a rule is cut by the matches of the rules before it. -/
def WholeMatches (t : Text) : Prop := Whole (isWord alnum) t [] ((defaultRules alnum).map PatternRule.pattern)

variable {alnum}

theorem traced_text (t : Text) : (traced t).map Prod.fst = t := by
  unfold traced
  rw [List.map_map]
  exact List.zipIdx_map_fst 0 t

theorem traced_get {t : Text} {j : ℕ} {c : CodePoint} {i : Option ℕ} (h : (traced t)[j]? = some (c,i)) : i = some j := by
  simp only [traced, List.getElem?_map, List.getElem?_zipIdx, Option.map_map, Option.map_eq_some_iff, Function.comp_apply] at h
  obtain ⟨d,-,hd⟩ := h
  have hsnd := congrArg Prod.snd hd
  simpa using hsnd.symm

/-- Without the places it is what `redact` gives. -/
theorem redactTraced_text (maxChars : ℕ) (t : Text) :
    (redactTraced alnum t).map Prod.fst = (defaultRedactor alnum maxChars).redact t := by
  have hfold : ∀ (rules : List PatternRule) (u : List Traced),
      (subAll (fun c : Traced => isWord alnum c.1) (rules.map PatternRule.traced) u).map Prod.fst =
        (rules.map (PatternRule.compiled alnum)).foldl (fun t rule => rule.sub t) (u.map Prod.fst) := by
    intro rules
    induction rules with
    | nil => exact fun u => rfl
    | cons r rules ih =>
      intro u
      have hsub := sub_comap (isWord alnum) r.pattern Prod.fst ((text r.placeholder).map fun c => (c,(none : Option ℕ))) u
      have hplain : ((text r.placeholder).map fun c => (c,(none : Option ℕ))).map Prod.fst = text r.placeholder := by
        rw [List.map_map]
        exact List.map_id _
      rw [hplain] at hsub
      have hrest := ih (sub (fun c : Traced => isWord alnum c.1) r.traced.1 r.traced.2 u)
      rw [List.map_cons, List.map_cons, List.foldl_cons]
      change (subAll _ (rules.map PatternRule.traced)
        (sub (fun c : Traced => isWord alnum c.1) r.traced.1 r.traced.2 u)).map Prod.fst = _
      rw [hrest]
      exact congrArg (fun v => (rules.map (PatternRule.compiled alnum)).foldl (fun t rule => rule.sub t) v) hsub
  have hall := hfold (defaultRules alnum) (traced t)
  rw [traced_text] at hall
  exact hall

/-! ## The placeholders -/

/-- The characters of the placeholders, less the closing bracket. -/
def placeholderChars : Text := text "[REDACTED_API_KEY_TOKEN_EMAIL_IBAN_CARD_SSN_PHONE_IP"

/-- What the order of the rules can rely on in each of them. -/
structure PatternRule.Placed (r : PatternRule) : Prop where
  isSealed : r.pattern.Sealed 0x5b
  stops : r.pattern.body.avoids 0x5d = true
  refuses : r.pattern.body.refuses placeholderChars = true
  brackets : ∃ w, text r.placeholder = 0x5b :: (w ++ [0x5d]) ∧ 0x5b :: w ⊆ placeholderChars

end

theorem placeholders_refused : ∀ r ∈ [apiKeyRule,bearerTokenRule,ibanRule,creditCardRule,ssnRule,phoneRule,ipv4Rule],
    r.pattern.body.refuses placeholderChars = true := by
  rw [placeholderChars, text_ofList]
  decide

theorem placeholders_within : ∀ w ∈ ["REDACTED_API_KEY","REDACTED_TOKEN","REDACTED_EMAIL","REDACTED_IBAN","REDACTED_CARD",
    "REDACTED_SSN","REDACTED_PHONE","REDACTED_IP"], 0x5b :: text w ⊆ placeholderChars := by
  rw [placeholderChars, text_ofList]
  decide

theorem apiKeyRule_placed : apiKeyRule.Placed :=
  ⟨⟨rfl,rfl,rfl,by decide⟩,by decide,placeholders_refused _ (by simp),
    ⟨text "REDACTED_API_KEY",by decide,placeholders_within _ (by simp)⟩⟩

theorem bearerTokenRule_placed : bearerTokenRule.Placed :=
  ⟨⟨by decide,by decide,rfl,by decide⟩,by decide,placeholders_refused _ (by simp),
    ⟨text "REDACTED_TOKEN",by decide,placeholders_within _ (by simp)⟩⟩

theorem ibanRule_placed : ibanRule.Placed :=
  ⟨⟨rfl,rfl,rfl,by decide⟩,by decide,placeholders_refused _ (by simp),
    ⟨text "REDACTED_IBAN",by decide,placeholders_within _ (by simp)⟩⟩

theorem creditCardRule_placed : creditCardRule.Placed :=
  ⟨⟨rfl,rfl,rfl,by decide⟩,by decide,placeholders_refused _ (by simp),
    ⟨text "REDACTED_CARD",by decide,placeholders_within _ (by simp)⟩⟩

theorem ssnRule_placed : ssnRule.Placed :=
  ⟨⟨rfl,rfl,rfl,by decide⟩,by decide,placeholders_refused _ (by simp),
    ⟨text "REDACTED_SSN",by decide,placeholders_within _ (by simp)⟩⟩

theorem phoneRule_placed : phoneRule.Placed :=
  ⟨⟨rfl,rfl,rfl,by decide⟩,by decide,placeholders_refused _ (by simp),
    ⟨text "REDACTED_PHONE",by decide,placeholders_within _ (by simp)⟩⟩

theorem ipv4Rule_placed : ipv4Rule.Placed :=
  ⟨⟨rfl,rfl,rfl,by decide⟩,by decide,placeholders_refused _ (by simp),
    ⟨text "REDACTED_IP",by decide,placeholders_within _ (by simp)⟩⟩

theorem emailRule_placed (alnum : CodePoint → Bool) : (emailRule alnum).Placed := by
  have hbrackets : text "[REDACTED_EMAIL]" = 0x5b :: (text "REDACTED_EMAIL" ++ [0x5d]) := by decide
  refine ⟨⟨rfl,rfl,rfl,rfl⟩,rfl,?_,⟨text "REDACTED_EMAIL",hbrackets,placeholders_within _ (by simp)⟩⟩
  have hat : (oneOf "@").refuses placeholderChars = true := by
    rw [placeholderChars, text_ofList]
    decide
  simp only [emailRule, Body.refuses, hat, Bool.true_or, Bool.or_true]

section
variable {alnum : CodePoint → Bool}

theorem defaultRules_placed : ∀ r ∈ defaultRules alnum, r.Placed := by
  intro r hr
  simp only [defaultRules, List.mem_cons, List.not_mem_nil, or_false] at hr
  rcases hr with rfl | rfl | rfl | rfl | rfl | rfl | rfl | rfl
  · exact apiKeyRule_placed
  · exact bearerTokenRule_placed
  · exact emailRule_placed alnum
  · exact ibanRule_placed
  · exact creditCardRule_placed
  · exact ssnRule_placed
  · exact phoneRule_placed
  · exact ipv4Rule_placed

/-- Nothing matches in a placeholder, whatever follows it. -/
theorem placeholder_unmatched {r q : PatternRule} (hr : r.Placed) (hq : q.Placed) {y : Text} (hy : y <:+ text q.placeholder)
    (hne : y ≠ []) (b : Option CodePoint) (u : Text) : r.pattern.matchAt (isWord alnum) b (y ++ u) = none := by
  obtain ⟨w,hw,hchars⟩ := hq.brackets
  rw [hw, ← List.cons_append] at hy
  obtain ⟨s,rfl,hs⟩ := suffix_segment hy (List.length_pos_iff.mpr hne)
  have hsub : s ⊆ placeholderChars := List.Subset.trans hs.subset hchars
  have hrests : r.pattern.body.rests (s ++ [0x5d] ++ u) = [] := by
    have hbefore := r.pattern.body.rests_before hr.isSealed.proper hr.stops s u
    rw [r.pattern.body.rests_refused hr.refuses _ hsub] at hbefore
    simpa using hbefore
  unfold Pattern.matchAt
  rw [hrests]
  simp

theorem placeholder_unmatched_traced {r q : PatternRule} (hr : r.Placed) (hq : q.Placed) {y : List Traced}
    (hy : y <:+ (PatternRule.traced q).2) (hne : y ≠ []) (b : Option Traced) (u : List Traced) :
    (PatternRule.traced r).1.matchAt (fun c : Traced => isWord alnum c.1) b (y ++ u) = none := by
  have hplain : y.map Prod.fst <:+ text q.placeholder := by
    have hmap := hy.map Prod.fst
    rw [PatternRule.traced, List.map_map, Function.comp_def] at hmap
    simpa only [List.map_id'] using hmap
  have hmatch := matchAt_comap (isWord alnum) r.pattern Prod.fst b (y ++ u)
  rw [List.map_append, placeholder_unmatched hr hq hplain (by simpa using hne), Option.map_eq_none_iff] at hmatch
  exact hmatch

/-- Every default rule can follow the others. -/
theorem traced_follows {r : PatternRule} (hr : r ∈ defaultRules alnum) :
    Follows (fun c : Traced => isWord alnum c.1) (0x5b,none) (fun c => c.2 = none)
    (((defaultRules alnum).map PatternRule.traced).map Prod.fst) r.traced := by
  have hplaced := defaultRules_placed r hr
  obtain ⟨w,hw,-⟩ := hplaced.brackets
  constructor
  · exact List.mem_map_of_mem (List.mem_map_of_mem hr)
  · exact hplaced.isSealed.comap _ Prod.fst rfl
  · constructor
    · exact ⟨(w ++ [0x5d]).map fun c => (c,none),by rw [PatternRule.traced, hw]; rfl⟩
    · rw [PatternRule.traced, hw, ← List.cons_append, List.map_append, List.getLast?_append]
      rfl
    · intro c hc
      obtain ⟨d,-,rfl⟩ := List.mem_map.mp hc
      rfl
    · intro p hp y hy hne b u
      rw [List.map_map] at hp
      obtain ⟨q,hq,rfl⟩ := List.mem_map.mp hp
      exact placeholder_unmatched_traced (defaultRules_placed q hq) hplaced hy hne b u

/-! ## Traced characters are matched alike -/

theorem hits_traced (p : Pattern CodePoint) (t : Text) :
    ((p.comap Prod.fst).hits (fun c : Traced => isWord alnum c.1) (traced t)).map (fun h => (h.1,h.2.map Prod.fst)) =
      p.hits (isWord alnum) t := by
  have hlen : (traced t).length = t.length := by
    simp [traced]
  have hpieces := pieces_comap (isWord alnum) p Prod.fst t.length none (traced t)
  rw [Option.map_none, traced_text] at hpieces
  unfold Pattern.hits
  rw [spans_map, hlen, hpieces]

theorem removed_traced {done : List (Pattern CodePoint)} {t : Text} {j : ℕ} :
    Removed (fun c : Traced => isWord alnum c.1) (done.map (Pattern.comap Prod.fst)) (traced t) j ↔
    Removed (isWord alnum) done t j := by
  simp only [Removed, List.mem_map, exists_exists_and_eq_and]
  apply exists_congr
  intro p
  rw [← hits_traced p t, covered_map]

theorem whole_traced {t : Text} {done later : List (Pattern CodePoint)} (h : Whole (isWord alnum) t done later) :
    Whole (fun c : Traced => isWord alnum c.1) (traced t) (done.map (Pattern.comap Prod.fst))
    (later.map (Pattern.comap Prod.fst)) := by
  induction later generalizing done with
  | nil => trivial
  | cons p later ih =>
    obtain ⟨huncut,h⟩ := h
    constructor
    · intro s hs
      have hplain : (s.1,s.2.map Prod.fst) ∈ p.hits (isWord alnum) t := by
        rw [← hits_traced p t]
        exact List.mem_map_of_mem hs
      have hcut := huncut _ hplain
      simp only [Uncut, removed_traced, List.length_map] at hcut ⊢
      rcases hcut with hin | ⟨hout,hopen,hclose⟩
      · exact .inl hin
      · refine .inr ⟨hout,fun ho hi hr => ?_,fun hr => ?_⟩
        · have hhead := hopen ho hi hr
          rw [List.head?_map, Option.any_map] at hhead
          exact hhead
        · have hlast := hclose hr
          rw [List.getLast?_map, Option.any_map] at hlast
          exact hlast
    · have hrest := ih h
      rw [List.map_append] at hrest
      exact hrest

/-- Where no match is cut by those of the rules before, what any rule matches goes. -/
theorem removed_gone {t : Text} (h : WholeMatches alnum t) {j : ℕ}
    (hj : Removed (isWord alnum) ((defaultRules alnum).map PatternRule.pattern) t j) : ¬ Survives alnum t j := by
  intro hsurvives
  have hl : (fun c : Traced => isWord alnum c.1) (0x5b,none) = false := rfl
  have hw := whole_traced h
  rw [List.map_nil, List.map_map] at hw
  have hrules : ((defaultRules alnum).map PatternRule.traced).map Prod.fst =
      (defaultRules alnum).map (Pattern.comap Prod.fst ∘ PatternRule.pattern) := by
    rw [List.map_map]
    rfl
  rw [← hrules] at hw
  have hfollows : ∀ s ∈ (defaultRules alnum).map PatternRule.traced, Follows (fun c : Traced => isWord alnum c.1)
      (0x5b,none) (fun c => c.2 = none)
      (((defaultRules alnum).map PatternRule.traced).map Prod.fst) s := by
    intro s hs
    obtain ⟨q,hq,rfl⟩ := List.mem_map.mp hs
    exact traced_follows hq
  -- the phone rule alone may begin anywhere, and one rule follows it
  have hsplit : (defaultRules alnum).map PatternRule.traced =
      [apiKeyRule,bearerTokenRule,emailRule alnum,ibanRule,creditCardRule,ssnRule].map PatternRule.traced ++
        [phoneRule.traced,ipv4Rule.traced] := rfl
  have hopening : ∀ s ∈ [apiKeyRule,bearerTokenRule,emailRule alnum,ibanRule,creditCardRule,ssnRule].map PatternRule.traced,
      s.1.opening = true := by
    intro s hs
    simp only [List.map_cons, List.map_nil, List.mem_cons, List.not_mem_nil, or_false] at hs
    rcases hs with rfl | rfl | rfl | rfl | rfl | rfl <;> rfl
  obtain ⟨R,hsup,hrel⟩ : ∃ R : ℕ → Prop,
      (∀ j, Removed (fun c : Traced => isWord alnum c.1)
        (((defaultRules alnum).map PatternRule.traced).map Prod.fst) (traced t) j →
        R j) ∧
      Rewritten (fun c : Traced => isWord alnum c.1) (0x5b,none) (fun c => c.2 = none)
        (((defaultRules alnum).map PatternRule.traced).map Prod.fst) R false none 0 (traced t) (redactTraced alnum t) := by
    unfold redactTraced
    rw [hsplit] at hfollows hw ⊢
    exact subAll_removes (by exact hl) hfollows hopening hw
  have hR : R j := by
    apply hsup j
    rw [hrules, ← List.map_map, removed_traced]
    exact hj
  obtain ⟨x,hx,hplace⟩ := List.mem_map.mp hsurvives
  obtain ⟨c,place⟩ := x
  cases hplace
  rcases hrel.kept hx with hown | ⟨i,hi,hget⟩
  · cases hown
  · have hplace := traced_get hget
    rw [Nat.zero_add, ← Option.some.inj hplace] at hi
    exact hi hR

/-- No identifier is half-redacted where no match is cut by those of the rules before. -/
theorem identifiers_removed (t : Text) (h : WholeMatches alnum t) :
    ∀ r ∈ defaultRules alnum, ∀ j, r.Inside alnum t j → ¬ Survives alnum t j :=
  fun r hr _ hj => removed_gone h ⟨r.pattern,List.mem_map_of_mem hr,hj⟩

end

/-- No letters beyond ASCII. -/
def asciiOnly : CodePoint → Bool := fun _ => false

theorem plainText_hits : (defaultRules asciiOnly).map (fun r => r.pattern.hits (isWord asciiOnly)
    (text "bob@example.com 10.0.0.1")) =
    [[],[],[(0,text "bob@example.com")],[],[],[],[],[(16,text "10.0.0.1")]] := by
  rw [text_ofList, text_ofList, text_ofList]
  decide

theorem plainText_whole : WholeMatches asciiOnly (text "bob@example.com 10.0.0.1") := by
  have hhits := plainText_hits
  simp only [defaultRules, List.map_cons, List.map_nil, List.cons.injEq, and_true] at hhits
  obtain ⟨hapi,hbearer,hemail,hiban,hcard,hssn,hphone,hip⟩ := hhits
  have hlength : (text "bob@example.com").length = 15 := by decide
  simp only [WholeMatches, defaultRules, List.map_cons, List.map_nil, Whole, hapi, hbearer, hemail, hiban,
    hcard, hssn, hphone, hip, List.nil_append, List.cons_append, List.not_mem_nil, false_implies, implies_true, true_and,
    and_true, List.mem_singleton, forall_eq]
  constructor
  · right
    simp [Removed,Covered,hapi,hbearer]
  · right
    simp [Removed,Covered,hapi,hbearer,hemail,hiban,hcard,hssn,hphone,hlength]
    exact ⟨fun j hj _ => by omega,fun hlt => by omega⟩

theorem plainText_inside : (emailRule asciiOnly).Inside asciiOnly (text "bob@example.com 10.0.0.1") 3 := by
  have hhits := plainText_hits
  simp only [defaultRules, List.map_cons, List.map_nil, List.cons.injEq, and_true] at hhits
  unfold PatternRule.Inside
  rw [hhits.2.2.1]
  exact ⟨_,List.mem_singleton_self _,by decide,by decide⟩

/-- The sign of an address. -/
theorem identifiers_removed_plain : ¬ Survives asciiOnly (text "bob@example.com 10.0.0.1") 3 :=
  identifiers_removed (text "bob@example.com 10.0.0.1") plainText_whole (emailRule asciiOnly) (by simp [defaultRules]) 3
    plainText_inside

/-- An address whose local part has the shape of a key: the key goes, the rest of the address stays. -/
theorem address_half_redacted : ∃ r ∈ defaultRules asciiOnly, ∃ j,
    r.Inside asciiOnly (text "sk-abcdefghijklmnop@example.com") j ∧
    Survives asciiOnly (text "sk-abcdefghijklmnop@example.com") j := by
  obtain ⟨hhits,hlen,hshown⟩ : (emailRule asciiOnly).pattern.hits (isWord asciiOnly) (text "sk-abcdefghijklmnop@example.com") =
        [(0,text "sk-abcdefghijklmnop@example.com")] ∧
      (text "sk-abcdefghijklmnop@example.com").length = 31 ∧
      Survives asciiOnly (text "sk-abcdefghijklmnop@example.com") 19 := by
    rw [text_ofList]
    decide
  refine ⟨emailRule asciiOnly,by simp [defaultRules],19,?_,hshown⟩
  unfold PatternRule.Inside
  rw [hhits]
  refine ⟨_,List.mem_singleton.mpr rfl,Nat.zero_le _,?_⟩
  change 19 < 0 + (text "sk-abcdefghijklmnop@example.com").length
  omega

end InferenceLogger
