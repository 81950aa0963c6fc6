import InferenceLogger.Foundation.Places
import InferenceLogger.Instrumentation.Identifiers

/-! # Previews

A preview is cut first and redacted then, so an identifier that the cut goes through is matched
as far as it is left.
-/
namespace InferenceLogger
open PyText Backtracking

/-- The text that `preview` redacts. -/
def clip (maxChars : ℕ) (t : Text) : Text :=
  if maxChars < t.length then t.take maxChars ++ text "…" else t.take maxChars

section
variable {alnum : CodePoint → Bool} {maxChars : ℕ} {t : Text} {j : ℕ}

/-- The preview, each character with its place in the clipped text. -/
theorem preview_traced : (defaultRedactor alnum maxChars).preview (some t) =
    some ((redactTraced alnum (clip maxChars t)).map Prod.fst) := by
  rw [redactTraced_text maxChars]
  rfl

/-- A place before the cut is the same place of the text. -/
theorem clip_get (hj : j < maxChars) (hlt : j < t.length) : (clip maxChars t)[j]? = t[j]? := by
  have htake : (t.take maxChars)[j]? = t[j]? := by
    rw [List.getElem?_take, if_pos hj]
  unfold clip
  split
  · rw [List.getElem?_append_left (by rw [List.length_take]; exact lt_min hj hlt), htake]
  · exact htake

theorem places_traced (t : Text) : places Prod.snd (traced t) = List.range t.length := by
  unfold places traced
  rw [List.filterMap_map]
  have hsome : (Prod.snd ∘ fun c : CodePoint × ℕ => (c.1,some c.2)) = some ∘ Prod.snd := rfl
  rw [hsome, ← List.filterMap_map, List.filterMap_some, List.zipIdx_map_snd, List.range_eq_range']

/-- The place lies in a match of one of the rules, in the text as the rules before it leave it. -/
def Hidden (alnum : CodePoint → Bool) (t : Text) (j : ℕ) : Prop :=
  Masked Prod.snd (fun c : Traced => isWord alnum c.1) ((defaultRules alnum).map PatternRule.traced) (traced t) j

/-- What is left of a text is what is not hidden in it. -/
theorem survives_iff : Survives alnum t j ↔ j < t.length ∧ ¬ Hidden alnum t j := by
  have hnodup : (places Prod.snd (traced t)).Nodup := by
    rw [places_traced]
    exact List.nodup_range
  have hconsumes : ∀ r ∈ (defaultRules alnum).map PatternRule.traced, r.1.body.consumes = true := by
    intro r hr
    obtain ⟨q,hq,rfl⟩ := List.mem_map.mp hr
    exact (traced_follows hq).isSealed.consumes
  have hplaceholder : ∀ r ∈ (defaultRules alnum).map PatternRule.traced, places Prod.snd r.2 = [] := by
    intro r hr
    obtain ⟨q,-,rfl⟩ := List.mem_map.mp hr
    unfold places PatternRule.traced
    rw [List.filterMap_map]
    exact List.filterMap_eq_nil_iff.mpr fun _ _ => rfl
  have hleft : j ∈ places Prod.snd (redactTraced alnum t) ↔ j ∈ places Prod.snd (traced t) ∧ ¬ Hidden alnum t j :=
    mem_places_subAll hconsumes hplaceholder hnodup
  rw [places_traced, List.mem_range] at hleft
  refine Iff.trans ?_ hleft
  unfold Survives places
  rw [List.mem_map, List.mem_filterMap]

theorem inside_lt {r : PatternRule} (hr : r ∈ defaultRules alnum) (h : r.Inside alnum t j) : j < t.length := by
  obtain ⟨s,hs,-,hlt⟩ := h
  obtain ⟨-,hle⟩ := spans_within (defaultRules_placed r hr).isSealed.consumes _ (Nat.le_refl _) none 0 s hs
  omega

/-! ## Matches at the cut -/

/-- No match of a rule in the text runs across the cut, or ends there on a character that is no
word's. -/
def ClearCut (alnum : CodePoint → Bool) (maxChars : ℕ) (t : Text) : Prop :=
  ∀ r ∈ defaultRules alnum, ∀ s ∈ r.pattern.hits (isWord alnum) t, s.1 < maxChars →
    s.1 + s.2.length ≤ maxChars ∧ (s.1 + s.2.length = maxChars → s.2.getLast?.any (isWord alnum) = true)

/-- The ellipsis is neither a letter nor a digit. -/
theorem ellipsis_unword (halnum : alnum 0x2026 = false) : isWord alnum 0x2026 = false := by
  unfold isWord
  rw [if_neg (by decide), halnum]
  decide

theorem ellipsis_avoided (halnum : alnum 0x2026 = false) : ∀ r ∈ defaultRules alnum, r.pattern.body.avoids 0x2026 = true := by
  have hothers : [apiKeyRule,bearerTokenRule,ibanRule,creditCardRule,ssnRule,phoneRule,ipv4Rule].all
      (fun r => r.pattern.body.avoids 0x2026) = true := by decide
  rw [List.all_eq_true] at hothers
  intro r hr
  simp only [defaultRules, List.mem_cons, List.not_mem_nil, or_false] at hr
  rcases hr with rfl | rfl | rfl | hr
  · exact hothers _ (by simp)
  · exact hothers _ (by simp)
  · have hlocal : isOneOf ".%+-" 0x2026 = false := by decide
    have hdomain : isOneOf ".-" 0x2026 = false := by decide
    have hrest : (Body.seq (oneOf ".") (Body.rep (.sat isLetter) 2 none)).avoids 0x2026 = true := by decide
    have hat : (oneOf "@").avoids 0x2026 = true := by decide
    simp only [emailRule, Body.avoids, ellipsis_unword halnum, hlocal, hdomain, Bool.or_false, Bool.not_false, Bool.true_and]
    rw [hat]
    exact hrest
  · exact hothers r (by simp [hr])

/-- Where the cut is clear, what a rule matches before it in the text it matches in what is left. -/
theorem inside_clip (halnum : alnum 0x2026 = false) (hclear : ClearCut alnum maxChars t) {r : PatternRule}
    (hr : r ∈ defaultRules alnum) (hj : j < maxChars) (h : r.Inside alnum t j) : r.Inside alnum (clip maxChars t) j := by
  unfold clip
  split
  · rename_i hlt
    have hlen : (t.take maxChars).length = maxChars := by
      rw [List.length_take, Nat.min_eq_left (Nat.le_of_lt hlt)]
    have hsplit := List.take_append_drop maxChars t
    have hseal := (defaultRules_placed r hr).isSealed
    have hellipsis : r.pattern.Sealed 0x2026 := ⟨hseal.consumes,hseal.proper,hseal.closing,ellipsis_avoided halnum r hr⟩
    have hclear' := hclear r hr
    unfold PatternRule.Inside Pattern.hits at h ⊢
    unfold Pattern.hits at hclear'
    rw [← hsplit] at h hclear'
    refine covered_segment hellipsis (ellipsis_unword halnum) maxChars (le_of_eq hlen) none 0 ?_ ?_ h
    · rw [Nat.zero_add, hlen]
      exact hclear'
    · rw [Nat.zero_add, hlen]
      exact hj
  · rename_i hge
    rw [List.take_of_length_le (Nat.le_of_not_lt hge)]
    exact h

/-- A preview shows nothing before the cut that some rule matches in the whole text exactly when
all of it is hidden in the clipped text. So it is where the cut is clear and no match in the clipped
text is cut by those of the rules before. -/
theorem preview_masks_iff (maxChars : ℕ) (t : Text) :
    ((∀ r ∈ defaultRules alnum, ∀ j < maxChars, r.Inside alnum t j → ¬ Survives alnum (clip maxChars t) j) ↔
      ∀ r ∈ defaultRules alnum, ∀ j < maxChars, r.Inside alnum t j → Hidden alnum (clip maxChars t) j) ∧
    (alnum 0x2026 = false → ClearCut alnum maxChars t → WholeMatches alnum (clip maxChars t) →
      ∀ r ∈ defaultRules alnum, ∀ j < maxChars, r.Inside alnum t j → ¬ Survives alnum (clip maxChars t) j) := by
  constructor
  · constructor
    · intro h r hr j hj hin
      have hlt := inside_lt hr hin
      have hget := clip_get hj hlt
      rw [List.getElem?_eq_getElem hlt] at hget
      by_contra hnot
      exact h r hr j hj hin (survives_iff.mpr ⟨(List.getElem?_eq_some_iff.mp hget).1,hnot⟩)
    · intro h r hr j hj hin hsurvives
      exact (survives_iff.mp hsurvives).2 (h r hr j hj hin)
  · intro halnum hclear hwhole r hr j hj hin
    exact removed_gone hwhole ⟨r.pattern,List.mem_map_of_mem hr,inside_clip halnum hclear hr hj hin⟩

end

theorem clippedText_whole : WholeMatches asciiOnly (text "bob@example.com…") := by
  have hhits : (defaultRules asciiOnly).map (fun r => r.pattern.hits (isWord asciiOnly) (text "bob@example.com…")) =
      [[],[],[(0,text "bob@example.com")],[],[],[],[],[]] := by
    rw [text_ofList, text_ofList]
    decide
  simp only [defaultRules, List.map_cons, List.map_nil, List.cons.injEq, and_true] at hhits
  obtain ⟨hapi,hbearer,hemail,hiban,hcard,hssn,hphone,hip⟩ := hhits
  simp only [WholeMatches, defaultRules, List.map_cons, List.map_nil, Whole, hapi, hbearer, hemail, hiban,
    hcard, hssn, hphone, hip, List.nil_append, List.cons_append, List.not_mem_nil, false_implies, implies_true, true_and,
    and_true, List.mem_singleton, forall_eq]
  right
  simp [Removed,Covered,hapi,hbearer]

/-- The cut right after an address does not show its sign. -/
theorem preview_masks_address : ¬ Survives asciiOnly (clip 15 (text "bob@example.com 10.0.0.1")) 3 := by
  obtain ⟨hclip,hlen,hlast⟩ : clip 15 (text "bob@example.com 10.0.0.1") = text "bob@example.com…" ∧
      (text "bob@example.com").length = 15 ∧ (text "bob@example.com").getLast?.any (isWord asciiOnly) = true := by
    rw [text_ofList, text_ofList, text_ofList]
    decide
  have hclear : ClearCut asciiOnly 15 (text "bob@example.com 10.0.0.1") := by
    have hhits := plainText_hits
    simp only [defaultRules, List.map_cons, List.map_nil, List.cons.injEq, and_true] at hhits
    obtain ⟨hapi,hbearer,hemail,hiban,hcard,hssn,hphone,hip⟩ := hhits
    intro r hr s hs hlt
    simp only [defaultRules, List.mem_cons, List.not_mem_nil, or_false] at hr
    rcases hr with rfl | rfl | rfl | rfl | rfl | rfl | rfl | rfl
    · rw [hapi] at hs; cases hs
    · rw [hbearer] at hs; cases hs
    · rw [hemail] at hs
      rw [List.mem_singleton.mp hs]
      exact ⟨le_of_eq ((Nat.zero_add _).trans hlen),fun _ => hlast⟩
    · rw [hiban] at hs; cases hs
    · rw [hcard] at hs; cases hs
    · rw [hssn] at hs; cases hs
    · rw [hphone] at hs; cases hs
    · rw [hip] at hs
      rw [List.mem_singleton.mp hs] at hlt
      exact absurd hlt (by decide)
  have hwhole : WholeMatches asciiOnly (clip 15 (text "bob@example.com 10.0.0.1")) := by
    rw [hclip]
    exact clippedText_whole
  exact (preview_masks_iff 15 (text "bob@example.com 10.0.0.1")).2 rfl hclear hwhole (emailRule asciiOnly)
    (by simp [defaultRules]) 3 (by decide) plainText_inside

/-- The cut goes through an address: what is left of it matches no rule, and all of it shows. -/
theorem cut_address_shown : (defaultRedactor asciiOnly 9).preview (some (text "bob@example.com")) = some (text "bob@examp…") ∧
    ∀ j < 9, (emailRule asciiOnly).Inside asciiOnly (text "bob@example.com") j ∧
      Survives asciiOnly (clip 9 (text "bob@example.com")) j := by
  obtain ⟨hhits,hlen,hpreview,hshown⟩ :
      (emailRule asciiOnly).pattern.hits (isWord asciiOnly) (text "bob@example.com") = [(0,text "bob@example.com")] ∧
      (text "bob@example.com").length = 15 ∧
      (defaultRedactor asciiOnly 9).preview (some (text "bob@example.com")) = some (text "bob@examp…") ∧
      ∀ j < 9, Survives asciiOnly (clip 9 (text "bob@example.com")) j := by
    rw [text_ofList, text_ofList]
    decide
  refine ⟨hpreview,fun j hj => ⟨?_,hshown j hj⟩⟩
  unfold PatternRule.Inside
  rw [hhits]
  refine ⟨_,List.mem_singleton_self _,Nat.zero_le j,?_⟩
  change j < 0 + (text "bob@example.com").length
  omega

end InferenceLogger
