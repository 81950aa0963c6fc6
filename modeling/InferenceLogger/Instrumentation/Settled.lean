import InferenceLogger.Foundation.Settling
import InferenceLogger.Instrumentation.Identifiers

/-! # Redacting twice

The rule for phone numbers alone may begin inside a word, and what it then leaves of the word ends at
a boundary that was not there before. Where it does not, no rule finds anything in a redacted text.
-/
namespace InferenceLogger
open PyText Backtracking

section
variable (alnum : CodePoint → Bool)

def PatternRule.applied (r : PatternRule) : Pattern CodePoint × Text := (r.pattern,text r.placeholder)

/-- The rules that come before the one for phone numbers. -/
def rulesBeforePhone : List PatternRule := [apiKeyRule,bearerTokenRule,emailRule alnum,ibanRule,creditCardRule,ssnRule]

/-- In the text as the rules before leave it, no phone number begins inside a word. -/
def PhonesOutsideWords (t : Text) : Prop :=
  outsideWords (isWord alnum) none (scan (isWord alnum) phoneRule.pattern none
    (subAll (isWord alnum) ((rulesBeforePhone alnum).map PatternRule.applied) t)) = true

instance PhonesOutsideWords.decidable (t : Text) : Decidable (PhonesOutsideWords alnum t) :=
  inferInstanceAs (Decidable (_ = true))

variable {alnum}

theorem redact_subAll (maxChars : ℕ) (t : Text) :
    (defaultRedactor alnum maxChars).redact t = subAll (isWord alnum) ((defaultRules alnum).map PatternRule.applied) t := by
  unfold subAll
  rw [List.foldl_map]
  change ((defaultRules alnum).map (PatternRule.compiled alnum)).foldl (fun t rule => rule.sub t) t = _
  rw [List.foldl_map]
  rfl

/-- Every default rule can follow the others. -/
theorem applied_follows {r : PatternRule} (hr : r ∈ defaultRules alnum) :
    Follows (isWord alnum) 0x5b (fun _ => True) ((defaultRules alnum).map PatternRule.pattern) r.applied := by
  have hplaced := defaultRules_placed r hr
  obtain ⟨w,hw,-⟩ := hplaced.brackets
  refine ⟨List.mem_map_of_mem hr,hplaced.isSealed,?_⟩
  constructor
  · exact ⟨w ++ [0x5d],hw⟩
  · change (text r.placeholder).getLast?.any (isWord alnum) = false
    rw [hw, ← List.cons_append, List.getLast?_append]
    rfl
  · exact fun _ _ => trivial
  · intro p hp y hy hne b u
    obtain ⟨q,hq,rfl⟩ := List.mem_map.mp hp
    exact placeholder_unmatched (defaultRules_placed q hq) hplaced hy hne b u

/-- The other rules begin at boundaries. -/
theorem rules_apart {t : Text} (h : PhonesOutsideWords alnum t) :
    Apart (isWord alnum) ((defaultRules alnum).map PatternRule.applied) t := by
  have hsplit : (defaultRules alnum).map PatternRule.applied =
      (rulesBeforePhone alnum).map PatternRule.applied ++ ([phoneRule.applied] ++ [ipv4Rule.applied]) := rfl
  have hfollows : ∀ s ∈ (defaultRules alnum).map PatternRule.applied,
      Follows (isWord alnum) 0x5b (fun _ => True) ((defaultRules alnum).map PatternRule.pattern) s := by
    intro s hs
    obtain ⟨q,hq,rfl⟩ := List.mem_map.mp hs
    exact applied_follows hq
  have hopening : ∀ s ∈ (rulesBeforePhone alnum).map PatternRule.applied, s.1.opening = true := by
    intro s hs
    simp only [rulesBeforePhone, List.map_cons, List.map_nil, List.mem_cons, List.not_mem_nil, or_false] at hs
    rcases hs with rfl | rfl | rfl | rfl | rfl | rfl <;> rfl
  rw [hsplit] at hfollows ⊢
  rw [apart_append, apart_append]
  refine ⟨?_,⟨h,trivial⟩,?_⟩
  · exact apart_of_opening (fun s hs => hfollows s (List.mem_append_left _ hs)) hopening t
  · refine apart_of_opening (fun s hs => hfollows s (List.mem_append_right _ (List.mem_append_right _ hs))) ?_ _
    intro s hs
    rw [List.mem_singleton.mp hs]
    rfl

/-- No rule matches anywhere in a redacted text, and redacting it again leaves it as it is, where no
phone number begins inside a word. -/
theorem redaction_settles (alnum : CodePoint → Bool) (maxChars : ℕ) (t : Text) (h : PhonesOutsideWords alnum t) :
    (∀ r ∈ defaultRules alnum, Quiet (isWord alnum) r.pattern none ((defaultRedactor alnum maxChars).redact t)) ∧
    (defaultRedactor alnum maxChars).redact ((defaultRedactor alnum maxChars).redact t) =
      (defaultRedactor alnum maxChars).redact t := by
  have hfollows : ∀ s ∈ (defaultRules alnum).map PatternRule.applied,
      Follows (isWord alnum) 0x5b (fun _ => True) ((defaultRules alnum).map PatternRule.pattern) s := by
    intro s hs
    obtain ⟨q,hq,rfl⟩ := List.mem_map.mp hs
    exact applied_follows hq
  have hbracket : isWord alnum 0x5b = false := rfl
  obtain ⟨hquiet,hagain⟩ := subAll_settles hbracket hfollows (rules_apart h)
  rw [redact_subAll, redact_subAll]
  exact ⟨fun r hr => hquiet r.applied (List.mem_map_of_mem hr),hagain⟩

end

theorem callBob_outside : PhonesOutsideWords asciiOnly (text "call 555-123-4567 or bob@example.com") := by
  rw [text_ofList]
  decide

theorem redaction_settles_callBob :
    (defaultRedactor asciiOnly 500).redact ((defaultRedactor asciiOnly 500).redact
    (text "call 555-123-4567 or bob@example.com")) =
      (defaultRedactor asciiOnly 500).redact (text "call 555-123-4567 or bob@example.com") :=
  (redaction_settles asciiOnly 500 (text "call 555-123-4567 or bob@example.com") callBob_outside).2

/-- A phone number inside the last word of what has the shape of an address: without it the address
is found. -/
theorem redaction_unsettled :
    (defaultRedactor asciiOnly 500).redact (text "a@b.co12-345-6789") = text "a@b.co[REDACTED_PHONE]" ∧
    (emailRule asciiOnly).pattern.matchAt (isWord asciiOnly) none (text "a@b.co[REDACTED_PHONE]") =
    some (text "[REDACTED_PHONE]") ∧
    (defaultRedactor asciiOnly 500).redact (text "a@b.co[REDACTED_PHONE]") = text "[REDACTED_EMAIL][REDACTED_PHONE]" := by
  rw [text_ofList, text_ofList, text_ofList, text_ofList]
  decide

end InferenceLogger
