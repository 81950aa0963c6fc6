import InferenceLogger.Foundation.PyText

/-! # Redaction of stored previews

A rule is applied through its pattern's `sub`, a function of the text.
-/
namespace InferenceLogger
open PyText

/-- `sub` is `pattern.sub(placeholder, ·)`. -/
structure RedactionRule where
  name : Text
  placeholder : Text
  sub : Text → Text

structure Redactor where
  maxChars : ℕ
  enabled : Bool
  rules : List RedactionRule

namespace Redactor

def redact (r : Redactor) (t : Text) : Text :=
  if r.enabled then r.rules.foldl (fun t rule => rule.sub t) t else t

/-- Truncated first, then redacted. -/
def preview (r : Redactor) : Option Text → Option Text
  | none => none
  | some t =>
    let clipped := t.take r.maxChars
    some (r.redact (if r.maxChars < t.length then clipped ++ text "…" else clipped))

end Redactor
end InferenceLogger
