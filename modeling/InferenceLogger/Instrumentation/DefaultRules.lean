import InferenceLogger.Foundation.Backtracking
import InferenceLogger.Instrumentation.Redaction

/-! # The default rules

The eight patterns in their order, compiled ignoring case. The letters and digits beyond ASCII
that the word class takes in are a parameter; the other classes are tables of the language.
-/
namespace InferenceLogger
open PyText Backtracking

/-! ## Classes -/

def isDigit (c : CodePoint) : Bool := (decimalDigit c).isSome

def isAsciiDigit (c : CodePoint) : Bool := 0x30 ≤ c.val && c.val ≤ 0x39

/-- `[A-Za-z]` ignoring case: the ASCII letters, and four that fold to one of them. -/
def isLetter (c : CodePoint) : Bool :=
  (0x41 ≤ c.val && c.val ≤ 0x5a) || (0x61 ≤ c.val && c.val ≤ 0x7a) ||
  c.val == 0x130 || c.val == 0x131 || c.val == 0x17f || c.val == 0x212a

/-- `\w`: `str.isalnum` or an underscore. -/
def isWord (alnum : CodePoint → Bool) (c : CodePoint) : Bool :=
  if c.val < 0x80 then
    (0x41 ≤ c.val && c.val ≤ 0x5a) || (0x61 ≤ c.val && c.val ≤ 0x7a) || isAsciiDigit c || c.val == 0x5f
  else alnum c || isDigit c

def isOneOf (s : String) (c : CodePoint) : Bool := (text s).contains c

/-- A letter of the pattern, ignoring case: `s` and `k` have a third form each. -/
def folds (letter : Char) (c : CodePoint) : Bool :=
  c == codePoint letter || c == codePoint letter.toUpper ||
  (letter == 's' && c.val == 0x17f) || (letter == 'k' && c.val == 0x212a)

/-! ## Patterns -/

abbrev TextBody := Body CodePoint

def oneOf (s : String) : TextBody := .sat (isOneOf s)

def digits (low high : ℕ) : TextBody := .rep (.sat isDigit) low (some high)

/-- `[A-Za-z0-9…]{low,}`. -/
def tokens (others : String) (low : ℕ) : TextBody :=
  .rep (.sat fun c => isLetter c || isAsciiDigit c || isOneOf others c) low none

structure PatternRule where
  name : String
  pattern : Pattern CodePoint
  placeholder : String

def apiKeyRule : PatternRule where
  name := "api_key"
  pattern := {
    opening := true
    body := .seq (.alt (.seq (.sat (folds 's')) (.sat (folds 'k')))
        (.alt (.seq (.sat (folds 'p')) (.sat (folds 'k'))) (.seq (.sat (folds 'r')) (.sat (folds 'k')))))
      (.seq (oneOf "-") (tokens "_-" 16))
    closing := true }
  placeholder := "[REDACTED_API_KEY]"

def bearerTokenRule : PatternRule where
  name := "bearer_token"
  pattern := {
    opening := true
    body := .after ("bearer".toList.map folds) (.seq (.rep (.sat isSpace) 1 none) (tokens "._-" 16))
    closing := true }
  placeholder := "[REDACTED_TOKEN]"

def emailRule (alnum : CodePoint → Bool) : PatternRule where
  name := "email"
  pattern := {
    opening := true
    body := .seq (.rep (.sat fun c => isWord alnum c || isOneOf ".%+-" c) 1 none) (.seq (oneOf "@")
      (.seq (.rep (.sat fun c => isWord alnum c || isOneOf ".-" c) 1 none)
        (.seq (oneOf ".") (.rep (.sat isLetter) 2 none))))
    closing := true }
  placeholder := "[REDACTED_EMAIL]"

def ibanRule : PatternRule where
  name := "iban"
  pattern := {
    opening := true
    body := .seq (.rep (.sat isLetter) 2 (some 2)) (.seq (digits 2 2)
      (.rep (.sat fun c => isLetter c || isAsciiDigit c) 10 (some 30)))
    closing := true }
  placeholder := "[REDACTED_IBAN]"

def creditCardRule : PatternRule where
  name := "credit_card"
  pattern := {
    opening := true
    body := .rep (.seq (.sat isDigit) (.opt (oneOf " -"))) 13 (some 19)
    closing := true }
  placeholder := "[REDACTED_CARD]"

def ssnRule : PatternRule where
  name := "ssn"
  pattern := {
    opening := true
    body := .seq (digits 3 3) (.seq (oneOf "-") (.seq (digits 2 2) (.seq (oneOf "-") (digits 4 4))))
    closing := true }
  placeholder := "[REDACTED_SSN]"

/-- No boundary before it: it may begin inside a run of word characters. -/
def phoneRule : PatternRule where
  name := "phone"
  pattern := {
    opening := false
    body := .seq (.opt (.seq (oneOf "+") (.seq (digits 1 3) (.opt (oneOf " -.")))))
      (.seq (.alt (.seq (oneOf "(") (.seq (digits 2 4) (.seq (oneOf ")") (.opt (oneOf " -.")))))
          (.seq (digits 2 4) (oneOf " -.")))
        (.seq (digits 3 4) (.seq (.opt (oneOf " -.")) (digits 3 4))))
    closing := true }
  placeholder := "[REDACTED_PHONE]"

def ipv4Rule : PatternRule where
  name := "ipv4"
  pattern := {
    opening := true
    body := .seq (.rep (.seq (digits 1 3) (oneOf ".")) 3 (some 3)) (digits 1 3)
    closing := true }
  placeholder := "[REDACTED_IP]"

/-- `DEFAULT_RULES`. -/
def defaultRules (alnum : CodePoint → Bool) : List PatternRule :=
  [apiKeyRule,bearerTokenRule,emailRule alnum,ibanRule,creditCardRule,ssnRule,phoneRule,ipv4Rule]

def PatternRule.compiled (alnum : CodePoint → Bool) (r : PatternRule) : RedactionRule where
  name := text r.name
  placeholder := text r.placeholder
  sub := Backtracking.sub (isWord alnum) r.pattern (text r.placeholder)

/-- `Redactor(max_chars=…)` with the default rules. -/
def defaultRedactor (alnum : CodePoint → Bool) (maxChars : ℕ) : Redactor where
  maxChars := maxChars
  enabled := true
  rules := (defaultRules alnum).map (PatternRule.compiled alnum)

end InferenceLogger
