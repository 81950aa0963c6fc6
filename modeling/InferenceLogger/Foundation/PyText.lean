import Mathlib.Data.List.DropRight
import Mathlib.Data.List.Basic
import Mathlib.Algebra.Group.Nat.Defs

/-! # Python strings

A `str` is a finite sequence of code points; lone surrogates are code points too,
and a JSON escape can produce them. Length, slicing and the whitespace class are
those of the language, so that bounds count what the interpreter counts.
-/
namespace PyText

/-- Every code point, surrogates included. -/
abbrev CodePoint := Fin 0x110000

instance neZero_codePoint : @NeZero ℕ Zero.ofOfNat0 0x110000 := ⟨by decide⟩

abbrev Text := List CodePoint

def codePoint (c : Char) : CodePoint := Fin.ofNat 0x110000 c.toNat

/-- A string literal of the source. -/
def text (s : String) : Text := s.toList.map codePoint

/-- A literal is read off at once here; evaluating `toList` goes through its bytes. -/
theorem text_ofList (l : List Char) : text (String.ofList l) = l.map codePoint := by
  rw [text, String.toList_ofList]

/-- The class of `str.isspace`. -/
def isSpace (c : CodePoint) : Bool :=
  (0x09 ≤ c.val && c.val ≤ 0x0d) || (0x1c ≤ c.val && c.val ≤ 0x20) || c.val == 0x85 ||
  c.val == 0xa0 || c.val == 0x1680 || (0x2000 ≤ c.val && c.val ≤ 0x200a) ||
  c.val == 0x2028 || c.val == 0x2029 || c.val == 0x202f || c.val == 0x205f || c.val == 0x3000

/-- `str.strip()`. -/
def strip (t : Text) : Text := (t.dropWhile isSpace).rdropWhile isSpace

/-- `str.strip(chars)`. -/
def stripOf (chars : Text) (t : Text) : Text :=
  (t.dropWhile (chars.contains ·)).rdropWhile (chars.contains ·)

/-- A text that shows nothing: `not t.strip()`. -/
def isBlank (t : Text) : Bool := t.all isSpace

def isSurrogate (c : CodePoint) : Bool := 0xd800 ≤ c.val && c.val ≤ 0xdfff

/-- Whether the text has a UTF-8 encoding. -/
def encodable (t : Text) : Bool := t.all (fun c => !isSurrogate c)

/-- Whether Postgres can hold the text: UTF-8 without the zero character. -/
def storable (t : Text) : Bool := t.all (fun c => !isSurrogate c && c.val != 0)

theorem isBlank_iff_strip (t : Text) : isBlank t = true ↔ strip t = [] := by
  unfold isBlank strip
  rw [List.rdropWhile_eq_nil_iff, List.all_eq_true]
  constructor
  · intro h c hc
    exact h c (List.dropWhile_subset _ hc)
  · intro h c hc
    rcases List.mem_append.mp (List.takeWhile_append_dropWhile (p := isSpace) (l := t) ▸ hc) with hl | hr
    · exact List.mem_takeWhile_imp hl
    · exact h c hr

theorem strip_strip (t : Text) : strip (strip t) = strip t := by
  unfold strip
  have hhead : ((t.dropWhile isSpace).rdropWhile isSpace).dropWhile isSpace =
      (t.dropWhile isSpace).rdropWhile isSpace := by
    rw [List.dropWhile_eq_self_iff]
    intro hl
    have hpre := List.rdropWhile_prefix isSpace (t.dropWhile isSpace)
    have hpos : 0 < (t.dropWhile isSpace).length := lt_of_lt_of_le hl hpre.length_le
    rw [hpre.getElem hl]
    exact List.dropWhile_get_zero_not isSpace t hpos
  rw [hhead, List.rdropWhile_idempotent]

/-- The zero digits of the decimal-digit blocks; each block holds ten consecutive digits. -/
def decimalZeros : List ℕ :=
  [0x30, 0x660, 0x6f0, 0x7c0, 0x966, 0x9e6, 0xa66, 0xae6, 0xb66, 0xbe6, 0xc66, 0xce6, 0xd66,
   0xde6, 0xe50, 0xed0, 0xf20, 0x1040, 0x1090, 0x17e0, 0x1810, 0x1946, 0x19d0, 0x1a80, 0x1a90,
   0x1b50, 0x1bb0, 0x1c40, 0x1c50, 0xa620, 0xa8d0, 0xa900, 0xa9d0, 0xa9f0, 0xaa50, 0xabf0,
   0xff10, 0x104a0, 0x10d30, 0x11066, 0x110f0, 0x11136, 0x111d0, 0x112f0, 0x11450, 0x114d0,
   0x11650, 0x116c0, 0x11730, 0x118e0, 0x11950, 0x11c50, 0x11d50, 0x11da0, 0x11f50, 0x16a60,
   0x16ac0, 0x16b50, 0x1d7ce, 0x1d7d8, 0x1d7e2, 0x1d7ec, 0x1d7f6, 0x1e140, 0x1e2f0, 0x1e4f0,
   0x1e950, 0x1fbf0]

/-- The decimal value of a digit character (`unicodedata.decimal`). -/
def decimalDigit (c : CodePoint) : Option ℕ :=
  (decimalZeros.find? (fun z => z ≤ c.val && c.val ≤ z + 9)).map (fun z => c.val - z)

/-- `t.replace(pat, "")`: occurrences are removed left to right. -/
def removeAll (pat : Text) (t : Text) : Text := go 0 t
where
  go : ℕ → Text → Text
    | _, [] => []
    | skip + 1, _ :: cs => go skip cs
    | 0, c :: cs => if pat.isPrefixOf (c :: cs) then go (pat.length - 1) cs else c :: go 0 cs

def hexDigit (c : CodePoint) : Option ℕ :=
  if 0x61 ≤ c.val ∧ c.val ≤ 0x66 then some (c.val - 0x57)
  else if 0x41 ≤ c.val ∧ c.val ≤ 0x46 then some (c.val - 0x37)
  else if 0x30 ≤ c.val ∧ c.val ≤ 0x39 then some (c.val - 0x30)
  else none

/-- The reader behind `int(t, 16)`: digits with single underscores between them. The flag
says that an underscore may come next. -/
def hexDigits : ℕ → Bool → Text → Option ℕ
  | acc, ready, [] => if ready then some acc else none
  | acc, ready, c :: cs =>
    match hexDigit c with
    | some d => hexDigits (16 * acc + d) true cs
    | none => if ready && c.val == 0x5f then hexDigits acc false cs else none

/-- Non-ASCII spaces and digits are mapped to ASCII before a number is read. -/
def asciiNumeral (t : Text) : Text := t.map fun c =>
  if c.val < 127 then c
  else if isSpace c then 0x20
  else match decimalDigit c with
    | some d => Fin.ofNat _ (0x30 + d)
    | none => 0x3f

def isAsciiSpace (c : CodePoint) : Bool := c.val == 0x20 || (0x09 ≤ c.val && c.val ≤ 0x0d)

/-- `int(t, 16)` on a text without a minus sign; `none` is the `ValueError`. -/
def intBase16 (t : Text) : Option ℕ :=
  let body := ((asciiNumeral t).dropWhile isAsciiSpace).rdropWhile isAsciiSpace
  let unsigned := if body.head? = some 0x2b then body.tail else body
  if unsigned.take 2 = text "0x" ∨ unsigned.take 2 = text "0X" then
    let digits := unsigned.drop 2
    hexDigits 0 false (if digits.head? = some 0x5f then digits.tail else digits)
  else hexDigits 0 false unsigned

/-- 128-bit identifiers. -/
abbrev Uuid := BitVec 128

instance lawfulBEq_uuid : LawfulBEq Uuid := inferInstance

/-- `uuid.UUID(t)`: prefixes, braces and hyphens are stripped before the 32 digits are read. -/
def parseUuid (t : Text) : Option Uuid :=
  let hex := removeAll (text "uuid:") (removeAll (text "urn:") t)
  let digits := removeAll (text "-") (stripOf (text "\x7b\x7d") hex)
  if digits.length = 32 then (intBase16 digits).map (BitVec.ofNat 128) else none

example : parseUuid (text "00000000-0000-0000-0000-00000000000a") = some 10 := by decide
example : parseUuid (text "not-a-uuid") = none := by decide

end PyText
