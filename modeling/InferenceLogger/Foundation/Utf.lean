import InferenceLogger.Foundation.PyText

/-! # UTF-8 and UTF-16

The encoder of `str.encode("utf-8")`, the code units of a browser's string, and the decoder of
`TextDecoder`, which keeps an unfinished character from one call to the next.
-/
namespace Utf
open PyText

abbrev Byte := Fin 0x100

instance neZero_byte : @NeZero ℕ Zero.ofOfNat0 0x100 := ⟨by decide⟩

/-- One element of a browser's string. -/
abbrev CodeUnit := Fin 0x10000

instance neZero_codeUnit : @NeZero ℕ Zero.ofOfNat0 0x10000 := ⟨by decide⟩

abbrev JsString := List CodeUnit

def units (c : CodePoint) : List CodeUnit :=
  if c.val < 0x10000 then [Fin.ofNat _ c.val]
  else [Fin.ofNat _ (0xd800 + (c.val - 0x10000) / 0x400), Fin.ofNat _ (0xdc00 + (c.val - 0x10000) % 0x400)]

def utf16 (t : Text) : JsString := t.flatMap units

/-- A lone surrogate has no encoding. -/
def utf8Char (c : CodePoint) : Option (List Byte) :=
  if c.val < 0x80 then some [Fin.ofNat _ c.val]
  else if c.val < 0x800 then some [Fin.ofNat _ (0xc0 + c.val / 0x40), Fin.ofNat _ (0x80 + c.val % 0x40)]
  else if isSurrogate c then none
  else if c.val < 0x10000 then
    some [Fin.ofNat _ (0xe0 + c.val / 0x1000), Fin.ofNat _ (0x80 + c.val / 0x40 % 0x40), Fin.ofNat _ (0x80 + c.val % 0x40)]
  else
    some [Fin.ofNat _ (0xf0 + c.val / 0x40000), Fin.ofNat _ (0x80 + c.val / 0x1000 % 0x40),
      Fin.ofNat _ (0x80 + c.val / 0x40 % 0x40), Fin.ofNat _ (0x80 + c.val % 0x40)]

/-- `t.encode("utf-8")`; `none` is the `UnicodeEncodeError`. -/
def utf8 : Text → Option (List Byte)
  | [] => some []
  | c :: cs => do
    let first ← utf8Char c
    let rest ← utf8 cs
    return first ++ rest

/-- A character some of whose bytes have come, and the range the next one must be in. -/
structure Unfinished where
  value : ℕ
  missing : ℕ
  lower : ℕ := 0x80
  upper : ℕ := 0xbf

/-- A byte between two characters. -/
def firstByte (b : Byte) : List CodePoint × Option Unfinished :=
  if b.val < 0x80 then ([Fin.ofNat _ b.val],none)
  else if 0xc2 ≤ b.val ∧ b.val ≤ 0xdf then ([],some {value := b.val % 0x20, missing := 1})
  else if 0xe0 ≤ b.val ∧ b.val ≤ 0xef then
    ([],some {
      value := b.val % 0x10, missing := 2,
      lower := if b.val = 0xe0 then 0xa0 else 0x80, upper := if b.val = 0xed then 0x9f else 0xbf})
  else if 0xf0 ≤ b.val ∧ b.val ≤ 0xf4 then
    ([],some {
      value := b.val % 0x8, missing := 3,
      lower := if b.val = 0xf0 then 0x90 else 0x80, upper := if b.val = 0xf4 then 0x8f else 0xbf})
  else ([0xfffd],none)

/-- A byte that does not continue a character is read again as the first of one. -/
def nextByte : Option Unfinished → Byte → List CodePoint × Option Unfinished
  | none, b => firstByte b
  | some u, b =>
    if u.lower ≤ b.val ∧ b.val ≤ u.upper then
      if u.missing = 1 then ([Fin.ofNat _ (u.value * 0x40 + b.val % 0x40)],none)
      else ([],some {value := u.value * 0x40 + b.val % 0x40, missing := u.missing - 1})
    else (0xfffd :: (firstByte b).1,(firstByte b).2)

def readBytes : Option Unfinished → List Byte → List CodePoint × Option Unfinished
  | u, [] => ([],u)
  | u, b :: bs => ((nextByte u b).1 ++ (readBytes (nextByte u b).2 bs).1,(readBytes (nextByte u b).2 bs).2)

/-- `new TextDecoder()`. -/
structure Decoder where
  unfinished : Option Unfinished := none
  bomSeen : Bool := false

/-- A byte order mark at the very front is dropped. -/
def serialize (bomSeen : Bool) : Text → Text × Bool
  | [] => ([],bomSeen)
  | c :: cs => if bomSeen = false ∧ c.val = 0xfeff then (cs,true) else (c :: cs,true)

/-- `decoder.decode(value, { stream: true })`. -/
def Decoder.decode (d : Decoder) (value : List Byte) : JsString × Decoder :=
  (utf16 (serialize d.bomSeen (readBytes d.unfinished value).1).1,
    ⟨(readBytes d.unfinished value).2,(serialize d.bomSeen (readBytes d.unfinished value).1).2⟩)

theorem readBytes_append (u : Option Unfinished) (bs cs : List Byte) :
    readBytes u (bs ++ cs) =
      ((readBytes u bs).1 ++ (readBytes (readBytes u bs).2 cs).1,(readBytes (readBytes u bs).2 cs).2) := by
  induction bs generalizing u with
  | nil => rfl
  | cons b bs ih => simp [readBytes,ih]

theorem utf16_append (t u : Text) : utf16 (t ++ u) = utf16 t ++ utf16 u := List.flatMap_append

theorem serialize_append (seen : Bool) (t u : Text) :
    serialize seen (t ++ u) =
      ((serialize seen t).1 ++ (serialize (serialize seen t).2 u).1,(serialize (serialize seen t).2 u).2) := by
  have hseen : ∀ v : Text, serialize true v = (v,true) := by
    intro v
    cases v <;> simp [serialize]
  cases t with
  | nil => rfl
  | cons c t =>
    have hcons : ∀ v, serialize seen (c :: v) = if seen = false ∧ c.val = 0xfeff then (v,true) else (c :: v,true) :=
      fun _ => rfl
    rw [List.cons_append, hcons, hcons]
    split
    · rw [hseen]
    · rw [hseen]
      rfl

/-- Where the bytes are cut does not matter. -/
theorem Decoder.decode_append (d : Decoder) (bs cs : List Byte) :
    d.decode (bs ++ cs) = ((d.decode bs).1 ++ ((d.decode bs).2.decode cs).1,((d.decode bs).2.decode cs).2) := by
  simp only [Decoder.decode, readBytes_append, serialize_append, utf16_append]

section
variable {value missing lower upper x : ℕ} (hl : lower ≤ 0x80 + x) (hu : 0x80 + x ≤ upper) (hx : x < 0x40)
include hl hu hx

/-- The last byte of a character. -/
theorem nextByte_last :
    nextByte (some ⟨value,1,lower,upper⟩) (Fin.ofNat _ (0x80 + x)) = ([Fin.ofNat _ (value * 0x40 + x)],none) := by
  have hval : (Fin.ofNat 0x100 (0x80 + x)).val = 0x80 + x := Nat.mod_eq_of_lt (by omega)
  have hmod : (0x80 + x) % 0x40 = x := by omega
  simp only [nextByte, hval, hmod]
  rw [if_pos ⟨hl,hu⟩]
  rfl

/-- A byte with others to come. -/
theorem nextByte_more :
    nextByte (some ⟨value,missing + 2,lower,upper⟩) (Fin.ofNat _ (0x80 + x)) =
      ([],some ⟨value * 0x40 + x,missing + 1,0x80,0xbf⟩) := by
  have hval : (Fin.ofNat 0x100 (0x80 + x)).val = 0x80 + x := Nat.mod_eq_of_lt (by omega)
  have hmod : (0x80 + x) % 0x40 = x := by omega
  simp only [nextByte, hval, hmod]
  rw [if_pos ⟨hl,hu⟩]
  rfl

end

/-- The code point that a character's bits make. -/
theorem ofNat_bits {n m : ℕ} (hn : n < 0x110000) (h : m = n) : (Fin.ofNat 0x110000 m : CodePoint) = ⟨n,hn⟩ := by
  subst h
  exact Fin.ext (Nat.mod_eq_of_lt hn)

theorem readBytes_two {n : ℕ} (hn : n < 0x110000) (h1 : 0x80 ≤ n) (h2 : n < 0x800) :
    readBytes none [Fin.ofNat _ (0xc0 + n / 0x40),Fin.ofNat _ (0x80 + n % 0x40)] = ([⟨n,hn⟩],none) := by
  have hval : (Fin.ofNat 0x100 (0xc0 + n / 0x40)).val = 0xc0 + n / 0x40 := Nat.mod_eq_of_lt (by omega)
  have hfirst : nextByte none (Fin.ofNat 0x100 (0xc0 + n / 0x40)) = ([],some ⟨n / 0x40,1,0x80,0xbf⟩) := by
    simp only [nextByte, firstByte, hval]
    rw [if_neg (by omega), if_pos (by omega)]
    have hbits : (0xc0 + n / 0x40) % 0x20 = n / 0x40 := by omega
    rw [hbits]
  simp only [readBytes, hfirst]
  rw [nextByte_last (by omega) (by omega) (by omega), ofNat_bits hn (by omega)]
  rfl

theorem readBytes_three {n : ℕ} (hn : n < 0x110000) (h1 : 0x800 ≤ n) (h2 : n < 0x10000) (hs : ¬ (0xd800 ≤ n ∧ n ≤ 0xdfff)) :
    readBytes none [Fin.ofNat _ (0xe0 + n / 0x1000),Fin.ofNat _ (0x80 + n / 0x40 % 0x40),Fin.ofNat _ (0x80 + n % 0x40)] =
      ([⟨n,hn⟩],none) := by
  have hval : (Fin.ofNat 0x100 (0xe0 + n / 0x1000)).val = 0xe0 + n / 0x1000 := Nat.mod_eq_of_lt (by omega)
  have hfirst : nextByte none (Fin.ofNat 0x100 (0xe0 + n / 0x1000)) = ([],some ⟨n / 0x1000,2,
      if 0xe0 + n / 0x1000 = 0xe0 then 0xa0 else 0x80,if 0xe0 + n / 0x1000 = 0xed then 0x9f else 0xbf⟩) := by
    simp only [nextByte, firstByte, hval]
    rw [if_neg (by omega), if_neg (by omega), if_pos (by omega)]
    have hbits : (0xe0 + n / 0x1000) % 0x10 = n / 0x1000 := by omega
    rw [hbits]
  simp only [readBytes, hfirst]
  rw [nextByte_more (by split <;> omega) (by split <;> omega) (by omega)]
  rw [nextByte_last (by omega) (by omega) (by omega), ofNat_bits hn (by omega)]
  rfl

theorem readBytes_four {n : ℕ} (hn : n < 0x110000) (h1 : 0x10000 ≤ n) :
    readBytes none [Fin.ofNat _ (0xf0 + n / 0x40000),Fin.ofNat _ (0x80 + n / 0x1000 % 0x40),
      Fin.ofNat _ (0x80 + n / 0x40 % 0x40),Fin.ofNat _ (0x80 + n % 0x40)] = ([⟨n,hn⟩],none) := by
  have hval : (Fin.ofNat 0x100 (0xf0 + n / 0x40000)).val = 0xf0 + n / 0x40000 := Nat.mod_eq_of_lt (by omega)
  have hfirst : nextByte none (Fin.ofNat 0x100 (0xf0 + n / 0x40000)) = ([],some ⟨n / 0x40000,3,
      if 0xf0 + n / 0x40000 = 0xf0 then 0x90 else 0x80,if 0xf0 + n / 0x40000 = 0xf4 then 0x8f else 0xbf⟩) := by
    simp only [nextByte, firstByte, hval]
    rw [if_neg (by omega), if_neg (by omega), if_neg (by omega), if_pos (by omega)]
    have hbits : (0xf0 + n / 0x40000) % 0x8 = n / 0x40000 := by omega
    rw [hbits]
  simp only [readBytes, hfirst]
  rw [nextByte_more (by split <;> omega) (by split <;> omega) (by omega)]
  rw [nextByte_more (by omega) (by omega) (by omega)]
  rw [nextByte_last (by omega) (by omega) (by omega), ofNat_bits hn (by omega)]
  rfl

/-- The bytes of a character are read as that character. -/
theorem readBytes_utf8Char {c : CodePoint} {bs : List Byte} (h : utf8Char c = some bs) :
    readBytes none bs = ([c],none) := by
  obtain ⟨n,hn⟩ := c
  unfold utf8Char at h
  simp only [isSurrogate, Bool.and_eq_true, decide_eq_true_eq] at h
  by_cases h1 : n < 0x80
  · rw [if_pos h1] at h
    cases h
    have hval : (Fin.ofNat 0x100 n).val = n := Nat.mod_eq_of_lt (by omega)
    simp only [readBytes, nextByte, firstByte, hval]
    rw [if_pos h1, ofNat_bits hn rfl]
    rfl
  rw [if_neg h1] at h
  by_cases h2 : n < 0x800
  · rw [if_pos h2] at h
    cases h
    exact readBytes_two hn (by omega) h2
  rw [if_neg h2] at h
  by_cases h3 : 0xd800 ≤ n ∧ n ≤ 0xdfff
  · rw [if_pos h3] at h
    cases h
  rw [if_neg h3] at h
  by_cases h4 : n < 0x10000
  · rw [if_pos h4] at h
    cases h
    exact readBytes_three hn (by omega) h4 h3
  · rw [if_neg h4] at h
    cases h
    exact readBytes_four hn (by omega)

theorem readBytes_utf8 {t : Text} {bs : List Byte} (h : utf8 t = some bs) : readBytes none bs = (t,none) := by
  induction t generalizing bs with
  | nil =>
    cases h
    rfl
  | cons c t ih =>
    obtain ⟨first,hf,h⟩ := Option.bind_eq_some_iff.mp h
    obtain ⟨rest,hr,h⟩ := Option.bind_eq_some_iff.mp h
    cases h
    rw [readBytes_append, readBytes_utf8Char hf, ih hr]
    rfl

/-- What was encoded is decoded. -/
theorem decode_utf8 {t : Text} {bs : List Byte} (h : utf8 t = some bs) (hb : ∀ c cs, t = c :: cs → c.val ≠ 0xfeff) :
    ((Decoder.mk none false).decode bs).1 = utf16 t := by
  simp only [Decoder.decode, readBytes_utf8 h]
  cases t with
  | nil => rfl
  | cons c cs => simp [serialize,hb c cs rfl]

theorem utf8_isSome {t : Text} (h : encodable t = true) : ∃ bs, utf8 t = some bs := by
  induction t with
  | nil => exact ⟨[],rfl⟩
  | cons c t ih =>
    simp only [encodable, List.all_cons, Bool.and_eq_true, Bool.not_eq_true'] at h
    obtain ⟨bs,hbs⟩ := ih h.2
    have hc : ∃ first, utf8Char c = some first := by
      unfold utf8Char
      simp only [h.1]
      split
      · exact ⟨_,rfl⟩
      · split
        · exact ⟨_,rfl⟩
        · rw [if_neg (by simp)]
          split <;> exact ⟨_,rfl⟩
    obtain ⟨first,hf⟩ := hc
    exact ⟨first ++ bs,by simp [utf8,hf,hbs]⟩

theorem utf8_append {t u : Text} {bs cs : List Byte} (ht : utf8 t = some bs) (hu : utf8 u = some cs) :
    utf8 (t ++ u) = some (bs ++ cs) := by
  induction t generalizing bs with
  | nil =>
    cases ht
    exact hu
  | cons c t ih =>
    obtain ⟨first,hf,h⟩ := Option.bind_eq_some_iff.mp ht
    obtain ⟨rest,hr,h⟩ := Option.bind_eq_some_iff.mp h
    cases h
    simp [utf8,hf,ih hr]

/-- Each part of a text that can be encoded is encoded by itself. -/
theorem utf8_split {t u : Text} {bs : List Byte} (h : utf8 (t ++ u) = some bs) :
    ∃ cs ds, utf8 t = some cs ∧ utf8 u = some ds ∧ bs = cs ++ ds := by
  induction t generalizing bs with
  | nil => exact ⟨[],bs,rfl,h,rfl⟩
  | cons c t ih =>
    obtain ⟨first,hf,h⟩ := Option.bind_eq_some_iff.mp h
    obtain ⟨rest,hr,h⟩ := Option.bind_eq_some_iff.mp h
    cases h
    obtain ⟨cs,ds,ht,hu,rfl⟩ := ih hr
    exact ⟨first ++ cs,ds,by simp [utf8,hf,ht],hu,(List.append_assoc _ _ _).symm⟩

end Utf
