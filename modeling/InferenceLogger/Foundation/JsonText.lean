import InferenceLogger.Foundation.Json
import InferenceLogger.Foundation.Numerals

/-! # Compact JSON text, and reading it back

A writer without white space that escapes quotes, backslashes and control characters; how it
prints a float is a parameter. `loads` gives the value back exactly when it is nested within the
reader's limit and no integer has more digits than the interpreter converts.
-/
namespace PyJson
open PyText

def writeChar (c : CodePoint) : Text :=
  if c.val = 0x22 ∨ c.val = 0x5c then [0x5c,c]
  else if c.val = 0x08 then [0x5c,0x62]
  else if c.val = 0x09 then [0x5c,0x74]
  else if c.val = 0x0a then [0x5c,0x6e]
  else if c.val = 0x0c then [0x5c,0x66]
  else if c.val = 0x0d then [0x5c,0x72]
  else if c.val < 0x20 then [0x5c,0x75,0x30,0x30,hexChar (c.val / 0x10),hexChar (c.val % 0x10)]
  else [c]

def writeStr (t : Text) : Text := 0x22 :: (t.flatMap writeChar ++ [0x22])

section
variable (number : Number → Text)

mutual
def write : Json → Text
  | .null => text "null"
  | .bool true => text "true"
  | .bool false => text "false"
  | .int n => intText n
  | .float x => number x
  | .str t => writeStr t
  | .arr items => 0x5b :: writeItems items
  | .obj members => 0x7b :: writeMembers members

/-- The items and the closing bracket. -/
def writeItems : List Json → Text
  | [] => [0x5d]
  | [v] => write v ++ [0x5d]
  | v :: w :: vs => write v ++ (0x2c :: writeItems (w :: vs))

/-- The members and the closing brace. -/
def writeMembers : List (Text × Json) → Text
  | [] => [0x7d]
  | [(k,v)] => writeStr k ++ (0x3a :: (write v ++ [0x7d]))
  | (k,v) :: m :: ms => writeStr k ++ (0x3a :: (write v ++ (0x2c :: writeMembers (m :: ms))))
end

end

/-- The interpreter converts the digits. -/
def shortInt (n : ℤ) : Bool := (decimal n.natAbs).length ≤ maxStrDigits

mutual
def Json.shortInts : Json → Bool
  | .int n => shortInt n
  | .arr items => Json.shortItems items
  | .obj members => Json.shortMembers members
  | _ => true

def Json.shortItems : List Json → Bool
  | [] => true
  | v :: vs => v.shortInts && Json.shortItems vs

def Json.shortMembers : List (Text × Json) → Bool
  | [] => true
  | (_,v) :: ms => v.shortInts && Json.shortMembers ms
end

mutual
/-- Dictionaries have each key once. -/
def Json.distinctKeys : Json → Bool
  | .arr items => Json.distinctItems items
  | .obj members => decide (members.map Prod.fst).Nodup && Json.distinctMembers members
  | _ => true

def Json.distinctItems : List Json → Bool
  | [] => true
  | v :: vs => v.distinctKeys && Json.distinctItems vs

def Json.distinctMembers : List (Text × Json) → Bool
  | [] => true
  | (_,v) :: ms => v.distinctKeys && Json.distinctMembers ms
end

example : write (fun _ => []) (.obj [(text "a",.arr [.int (-3),.null]),(text "b",.str (text "x\n"))]) =
    text "\x7b\"a\":[-3,null],\"b\":\"x\\n\"\x7d" := by decide

/-! ## What follows a value -/

/-- Nothing, a comma, or a closing bracket or brace. -/
def Delimited (rest : Text) : Prop :=
  ∀ c cs, rest = c :: cs → c.val = 0x2c ∨ c.val = 0x5d ∨ c.val = 0x7d

theorem delimited_nil : Delimited [] := by
  intro c cs h
  cases h

theorem delimited_cons {c : CodePoint} (h : c.val = 0x2c ∨ c.val = 0x5d ∨ c.val = 0x7d) (cs : Text) : Delimited (c :: cs) := by
  intro d ds hd
  cases hd
  exact h

theorem skipWhitespace_cons {c : CodePoint} (t : Text) (h : isWhitespace c = false) : skipWhitespace (c :: t) = c :: t :=
  List.dropWhile_cons_of_neg (by simp [h])

/-! ## Strings -/

section
variable {fuel : ℕ} (more : Text)

/-- A character read in front of the rest of a string. -/
def before (c : CodePoint) (r : Except LoadsError (Text × Text)) : Except LoadsError (Text × Text) :=
  r.map fun p => (c :: p.1,p.2)

theorem scanString_plain {c : CodePoint} (h : 0x20 ≤ c.val) (hq : c.val ≠ 0x22) (hb : c.val ≠ 0x5c) :
    scanString (fuel + 1) (c :: more) = before c (scanString fuel more) := by
  have hlow : ¬ c.val < 0x20 := by omega
  conv_lhs => unfold scanString
  rw [if_neg hq, if_neg hlow, if_neg hb]
  cases scanString fuel more <;> rfl

theorem scanString_simple {e u : CodePoint} (he : e.val ≠ 0x75) (hs : simpleEscape e = some u) :
    scanString (fuel + 1) (0x5c :: e :: more) = before u (scanString fuel more) := by
  conv_lhs => unfold scanString
  rw [if_neg (by decide), if_neg (by decide), if_pos (by decide)]
  simp only [if_neg he, hs]
  cases scanString fuel more <;> rfl

/-- A low code point is no half of a pair. -/
theorem joinSurrogates_low {n : ℕ} (h : n < 0xd800) (rest : Text) : joinSurrogates n rest = (Fin.ofNat _ n,rest) := by
  unfold joinSurrogates
  split
  · rfl
  · rw [if_neg (by omega)]

theorem scanString_low {u : ℕ} {h1 h2 h3 h4 : CodePoint} (hu : fourHex (h1 :: h2 :: h3 :: h4 :: more) = some (u,more))
    (hl : u < 0xd800) :
    scanString (fuel + 1) (0x5c :: 0x75 :: h1 :: h2 :: h3 :: h4 :: more) = before (Fin.ofNat _ u) (scanString fuel more) := by
  conv_lhs => unfold scanString
  rw [if_neg (by decide), if_neg (by decide), if_pos (by decide)]
  simp only [hu, joinSurrogates_low hl]
  rw [if_pos (by decide)]
  cases scanString fuel more <;> rfl

theorem scanString_writeChar (c : CodePoint) : scanString (fuel + 1) (writeChar c ++ more) =
    before c (scanString fuel more) := by
  have hsimple : ∀ (e : CodePoint) (n : ℕ), c.val = n → e.val ≠ 0x75 → (hn : n < 0x110000) → simpleEscape e = some ⟨n,hn⟩ →
      scanString (fuel + 1) ([0x5c,e] ++ more) = before c (scanString fuel more) := by
    intro e n hc he hn hs
    have hcn : c = ⟨n,hn⟩ := Fin.ext hc
    rw [hcn]
    exact scanString_simple more he hs
  unfold writeChar
  split
  · rename_i h
    refine hsimple c c.val rfl (by omega) c.isLt ?_
    exact if_pos (by omega)
  split
  · rename_i h
    exact hsimple _ _ h (by decide) (by decide) (by decide)
  split
  · rename_i h
    exact hsimple _ _ h (by decide) (by decide) (by decide)
  split
  · rename_i h
    exact hsimple _ _ h (by decide) (by decide) (by decide)
  split
  · rename_i h
    exact hsimple _ _ h (by decide) (by decide) (by decide)
  split
  · rename_i h
    exact hsimple _ _ h (by decide) (by decide) (by decide)
  split
  · rename_i h
    have hzero : hexDigit 0x30 = some 0 := by decide
    have hfour : fourHex (0x30 :: 0x30 :: hexChar (c.val / 0x10) :: hexChar (c.val % 0x10) :: more) = some (c.val,more) := by
      have hhigh : hexDigit (hexChar (c.val / 0x10)) = some (c.val / 0x10) := hexDigit_hexChar (by omega)
      have hlow : hexDigit (hexChar (c.val % 0x10)) = some (c.val % 0x10) := hexDigit_hexChar (by omega)
      have hval : ((0 * 16 + 0) * 16 + c.val / 0x10) * 16 + c.val % 0x10 = c.val := by omega
      unfold fourHex
      simp only [hzero, hhigh, hlow, hval]
    have hback : Fin.ofNat 0x110000 c.val = c := Fin.ext (Nat.mod_eq_of_lt c.isLt)
    have hscan : scanString (fuel + 1) _ = before (Fin.ofNat _ c.val) (scanString fuel more) :=
      scanString_low more hfour (by omega)
    rw [hback] at hscan
    exact hscan
  · exact scanString_plain more (by omega) (by omega) (by omega)

theorem scanString_writeStr (t : Text) (hf : t.length < fuel) :
    scanString fuel (t.flatMap writeChar ++ (0x22 :: more)) = .ok (t,more) := by
  induction t generalizing fuel with
  | nil =>
    obtain ⟨fuel,rfl⟩ : ∃ f, fuel = f + 1 := ⟨fuel - 1,by rw [List.length_nil] at hf; omega⟩
    rw [List.flatMap_nil, List.nil_append]
    unfold scanString
    exact if_pos (by decide)
  | cons c t ih =>
    rw [List.length_cons] at hf
    obtain ⟨fuel,rfl⟩ : ∃ f, fuel = f + 1 := ⟨fuel - 1,by omega⟩
    rw [List.flatMap_cons, List.append_assoc, scanString_writeChar, ih (by omega)]
    rfl

theorem writeChar_length (c : CodePoint) : 1 ≤ (writeChar c).length := by
  unfold writeChar
  repeat' split
  all_goals simp

theorem flatMap_writeChar_length (t : Text) : t.length ≤ (t.flatMap writeChar).length := by
  induction t with
  | nil => simp
  | cons c t ih =>
    have hc := writeChar_length c
    rw [List.flatMap_cons, List.length_append, List.length_cons]
    omega

/-- A quoted text at the front. -/
theorem scanString_quoted (t : Text) :
    scanString ((t.flatMap writeChar ++ 0x22 :: more).length + 1) (t.flatMap writeChar ++ 0x22 :: more) = .ok (t,more) := by
  apply scanString_writeStr
  have hlen := flatMap_writeChar_length t
  rw [List.length_append]
  omega

end

/-! ## Numbers -/

/-- The text starts like a number. -/
def Numeral (t : Text) : Prop := ∃ d ds, isDigit d = true ∧ (t = d :: ds ∨ t = 0x2d :: d :: ds)

theorem isDigit_val {d : CodePoint} (h : isDigit d = true) : 0x30 ≤ d.val ∧ d.val ≤ 0x39 := by
  simpa [isDigit] using h

theorem numeral_head {t : Text} (h : Numeral t) : ∃ c cs, t = c :: cs ∧ (c.val = 0x2d ∨ 0x30 ≤ c.val ∧ c.val ≤ 0x39) := by
  obtain ⟨d,ds,hd,rfl | rfl⟩ := h
  · exact ⟨d,ds,rfl,.inr (isDigit_val hd)⟩
  · exact ⟨0x2d,d :: ds,rfl,.inl rfl⟩

theorem numeral_keyword {t : Text} (h : Numeral t) (rest : Text) : keyword (t ++ rest) = none := by
  have hname : ∀ name ∈ [text "null",text "true",text "false",text "NaN",text "Infinity",text "-Infinity"],
      name.isPrefixOf (t ++ rest) = false := by
    intro name hname
    obtain ⟨d,ds,hd,ht⟩ := h
    have hval := isDigit_val hd
    have hcases : (∃ c cs, name = c :: cs ∧ 0x40 ≤ c.val) ∨ ∃ c cs, name = 0x2d :: c :: cs ∧ 0x40 ≤ c.val := by
      simp only [List.mem_cons, List.not_mem_nil, or_false] at hname
      rcases hname with rfl | rfl | rfl | rfl | rfl | rfl
      · exact .inl ⟨_,_,rfl,by decide⟩
      · exact .inl ⟨_,_,rfl,by decide⟩
      · exact .inl ⟨_,_,rfl,by decide⟩
      · exact .inl ⟨_,_,rfl,by decide⟩
      · exact .inl ⟨_,_,rfl,by decide⟩
      · exact .inr ⟨_,_,rfl,by decide⟩
    have hminus : ((0x2d : CodePoint) == d) = false := by
      rw [beq_eq_false_iff_ne]
      rintro rfl
      exact absurd hd (by decide)
    rcases hcases with ⟨c,cs,rfl,hc⟩ | ⟨c,cs,rfl,hc⟩ <;> rcases ht with rfl | rfl
    · have hne : (c == d) = false := by
        rw [beq_eq_false_iff_ne]
        rintro rfl
        omega
      simp [List.isPrefixOf,hne]
    · have hne : (c == (0x2d : CodePoint)) = false := by
        rw [beq_eq_false_iff_ne]
        rintro rfl
        exact absurd hc (by decide)
      simp [List.isPrefixOf,hne]
    · simp [List.isPrefixOf,hminus]
    · have hne : (c == d) = false := by
        rw [beq_eq_false_iff_ne]
        rintro rfl
        omega
      simp [List.isPrefixOf,hne]
  unfold keyword
  rw [hname _ (by simp), hname _ (by simp), hname _ (by simp), hname _ (by simp), hname _ (by simp), hname _ (by simp)]
  rfl

theorem scanWith_numeral {t : Text} (h : Numeral t) (nested) (rest : Text) : scanWith nested (t ++ rest) =
    scanNumber (t ++ rest) := by
  have hkey := numeral_keyword h rest
  obtain ⟨c,cs,rfl,hc⟩ := numeral_head h
  unfold scanWith
  rw [List.cons_append] at hkey ⊢
  simp only [hkey]
  rw [if_neg (by omega), if_neg (by omega), if_neg (by omega)]

theorem intText_numeral (n : ℤ) : Numeral (intText n) := by
  obtain ⟨c,cs,hc,-⟩ := decimal_head n.natAbs
  have hdigit : isDigit c = true := by
    obtain ⟨d,hd,hval⟩ := decimal_digit (n := n.natAbs) (c := c) (by rw [hc]; exact List.mem_cons_self)
    simp only [isDigit, Bool.and_eq_true, decide_eq_true_eq]
    omega
  unfold intText
  rw [hc]
  split
  · exact ⟨c,cs,hdigit,.inr rfl⟩
  · exact ⟨c,cs,hdigit,.inl rfl⟩

theorem scanNumber_whole (n : ℕ) {rest : Text} (hr : Delimited rest) :
    (if (decimal n ++ rest).head? = some 0x30 then [0x30] else (decimal n ++ rest).takeWhile isDigit) = decimal n := by
  obtain ⟨c,cs,hc,hz⟩ := decimal_head n
  have hdigits : ∀ d ∈ decimal n, isDigit d = true := by
    intro d hd
    obtain ⟨e,he,hval⟩ := decimal_digit hd
    simp only [isDigit, Bool.and_eq_true, decide_eq_true_eq]
    omega
  have hstop : rest.takeWhile isDigit = [] := by
    cases rest with
    | nil => rfl
    | cons d ds =>
      have hd := hr d ds rfl
      apply List.takeWhile_cons_of_neg
      simp only [isDigit, Bool.and_eq_true, decide_eq_true_eq, not_and]
      omega
  split
  · rename_i h
    rw [hc, List.cons_append, List.head?_cons, Option.some.injEq] at h
    rw [hc, hz (by rw [h]; rfl), h]
  · rw [List.takeWhile_append_of_pos hdigits, hstop, List.append_nil]

theorem scanTail {rest : Text} (hr : Delimited rest) : scanFraction rest = ([],rest) ∧ scanExponent rest = (0,rest,false) := by
  cases rest with
  | nil => exact ⟨rfl,rfl⟩
  | cons c cs =>
    have hc := hr c cs rfl
    exact ⟨if_neg (by omega),if_neg (by omega)⟩

theorem scanNumber_intText (n : ℤ) {rest : Text} (hr : Delimited rest) :
    scanNumber (intText n ++ rest) = if shortInt n then .ok (.int n,rest) else .error .digits := by
  obtain ⟨hf,he⟩ := scanTail hr
  have hwhole := scanNumber_whole n.natAbs hr
  have hdrop : (decimal n.natAbs ++ rest).drop (decimal n.natAbs).length = rest := List.drop_left
  have hvalue : digitsValue (decimal n.natAbs) = n.natAbs := decimal_foldl n.natAbs
  obtain ⟨c,cs,hc,-⟩ := decimal_head n.natAbs
  have hne : decimal n.natAbs ≠ [] := by simp [hc]
  have hshort : (maxStrDigits < (decimal n.natAbs).length) = ¬ shortInt n = true := by simp [shortInt]
  unfold intText
  split
  · rename_i hneg
    have hback : -(n.natAbs : ℤ) = n := by omega
    have hminus : (0x2d :: decimal n.natAbs ++ rest).head? = some 0x2d := rfl
    have htail : (0x2d :: decimal n.natAbs ++ rest).tail = decimal n.natAbs ++ rest := rfl
    unfold scanNumber
    simp only [hminus, if_true, htail, hwhole, if_neg hne, hdrop, hf, he, hvalue, hback, hshort]
    by_cases hs : shortInt n = true <;> simp [hs]
  · rename_i hpos
    have hback : (n.natAbs : ℤ) = n := by omega
    have hplus : ¬ (decimal n.natAbs ++ rest).head? = some 0x2d := by
      obtain ⟨d,hd,hval⟩ := decimal_digit (n := n.natAbs) (c := c) (by rw [hc]; exact List.mem_cons_self)
      rw [hc, List.cons_append, List.head?_cons, Option.some.injEq]
      rintro rfl
      have h2d : ((0x2d : CodePoint) : ℕ) = 0x2d := rfl
      omega
    unfold scanNumber
    simp only [if_neg hplus, hwhole, if_neg hne, hdrop, hf, he, hvalue, hback, hshort]
    by_cases hs : shortInt n = true <;> simp [hs]

/-! ## Values -/

/-- The text of a float, read back as that float. -/
structure FloatText (t : Text) (x : Number) : Prop where
  numeral : Numeral t
  scan : ∀ rest, Delimited rest → scanNumber (t ++ rest) = .ok (.float x,rest)

/-- The outcome of reading a value off the front of a text: if it fails, then at one of the
reader's limits. -/
def Reads {α : Type} (ok : Prop) (r : Except LoadsError (α × Text)) (v : α) (rest : Text) : Prop :=
  (ok → r = .ok (v,rest)) ∧ (¬ ok → ∃ e ≠ LoadsError.decode, r = .error e)

section
variable {number : Number → Text} {exact : Number → Bool} (hfloat : ∀ x, exact x = true → FloatText (number x) x)

include hfloat in
theorem write_head (v : Json) (hv : v.all (fun _ => true) exact = true) :
    ∃ c cs, write number v = c :: cs ∧ isWhitespace c = false ∧ c.val < 0x80 ∧ c.val ≠ 0x5d := by
  have hnum : ∀ t, Numeral t → ∃ c cs, t = c :: cs ∧ isWhitespace c = false ∧ c.val < 0x80 ∧ c.val ≠ 0x5d := by
    intro t ht
    obtain ⟨c,cs,rfl,hc⟩ := numeral_head ht
    refine ⟨c,cs,rfl,?_,by omega,by omega⟩
    simp only [isWhitespace, Bool.or_eq_false_iff, beq_eq_false_iff_ne]
    omega
  cases v with
  | null => exact ⟨_,_,rfl,by decide,by decide,by decide⟩
  | bool b => cases b <;> exact ⟨_,_,rfl,by decide,by decide,by decide⟩
  | int n => exact hnum _ (intText_numeral n)
  | float x => exact hnum _ (hfloat x hv).numeral
  | str t => exact ⟨_,_,rfl,by decide,by decide,by decide⟩
  | arr items => exact ⟨_,_,rfl,by decide,by decide,by decide⟩
  | obj ms => exact ⟨_,_,rfl,by decide,by decide,by decide⟩

include hfloat in
theorem write_skip (v : Json) (hv : v.all (fun _ => true) exact = true) (rest : Text) :
    skipWhitespace (write number v ++ rest) = write number v ++ rest := by
  obtain ⟨c,cs,hc,hw,-⟩ := write_head hfloat v hv
  rw [hc]
  exact skipWhitespace_cons _ hw

theorem allItems_iff {p : Text → Bool} {q : Number → Bool} (items : List Json) :
    Json.allItems p q items = true ↔ ∀ v ∈ items, v.all p q = true := by
  induction items with
  | nil => simp [Json.allItems]
  | cons v vs ih => simp [Json.allItems,ih]

theorem allMembers_iff {p : Text → Bool} {q : Number → Bool} (ms : List (Text × Json)) :
    Json.allMembers p q ms = true ↔ ∀ m ∈ ms, p m.1 = true ∧ m.2.all p q = true := by
  induction ms with
  | nil => simp [Json.allMembers]
  | cons m ms ih => simp [Json.allMembers,ih]

theorem distinctItems_iff (items : List Json) : Json.distinctItems items = true ↔ ∀ v ∈ items, v.distinctKeys = true := by
  induction items with
  | nil => simp [Json.distinctItems]
  | cons v vs ih => simp [Json.distinctItems,ih]

theorem distinctMembers_iff (ms : List (Text × Json)) : Json.distinctMembers ms = true ↔ ∀ m ∈ ms, m.2.distinctKeys = true := by
  induction ms with
  | nil => simp [Json.distinctMembers]
  | cons m ms ih => simp [Json.distinctMembers,ih]

/-- The value is nested within the limit and the interpreter converts its integers. -/
def Json.Within (limit : ℕ) (v : Json) : Prop := v.depth ≤ limit ∧ v.shortInts = true

theorem within_items (limit : ℕ) (items : List Json) :
    (Json.depthItems items ≤ limit ∧ Json.shortItems items = true) ↔ ∀ v ∈ items, v.Within limit := by
  induction items with
  | nil => simp [Json.depthItems,Json.shortItems]
  | cons v vs ih =>
    rw [List.forall_mem_cons, ← ih]
    simp only [Json.depthItems, Json.shortItems, Json.Within, Bool.and_eq_true, max_le_iff]
    constructor
    · rintro ⟨⟨h1,h2⟩,h3,h4⟩
      exact ⟨⟨h1,h3⟩,h2,h4⟩
    · rintro ⟨⟨h1,h3⟩,h2,h4⟩
      exact ⟨⟨h1,h2⟩,h3,h4⟩

theorem within_members (limit : ℕ) (ms : List (Text × Json)) :
    (Json.depthMembers ms ≤ limit ∧ Json.shortMembers ms = true) ↔ ∀ m ∈ ms, m.2.Within limit := by
  induction ms with
  | nil => simp [Json.depthMembers,Json.shortMembers]
  | cons m ms ih =>
    rw [List.forall_mem_cons, ← ih]
    simp only [Json.depthMembers, Json.shortMembers, Json.Within, Bool.and_eq_true, max_le_iff]
    constructor
    · rintro ⟨⟨h1,h2⟩,h3,h4⟩
      exact ⟨⟨h1,h3⟩,h2,h4⟩
    · rintro ⟨⟨h1,h3⟩,h2,h4⟩
      exact ⟨⟨h1,h2⟩,h3,h4⟩

/-! ### Lists -/

section
variable {value : Text → Except LoadsError (Json × Text)} {P : Json → Prop}
include hfloat

/-- The reader reads this value off the front of a text. -/
def ReadsValue (number : Number → Text) (value : Text → Except LoadsError (Json × Text)) (P : Json → Prop) (v : Json) : Prop :=
  ∀ rest, Delimited rest → Reads (P v) (value (write number v ++ rest)) v rest

theorem scanItems_writeItems {items : List Json} (hne : items ≠ []) (ha : ∀ v ∈ items, v.all (fun _ => true) exact = true)
    (hv : ∀ v ∈ items, ReadsValue number value P v) (fuel : ℕ) (hf : items.length ≤ fuel) (rest : Text) :
    Reads (∀ v ∈ items, P v) (scanItems value fuel (writeItems number items ++ rest)) items rest := by
  induction items generalizing fuel with
  | nil => exact absurd rfl hne
  | cons v vs ih =>
    rw [List.length_cons] at hf
    obtain ⟨fuel,rfl⟩ : ∃ f, fuel = f + 1 := ⟨fuel - 1,by omega⟩
    have hhead := hv v List.mem_cons_self
    cases vs with
    | nil =>
      obtain ⟨hok,herr⟩ := hhead (0x5d :: rest) (delimited_cons (.inr (.inl rfl)) _)
      have htext : writeItems number [v] ++ rest = write number v ++ (0x5d :: rest) := by simp [writeItems]
      unfold scanItems
      rw [htext]
      constructor
      · intro hall
        rw [hok (hall v List.mem_cons_self)]
        rfl
      · intro hnot
        obtain ⟨e,hlimit,he⟩ := herr (fun hp => hnot (by simpa using hp))
        exact ⟨e,hlimit,by rw [he]; rfl⟩
    | cons w ws =>
      obtain ⟨hok,herr⟩ := hhead (0x2c :: (writeItems number (w :: ws) ++ rest)) (delimited_cons (.inl rfl) _)
      obtain ⟨iok,ierr⟩ := ih (by simp) (fun u hu => ha u (List.mem_cons_of_mem _ hu))
        (fun u hu => hv u (List.mem_cons_of_mem _ hu)) fuel (by omega)
      have htext : writeItems number (v :: w :: ws) ++ rest =
          write number v ++ (0x2c :: (writeItems number (w :: ws) ++ rest)) := by
        simp [writeItems]
      have hskip : skipWhitespace (writeItems number (w :: ws) ++ rest) = writeItems number (w :: ws) ++ rest := by
        have hw := ha w (by simp)
        cases ws with
        | nil =>
          simp only [writeItems, List.append_assoc]
          exact write_skip hfloat w hw _
        | cons u us =>
          simp only [writeItems, List.append_assoc]
          exact write_skip hfloat w hw _
      have hcomma : ∀ t, skipWhitespace (0x2c :: t) = 0x2c :: t := fun t => skipWhitespace_cons t (by decide)
      unfold scanItems
      rw [htext]
      by_cases hp : P v
      · rw [hok hp]
        simp only [bind, Except.bind, hcomma]
        rw [if_pos (by decide), hskip]
        constructor
        · intro hall
          rw [iok (fun u hu => hall u (List.mem_cons_of_mem _ hu))]
          rfl
        · intro hnot
          obtain ⟨e,hlimit,he⟩ := ierr (fun hall => hnot (List.forall_mem_cons.mpr ⟨hp,hall⟩))
          exact ⟨e,hlimit,by rw [he]⟩
      · obtain ⟨e,hlimit,he⟩ := herr hp
        rw [he]
        exact ⟨fun hall => absurd (hall v List.mem_cons_self) hp,fun _ => ⟨e,hlimit,rfl⟩⟩

theorem writeItems_length {items : List Json} (ha : ∀ v ∈ items, v.all (fun _ => true) exact = true) :
    items.length ≤ (writeItems number items).length := by
  have hone : ∀ v ∈ items, 1 ≤ (write number v).length := by
    intro v hv
    obtain ⟨c,cs,hc,-⟩ := write_head hfloat v (ha v hv)
    simp [hc]
  clear ha
  induction items with
  | nil => simp
  | cons v vs ih =>
    have hv := hone v List.mem_cons_self
    have hrest := ih (fun u hu => hone u (List.mem_cons_of_mem _ hu))
    cases vs with
    | nil =>
      simp only [writeItems, List.length_append, List.length_cons, List.length_nil]
      omega
    | cons w ws =>
      simp only [writeItems, List.length_append, List.length_cons] at hrest ⊢
      omega

theorem scanArray_write {items : List Json} (ha : ∀ v ∈ items, v.all (fun _ => true) exact = true)
    (hv : ∀ v ∈ items, ReadsValue number value P v) (rest : Text) :
    Reads (∀ v ∈ items, P v) (scanArray value (writeItems number items ++ rest)) (.arr items) rest := by
  cases items with
  | nil =>
    have hnil : writeItems number [] ++ rest = 0x5d :: rest := rfl
    have hskip : skipWhitespace (0x5d :: rest) = 0x5d :: rest := skipWhitespace_cons _ (by decide)
    unfold scanArray
    rw [hnil]
    simp only [hskip]
    exact ⟨fun _ => rfl,fun h => absurd (by simp) h⟩
  | cons v vs =>
    obtain ⟨c,cs,hc,hw,-,hb⟩ := write_head hfloat v (ha v List.mem_cons_self)
    have hhead : ∃ us, writeItems number (v :: vs) ++ rest = c :: us := by
      cases vs <;> simp [writeItems,hc]
    obtain ⟨us,hus⟩ := hhead
    have hskip : skipWhitespace (writeItems number (v :: vs) ++ rest) = writeItems number (v :: vs) ++ rest := by
      rw [hus]
      exact skipWhitespace_cons _ hw
    have hclose : ¬ (writeItems number (v :: vs) ++ rest).head? = some 0x5d := by
      rw [hus, List.head?_cons, Option.some.injEq]
      rintro rfl
      exact hb rfl
    have hlen := writeItems_length hfloat ha
    obtain ⟨hok,herr⟩ := scanItems_writeItems hfloat (by simp) ha hv
      ((writeItems number (v :: vs) ++ rest).length + 1) (by rw [List.length_append]; omega) rest
    unfold scanArray
    simp only [hskip, if_neg hclose]
    constructor
    · intro hall
      rw [hok hall]
      rfl
    · intro hnot
      obtain ⟨e,hlimit,he⟩ := herr hnot
      exact ⟨e,hlimit,by rw [he]; rfl⟩

/-! ### Dictionaries -/

theorem scanMember_write (k : Text) {v : Json} (ha : v.all (fun _ => true) exact = true) (hv : ReadsValue number value P v)
    (rest : Text) (hr : Delimited rest) :
    Reads (P v) (scanMember value (writeStr k ++ (0x3a :: (write number v ++ rest)))) (k,v) rest := by
  have htext : writeStr k ++ (0x3a :: (write number v ++ rest)) =
      0x22 :: (k.flatMap writeChar ++ (0x22 :: 0x3a :: (write number v ++ rest))) := by simp [writeStr]
  have hcolon : ∀ t, skipWhitespace (0x3a :: t) = 0x3a :: t := fun t => skipWhitespace_cons t (by decide)
  obtain ⟨hok,herr⟩ := hv rest hr
  rw [htext]
  unfold scanMember
  simp only
  rw [if_pos (by decide), scanString_quoted]
  simp only [bind, Except.bind, hcolon, write_skip hfloat v ha]
  rw [if_pos (by decide)]
  constructor
  · intro hp
    rw [hok hp]
    rfl
  · intro hnot
    obtain ⟨e,hlimit,he⟩ := herr hnot
    exact ⟨e,hlimit,by rw [he]⟩

omit hfloat in
theorem setItem_new {d : Members} {k : Text} (v : Json) (h : k ∉ d.map Prod.fst) : setItem d k v = d ++ [(k,v)] := by
  have hany : d.any (fun m => m.1 == k) = false := by
    rw [List.any_eq_false]
    intro m hm
    rw [beq_iff_eq]
    rintro rfl
    exact h (List.mem_map_of_mem hm)
  unfold setItem
  rw [hany]
  rfl

theorem scanMembers_writeMembers {ms : List (Text × Json)} (hne : ms ≠ [])
    (ha : ∀ m ∈ ms, m.2.all (fun _ => true) exact = true) (hv : ∀ m ∈ ms, ReadsValue number value P m.2)
    (fuel : ℕ) (hf : ms.length ≤ fuel) (d : Members) (hd : (d.map Prod.fst ++ ms.map Prod.fst).Nodup) (rest : Text) :
    Reads (∀ m ∈ ms, P m.2) (scanMembers value fuel d (writeMembers number ms ++ rest)) (d ++ ms) rest := by
  induction ms generalizing fuel d with
  | nil => exact absurd rfl hne
  | cons m ms ih =>
    obtain ⟨k,v⟩ := m
    rw [List.length_cons] at hf
    obtain ⟨fuel,rfl⟩ : ∃ f, fuel = f + 1 := ⟨fuel - 1,by omega⟩
    have hav := ha (k,v) List.mem_cons_self
    have hone := hv (k,v) List.mem_cons_self
    have hnew : k ∉ d.map Prod.fst := by
      rw [List.nodup_append] at hd
      intro hm
      exact hd.2.2 k hm k (by simp) rfl
    cases ms with
    | nil =>
      obtain ⟨hok,herr⟩ := scanMember_write hfloat k hav hone (0x7d :: rest) (delimited_cons (.inr (.inr rfl)) _)
      have htext : writeMembers number [(k,v)] ++ rest = writeStr k ++ (0x3a :: (write number v ++ (0x7d :: rest))) := by
        simp [writeMembers]
      have hbrace : skipWhitespace (0x7d :: rest) = 0x7d :: rest := skipWhitespace_cons _ (by decide)
      unfold scanMembers
      rw [htext]
      constructor
      · intro hall
        rw [hok (hall (k,v) List.mem_cons_self)]
        simp only [bind, Except.bind, hbrace]
        rw [if_neg (by decide), if_pos (by decide), setItem_new v hnew]
        rfl
      · intro hnot
        obtain ⟨e,hlimit,he⟩ := herr (fun hp => hnot (by simpa using hp))
        exact ⟨e,hlimit,by rw [he]; rfl⟩
    | cons m ms =>
      obtain ⟨hok,herr⟩ := scanMember_write hfloat k hav hone (0x2c :: (writeMembers number (m :: ms) ++ rest))
        (delimited_cons (.inl rfl) _)
      have hkeys : ((d ++ [(k,v)]).map Prod.fst ++ (m :: ms).map Prod.fst).Nodup := by simpa using hd
      obtain ⟨iok,ierr⟩ := ih (by simp) (fun u hu => ha u (List.mem_cons_of_mem _ hu))
        (fun u hu => hv u (List.mem_cons_of_mem _ hu)) fuel (by omega) (d ++ [(k,v)]) hkeys
      have htext : writeMembers number ((k,v) :: m :: ms) ++ rest =
          writeStr k ++ (0x3a :: (write number v ++ (0x2c :: (writeMembers number (m :: ms) ++ rest)))) := by
        simp [writeMembers]
      have hcomma : ∀ t, skipWhitespace (0x2c :: t) = 0x2c :: t := fun t => skipWhitespace_cons t (by decide)
      have hskip : skipWhitespace (writeMembers number (m :: ms) ++ rest) = writeMembers number (m :: ms) ++ rest := by
        obtain ⟨k',v'⟩ := m
        cases ms with
        | nil => exact skipWhitespace_cons _ (by decide)
        | cons u us => exact skipWhitespace_cons _ (by decide)
      unfold scanMembers
      rw [htext]
      by_cases hp : P v
      · rw [hok hp]
        simp only [bind, Except.bind, hcomma]
        rw [if_pos (by decide), hskip, setItem_new v hnew]
        constructor
        · intro hall
          rw [iok (fun u hu => hall u (List.mem_cons_of_mem _ hu))]
          simp
        · intro hnot
          obtain ⟨e,hlimit,he⟩ := ierr (fun hall => hnot (List.forall_mem_cons.mpr ⟨hp,hall⟩))
          exact ⟨e,hlimit,by rw [he]⟩
      · obtain ⟨e,hlimit,he⟩ := herr hp
        rw [he]
        exact ⟨fun hall => absurd (hall (k,v) List.mem_cons_self) hp,fun _ => ⟨e,hlimit,rfl⟩⟩

omit hfloat in
theorem writeMembers_length (ms : List (Text × Json)) : ms.length ≤ (writeMembers number ms).length := by
  induction ms with
  | nil => simp
  | cons m ms ih =>
    obtain ⟨k,v⟩ := m
    cases ms with
    | nil =>
      simp only [writeMembers, List.length_append, List.length_cons, List.length_nil]
      omega
    | cons m ms =>
      simp only [writeMembers, List.length_append, List.length_cons] at ih ⊢
      omega

theorem scanObject_write {ms : List (Text × Json)} (ha : ∀ m ∈ ms, m.2.all (fun _ => true) exact = true)
    (hd : (ms.map Prod.fst).Nodup) (hv : ∀ m ∈ ms, ReadsValue number value P m.2) (rest : Text) :
    Reads (∀ m ∈ ms, P m.2) (scanObject value (writeMembers number ms ++ rest)) (.obj ms) rest := by
  cases ms with
  | nil =>
    have hnil : writeMembers number [] ++ rest = 0x7d :: rest := rfl
    have hskip : skipWhitespace (0x7d :: rest) = 0x7d :: rest := skipWhitespace_cons _ (by decide)
    unfold scanObject
    rw [hnil]
    simp only [hskip]
    exact ⟨fun _ => rfl,fun h => absurd (by simp) h⟩
  | cons m ms =>
    have hhead : ∃ us, writeMembers number (m :: ms) ++ rest = 0x22 :: us := by
      obtain ⟨k,v⟩ := m
      cases ms <;> exact ⟨_,rfl⟩
    obtain ⟨us,hus⟩ := hhead
    have hskip : skipWhitespace (writeMembers number (m :: ms) ++ rest) = writeMembers number (m :: ms) ++ rest := by
      rw [hus]
      exact skipWhitespace_cons _ (by decide)
    have hclose : ¬ (writeMembers number (m :: ms) ++ rest).head? = some 0x7d := by
      rw [hus, List.head?_cons]
      decide
    have hlen : (m :: ms).length ≤ (writeMembers number (m :: ms)).length := writeMembers_length _
    obtain ⟨hok,herr⟩ := scanMembers_writeMembers hfloat (by simp) ha hv
      ((writeMembers number (m :: ms) ++ rest).length + 1) (by rw [List.length_append]; omega) [] (by simpa using hd) rest
    unfold scanObject
    simp only [hskip, if_neg hclose]
    constructor
    · intro hall
      rw [hok hall]
      rfl
    · intro hnot
      obtain ⟨e,hlimit,he⟩ := herr hnot
      exact ⟨e,hlimit,by rw [he]; rfl⟩

end

/-! ### Any value -/

include hfloat

/-- Values without a bracket or brace. -/
theorem scanWith_scalar (nested) (limit : ℕ) (v : Json) (hs : (∀ items, v ≠ .arr items) ∧ ∀ ms, v ≠ .obj ms)
    (ha : v.all (fun _ => true) exact = true) (rest : Text) (hr : Delimited rest) :
    Reads (v.Within limit) (scanWith nested (write number v ++ rest)) v rest := by
  have hread : ∀ r, v.depth = 0 → v.shortInts = true → r = .ok (v,rest) → Reads (v.Within limit) r v rest := by
    intro r hd hi hr
    exact ⟨fun _ => hr,fun hnot => absurd ⟨by omega,hi⟩ hnot⟩
  cases v with
  | null => exact hread _ rfl rfl rfl
  | bool b => cases b <;> exact hread _ rfl rfl rfl
  | int n =>
    have hscan := (scanWith_numeral (intText_numeral n) nested rest).trans (scanNumber_intText n hr)
    change Reads _ (scanWith nested (intText n ++ rest)) _ _
    rw [hscan]
    constructor
    · intro hw
      have hs : shortInt n = true := hw.2
      rw [if_pos hs]
    · intro hnot
      have hs : ¬ shortInt n = true := fun hs => hnot ⟨Nat.zero_le _,hs⟩
      exact ⟨.digits,by decide,if_neg hs⟩
  | float x =>
    have hx := hfloat x ha
    exact hread _ rfl rfl ((scanWith_numeral hx.numeral nested rest).trans (hx.scan rest hr))
  | str t =>
    refine hread _ rfl rfl ?_
    have htext : write number (.str t) ++ rest = 0x22 :: (t.flatMap writeChar ++ (0x22 :: rest)) := by simp [write,writeStr]
    rw [htext]
    unfold scanWith
    simp only
    rw [if_pos (by decide), scanString_quoted]
    rfl
  | arr items => exact absurd rfl (hs.1 items)
  | obj ms => exact absurd rfl (hs.2 ms)

theorem scanOnce_write (limit : ℕ) (v : Json) (hd : v.distinctKeys = true) (ha : v.all (fun _ => true) exact = true) :
    ReadsValue number (scanOnce limit) (Json.Within limit) v := by
  induction limit generalizing v with
  | zero =>
    intro rest hr
    by_cases hs : (∀ items, v ≠ .arr items) ∧ ∀ ms, v ≠ .obj ms
    · exact scanWith_scalar hfloat none 0 v hs ha rest hr
    · have hdeep : ∀ r, 1 ≤ v.depth → r = .error .recursion → Reads (v.Within 0) r v rest := by
        intro r hdepth hr
        exact ⟨fun hw => absurd hw.1 (by omega),fun _ => ⟨_,by decide,hr⟩⟩
      cases v with
      | arr items => exact hdeep _ (Nat.succ_le_succ (Nat.zero_le _)) rfl
      | obj ms => exact hdeep _ (Nat.succ_le_succ (Nat.zero_le _)) rfl
      | _ => exact absurd ⟨by simp,by simp⟩ hs
  | succ limit ih =>
    intro rest hr
    by_cases hs : (∀ items, v ≠ .arr items) ∧ ∀ ms, v ≠ .obj ms
    · exact scanWith_scalar hfloat (some (scanOnce limit)) (limit + 1) v hs ha rest hr
    · cases v with
      | arr items =>
        have hda : ∀ u ∈ items, u.distinctKeys = true := (distinctItems_iff items).mp hd
        have haa : ∀ u ∈ items, u.all (fun _ => true) exact = true := (allItems_iff items).mp ha
        have hall := scanArray_write hfloat haa (fun u hu => ih u (hda u hu) (haa u hu)) rest
        have hw : (Json.arr items).Within (limit + 1) ↔ ∀ u ∈ items, u.Within limit := by
          rw [← within_items]
          exact and_congr_left fun _ => Nat.succ_le_succ_iff
        exact ⟨fun h => hall.1 (hw.mp h),fun h => hall.2 fun h' => h (hw.mpr h')⟩
      | obj ms =>
        have hkeys : (ms.map Prod.fst).Nodup ∧ ∀ m ∈ ms, m.2.distinctKeys = true := by
          have hdb : (decide (ms.map Prod.fst).Nodup && Json.distinctMembers ms) = true := hd
          rw [Bool.and_eq_true, decide_eq_true_eq, distinctMembers_iff] at hdb
          exact hdb
        have haa : ∀ m ∈ ms, m.2.all (fun _ => true) exact = true := fun m hm => ((allMembers_iff ms).mp ha m hm).2
        have hall := scanObject_write hfloat haa hkeys.1 (fun m hm => ih m.2 (hkeys.2 m hm) (haa m hm)) rest
        have hw : (Json.obj ms).Within (limit + 1) ↔ ∀ m ∈ ms, m.2.Within limit := by
          rw [← within_members]
          exact and_congr_left fun _ => Nat.succ_le_succ_iff
        exact ⟨fun h => hall.1 (hw.mp h),fun h => hall.2 fun h' => h (hw.mpr h')⟩
      | _ => exact absurd ⟨by simp,by simp⟩ hs

/-- What was written is read back, exactly when it is within the reader's limits. -/
theorem loads_write (limit : ℕ) (v : Json) (hd : v.distinctKeys = true) (ha : v.all (fun _ => true) exact = true) :
    (v.Within limit → loads limit (write number v) = .ok v) ∧
    (¬ v.Within limit → ∃ e ≠ LoadsError.decode, loads limit (write number v) = .error e) := by
  obtain ⟨hok,herr⟩ := scanOnce_write hfloat limit v hd ha [] delimited_nil
  obtain ⟨c,cs,hc,hw,hlow,-⟩ := write_head hfloat v ha
  have hskip := write_skip hfloat v ha []
  rw [List.append_nil] at hok herr hskip
  have hbom : ¬ (write number v).head? = some 0xfeff := by
    rw [hc, List.head?_cons, Option.some.injEq]
    rintro rfl
    exact absurd hlow (by decide)
  unfold loads
  rw [if_neg hbom, hskip]
  constructor
  · intro h
    rw [hok h]
    rfl
  · intro h
    obtain ⟨e,hlimit,he⟩ := herr h
    exact ⟨e,hlimit,by rw [he]; rfl⟩

end
end PyJson
