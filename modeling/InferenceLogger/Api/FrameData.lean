import InferenceLogger.Api.Frames

/-! # The data line read back

`JSON.parse` of what `json.dumps` has written is the same dictionary: its keys and strings as
code units, its numbers as numbers.
-/
namespace InferenceLogger
open PyText Utf JsJson

def unit (c : CodePoint) : CodeUnit := Fin.ofNat _ c.val

theorem utf16_cons {c : CodePoint} (h : c.val < 0x10000) (t : Text) : utf16 (c :: t) = unit c :: utf16 t := by
  simp [utf16,units,h,unit]

theorem unit_val {c : CodePoint} (h : c.val < 0x10000) : (unit c).val = c.val := Nat.mod_eq_of_lt h

/-! ## Strings -/

/-- A character read in front of the rest of a string. -/
def behind (s : JsString) (r : Option (JsString × JsString)) : Option (JsString × JsString) :=
  r.map fun p => (s ++ p.1,p.2)

theorem behind_behind (s u : JsString) (r : Option (JsString × JsString)) : behind s (behind u r) = behind (s ++ u) r := by
  cases r <;> simp [behind]

section
variable (more : JsString)

theorem scanString_plain {c : CodeUnit} (h : 0x20 ≤ c.val) (hq : c.val ≠ 0x22) (hb : c.val ≠ 0x5c) :
    scanString (c :: more) = behind [c] (scanString more) := by
  have hlow : ¬ c.val < 0x20 := by omega
  conv_lhs => unfold scanString
  rw [if_neg hq, if_neg hlow, if_neg hb]
  cases scanString more <;> rfl

theorem scanString_simple {e u : CodeUnit} (he : e.val ≠ 0x75) (hs : simpleEscape e = some u) :
    scanString (0x5c :: e :: more) = behind [u] (scanString more) := by
  conv_lhs => unfold scanString
  rw [if_neg (by decide), if_neg (by decide), if_pos (by decide)]
  simp only [if_neg he, hs]
  cases scanString more <;> rfl

theorem scanString_hex {h1 h2 h3 h4 u : CodeUnit} (hu : fourHex h1 h2 h3 h4 = some u) :
    scanString (0x5c :: 0x75 :: h1 :: h2 :: h3 :: h4 :: more) = behind [u] (scanString more) := by
  conv_lhs => unfold scanString
  rw [if_neg (by decide), if_neg (by decide), if_pos (by decide)]
  simp only [hu]
  rw [if_pos (by decide)]
  cases scanString more <;> rfl

theorem hexDigit_unit {d : ℕ} (h : d < 0x10) : hexDigit (unit (hexChar d)) = some d := by
  have hall : ∀ d : Fin 0x10, hexDigit (unit (hexChar d.val)) = some d.val := by decide
  exact hall ⟨d,h⟩

theorem scanString_escapeUnit (u : CodeUnit) :
    scanString (utf16 (escapeUnit u) ++ more) = behind [u] (scanString more) := by
  have hu := u.isLt
  have hlow : ∀ d, d < 0x10 → (hexChar d).val < 0x10000 := fun d hd => by
    have hp := hexChar_printable hd
    omega
  have hchars : utf16 (escapeUnit u) = [0x5c,0x75,unit (hexChar (u.val / 0x1000)),unit (hexChar (u.val / 0x100 % 0x10)),
      unit (hexChar (u.val / 0x10 % 0x10)),unit (hexChar (u.val % 0x10))] := by
    unfold escapeUnit
    rw [utf16_cons (by decide), utf16_cons (by decide), utf16_cons (hlow _ (by omega)), utf16_cons (hlow _ (by omega)),
      utf16_cons (hlow _ (by omega)), utf16_cons (hlow _ (by omega))]
    rfl
  have hfour : fourHex (unit (hexChar (u.val / 0x1000))) (unit (hexChar (u.val / 0x100 % 0x10)))
      (unit (hexChar (u.val / 0x10 % 0x10))) (unit (hexChar (u.val % 0x10))) = some u := by
    unfold fourHex
    rw [hexDigit_unit (by omega), hexDigit_unit (by omega), hexDigit_unit (by omega), hexDigit_unit (by omega)]
    have hval : ((u.val / 0x1000 * 16 + u.val / 0x100 % 0x10) * 16 + u.val / 0x10 % 0x10) * 16 + u.val % 0x10 = u.val := by
      omega
    simp only [Option.bind_eq_bind, Option.bind_some, hval]
    exact congrArg some (Fin.ext (Nat.mod_eq_of_lt hu))
  rw [hchars]
  exact scanString_hex more hfour

theorem scanString_units (us : List CodeUnit) :
    scanString (utf16 (us.flatMap escapeUnit) ++ more) = behind us (scanString more) := by
  induction us with
  | nil => simp [behind,utf16]
  | cons u us ih =>
    rw [List.flatMap_cons, utf16_append, List.append_assoc, scanString_escapeUnit, ih, behind_behind]
    rfl

theorem scanString_escapeChar (c : CodePoint) :
    scanString (utf16 (escapeChar c) ++ more) = behind (units c) (scanString more) := by
  have hsimple : ∀ (e : CodePoint) (u : CodeUnit), e.val < 0x10000 → (unit e).val ≠ 0x75 → simpleEscape (unit e) = some u →
      units c = [u] → scanString (utf16 [0x5c,e] ++ more) = behind (units c) (scanString more) := by
    intro e u he hne hs hc
    rw [utf16_cons (by decide), utf16_cons he, hc]
    exact scanString_simple more hne hs
  have hunits : ∀ n, n < 0x10000 → c.val = n → units c = [Fin.ofNat _ n] := by
    intro n hn hc
    simp [units,hc,hn]
  unfold escapeChar
  split
  · rename_i h
    have hlow : c.val < 0x10000 := by omega
    refine hsimple c (unit c) hlow ?_ ?_ (hunits _ hlow rfl)
    · rw [unit_val hlow]
      omega
    · unfold simpleEscape
      rw [unit_val hlow]
      exact if_pos (by omega)
  split
  · rename_i h
    exact hsimple _ _ (by decide) (by decide) (by decide) (hunits 0x0a (by decide) h)
  split
  · rename_i h
    exact hsimple _ _ (by decide) (by decide) (by decide) (hunits 0x0d (by decide) h)
  split
  · rename_i h
    exact hsimple _ _ (by decide) (by decide) (by decide) (hunits 0x09 (by decide) h)
  split
  · rename_i h
    exact hsimple _ _ (by decide) (by decide) (by decide) (hunits 0x0c (by decide) h)
  split
  · rename_i h
    exact hsimple _ _ (by decide) (by decide) (by decide) (hunits 0x08 (by decide) h)
  split
  · rename_i hspecial _ _ _ _ _ h
    have hlow : c.val < 0x10000 := by omega
    rw [utf16_cons hlow, hunits _ hlow rfl]
    refine scanString_plain more ?_ ?_ ?_ <;> rw [unit_val hlow] <;> omega
  · exact scanString_units more _

/-- A string is read back as its code units. -/
theorem scanString_quoted (t : Text) : scanString (utf16 (t.flatMap escapeChar ++ [0x22]) ++ more) = some (utf16 t,more) := by
  induction t with
  | nil =>
    rw [List.flatMap_nil, List.nil_append, utf16_cons (by decide), List.cons_append]
    unfold scanString
    exact if_pos (by decide)
  | cons c t ih =>
    rw [List.flatMap_cons, List.append_assoc, utf16_append, List.append_assoc, scanString_escapeChar, ih]
    rfl

end

/-! ## Numbers -/

/-- What follows a value: a comma or a closing brace. -/
def Delimited (rest : JsString) : Prop := ∃ c cs, rest = c :: cs ∧ (c.val = 0x2c ∨ c.val = 0x7d)

theorem utf16_low {t : Text} (h : ∀ c ∈ t, c.val < 0x10000) : utf16 t = t.map unit := by
  induction t with
  | nil => rfl
  | cons c t ih =>
    rw [utf16_cons (h c List.mem_cons_self), ih (fun d hd => h d (List.mem_cons_of_mem _ hd)), List.map_cons]

theorem utf16_decimal (n : ℕ) : utf16 (decimal n) = (decimal n).map unit := by
  apply utf16_low
  intro c hc
  obtain ⟨d,hd,hval⟩ := decimal_digit hc
  omega

theorem decimal_value (n : ℕ) : digitsValue (utf16 (decimal n)) = n := by
  have hunit : ∀ (t : Text) (m : ℕ), (∀ c ∈ t, c.val < 0x10000) →
      (t.map unit).foldl (fun m c => 10 * m + (c.val - 0x30)) m = t.foldl (fun m c => 10 * m + (c.val - 0x30)) m := by
    intro t
    induction t with
    | nil => exact fun _ _ => rfl
    | cons c t ih =>
      intro m h
      simp only [List.map_cons, List.foldl_cons, unit_val (h c List.mem_cons_self)]
      exact ih _ (fun d hd => h d (List.mem_cons_of_mem _ hd))
  rw [utf16_decimal]
  unfold digitsValue
  rw [hunit _ 0 fun c hc => ?_, decimal_foldl]
  obtain ⟨d,hd,hval⟩ := decimal_digit hc
  omega

theorem decimal_digits (n : ℕ) : ∀ u ∈ utf16 (decimal n), JsJson.isDigit u = true := by
  rw [utf16_decimal]
  intro u hu
  obtain ⟨c,hc,rfl⟩ := List.mem_map.mp hu
  obtain ⟨d,hd,hval⟩ := decimal_digit hc
  have hunit : (unit c).val = c.val := unit_val (by omega)
  simp only [JsJson.isDigit, hunit, Bool.and_eq_true, decide_eq_true_eq]
  omega

/-- The digits of a number start with a zero only if that is all. -/
theorem utf16_decimal_head (n : ℕ) : ∃ u us, utf16 (decimal n) = u :: us ∧ (u = 0x30 → us = []) := by
  obtain ⟨c,cs,hc,hz⟩ := decimal_head n
  have hmem : c ∈ decimal n := by
    rw [hc]
    exact List.mem_cons_self
  obtain ⟨d,hd,hval⟩ := decimal_digit hmem
  refine ⟨unit c,cs.map unit,by rw [utf16_decimal, hc, List.map_cons],fun hu => ?_⟩
  have hlow : c.val = 0x30 := by
    have hunit : (unit c).val = c.val := unit_val (by omega)
    rw [← hunit, hu]
    rfl
  rw [hz hlow]
  rfl

theorem scanNumber_digits (n : ℕ) {rest : JsString} (hr : Delimited rest) :
    let t := utf16 (decimal n) ++ rest
    (if t.head? = some 0x30 then [0x30] else t.takeWhile JsJson.isDigit) = utf16 (decimal n) := by
  obtain ⟨c,cs,rfl,hc⟩ := hr
  obtain ⟨u,us,hu,hz⟩ := utf16_decimal_head n
  have hstop : JsJson.isDigit c = false := by
    simp only [JsJson.isDigit, Bool.and_eq_false_iff, decide_eq_false_iff_not]
    omega
  simp only [hu, List.cons_append, List.head?_cons, Option.some.injEq]
  split
  · rename_i h
    rw [hz h, h]
  · rw [← List.cons_append, ← hu, List.takeWhile_append_of_pos (decimal_digits n), List.takeWhile_cons_of_neg (by simp [hstop]),
      List.append_nil]

theorem scanTail {rest : JsString} (hr : Delimited rest) : scanFraction rest = ([],rest) ∧ scanExponent rest = (0,rest) := by
  obtain ⟨c,cs,rfl,hc⟩ := hr
  constructor
  · exact if_neg (by omega)
  · exact if_neg (by omega)

theorem scanNumber_intText (n : ℤ) {rest : JsString} (hr : Delimited rest) :
    scanNumber (utf16 (intText n) ++ rest) = some (.number n 0,rest) := by
  obtain ⟨hf,he⟩ := scanTail hr
  obtain ⟨u,us,hu,-⟩ := utf16_decimal_head n.natAbs
  have hdigit : JsJson.isDigit u = true := decimal_digits n.natAbs u (by rw [hu]; exact List.mem_cons_self)
  have hne : utf16 (decimal n.natAbs) ≠ [] := by simp [hu]
  have hwhole := scanNumber_digits n.natAbs hr
  have hdrop : (utf16 (decimal n.natAbs) ++ rest).drop (utf16 (decimal n.natAbs)).length = rest := List.drop_left
  simp only at hwhole
  unfold intText
  split
  · rename_i hneg
    rw [utf16_cons (by decide), List.cons_append]
    unfold scanNumber
    have hminus : (unit 0x2d :: (utf16 (decimal n.natAbs) ++ rest)).head? = some 0x2d := rfl
    simp only [hminus, if_true, List.tail_cons, hwhole, if_neg hne, hdrop, hf, he, List.append_nil, decimal_value]
    congr 3
    · omega
  · rename_i hpos
    unfold scanNumber
    have hplus : ¬ (utf16 (decimal n.natAbs) ++ rest).head? = some 0x2d := by
      rw [hu]
      intro h
      have hu2d : u = 0x2d := by simpa using h
      rw [hu2d] at hdigit
      exact absurd hdigit (by decide)
    simp only [if_neg hplus, hwhole, if_neg hne, hdrop, hf, he, List.append_nil, decimal_value]
    congr 3
    · omega

/-! ## Objects -/

/-- What a browser makes of a value. -/
def Field.js : Field → JsValue
  | .str t => .string (utf16 t)
  | .int n => .number n 0

def jsMember (m : Text × Field) : JsString × JsValue := (utf16 m.1,m.2.js)

theorem skipWhitespace_cons {c : CodeUnit} (t : JsString) (h : isWhitespace c = false) : skipWhitespace (c :: t) = c :: t :=
  List.dropWhile_cons_of_neg (by simp [h])

theorem skipWhitespace_space (t : JsString) : skipWhitespace (0x20 :: t) = skipWhitespace t :=
  List.dropWhile_cons_of_pos (by decide)

theorem keyword_none {c : CodeUnit} (t : JsString) (hc : c.val < 0x40) : keyword (c :: t) = none := by
  have hname : ∀ name ∈ [jsText "null",jsText "true",jsText "false"], name.isPrefixOf (c :: t) = false := by
    intro name hname
    obtain ⟨d,ds,rfl,hd⟩ : ∃ d ds, name = d :: ds ∧ 0x40 ≤ d.val := by
      simp only [List.mem_cons, List.not_mem_nil, or_false] at hname
      rcases hname with rfl | rfl | rfl <;> exact ⟨_,_,rfl,by decide⟩
    have hne : (d == c) = false := by
      rw [beq_eq_false_iff_ne]
      rintro rfl
      omega
    simp [List.isPrefixOf,hne]
  unfold keyword
  rw [hname _ (by simp), hname _ (by simp), hname _ (by simp)]
  rfl

/-- The first character of a number. -/
theorem intText_head (n : ℤ) : ∃ u us, utf16 (intText n) = u :: us ∧ (u.val = 0x2d ∨ JsJson.isDigit u = true) := by
  unfold intText
  split
  · exact ⟨_,_,utf16_cons (by decide) _,.inl rfl⟩
  · obtain ⟨u,us,hu,-⟩ := utf16_decimal_head n.natAbs
    exact ⟨u,us,hu,.inr (decimal_digits n.natAbs u (by rw [hu]; exact List.mem_cons_self))⟩

theorem utf16_quoted (t : Text) : utf16 (quoted t) = 0x22 :: utf16 (t.flatMap escapeChar ++ [0x22]) := utf16_cons (by decide) _

/-- A value is read back, and it starts with no whitespace. -/
theorem scanValue_field (fuel : ℕ) (f : Field) {rest : JsString} (hr : Delimited rest) :
    skipWhitespace (utf16 f.text ++ rest) = utf16 f.text ++ rest ∧
      scanValue (fuel + 1) (utf16 f.text ++ rest) = some (f.js,rest) := by
  cases f with
  | str t =>
    have hq : utf16 (Field.str t).text ++ rest = 0x22 :: (utf16 (t.flatMap escapeChar ++ [0x22]) ++ rest) := by
      change utf16 (quoted t) ++ rest = _
      rw [utf16_quoted]
      rfl
    rw [hq]
    refine ⟨skipWhitespace_cons _ (by decide),?_⟩
    unfold scanValue
    simp only
    rw [if_pos (by decide), scanString_quoted]
    rfl
  | int n =>
    have hscan := scanNumber_intText n hr
    obtain ⟨u,us,hu,hc⟩ := intText_head n
    have htext : utf16 (Field.int n).text ++ rest = u :: (us ++ rest) := by
      change utf16 (intText n) ++ rest = _
      rw [hu]
      rfl
    rw [hu, List.cons_append] at hscan
    have hlow : u.val = 0x2d ∨ (0x30 ≤ u.val ∧ u.val ≤ 0x39) := by
      rcases hc with hc | hc
      · exact .inl hc
      · simp only [JsJson.isDigit, Bool.and_eq_true, decide_eq_true_eq] at hc
        exact .inr hc
    rw [htext]
    constructor
    · apply skipWhitespace_cons
      simp only [isWhitespace, Bool.or_eq_false_iff, beq_eq_false_iff_ne]
      omega
    · unfold scanValue
      simp only
      rw [if_neg (by omega), if_neg (by omega), if_neg (by omega), keyword_none _ (by omega)]
      exact hscan

theorem scanMember_text (fuel : ℕ) (m : Text × Field) {rest : JsString} (hr : Delimited rest) :
    scanMember (scanValue (fuel + 1)) (utf16 (memberText m) ++ rest) = some (jsMember m,rest) := by
  obtain ⟨hskip,hscan⟩ := scanValue_field fuel m.2 hr
  have htext : utf16 (memberText m) ++ rest =
      0x22 :: (utf16 (m.1.flatMap escapeChar ++ [0x22]) ++ (0x3a :: 0x20 :: (utf16 m.2.text ++ rest))) := by
    unfold memberText
    rw [utf16_append, utf16_quoted, utf16_cons (by decide), utf16_cons (by decide)]
    simp [unit]
  rw [htext]
  unfold scanMember
  rw [skipWhitespace_cons _ (by decide)]
  simp only
  rw [if_pos (by decide), scanString_quoted]
  simp only [Option.bind_eq_bind, Option.bind_some]
  rw [skipWhitespace_cons _ (by decide)]
  simp only
  rw [if_pos (by decide), skipWhitespace_space, hskip, hscan]
  rfl

theorem scanMember_space (value) (t : JsString) : scanMember value (0x20 :: t) = scanMember value t := by
  unfold scanMember
  rw [skipWhitespace_space]

theorem setMember_new {d : Members} {key : JsString} (value : JsValue) (h : key ∉ d.map Prod.fst) :
    setMember d key value = d ++ [(key,value)] := by
  have hany : d.any (fun m => m.1 == key) = false := by
    rw [List.any_eq_false]
    intro m hm
    rw [beq_iff_eq]
    rintro rfl
    exact h (List.mem_map_of_mem hm)
  unfold setMember
  rw [hany]
  rfl

/-- Members with different keys are read back in order. -/
theorem scanMembers_text (fuel : ℕ) {ms : List (Text × Field)} (hne : ms ≠ []) {rounds : ℕ} (hf : ms.length ≤ rounds)
    (d : Members) (hd : (d.map Prod.fst ++ ms.map fun m => utf16 m.1).Nodup) :
    scanMembers (scanValue (fuel + 1)) rounds d (utf16 (membersText ms)) = some (d ++ ms.map jsMember,[]) := by
  fun_induction membersText ms generalizing rounds d with
  | case1 => exact absurd rfl hne
  | case2 m =>
    obtain ⟨rounds,rfl⟩ : ∃ r, rounds = r + 1 := ⟨rounds - 1,by simp at hf; omega⟩
    have hnew : (jsMember m).1 ∉ d.map Prod.fst := by
      rw [List.nodup_append] at hd
      intro hm
      exact hd.2.2 _ hm (utf16 m.1) (by simp) rfl
    rw [utf16_append]
    unfold scanMembers
    rw [scanMember_text fuel m ⟨_,_,utf16_cons (by decide) [],.inr (by decide)⟩]
    simp only [Option.bind_eq_bind, Option.bind_some, utf16_cons (c := 0x7d) (by decide)]
    rw [skipWhitespace_cons _ (by decide)]
    simp only
    rw [if_neg (by decide), if_pos (by decide), setMember_new _ hnew]
    rfl
  | case3 m ms hms ih =>
    obtain ⟨rounds,rfl⟩ : ∃ r, rounds = r + 1 := ⟨rounds - 1,by simp at hf; omega⟩
    have hnew : (jsMember m).1 ∉ d.map Prod.fst := by
      rw [List.nodup_append] at hd
      intro hm
      exact hd.2.2 _ hm (utf16 m.1) (by simp) rfl
    rw [utf16_append]
    unfold scanMembers
    rw [scanMember_text fuel m ⟨_,_,utf16_cons (by decide) _,.inl (by decide)⟩]
    simp only [Option.bind_eq_bind, Option.bind_some, utf16_cons (c := 0x2c) (by decide), utf16_cons (c := 0x20) (by decide)]
    rw [skipWhitespace_cons _ (by decide)]
    simp only
    rw [if_pos (by decide), setMember_new _ hnew]
    have hrest : scanMembers (scanValue (fuel + 1)) rounds (d ++ [jsMember m]) (unit 0x20 :: utf16 (membersText ms)) =
        scanMembers (scanValue (fuel + 1)) rounds (d ++ [jsMember m]) (utf16 (membersText ms)) := by
      cases rounds with
      | zero => rfl
      | succ rounds =>
        simp only [scanMembers]
        rw [show unit 0x20 = 0x20 from rfl, scanMember_space]
    change scanMembers _ rounds (d ++ [jsMember m]) _ = _
    rw [hrest, ih (by simpa using hms) (by simp at hf; omega) _ (by simpa [jsMember] using hd)]
    simp

theorem membersText_length (ms : List (Text × Field)) : ms.length ≤ (utf16 (membersText ms)).length := by
  have hmember : ∀ m : Text × Field, 1 ≤ (utf16 (memberText m)).length := by
    intro m
    unfold memberText
    rw [utf16_append, utf16_quoted]
    simp
  fun_induction membersText ms with
  | case1 => simp
  | case2 m =>
    have hm := hmember m
    rw [utf16_append, List.length_append]
    simp only [List.length_cons, List.length_nil]
    omega
  | case3 m ms _ ih =>
    have hm := hmember m
    rw [utf16_append, List.length_append, utf16_cons (by decide)]
    simp only [List.length_cons] at ih ⊢
    rw [utf16_cons (by decide), List.length_cons]
    omega

theorem membersText_head {ms : List (Text × Field)} (hne : ms ≠ []) : ∃ us, utf16 (membersText ms) = 0x22 :: us := by
  have hmember : ∀ (m : Text × Field) (t : Text), ∃ us, utf16 (memberText m ++ t) = 0x22 :: us := by
    intro m t
    unfold memberText
    rw [utf16_append, utf16_append, utf16_quoted]
    exact ⟨_,rfl⟩
  fun_cases membersText ms with
  | case1 => exact absurd rfl hne
  | case2 m => exact hmember m _
  | case3 m ms _ => exact hmember m _

/-- What the encoder writes, the browser reads. -/
theorem parse_dumps {data : List (Text × Field)} (hk : (data.map fun m => utf16 m.1).Nodup) :
    parse (utf16 (dumps data)) = some (.object (data.map jsMember)) := by
  have hopen : utf16 (dumps data) = 0x7b :: utf16 (membersText data) := utf16_cons (by decide) _
  have hscan : scanValue ((utf16 (dumps data)).length + 1) (utf16 (dumps data)) = some (.object (data.map jsMember),[]) := by
    unfold scanValue
    rw [hopen]
    simp only
    rw [if_neg (by decide), if_pos (by decide)]
    by_cases hne : data = []
    · subst hne
      rfl
    · obtain ⟨us,hus⟩ := membersText_head hne
      have hskip : skipWhitespace (utf16 (membersText data)) = utf16 (membersText data) := by
        rw [hus]
        exact skipWhitespace_cons _ (by decide)
      have hbrace : ¬ (utf16 (membersText data)).head? = some 0x7d := by
        rw [hus, List.head?_cons]
        decide
      have hlen := membersText_length data
      rw [hskip, if_neg hbrace, List.length_cons, scanMembers_text _ hne (by omega) [] (by simpa using hk)]
      rfl
  unfold parse
  have hskip : skipWhitespace (utf16 (dumps data)) = utf16 (dumps data) := by
    rw [hopen]
    exact skipWhitespace_cons _ (by decide)
  rw [hskip, hscan]
  rfl

end InferenceLogger
