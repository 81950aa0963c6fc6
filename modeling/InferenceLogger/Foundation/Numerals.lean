import InferenceLogger.Foundation.PyText
import Mathlib.Data.Nat.Digits.Defs
import Mathlib.Data.Nat.Digits.Lemmas

/-! # Numerals

Decimal and hexadecimal digits as `int.__repr__` and the format `x` write them.
-/
namespace PyText

def hexChar (d : ℕ) : CodePoint := if d < 10 then Fin.ofNat _ (0x30 + d) else Fin.ofNat _ (0x57 + d)

def digitChar (d : ℕ) : CodePoint := Fin.ofNat _ (0x30 + d)

def decimal (n : ℕ) : Text := if n = 0 then [0x30] else (Nat.digits 10 n).reverse.map digitChar

/-- `int.__repr__`. -/
def intText (n : ℤ) : Text := if n < 0 then 0x2d :: decimal n.natAbs else decimal n.natAbs

def hexText (width n : ℕ) : Text := (List.range width).map fun i => hexChar (n / 0x10 ^ (width - 1 - i) % 0x10)

/-- `str(uuid)`. -/
def uuidText (id : Uuid) : Text :=
  let hex := hexText 32 id.toNat
  hex.take 8 ++ (0x2d :: (hex.drop 8).take 4) ++ (0x2d :: (hex.drop 12).take 4) ++ (0x2d :: (hex.drop 16).take 4) ++
    (0x2d :: hex.drop 20)

theorem hexChar_val {d : ℕ} (h : d < 0x10) :
    (hexChar d).val = 0x30 + d ∧ d < 10 ∨ (hexChar d).val = 0x57 + d ∧ 10 ≤ d := by
  unfold hexChar
  split
  · rename_i hd
    exact .inl ⟨Nat.mod_eq_of_lt (by omega),hd⟩
  · rename_i hd
    exact .inr ⟨Nat.mod_eq_of_lt (by omega),by omega⟩

theorem digitChar_val {d : ℕ} (h : d < 10) : (digitChar d).val = 0x30 + d := Nat.mod_eq_of_lt (by omega)

theorem digits_lt {n d : ℕ} (h : d ∈ Nat.digits 10 n) : d < 10 := Nat.digits_lt_base (by decide) h

/-- The digits of a number, most significant first. -/
theorem decimal_digit {n : ℕ} {c : CodePoint} (hc : c ∈ decimal n) : ∃ d, d < 10 ∧ c.val = 0x30 + d := by
  unfold decimal at hc
  split at hc
  · rw [List.mem_singleton.mp hc]
    exact ⟨0,by decide,rfl⟩
  · obtain ⟨d,hd,rfl⟩ := List.mem_map.mp hc
    have hlt := digits_lt (List.mem_reverse.mp hd)
    exact ⟨d,hlt,digitChar_val hlt⟩

/-- Reading the digits gives the number back. -/
theorem decimal_foldl (n : ℕ) : (decimal n).foldl (fun m c => 10 * m + (c.val - 0x30)) 0 = n := by
  have hdigits : ∀ ds : List ℕ, (∀ d ∈ ds, d < 10) →
      (ds.reverse.map digitChar).foldl (fun m c => 10 * m + (c.val - 0x30)) 0 = Nat.ofDigits 10 ds := by
    intro ds hd
    induction ds with
    | nil => rfl
    | cons d ds ih =>
      have hval := digitChar_val (hd d List.mem_cons_self)
      rw [List.reverse_cons, List.map_append, List.foldl_append, ih (fun e he => hd e (List.mem_cons_of_mem _ he))]
      simp only [List.map_cons, List.map_nil, List.foldl_cons, List.foldl_nil, hval, Nat.ofDigits_cons]
      omega
  unfold decimal
  split
  · rename_i h
    rw [h]
    rfl
  · rw [hdigits _ (fun d => digits_lt), Nat.ofDigits_digits]

/-- Only zero starts with a zero. -/
theorem decimal_head (n : ℕ) : ∃ c cs, decimal n = c :: cs ∧ (c.val = 0x30 → cs = []) := by
  unfold decimal
  split
  · exact ⟨0x30,[],rfl,fun _ => rfl⟩
  · rename_i h
    have hne : Nat.digits 10 n ≠ [] := Nat.digits_ne_nil_iff_ne_zero.mpr h
    have hlast := Nat.getLast_digit_ne_zero 10 h
    cases hr : (Nat.digits 10 n).reverse with
    | nil => exact absurd (List.reverse_eq_nil_iff.mp hr) hne
    | cons d ds =>
      refine ⟨_,_,rfl,fun hz => ?_⟩
      have hd : (Nat.digits 10 n).getLast hne = d := by
        rw [← List.head_reverse (by simpa using hne)]
        simp [hr]
      have hmem : d ∈ (Nat.digits 10 n).reverse := by
        rw [hr]
        exact List.mem_cons_self
      rw [digitChar_val (digits_lt (List.mem_reverse.mp hmem))] at hz
      rw [hd] at hlast
      omega

/-! ## Identifiers -/

/-- A text whose characters are all hexadecimal digits, and their values. -/
def hexChars (ds : List ℕ) : Text := ds.map hexChar

theorem hexDigit_hexChar {d : ℕ} (h : d < 0x10) : hexDigit (hexChar d) = some d := by
  have hall : ∀ d : Fin 0x10, hexDigit (hexChar d.val) = some d.val := by decide
  exact hall ⟨d,h⟩

theorem removeAll_absent {p : CodePoint} {ps t : Text} (h : p ∉ t) : removeAll (p :: ps) t = t := by
  have hgo : ∀ t : Text, p ∉ t → removeAll.go (p :: ps) 0 t = t := by
    intro t
    induction t with
    | nil => exact fun _ => rfl
    | cons c t ih =>
      intro hc
      have hne : (p == c) = false := by
        rw [beq_eq_false_iff_ne]
        rintro rfl
        exact hc List.mem_cons_self
      have hpre : (p :: ps).isPrefixOf (c :: t) = false := by simp [List.isPrefixOf,hne]
      rw [removeAll.go, hpre, ih fun hm => hc (List.mem_cons_of_mem _ hm)]
      rfl
  exact hgo t h

theorem removeAll_single (p : CodePoint) (t : Text) : removeAll [p] t = t.filter (fun c => !(p == c)) := by
  have hgo : ∀ t : Text, removeAll.go [p] 0 t = t.filter (fun c => !(p == c)) := by
    intro t
    induction t with
    | nil => rfl
    | cons c t ih =>
      have hpre : [p].isPrefixOf (c :: t) = (p == c) := by simp [List.isPrefixOf]
      rw [removeAll.go, hpre]
      cases hc : p == c with
      | true => simp [hc,ih]
      | false => simp [hc,ih]
  exact hgo t

theorem stripOf_absent {chars t : Text} (h : ∀ c ∈ t, chars.contains c = false) : stripOf chars t = t := by
  have hdrop : t.dropWhile (chars.contains ·) = t := by
    cases t with
    | nil => rfl
    | cons c t => exact List.dropWhile_cons_of_neg (by rw [h c List.mem_cons_self]; decide)
  unfold stripOf
  rw [hdrop, List.rdropWhile_eq_self_iff]
  intro hne
  rw [h _ (List.getLast_mem hne)]
  decide

theorem hexDigits_hexChars {ds : List ℕ} (hd : ∀ d ∈ ds, d < 0x10) (acc : ℕ) (ready : Bool) (hne : ready = true ∨ ds ≠ []) :
    hexDigits acc ready (hexChars ds) = some (ds.foldl (fun m d => 16 * m + d) acc) := by
  induction ds generalizing acc ready with
  | nil =>
    rcases hne with rfl | hne
    · rfl
    · exact absurd rfl hne
  | cons d ds ih =>
    simp only [hexChars, List.map_cons, hexDigits, hexDigit_hexChar (hd d List.mem_cons_self), List.foldl_cons]
    exact ih (fun e he => hd e (List.mem_cons_of_mem _ he)) _ _ (.inl rfl)

/-- The digits of a number in a fixed width, most significant first. -/
def hexValues (width n : ℕ) : List ℕ := (List.range width).map fun i => n / 0x10 ^ (width - 1 - i) % 0x10

theorem hexText_eq (width n : ℕ) : hexText width n = hexChars (hexValues width n) := by
  unfold hexText hexChars hexValues
  rw [List.map_map]
  rfl

theorem hexValues_lt {width n d : ℕ} (h : d ∈ hexValues width n) : d < 0x10 := by
  obtain ⟨i,-,rfl⟩ := List.mem_map.mp h
  exact Nat.mod_lt _ (by decide)

theorem hexValues_succ (width n : ℕ) : hexValues (width + 1) n = hexValues width (n / 0x10) ++ [n % 0x10] := by
  unfold hexValues
  rw [List.range_succ, List.map_append]
  congr 1
  · apply List.map_congr_left
    intro i hi
    rw [List.mem_range] at hi
    have hpow : width + 1 - 1 - i = (width - 1 - i) + 1 := by omega
    rw [hpow, pow_succ, Nat.mul_comm, Nat.div_div_eq_div_mul]
  · simp

theorem hexValues_foldl (width n : ℕ) : (hexValues width n).foldl (fun m d => 16 * m + d) 0 = n % 0x10 ^ width := by
  induction width generalizing n with
  | zero => simp [hexValues,Nat.mod_one]
  | succ width ih =>
    rw [hexValues_succ, List.foldl_append, ih]
    simp only [List.foldl_cons, List.foldl_nil]
    rw [pow_succ, Nat.mul_comm (0x10 ^ width), Nat.mod_mul]
    omega

theorem hexText_mem {width n : ℕ} {c : CodePoint} (h : c ∈ hexText width n) : ∃ d, d < 0x10 ∧ c = hexChar d := by
  rw [hexText_eq] at h
  obtain ⟨d,hd,rfl⟩ := List.mem_map.mp h
  exact ⟨d,hexValues_lt hd,rfl⟩

/-- A number of 32 hexadecimal digits is read as itself. -/
theorem intBase16_hexText {n : ℕ} (hn : n < 2 ^ 128) : intBase16 (hexText 32 n) = some n := by
  have hlow : ∀ c ∈ hexText 32 n, c.val < 127 ∧ isAsciiSpace c = false ∧ c.val ≠ 0x2b ∧ c.val ≠ 0x78 ∧ c.val ≠ 0x58 := by
    intro c hc
    obtain ⟨d,hd,rfl⟩ := hexText_mem hc
    have hval := hexChar_val hd
    refine ⟨by omega,?_,by omega,by omega,by omega⟩
    simp only [isAsciiSpace, Bool.or_eq_false_iff, Bool.and_eq_false_iff, beq_eq_false_iff_ne, decide_eq_false_iff_not]
    omega
  have hascii : asciiNumeral (hexText 32 n) = hexText 32 n := by
    unfold asciiNumeral
    conv_rhs => rw [← List.map_id (hexText 32 n)]
    apply List.map_congr_left
    intro c hc
    exact if_pos (hlow c hc).1
  have hlen : (hexText 32 n).length = 32 := by simp [hexText]
  have hdrop : (hexText 32 n).dropWhile isAsciiSpace = hexText 32 n := by
    rw [List.dropWhile_eq_self_iff]
    intro hl
    simp [(hlow _ (List.getElem_mem hl)).2.1]
  have hrdrop : (hexText 32 n).rdropWhile isAsciiSpace = hexText 32 n := by
    rw [List.rdropWhile_eq_self_iff]
    intro hne
    simp [(hlow _ (List.getLast_mem hne)).2.1]
  have hplus : ¬ (hexText 32 n).head? = some 0x2b := by
    intro h
    exact (hlow _ (List.mem_of_mem_head? h)).2.2.1 rfl
  have hx : ¬ ((hexText 32 n).take 2 = text "0x" ∨ (hexText 32 n).take 2 = text "0X") := by
    rintro (h | h)
    · have hmem : (0x78 : CodePoint) ∈ hexText 32 n := List.take_subset 2 _ (by rw [h]; decide)
      exact (hlow _ hmem).2.2.2.1 rfl
    · have hmem : (0x58 : CodePoint) ∈ hexText 32 n := List.take_subset 2 _ (by rw [h]; decide)
      exact (hlow _ hmem).2.2.2.2 rfl
  have hdigits : hexDigits 0 false (hexText 32 n) = some n := by
    have hmod : n % 0x10 ^ 32 = n := Nat.mod_eq_of_lt (lt_of_lt_of_eq hn (by norm_num))
    rw [hexText_eq, hexDigits_hexChars (fun d hd => hexValues_lt hd) 0 false (.inr ?_), hexValues_foldl, hmod]
    intro hnil
    have hzero := congrArg List.length hnil
    simp [hexValues] at hzero
  unfold intBase16
  simp only [hascii, hdrop, hrdrop, if_neg hplus, if_neg hx, hdigits]

/-- The text of an identifier is read as that identifier. -/
theorem parseUuid_uuidText (id : Uuid) : parseUuid (uuidText id) = some id := by
  have hhex : ∀ c ∈ uuidText id, c = 0x2d ∨ ∃ d, d < 0x10 ∧ c = hexChar d := by
    intro c hc
    have hsub : c = 0x2d ∨ c ∈ hexText 32 id.toNat := by
      simp only [uuidText, List.mem_append, List.mem_cons] at hc
      rcases hc with (((hc | hc | hc) | hc | hc) | hc | hc) | hc | hc
      · exact .inr (List.take_subset _ _ hc)
      · exact .inl hc
      · exact .inr (List.drop_subset _ _ (List.take_subset _ _ hc))
      · exact .inl hc
      · exact .inr (List.drop_subset _ _ (List.take_subset _ _ hc))
      · exact .inl hc
      · exact .inr (List.drop_subset _ _ (List.take_subset _ _ hc))
      · exact .inl hc
      · exact .inr (List.drop_subset _ _ hc)
    exact hsub.imp_right hexText_mem
  have hplain : ∀ p : CodePoint, (p.val = 0x75 ∨ p.val = 0x7b ∨ p.val = 0x7d) → p ∉ uuidText id := by
    intro p hp hm
    rcases hhex p hm with rfl | ⟨d,hd,rfl⟩
    · exact absurd hp (by decide)
    · have hval := hexChar_val hd
      omega
  have hurn : removeAll (text "urn:") (uuidText id) = uuidText id := removeAll_absent (hplain 0x75 (.inl rfl))
  have huuid : removeAll (text "uuid:") (uuidText id) = uuidText id := removeAll_absent (hplain 0x75 (.inl rfl))
  have hbraces : stripOf (text "\x7b\x7d") (uuidText id) = uuidText id := by
    apply stripOf_absent
    intro c hc
    have hb : text "\x7b\x7d" = [0x7b,0x7d] := by decide
    rw [hb, List.contains_eq_mem, decide_eq_false_iff_not]
    intro hm
    rcases List.mem_cons.mp hm with rfl | hm
    · exact hplain 0x7b (.inr (.inl rfl)) hc
    · rw [List.mem_singleton.mp hm] at hc
      exact hplain 0x7d (.inr (.inr rfl)) hc
  have hkeep : ∀ t : Text, (∀ c ∈ t, c ∈ hexText 32 id.toNat) → t.filter (fun c => !((0x2d : CodePoint) == c)) = t := by
    intro t ht
    rw [List.filter_eq_self]
    intro c hc
    obtain ⟨d,hd,rfl⟩ := hexText_mem (ht c hc)
    have hval := hexChar_val hd
    rw [Bool.not_eq_true', beq_eq_false_iff_ne]
    intro he
    have h2d : (hexChar d).val = 0x2d := congrArg Fin.val he.symm
    omega
  have hdash : removeAll (text "-") (uuidText id) = hexText 32 id.toNat := by
    have htext : text "-" = [0x2d] := by decide
    have hnone : ∀ t : Text, (0x2d :: t).filter (fun c => !((0x2d : CodePoint) == c)) =
        t.filter (fun c => !((0x2d : CodePoint) == c)) :=
      fun t => rfl
    have hsub : ∀ (i j : ℕ), ∀ c ∈ ((hexText 32 id.toNat).drop i).take j, c ∈ hexText 32 id.toNat :=
      fun i j c hc => List.drop_subset _ _ (List.take_subset _ _ hc)
    rw [htext, removeAll_single]
    simp only [uuidText, List.filter_append, hnone]
    rw [hkeep _ (fun c hc => List.take_subset _ _ hc), hkeep _ (hsub 8 4), hkeep _ (hsub 12 4), hkeep _ (hsub 16 4),
      hkeep _ (fun c hc => List.drop_subset _ _ hc)]
    have hjoin : ∀ (i j : ℕ), ((hexText 32 id.toNat).drop i).take j ++ (hexText 32 id.toNat).drop (i + j) =
        (hexText 32 id.toNat).drop i := by
      intro i j
      rw [← List.drop_drop, List.take_append_drop]
    simp only [List.append_assoc]
    rw [hjoin 16 4, hjoin 12 4, hjoin 8 4, List.take_append_drop]
  unfold parseUuid
  simp only [hurn, huuid, hbraces, hdash]
  rw [if_pos (by simp [hexText]), intBase16_hexText id.isLt]
  simp

end PyText
