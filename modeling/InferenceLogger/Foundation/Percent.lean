import InferenceLogger.Foundation.Utf
import Mathlib.Data.List.Infix

/-! # Percent-encoding

`urllib.parse.quote` and `unquote`. A text comes back from its encoding; a text that was not
encoded comes back as it is if and only if nothing in it reads as an escape, since reading an
escape makes it shorter. The parts of such a text are cut at delimiters.
-/
namespace Percent
open PyText Utf

/-- `_ALWAYS_SAFE`. -/
def isSafe (n : ℕ) : Bool :=
  (0x41 ≤ n && n ≤ 0x5a) || (0x61 ≤ n && n ≤ 0x7a) || (0x30 ≤ n && n ≤ 0x39) ||
  n == 0x5f || n == 0x2e || n == 0x2d || n == 0x7e

/-- A digit of `%X`. -/
def upperHex (d : ℕ) : CodePoint := if d < 10 then Fin.ofNat _ (0x30 + d) else Fin.ofNat _ (0x37 + d)

def quoteByte (b : Byte) : Text :=
  if isSafe b.val then [Fin.ofNat _ b.val] else [0x25,upperHex (b.val / 0x10),upperHex (b.val % 0x10)]

/-- `quote(t, safe="")`; `none` is the `UnicodeEncodeError`. -/
def quote (t : Text) : Option Text := (utf8 t).map fun bs => bs.flatMap quoteByte

/-- The byte of an ASCII character. -/
def byteOf (c : CodePoint) : Byte := Fin.ofNat _ c.val

/-- The byte of an escape at the front. -/
def escaped : Text → Option Byte
  | c :: a :: b :: _ =>
    if c.val = 0x25 then (hexDigit a).bind fun x => (hexDigit b).map fun y => Fin.ofNat _ (0x10 * x + y)
    else none
  | _ => none

/-- `unquote_to_bytes` of an ASCII text, after this many characters of an escape that was read. -/
def unquoteBytes : ℕ → Text → List Byte
  | _, [] => []
  | skip + 1, _ :: cs => unquoteBytes skip cs
  | 0, c :: cs => match escaped (c :: cs) with
    | some b => b :: unquoteBytes 2 cs
    | none => byteOf c :: unquoteBytes 0 cs

/-- The replacement character that an unfinished sequence leaves at the end. -/
def unfinished (u : Option Unfinished) : Text := if u.isSome then [0xfffd] else []

/-- `bs.decode("utf-8", errors="replace")`. -/
def decodeReplace (bs : List Byte) : Text := (readBytes none bs).1 ++ unfinished (readBytes none bs).2

/-- The ASCII stretches are unquoted, each decoded by itself, and the others kept. -/
def unquoteRuns : Text → Text → Text
  | run, [] => decodeReplace (unquoteBytes 0 run)
  | run, c :: cs => if c.val < 0x80 then unquoteRuns (run ++ [c]) cs
    else decodeReplace (unquoteBytes 0 run) ++ c :: unquoteRuns [] cs

def unquote (t : Text) : Text := if t.contains 0x25 then unquoteRuns [] t else t

/-- Something in the text reads as an escape. -/
def hasEscape : Text → Bool
  | [] => false
  | c :: cs => (escaped (c :: cs)).isSome || hasEscape cs

/-! ## What was not encoded -/

theorem escaped_length {t : Text} {b : Byte} (h : escaped t = some b) : 3 ≤ t.length := by
  match t, h with
  | [], h | [_], h | [_,_], h => cases h
  | _ :: _ :: _ :: rest, _ =>
    simp only [List.length_cons]
    omega

theorem unquoteBytes_length (skip : ℕ) (t : Text) : (unquoteBytes skip t).length ≤ t.length - skip := by
  induction t generalizing skip with
  | nil => exact Nat.zero_le _
  | cons c cs ih =>
    cases skip with
    | succ skip =>
      have hrest := ih skip
      simp only [unquoteBytes, List.length_cons]
      omega
    | zero =>
      simp only [unquoteBytes]
      split
      · rename_i b hb
        have hlength := escaped_length hb
        have hrest := ih 2
        simp only [List.length_cons] at hlength ⊢
        omega
      · have hrest := ih 0
        simp only [List.length_cons]
        omega

theorem unquoteBytes_shorter {t : Text} (h : hasEscape t = true) : (unquoteBytes 0 t).length < t.length := by
  induction t with
  | nil => cases h
  | cons c cs ih =>
    simp only [unquoteBytes]
    split
    · rename_i b hb
      have hlength := escaped_length hb
      have hrest := unquoteBytes_length 2 cs
      simp only [List.length_cons] at hlength ⊢
      omega
    · rename_i hnone
      simp only [hasEscape, hnone, Option.isSome_none, Bool.false_or] at h
      exact Nat.succ_lt_succ (ih h)

theorem firstByte_length (b : Byte) : (firstByte b).1.length + (unfinished (firstByte b).2).length ≤ 1 := by
  unfold firstByte
  split
  · exact Nat.le_refl 1
  split
  · exact Nat.le_refl 1
  split
  · exact Nat.le_refl 1
  split
  · exact Nat.le_refl 1
  · exact Nat.le_refl 1

theorem nextByte_length (u : Option Unfinished) (b : Byte) :
    (nextByte u b).1.length + (unfinished (nextByte u b).2).length ≤ 1 + (unfinished u).length := by
  have hfirst := firstByte_length b
  cases u with
  | none => exact hfirst
  | some u =>
    have hone : (unfinished (some u)).length = 1 := rfl
    simp only [nextByte]
    split
    · split
      · exact Nat.le_succ 1
      · exact Nat.le_succ 1
    · simp only [List.length_cons, hone]
      omega

/-- A character for each byte, and one for what is unfinished. -/
theorem readBytes_length (u : Option Unfinished) (bs : List Byte) :
    (readBytes u bs).1.length + (unfinished (readBytes u bs).2).length ≤ bs.length + (unfinished u).length := by
  induction bs generalizing u with
  | nil => exact Nat.le_refl _
  | cons b bs ih =>
    have hnext := nextByte_length u b
    have hrest := ih (nextByte u b).2
    simp only [readBytes, List.length_append, List.length_cons]
    omega

theorem decodeReplace_length (bs : List Byte) : (decodeReplace bs).length ≤ bs.length := by
  have h := readBytes_length none bs
  rw [decodeReplace, List.length_append]
  exact h

theorem unquoteRuns_length (run t : Text) : (unquoteRuns run t).length ≤ run.length + t.length := by
  induction t generalizing run with
  | nil => exact (decodeReplace_length _).trans (unquoteBytes_length 0 run)
  | cons c cs ih =>
    simp only [unquoteRuns]
    split
    · have hrest := ih (run ++ [c])
      simp only [List.length_append, List.length_cons, List.length_nil] at hrest ⊢
      omega
    · have hrun := (decodeReplace_length _).trans (unquoteBytes_length 0 run)
      have hrest := ih []
      simp only [List.length_append, List.length_cons, List.length_nil] at hrest ⊢
      omega

/-- No escape goes across a character that is not ASCII. -/
theorem escaped_append {c : CodePoint} (hc : ¬ c.val < 0x80) {x : CodePoint} (xs cs : Text) :
    escaped (x :: xs ++ c :: cs) = escaped (x :: xs) := by
  have hnone : hexDigit c = none := by
    unfold hexDigit
    rw [if_neg (by omega), if_neg (by omega), if_neg (by omega)]
  match xs with
  | [] => cases cs <;> simp [escaped,hnone]
  | [y] => simp [escaped,hnone]
  | y :: z :: xs => rfl

theorem hasEscape_append {c : CodePoint} (hc : ¬ c.val < 0x80) (xs cs : Text) :
    hasEscape (xs ++ c :: cs) = (hasEscape xs || hasEscape cs) := by
  induction xs with
  | nil =>
    have hnone : escaped (c :: cs) = none := by
      unfold escaped
      split
      · rename_i heq
        cases heq
        rw [if_neg (by omega)]
      · rfl
    simp [hasEscape,hnone]
  | cons x xs ih =>
    rw [List.cons_append, hasEscape, ← List.cons_append, escaped_append hc, ih, hasEscape, Bool.or_assoc]

theorem unquoteRuns_shorter {run t : Text} (h : hasEscape (run ++ t) = true) :
    (unquoteRuns run t).length < run.length + t.length := by
  induction t generalizing run with
  | nil =>
    rw [List.append_nil] at h
    exact (decodeReplace_length _).trans_lt (unquoteBytes_shorter h)
  | cons c cs ih =>
    simp only [unquoteRuns]
    split
    · have hrest := @ih (run ++ [c]) (by rwa [List.append_assoc])
      simp only [List.length_append, List.length_cons, List.length_nil] at hrest ⊢
      omega
    · rename_i hc
      rw [hasEscape_append hc, Bool.or_eq_true] at h
      have hrest := unquoteRuns_length [] cs
      have hrun := (decodeReplace_length _).trans (unquoteBytes_length 0 run)
      simp only [List.length_append, List.length_cons, List.length_nil] at hrest ⊢
      rcases h with h | h
      · have hless := (decodeReplace_length _).trans_lt (unquoteBytes_shorter h)
        omega
      · have hless := @ih [] h
        simp only [List.length_nil] at hless
        omega

theorem unquote_length (t : Text) : (unquote t).length ≤ t.length := by
  unfold unquote
  split
  · have h := unquoteRuns_length [] t
    rwa [List.length_nil, Nat.zero_add] at h
  · exact Nat.le_refl _

/-! ## Texts without an escape -/

theorem readBytes_ascii {t : Text} (h : ∀ c ∈ t, c.val < 0x80) : readBytes none (t.map byteOf) = (t,none) := by
  induction t with
  | nil => rfl
  | cons c t ih =>
    have hc := h c List.mem_cons_self
    have hval : (byteOf c).val = c.val := Nat.mod_eq_of_lt (by omega)
    have hfirst : nextByte none (byteOf c) = ([c],none) := by
      simp only [nextByte, firstByte, hval]
      rw [if_pos hc, ofNat_bits c.isLt rfl]
    rw [List.map_cons]
    simp only [readBytes, hfirst, ih fun d hd => h d (List.mem_cons_of_mem _ hd)]
    rfl

theorem unquoteBytes_plain {t : Text} (h : hasEscape t = false) : unquoteBytes 0 t = t.map byteOf := by
  induction t with
  | nil => rfl
  | cons c t ih =>
    simp only [hasEscape, Bool.or_eq_false_iff, Option.isSome_eq_false_iff, Option.isNone_iff_eq_none] at h
    simp only [unquoteBytes, h.1]
    rw [ih h.2, List.map_cons]

theorem decodeReplace_plain {t : Text} (ha : ∀ c ∈ t, c.val < 0x80) (h : hasEscape t = false) :
    decodeReplace (unquoteBytes 0 t) = t := by
  rw [unquoteBytes_plain h]
  unfold decodeReplace
  rw [readBytes_ascii ha]
  exact List.append_nil t

theorem unquoteRuns_plain {run t : Text} (ha : ∀ c ∈ run, c.val < 0x80) (h : hasEscape (run ++ t) = false) :
    unquoteRuns run t = run ++ t := by
  induction t generalizing run with
  | nil =>
    rw [List.append_nil] at h ⊢
    exact decodeReplace_plain ha h
  | cons c cs ih =>
    simp only [unquoteRuns]
    split
    · rename_i hc
      have hrun : ∀ d ∈ run ++ [c], d.val < 0x80 := by
        intro d hd
        rcases List.mem_append.mp hd with hd | hd
        · exact ha d hd
        · rw [List.mem_singleton.mp hd]
          exact hc
      rw [ih hrun (by rwa [List.append_assoc]), List.append_assoc]
      rfl
    · rename_i hc
      rw [hasEscape_append hc, Bool.or_eq_false_iff] at h
      rw [decodeReplace_plain ha h.1, @ih [] (List.forall_mem_nil _) h.2]
      rfl

theorem hasEscape_without {t : Text} (h : t.contains 0x25 = false) : hasEscape t = false := by
  induction t with
  | nil => rfl
  | cons c t ih =>
    simp only [List.contains_cons, Bool.or_eq_false_iff] at h
    have hnone : escaped (c :: t) = none := by
      unfold escaped
      split
      · rename_i heq
        cases heq
        refine if_neg fun hc => ?_
        have hne := ne_of_beq_false h.1
        exact hne (Fin.ext hc.symm)
      · rfl
    rw [hasEscape, hnone, ih h.2]
    rfl

/-- A text that was not encoded is read as it is if and only if nothing in it is an escape. -/
theorem unquote_eq_self_iff (t : Text) : unquote t = t ↔ hasEscape t = false := by
  unfold unquote
  split
  · constructor
    · intro h
      by_contra hesc
      have hless := @unquoteRuns_shorter [] t (by simpa using hesc)
      rw [h, List.length_nil] at hless
      omega
    · intro h
      exact @unquoteRuns_plain [] t (List.forall_mem_nil _) h
  · rename_i h
    exact ⟨fun _ => hasEscape_without (by simpa using h),fun _ => rfl⟩

/-! ## What was encoded -/

theorem hexDigit_upperHex {d : ℕ} (h : d < 0x10) : hexDigit (upperHex d) = some d := by
  have hall : ∀ d < 0x10, hexDigit (upperHex d) = some d := by decide
  exact hall d h

theorem isSafe_ascii {n : ℕ} (h : isSafe n = true) : n < 0x80 ∧ n ≠ 0x25 := by
  have hall : ∀ n < 0x80, isSafe n = true → n ≠ 0x25 := by decide
  have hlt : n < 0x80 := by
    by_contra hn
    simp [isSafe] at h
    omega
  exact ⟨hlt,hall n hlt h⟩

/-- What an encoding is made of. -/
def isQuoted (c : CodePoint) : Bool := isSafe c.val || c.val == 0x25

theorem quoteByte_quoted {b : Byte} {c : CodePoint} (h : c ∈ quoteByte b) : isQuoted c = true := by
  unfold quoteByte at h
  split at h
  · rename_i hsafe
    rw [List.mem_singleton] at h
    subst h
    have hval : (Fin.ofNat 0x110000 b.val).val = b.val := Nat.mod_eq_of_lt (by omega)
    rw [isQuoted, hval, hsafe]
    rfl
  · have hdigits : ∀ d < 0x10, isQuoted (upperHex d) = true := by decide
    simp only [List.mem_cons, List.not_mem_nil, or_false] at h
    rcases h with rfl | rfl | rfl
    · rfl
    · exact hdigits _ (by omega)
    · exact hdigits _ (by omega)

theorem quote_quoted {t q : Text} (h : quote t = some q) : ∀ c ∈ q, isQuoted c = true := by
  obtain ⟨bs,-,rfl⟩ := Option.map_eq_some_iff.mp h
  intro c hc
  obtain ⟨b,-,hb⟩ := List.mem_flatMap.mp hc
  exact quoteByte_quoted hb

theorem isQuoted_ascii {c : CodePoint} (h : isQuoted c = true) : c.val < 0x80 := by
  rw [isQuoted, Bool.or_eq_true] at h
  rcases h with h | h
  · exact (isSafe_ascii h).1
  · have hc := eq_of_beq h
    omega

theorem unquoteBytes_quoteByte (b : Byte) (rest : Text) :
    unquoteBytes 0 (quoteByte b ++ rest) = b :: unquoteBytes 0 rest := by
  unfold quoteByte
  split
  · rename_i hsafe
    have hascii := isSafe_ascii hsafe
    have hval : (Fin.ofNat 0x110000 b.val).val = b.val := Nat.mod_eq_of_lt (by omega)
    have hnone : escaped (Fin.ofNat 0x110000 b.val :: rest) = none := by
      unfold escaped
      split
      · rename_i heq
        cases heq
        rw [if_neg (by rw [hval]; exact hascii.2)]
      · rfl
    rw [List.singleton_append, unquoteBytes]
    simp only [hnone]
    have hbyte : byteOf (Fin.ofNat 0x110000 b.val) = b := by
      unfold byteOf
      rw [hval]
      exact Fin.ext (Nat.mod_eq_of_lt b.isLt)
    rw [hbyte]
  · have hvalue : (Fin.ofNat 0x100 (0x10 * (b.val / 0x10) + b.val % 0x10) : Byte) = b := by
      refine Fin.ext ((Nat.mod_eq_of_lt ?_).trans ?_)
      · omega
      · omega
    have hsome : escaped (0x25 :: upperHex (b.val / 0x10) :: upperHex (b.val % 0x10) :: rest) = some b := by
      simp only [escaped, hexDigit_upperHex (show b.val / 0x10 < 0x10 by omega),
        hexDigit_upperHex (show b.val % 0x10 < 0x10 by omega), Option.bind_some, Option.map_some, hvalue]
      rfl
    simp only [List.cons_append, List.nil_append, unquoteBytes, hsome]

theorem unquoteBytes_quoted (bs : List Byte) : unquoteBytes 0 (bs.flatMap quoteByte) = bs := by
  induction bs with
  | nil => rfl
  | cons b bs ih => rw [List.flatMap_cons, unquoteBytes_quoteByte, ih]

theorem unquoteRuns_ascii {run t : Text} (h : ∀ c ∈ t, c.val < 0x80) :
    unquoteRuns run t = decodeReplace (unquoteBytes 0 (run ++ t)) := by
  induction t generalizing run with
  | nil => rw [List.append_nil, unquoteRuns]
  | cons c cs ih =>
    rw [unquoteRuns, if_pos (h c List.mem_cons_self), ih fun d hd => h d (List.mem_cons_of_mem _ hd), List.append_assoc]
    rfl

/-- What was encoded is read back. -/
theorem unquote_quote {t q : Text} (h : quote t = some q) : unquote q = t := by
  have hascii : ∀ c ∈ q, c.val < 0x80 := fun c hc => isQuoted_ascii (quote_quoted h c hc)
  have hruns : unquoteRuns [] q = t := by
    obtain ⟨bs,hbs,rfl⟩ := Option.map_eq_some_iff.mp h
    rw [unquoteRuns_ascii hascii, List.nil_append, unquoteBytes_quoted]
    unfold decodeReplace
    rw [readBytes_utf8 hbs]
    exact List.append_nil t
  unfold unquote
  split
  · exact hruns
  · rename_i hnone
    have hplain := @unquoteRuns_plain [] q (List.forall_mem_nil _) (hasEscape_without (by simpa using hnone))
    exact hplain.symm.trans hruns

theorem quote_isSome {t : Text} (h : encodable t = true) : ∃ q, quote t = some q := by
  obtain ⟨bs,hbs⟩ := utf8_isSome h
  exact ⟨_,congrArg (Option.map _) hbs⟩

theorem quote_ne_nil {t q : Text} (h : quote t = some q) (ht : t ≠ []) : q ≠ [] := by
  rintro rfl
  exact ht (unquote_quote h).symm

/-! ## Delimiters -/

/-- What stands before and after the first delimiter. -/
def cut (c : CodePoint) : Text → Option (Text × Text)
  | [] => none
  | d :: t => if d = c then some ([],t) else (cut c t).map fun parts => (d :: parts.1,parts.2)

theorem cut_append {c : CodePoint} {a : Text} (h : c ∉ a) (b : Text) : cut c (a ++ c :: b) = some (a,b) := by
  induction a with
  | nil => exact if_pos rfl
  | cons d a ih =>
    rw [List.mem_cons, not_or] at h
    rw [List.cons_append, cut, if_neg fun hd => h.1 hd.symm, ih h.2]
    rfl

theorem cut_eq_some {c : CodePoint} {t a b : Text} (h : cut c t = some (a,b)) : t = a ++ c :: b ∧ c ∉ a := by
  induction t generalizing a b with
  | nil => cases h
  | cons d t ih =>
    rw [cut] at h
    split at h
    · rename_i hd
      cases h
      exact ⟨congrArg (· :: _) hd,List.not_mem_nil⟩
    · rename_i hd
      obtain ⟨⟨x,y⟩,hxy,heq⟩ := Option.map_eq_some_iff.mp h
      cases heq
      obtain ⟨rfl,hx⟩ := ih hxy
      refine ⟨rfl,?_⟩
      rw [List.mem_cons, not_or]
      exact ⟨fun he => hd he.symm,hx⟩

/-- A part without the delimiter ends no later than any other reading of it. -/
theorem part_length {c : CodePoint} {a b x y : Text} (h : a ++ c :: x = b ++ c :: y) (ha : c ∉ a) :
    a.length ≤ b.length := by
  rcases List.append_eq_append_iff.mp h with ⟨more,rfl,-⟩ | ⟨more,rfl,hmore⟩
  · rw [List.length_append]
    exact Nat.le_add_right _ _
  · cases more with
    | nil => exact Nat.le_of_eq (congrArg List.length (List.append_nil b))
    | cons d more =>
      cases hmore
      exact absurd (List.mem_append_right b List.mem_cons_self) ha

theorem parts_agree {c : CodePoint} {a b x y : Text} (h : a ++ c :: x = b ++ c :: y) (ha : c ∉ a)
    (hlength : b.length ≤ a.length) : a = b ∧ x = y := by
  obtain ⟨hab,hxy⟩ := List.append_inj h (Nat.le_antisymm (part_length h ha) hlength)
  exact ⟨hab,List.tail_eq_of_cons_eq hxy⟩

end Percent
