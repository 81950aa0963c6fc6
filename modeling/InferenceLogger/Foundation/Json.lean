import InferenceLogger.Foundation.PyText

/-! # JSON values and the decoder of the standard library

`loads` follows `json.loads` on a `str`: the grammar it accepts (`NaN` and the
infinities included), the last value winning for a repeated key, surrogate escapes
kept when they do not pair up, and its three ways to fail. A finite non-integer
keeps its decimal literal; rounding it to a double is not observed anywhere.
-/
namespace PyJson
open PyText

inductive Number where
  | finite (mantissa exponent : ℤ)
  | infinity (negative : Bool)
  | nan

inductive Json where
  | null
  | bool (b : Bool)
  | int (n : ℤ)
  | float (x : Number)
  | str (t : Text)
  | arr (items : List Json)
  | obj (members : List (Text × Json))

abbrev Members := List (Text × Json)

/-- `dict.get(key)`. -/
def get (key : Text) (d : Members) : Option Json := (d.find? (fun m => m.1 == key)).map Prod.snd

/-- `d[key] = value`: a repeated key keeps its place and takes the new value. -/
def setItem (d : Members) (key : Text) (value : Json) : Members :=
  if d.any (fun m => m.1 == key) then d.map (fun m => if m.1 == key then (key,value) else m)
  else d ++ [(key,value)]

theorem get_eq_none {key : Text} {d : Members} : get key d = none ↔ ∀ m ∈ d, m.1 ≠ key := by
  simp [get]

theorem get_setItem (d : Members) (key k : Text) (value : Json) :
    get k (setItem d key value) = if key = k then some value else get k d := by
  unfold setItem get
  by_cases hany : d.any (fun m => m.1 == key) = true
  · rw [if_pos hany, List.find?_map]
    by_cases hk : key = k
    · subst hk
      have hcomp : ((fun m : Text × Json => m.1 == key) ∘ fun m => if m.1 == key then (key,value) else m) =
          fun m => m.1 == key := by
        funext m
        by_cases hm : m.1 = key <;> simp [hm]
      obtain ⟨m,hm⟩ := Option.isSome_iff_exists.mp (List.find?_isSome.mpr (List.any_eq_true.mp hany))
      have hkey := List.find?_some hm
      rw [hcomp, hm, if_pos rfl]
      simp only [Option.map_some, hkey, if_true]
    · have hcomp : ((fun m : Text × Json => m.1 == k) ∘ fun m => if m.1 == key then (key,value) else m) =
          fun m => m.1 == k := by
        funext m
        by_cases hm : m.1 = key <;> simp [hm]
      rw [hcomp, if_neg hk]
      cases hf : d.find? (fun m => m.1 == k) with
      | none => rfl
      | some m =>
        have hne : m.1 ≠ key := fun h => hk (h.symm.trans (by simpa using List.find?_some hf))
        simp [hne]
  · have hnone : d.find? (fun m => m.1 == key) = none :=
      List.find?_eq_none.mpr fun m hm hkey => hany (List.any_eq_true.mpr ⟨m,hm,hkey⟩)
    rw [if_neg hany, List.find?_append]
    by_cases hk : key = k
    · subst hk
      simp [hnone]
    · simp [hk]

/-- No key comes twice. -/
theorem nodup_setItem {d : Members} (h : (d.map Prod.fst).Nodup) (key : Text) (value : Json) :
    ((setItem d key value).map Prod.fst).Nodup := by
  unfold setItem
  split
  · have hkeys : (d.map fun m => if m.1 == key then (key,value) else m).map Prod.fst = d.map Prod.fst := by
      rw [List.map_map]
      refine List.map_congr_left fun m _ => ?_
      by_cases hm : m.1 = key <;> simp [hm]
    rwa [hkeys]
  · rename_i hnew
    rw [List.map_append]
    refine List.nodup_append.mpr ⟨h,by simp,fun a ha b hb hab => hnew ?_⟩
    obtain ⟨m,hm,rfl⟩ := List.mem_map.mp ha
    refine List.any_eq_true.mpr ⟨m,hm,?_⟩
    rw [hab, List.mem_singleton.mp hb]
    exact beq_self_eq_true key

def Number.isFinite : Number → Bool
  | .finite _ _ => true
  | _ => false

mutual
/-- Every string and key satisfies `p`, and every number `q`. -/
def Json.all (p : Text → Bool) (q : Number → Bool) : Json → Bool
  | .null => true
  | .bool _ => true
  | .int _ => true
  | .float x => q x
  | .str t => p t
  | .arr items => Json.allItems p q items
  | .obj members => Json.allMembers p q members

def Json.allItems (p : Text → Bool) (q : Number → Bool) : List Json → Bool
  | [] => true
  | v :: vs => v.all p q && Json.allItems p q vs

def Json.allMembers (p : Text → Bool) (q : Number → Bool) : List (Text × Json) → Bool
  | [] => true
  | (k,v) :: ms => p k && v.all p q && Json.allMembers p q ms
end

mutual
/-- A weaker condition on the strings. -/
theorem Json.all_anyText {p : Text → Bool} {q : Number → Bool} : ∀ v : Json, v.all p q = true → v.all (fun _ => true) q = true
  | .null, _ => rfl
  | .bool _, _ => rfl
  | .int _, _ => rfl
  | .float _, h => h
  | .str _, _ => rfl
  | .arr items, h => Json.allItems_anyText items h
  | .obj members, h => Json.allMembers_anyText members h

theorem Json.allItems_anyText {p : Text → Bool} {q : Number → Bool} :
    ∀ items : List Json, Json.allItems p q items = true → Json.allItems (fun _ => true) q items = true
  | [], _ => rfl
  | v :: vs, h => by
    rw [Json.allItems, Bool.and_eq_true] at h ⊢
    exact ⟨Json.all_anyText v h.1,Json.allItems_anyText vs h.2⟩

theorem Json.allMembers_anyText {p : Text → Bool} {q : Number → Bool} :
    ∀ ms : List (Text × Json), Json.allMembers p q ms = true → Json.allMembers (fun _ => true) q ms = true
  | [], _ => rfl
  | (k,v) :: ms, h => by
    rw [Json.allMembers, Bool.and_eq_true, Bool.and_eq_true] at h ⊢
    exact ⟨⟨rfl,Json.all_anyText v h.1.2⟩,Json.allMembers_anyText ms h.2⟩
end

mutual
/-- Nesting depth of lists and dictionaries. -/
def Json.depth : Json → ℕ
  | .arr items => Json.depthItems items + 1
  | .obj members => Json.depthMembers members + 1
  | _ => 0

def Json.depthItems : List Json → ℕ
  | [] => 0
  | v :: vs => max v.depth (Json.depthItems vs)

def Json.depthMembers : List (Text × Json) → ℕ
  | [] => 0
  | (_,v) :: ms => max v.depth (Json.depthMembers ms)
end

/-- The exceptions `json.loads` raises: the grammar's, the limit on integer digits, and
the interpreter's recursion limit. -/
inductive LoadsError where
  | decode
  | digits
  | recursion
  deriving DecidableEq

def isWhitespace (c : CodePoint) : Bool :=
  c.val == 0x20 || c.val == 0x09 || c.val == 0x0a || c.val == 0x0d

def skipWhitespace (t : Text) : Text := t.dropWhile isWhitespace

def isDigit (c : CodePoint) : Bool := 0x30 ≤ c.val && c.val ≤ 0x39

def digitsValue (t : Text) : ℕ := t.foldl (fun n c => 10 * n + (c.val - 0x30)) 0

/-- Four hexadecimal digits of a `\u` escape. -/
def fourHex : Text → Option (ℕ × Text)
  | a :: b :: c :: d :: rest =>
    match hexDigit a, hexDigit b, hexDigit c, hexDigit d with
    | some w, some x, some y, some z => some (((w * 16 + x) * 16 + y) * 16 + z, rest)
    | _, _, _, _ => none
  | _ => none

def simpleEscape (c : CodePoint) : Option CodePoint :=
  if c.val = 0x22 ∨ c.val = 0x5c ∨ c.val = 0x2f then some c
  else if c.val = 0x62 then some 0x08
  else if c.val = 0x66 then some 0x0c
  else if c.val = 0x6e then some 0x0a
  else if c.val = 0x72 then some 0x0d
  else if c.val = 0x74 then some 0x09
  else none

/-- A high surrogate followed by an escaped low one is one character. -/
def joinSurrogates (high : ℕ) (rest : Text) : CodePoint × Text :=
  match if (text "\\u").isPrefixOf rest then fourHex (rest.drop 2) else none with
  | none => (Fin.ofNat _ high, rest)
  | some (low, tail) =>
    if 0xd800 ≤ high ∧ high ≤ 0xdbff ∧ 0xdc00 ≤ low ∧ low ≤ 0xdfff then
      (Fin.ofNat _ (0x10000 + (high - 0xd800) * 0x400 + (low - 0xdc00)), tail)
    else (Fin.ofNat _ high, rest)

/-- The rest of a string literal after its opening quote. Control characters are refused.
The fuel is the length of the text: each round consumes a character. -/
def scanString : ℕ → Text → Except LoadsError (Text × Text)
  | 0, _ => .error .decode
  | _ + 1, [] => .error .decode
  | fuel + 1, c :: rest =>
    if c.val = 0x22 then .ok ([], rest)
    else if c.val < 0x20 then .error .decode
    else if c.val = 0x5c then
      match rest with
      | [] => .error .decode
      | e :: more =>
        if e.val = 0x75 then
          match fourHex more with
          | none => .error .decode
          | some (u, tail) => do
            let (ch, tail) := joinSurrogates u tail
            let (t, tail) ← scanString fuel tail
            return (ch :: t, tail)
        else match simpleEscape e with
          | none => .error .decode
          | some ch => do
            let (t, tail) ← scanString fuel more
            return (ch :: t, tail)
    else do
      let (t, tail) ← scanString fuel rest
      return (c :: t, tail)

/-- `sys.get_int_max_str_digits()`. -/
def maxStrDigits : ℕ := 4300

/-- A decimal of at least `2^1024 - 2^970` rounds to an infinite double. -/
def overflows (mantissa : ℕ) (exponent : ℤ) : Bool :=
  let magnitude := (Nat.toDigits 10 mantissa).length + exponent
  if mantissa = 0 ∨ magnitude < 300 then false
  else if 320 < magnitude then true
  else if 0 ≤ exponent then decide (2 ^ 1024 - 2 ^ 970 ≤ mantissa * 10 ^ exponent.toNat)
  else decide ((2 ^ 1024 - 2 ^ 970) * 10 ^ (-exponent).toNat ≤ mantissa)

def floatValue (negative : Bool) (mantissa : ℕ) (exponent : ℤ) : Number :=
  if overflows mantissa exponent then .infinity negative
  else .finite (if negative then -(mantissa : ℤ) else mantissa) exponent

/-- The exponent part, when a digit follows the letter and its sign. -/
def scanExponent (t : Text) : ℤ × Text × Bool :=
  match t with
  | c :: rest =>
    if c.val = 0x65 ∨ c.val = 0x45 then
      let negative := rest.head? = some 0x2d
      let unsigned := if negative ∨ rest.head? = some 0x2b then rest.tail else rest
      let ds := unsigned.takeWhile isDigit
      if ds = [] then (0, t, false)
      else ((if negative then -(digitsValue ds : ℤ) else digitsValue ds), unsigned.dropWhile isDigit, true)
    else (0, t, false)
  | [] => (0, [], false)

/-- The fraction digits, when one follows the point. -/
def scanFraction (t : Text) : Text × Text :=
  match t with
  | c :: rest =>
    if c.val = 0x2e ∧ rest.takeWhile isDigit ≠ [] then (rest.takeWhile isDigit, rest.dropWhile isDigit)
    else ([], t)
  | [] => ([], [])

/-- `-?(0|[1-9][0-9]*)(\.[0-9]+)?([eE][-+]?[0-9]+)?`. -/
def scanNumber (t : Text) : Except LoadsError (Json × Text) :=
  let negative := t.head? = some 0x2d
  let unsigned := if negative then t.tail else t
  let whole := if unsigned.head? = some 0x30 then [0x30] else unsigned.takeWhile isDigit
  if whole = [] then .error .decode
  else
    let (fraction, afterFraction) := scanFraction (unsigned.drop whole.length)
    let (exponent, rest, hasExponent) := scanExponent afterFraction
    if fraction = [] ∧ ¬ hasExponent then
      if maxStrDigits < whole.length then .error .digits
      else .ok (.int (if negative then -(digitsValue whole : ℤ) else digitsValue whole), rest)
    else .ok (.float (floatValue negative (digitsValue (whole ++ fraction)) (exponent - fraction.length)), rest)

/-- A constant keyword at the front of the text. -/
def keyword (t : Text) : Option (Json × Text) :=
  if (text "null").isPrefixOf t then some (.null, t.drop 4)
  else if (text "true").isPrefixOf t then some (.bool true, t.drop 4)
  else if (text "false").isPrefixOf t then some (.bool false, t.drop 5)
  else if (text "NaN").isPrefixOf t then some (.float .nan, t.drop 3)
  else if (text "Infinity").isPrefixOf t then some (.float (.infinity false), t.drop 8)
  else if (text "-Infinity").isPrefixOf t then some (.float (.infinity true), t.drop 9)
  else none

/-- The items after an opening bracket; `value` reads one nested value. -/
def scanItems (value : Text → Except LoadsError (Json × Text)) :
    ℕ → Text → Except LoadsError (List Json × Text)
  | 0, _ => .error .decode
  | fuel + 1, t => do
    let (v, rest) ← value t
    match skipWhitespace rest with
    | [] => .error .decode
    | c :: more =>
      if c.val = 0x2c then do
        let (vs, tail) ← scanItems value fuel (skipWhitespace more)
        return (v :: vs, tail)
      else if c.val = 0x5d then return ([v], more)
      else .error .decode

/-- A quoted key, the colon after it, and the value. -/
def scanMember (value : Text → Except LoadsError (Json × Text)) (t : Text) :
    Except LoadsError ((Text × Json) × Text) :=
  match t with
  | [] => .error .decode
  | c :: afterQuote =>
    if c.val = 0x22 then do
      let (key, rest) ← scanString (afterQuote.length + 1) afterQuote
      match skipWhitespace rest with
      | [] => .error .decode
      | colon :: more =>
        if colon.val = 0x3a then do
          let (v, rest) ← value (skipWhitespace more)
          return ((key,v), rest)
        else .error .decode
    else .error .decode

/-- The members after an opening brace, added to the dictionary from left to right. -/
def scanMembers (value : Text → Except LoadsError (Json × Text)) :
    ℕ → Members → Text → Except LoadsError (Members × Text)
  | 0, _, _ => .error .decode
  | fuel + 1, d, t => do
    let (m, rest) ← scanMember value t
    match skipWhitespace rest with
    | [] => .error .decode
    | c :: more =>
      if c.val = 0x2c then scanMembers value fuel (setItem d m.1 m.2) (skipWhitespace more)
      else if c.val = 0x7d then return (setItem d m.1 m.2, more)
      else .error .decode

/-- A dictionary after its opening brace. -/
def scanObject (value : Text → Except LoadsError (Json × Text)) (t : Text) :
    Except LoadsError (Json × Text) := do
  let body := skipWhitespace t
  if body.head? = some 0x7d then return (.obj [], body.tail)
  let (d, tail) ← scanMembers value (body.length + 1) [] body
  return (.obj d, tail)

/-- A list after its opening bracket. -/
def scanArray (value : Text → Except LoadsError (Json × Text)) (t : Text) :
    Except LoadsError (Json × Text) := do
  let body := skipWhitespace t
  if body.head? = some 0x5d then return (.arr [], body.tail)
  let (vs, tail) ← scanItems value (body.length + 1) body
  return (.arr vs, tail)

/-- One value at the front of the text; `nested` is absent at the recursion limit. -/
def scanWith (nested : Option (Text → Except LoadsError (Json × Text))) (t : Text) :
    Except LoadsError (Json × Text) :=
  match t with
  | [] => .error .decode
  | c :: rest =>
    if c.val = 0x22 then do
      let (s, tail) ← scanString (rest.length + 1) rest
      return (.str s, tail)
    else if c.val = 0x7b then
      match nested with
      | none => .error .recursion
      | some value => scanObject value rest
    else if c.val = 0x5b then
      match nested with
      | none => .error .recursion
      | some value => scanArray value rest
    else match keyword t with
      | some r => .ok r
      | none => scanNumber t

def scanOnce : ℕ → Text → Except LoadsError (Json × Text)
  | 0 => scanWith none
  | limit + 1 => scanWith (some (scanOnce limit))

/-- `json.loads(t)` with `limit` levels of recursion left. -/
def loads (limit : ℕ) (t : Text) : Except LoadsError Json :=
  if t.head? = some 0xfeff then .error .decode
  else do
    let (v, rest) ← scanOnce limit (skipWhitespace t)
    if skipWhitespace rest = [] then return v else .error .decode

example : (loads 9 (text "[1, true, \"a\\u0041\"] ")).isOk = true := by decide +kernel
example : (loads 9 (text "[1,]")).isOk = false := by decide
example : (loads 1 (text "[[]]")).isOk = false := by decide

end PyJson
