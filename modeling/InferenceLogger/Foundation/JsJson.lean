import InferenceLogger.Foundation.Utf

/-! # `JSON.parse`

The grammar a browser accepts, over code units. A number keeps its decimal literal; rounding
it to a double is not observed anywhere.
-/
namespace JsJson
open Utf

inductive JsValue where
  | null
  | bool (b : Bool)
  | number (mantissa exponent : ℤ)
  | string (s : JsString)
  | array (items : List JsValue)
  | object (members : List (JsString × JsValue))

abbrev Members := List (JsString × JsValue)

/-- A member of an object that has it; `undefined` otherwise. -/
def JsValue.member (key : JsString) : JsValue → Option JsValue
  | .object members => (members.find? (fun m => m.1 == key)).map Prod.snd
  | _ => none

/-- A repeated key takes the new value. -/
def setMember (d : Members) (key : JsString) (value : JsValue) : Members :=
  if d.any (fun m => m.1 == key) then d.map (fun m => if m.1 == key then (key,value) else m)
  else d ++ [(key,value)]

def isWhitespace (c : CodeUnit) : Bool :=
  c.val == 0x20 || c.val == 0x09 || c.val == 0x0a || c.val == 0x0d

def skipWhitespace (t : JsString) : JsString := t.dropWhile isWhitespace

def isDigit (c : CodeUnit) : Bool := 0x30 ≤ c.val && c.val ≤ 0x39

def digitsValue (t : JsString) : ℕ := t.foldl (fun n c => 10 * n + (c.val - 0x30)) 0

def hexDigit (c : CodeUnit) : Option ℕ :=
  if 0x61 ≤ c.val ∧ c.val ≤ 0x66 then some (c.val - 0x57)
  else if 0x41 ≤ c.val ∧ c.val ≤ 0x46 then some (c.val - 0x37)
  else if 0x30 ≤ c.val ∧ c.val ≤ 0x39 then some (c.val - 0x30)
  else none

def fourHex (a b c d : CodeUnit) : Option CodeUnit := do
  let w ← hexDigit a
  let x ← hexDigit b
  let y ← hexDigit c
  let z ← hexDigit d
  return Fin.ofNat _ (((w * 16 + x) * 16 + y) * 16 + z)

def simpleEscape (c : CodeUnit) : Option CodeUnit :=
  if c.val = 0x22 ∨ c.val = 0x5c ∨ c.val = 0x2f then some c
  else if c.val = 0x62 then some 0x08
  else if c.val = 0x66 then some 0x0c
  else if c.val = 0x6e then some 0x0a
  else if c.val = 0x72 then some 0x0d
  else if c.val = 0x74 then some 0x09
  else none

/-- The rest of a string literal after its opening quote. -/
def scanString : JsString → Option (JsString × JsString)
  | [] => none
  | c :: rest =>
    if c.val = 0x22 then some ([],rest)
    else if c.val < 0x20 then none
    else if c.val = 0x5c then
      match rest with
      | [] => none
      | e :: more =>
        if e.val = 0x75 then
          match more with
          | h1 :: h2 :: h3 :: h4 :: tail => do
            let unit ← fourHex h1 h2 h3 h4
            let (s,after) ← scanString tail
            return (unit :: s,after)
          | _ => none
        else do
          let unit ← simpleEscape e
          let (s,after) ← scanString more
          return (unit :: s,after)
    else do
      let (s,after) ← scanString rest
      return (c :: s,after)

/-- The fraction digits, when one follows the point. -/
def scanFraction (t : JsString) : JsString × JsString :=
  match t with
  | c :: rest =>
    if c.val = 0x2e ∧ rest.takeWhile isDigit ≠ [] then (rest.takeWhile isDigit,rest.dropWhile isDigit)
    else ([],t)
  | [] => ([],[])

/-- The exponent part, when a digit follows the letter and its sign. -/
def scanExponent (t : JsString) : ℤ × JsString :=
  match t with
  | c :: rest =>
    if c.val = 0x65 ∨ c.val = 0x45 then
      let negative := rest.head? = some 0x2d
      let unsigned := if negative ∨ rest.head? = some 0x2b then rest.tail else rest
      let digits := unsigned.takeWhile isDigit
      if digits = [] then (0,t)
      else (if negative then -(digitsValue digits : ℤ) else digitsValue digits,unsigned.dropWhile isDigit)
    else (0,t)
  | [] => (0,[])

/-- `-?(0|[1-9][0-9]*)(\.[0-9]+)?([eE][-+]?[0-9]+)?`. -/
def scanNumber (t : JsString) : Option (JsValue × JsString) :=
  let negative := t.head? = some 0x2d
  let unsigned := if negative then t.tail else t
  let whole := if unsigned.head? = some 0x30 then [0x30] else unsigned.takeWhile isDigit
  if whole = [] then none
  else
    let (fraction,afterFraction) := scanFraction (unsigned.drop whole.length)
    let (exponent,rest) := scanExponent afterFraction
    let magnitude : ℤ := digitsValue (whole ++ fraction)
    some (.number (if negative then -magnitude else magnitude) (exponent - fraction.length),rest)

def jsText (s : String) : JsString := utf16 (PyText.text s)

/-- A literal name at the front of the text. -/
def keyword (t : JsString) : Option (JsValue × JsString) :=
  if (jsText "null").isPrefixOf t then some (.null,t.drop 4)
  else if (jsText "true").isPrefixOf t then some (.bool true,t.drop 4)
  else if (jsText "false").isPrefixOf t then some (.bool false,t.drop 5)
  else none

/-- The items after an opening bracket; `value` reads one nested value. -/
def scanItems (value : JsString → Option (JsValue × JsString)) : ℕ → JsString → Option (List JsValue × JsString)
  | 0, _ => none
  | fuel + 1, t => do
    let (v,rest) ← value (skipWhitespace t)
    match skipWhitespace rest with
    | [] => none
    | c :: more =>
      if c.val = 0x2c then do
        let (vs,tail) ← scanItems value fuel more
        return (v :: vs,tail)
      else if c.val = 0x5d then return ([v],more)
      else none

/-- A quoted key, the colon after it, and the value. -/
def scanMember (value : JsString → Option (JsValue × JsString)) (t : JsString) :
    Option ((JsString × JsValue) × JsString) :=
  match skipWhitespace t with
  | [] => none
  | c :: afterQuote =>
    if c.val = 0x22 then do
      let (key,rest) ← scanString afterQuote
      match skipWhitespace rest with
      | [] => none
      | colon :: more =>
        if colon.val = 0x3a then do
          let (v,rest) ← value (skipWhitespace more)
          return ((key,v),rest)
        else none
    else none

/-- The members after an opening brace. -/
def scanMembers (value : JsString → Option (JsValue × JsString)) :
    ℕ → Members → JsString → Option (Members × JsString)
  | 0, _, _ => none
  | fuel + 1, d, t => do
    let (m,rest) ← scanMember value t
    match skipWhitespace rest with
    | [] => none
    | c :: more =>
      if c.val = 0x2c then scanMembers value fuel (setMember d m.1 m.2) more
      else if c.val = 0x7d then return (setMember d m.1 m.2,more)
      else none

/-- One value at the front of the text. The fuel is more than its nesting. -/
def scanValue : ℕ → JsString → Option (JsValue × JsString)
  | 0, _ => none
  | fuel + 1, t =>
    match t with
    | [] => none
    | c :: rest =>
      if c.val = 0x22 then do
        let (s,tail) ← scanString rest
        return (.string s,tail)
      else if c.val = 0x7b then
        let body := skipWhitespace rest
        if body.head? = some 0x7d then some (.object [],body.tail)
        else do
          let (d,tail) ← scanMembers (scanValue fuel) (body.length + 1) [] body
          return (.object d,tail)
      else if c.val = 0x5b then
        let body := skipWhitespace rest
        if body.head? = some 0x5d then some (.array [],body.tail)
        else do
          let (vs,tail) ← scanItems (scanValue fuel) (body.length + 1) body
          return (.array vs,tail)
      else match keyword t with
        | some r => some r
        | none => scanNumber t

/-- `JSON.parse(t)`; `none` is the `SyntaxError`. -/
def parse (t : JsString) : Option JsValue := do
  let (v,rest) ← scanValue (t.length + 1) (skipWhitespace t)
  if skipWhitespace rest = [] then return v else none

example : (parse (jsText "[1, true, \"a\\u0041\"] ")).isSome = true := by decide +kernel
example : (parse (jsText "[1,]")).isSome = false := by decide

end JsJson
