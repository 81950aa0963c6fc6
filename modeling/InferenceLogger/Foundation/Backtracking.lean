import Mathlib.Data.List.Basic
import Mathlib.Data.List.Infix

/-! # Backtracking patterns

A pattern is a body between two word boundaries, each of which it may lack. A body gives what it
can leave of a text in the order a backtracking matcher tries it, and the first that also meets
the closing boundary is the match. Scanning cuts a text into what is kept and what is hit.
-/
namespace Backtracking
variable {α β : Type}

/-- What can stand between the boundaries. A repeated body consumes something each time; without
a bound it is repeated as often as the text allows. -/
inductive Body (α : Type) where
  | sat (p : α → Bool)
  | seq (r s : Body α)
  | alt (r s : Body α)
  | rep (r : Body α) (low : ℕ) (high : Option ℕ)

/-- Greedy repetition: another round first, then what is left as it is. -/
def iterate (step : List α → List (List α)) : ℕ → ℕ → List α → List (List α)
  | 0, low, t => if low = 0 then [t] else []
  | n + 1, low, t => (step t).flatMap (iterate step n (low - 1)) ++ if low = 0 then [t] else []

/-- What the body can leave, in the order it is tried. -/
def Body.rests : Body α → List α → List (List α)
  | .sat _, [] => []
  | .sat p, a :: t => if p a then [t] else []
  | .seq r s, t => (r.rests t).flatMap s.rests
  | .alt r s, t => r.rests t ++ s.rests t
  | .rep r low high, t => iterate r.rests (high.getD t.length) low t

/-- A body after some characters. -/
def Body.after (ps : List (α → Bool)) (r : Body α) : Body α := ps.foldr (fun p r => .seq (.sat p) r) r

def Body.opt (r : Body α) : Body α := .rep r 0 (some 1)

structure Pattern (α : Type) where
  opening : Bool
  body : Body α
  closing : Bool

/-- `\b` between the character before and the text after. -/
def boundary (word : α → Bool) (before : Option α) (after : List α) : Bool :=
  xor (before.any word) (after.head?.any word)

/-- The character before what is left of a text. -/
def beforeRest (before : Option α) (t rest : List α) : Option α :=
  (t.take (t.length - rest.length)).getLast?.or before

namespace Pattern
variable (word : α → Bool) (p : Pattern α)

/-- What the match at the start of the text leaves. -/
def matchAt (before : Option α) (t : List α) : Option (List α) :=
  if p.opening && !boundary word before t then none
  else (p.body.rests t).find? fun rest => !p.closing || boundary word (beforeRest before t rest) rest

end Pattern

inductive Piece (α : Type) where
  | keep (a : α)
  | hit (t : List α)

/-- Leftmost matches, one after the other; the number bounds the pieces. -/
def pieces (word : α → Bool) (p : Pattern α) : ℕ → Option α → List α → List (Piece α)
  | 0, _, _ => []
  | _ + 1, _, [] => []
  | n + 1, before, a :: t => match p.matchAt word before (a :: t) with
    | some rest => .hit ((a :: t).take ((a :: t).length - rest.length)) ::
        pieces word p n (beforeRest before (a :: t) rest) rest
    | none => .keep a :: pieces word p n (some a) t

def Piece.text : Piece α → List α
  | .keep a => [a]
  | .hit t => t

/-- What a piece becomes under `sub`. -/
def Piece.replaced (placeholder : List α) : Piece α → List α
  | .keep a => [a]
  | .hit _ => placeholder

/-- `pattern.sub(placeholder, text)`. -/
def sub (word : α → Bool) (p : Pattern α) (placeholder t : List α) : List α :=
  (pieces word p t.length none t).flatMap (Piece.replaced placeholder)

end Backtracking
