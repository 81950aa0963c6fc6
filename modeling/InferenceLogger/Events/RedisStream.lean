import InferenceLogger.Core.Errors
import Mathlib.Data.List.Infix

/-! # The stream and its consumer group

Redis as the producers and the workers see it. Ids are increasing numbers, a group hands out
the entries after the last one it delivered, and delivered entries stay pending until they
are acknowledged.
-/
namespace InferenceLogger
open PyText

abbrev Fields := List (Text × Text)

structure Entry where
  id : ℕ
  fields : Fields
  deriving DecidableEq

structure ConsumerGroup where
  lastDelivered : ℕ
  pending : List ℕ

/-- `data` and `reason` are what is stored; `origin` records which entry it was added for. -/
structure DeadLetter where
  origin : ℕ
  data : Text
  reason : Text

structure Redis where
  entries : List Entry := []
  lastId : ℕ := 0
  group : Option ConsumerGroup := none
  deadLetters : List DeadLetter := []

def responseError (message : String) : Exc := .foreign 0 (.exception (text "ResponseError") (text message))

/-- `isinstance(exc, ResponseError)` and the word is in its text. -/
def respondsWith (word : String) (e : Exc) : Bool :=
  match e.cls with
  | .exception name message => decide (name = text "ResponseError" ∧ text word <:+: message)
  | _ => false

namespace Redis
variable (r : Redis)

/-- `XADD` to the stream. -/
def add (e : Entry) : Redis := {r with entries := r.entries ++ [e], lastId := e.id}

/-- `XADD … MAXLEN ~`: the oldest entries go. -/
def trim (n : ℕ) : Redis := {r with entries := r.entries.drop n}

/-- `XGROUP CREATE … 0 MKSTREAM`. -/
def createGroup : Redis × Except Exc Unit :=
  match r.group with
  | some _ => (r,.error (responseError "BUSYGROUP Consumer Group name already exists"))
  | none => ({r with group := some ⟨0,[]⟩},.ok ())

/-- The entries a group can still hand out. -/
def undelivered (g : ConsumerGroup) : List Entry := r.entries.filter fun e => decide (g.lastDelivered < e.id)

/-- `XREADGROUP … COUNT n STREAMS … >`. -/
def readGroup (n : ℕ) : Redis × Except Exc (List Entry) :=
  match r.group with
  | none => (r,.error (responseError "NOGROUP No such key or consumer group"))
  | some g =>
    let batch := (r.undelivered g).take n
    ({r with group := some {
        lastDelivered := (batch.getLast?.map Entry.id).getD g.lastDelivered
        pending := g.pending ++ batch.map Entry.id}},.ok batch)

/-- `XACK`; without the group it acknowledges nothing. -/
def ack (id : ℕ) : Redis :=
  {r with group := r.group.map fun g => {g with pending := g.pending.erase id}}

/-- `XADD` to the dead-letter stream. -/
def addDead (d : DeadLetter) : Redis := {r with deadLetters := r.deadLetters ++ [d]}

/-- The group is destroyed from outside. -/
def dropGroup : Redis := {r with group := none}

end Redis
end InferenceLogger
