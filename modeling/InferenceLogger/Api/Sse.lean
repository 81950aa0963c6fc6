import InferenceLogger.Foundation.Transition
import Mathlib.Data.List.Basic

/-! # The bridge between a frame source and the response

`stream_with_disconnect_cancellation`: a producer task pulls frames from the source
into a bounded queue, a watcher task cancels the producer when the client is gone, and
the response generator takes frames out until the end marker. One action is one
resumption of one of the three; the source and the client are the environment.
-/
namespace InferenceLogger.Sse
open Transition

/-- `_QUEUE_SIZE`. -/
def queueSize : ℕ := 64

/-- What the queue holds: a frame, or `_DONE`. -/
inductive Slot (α : Type) where
  | frame (a : α)
  | marker

def Slot.frame? {α : Type} : Slot α → Option α
  | .frame a => some a
  | .marker => none

/-- How the producer task ended. -/
inductive End where
  | returned
  | raised
  | cancelled
  deriving DecidableEq

/-- `produce()`: awaiting the source, suspended in `queue.put` on a full queue, or past
its `finally`. -/
inductive Producer (α : Type) where
  | pulling
  | putting (a : α)
  | finished (how : End)

/-- The response generator: at `queue.get()`, suspended at its `yield`, in its `finally`
(awaiting both tasks), or over. -/
inductive Consumer (α : Type) where
  | getting
  | yielding (a : α)
  | closing
  | over

inductive Watcher where
  | checking
  | sleeping
  | finished
  deriving DecidableEq

structure Bridge (α : Type) where
  /-- What the source has handed over so far. -/
  pulled : List α
  producer : Producer α
  queue : List (Slot α)
  consumer : Consumer α
  watcher : Watcher
  /-- `producer.cancel()` was called. -/
  cancelRequested : Bool
  /-- `watcher.cancel()` was called. -/
  watcherCancelled : Bool
  /-- What the response has received so far. -/
  yielded : List α

def start (α : Type) : Bridge α where
  pulled := []
  producer := .pulling
  queue := []
  consumer := .getting
  watcher := .checking
  cancelRequested := false
  watcherCancelled := false
  yielded := []

inductive Action (α : Type) where
  /-- The source yields a frame, which is put on the queue. -/
  | sourceYields (a : α)
  /-- The source ends; after a delivered cancellation this is how it reacts to it. -/
  | sourceEnds (how : End)
  /-- A suspended `put` finds room. -/
  | putResumes
  /-- The cancellation arrives in a suspended `put`. -/
  | putCancelled
  /-- `queue.get()` returns. -/
  | get
  /-- The response asks for the next frame. -/
  | resume
  /-- The response generator is closed or cancelled. -/
  | consumerClosed
  /-- `finally` has awaited what it awaits. -/
  | consumerEnds
  | watcherChecks (disconnected : Bool)
  | watcherWakes
  | watcherStopped

variable {α : Type}

def room (q : List (Slot α)) : Bool := q.length < queueSize

/-- The `finally` of `produce`: the marker is dropped when the queue is full. -/
def finish (s : Bridge α) (how : End) : Bridge α :=
  { s with
    producer := .finished how
    queue := if room s.queue then s.queue ++ [.marker] else s.queue }

/-- The `finally` of the response generator cancels both tasks first. -/
def close (s : Bridge α) : Bridge α :=
  { s with consumer := .closing, cancelRequested := true, watcherCancelled := true }

def step (s : Bridge α) (act : Action α) : Option (Bridge α) :=
  match act with
  | .sourceYields a =>
    match s.producer with
    | .pulling =>
      if room s.queue then some { s with pulled := s.pulled ++ [a], queue := s.queue ++ [.frame a] }
      else some { s with pulled := s.pulled ++ [a], producer := .putting a }
    | _ => none
  | .sourceEnds how =>
    match s.producer with
    | .pulling => some (finish s how)
    | _ => none
  | .putResumes =>
    match s.producer with
    | .putting a =>
      if room s.queue then some { s with producer := .pulling, queue := s.queue ++ [.frame a] } else none
    | _ => none
  | .putCancelled =>
    match s.producer with
    | .putting _ => if s.cancelRequested then some (finish s .cancelled) else none
    | _ => none
  | .get =>
    match s.consumer, s.queue with
    | .getting, .frame a :: q => some { s with queue := q, consumer := .yielding a, yielded := s.yielded ++ [a] }
    | .getting, .marker :: q => some (close { s with queue := q })
    | _, _ => none
  | .resume =>
    match s.consumer with
    | .yielding _ => some { s with consumer := .getting }
    | _ => none
  | .consumerClosed =>
    match s.consumer with
    | .getting => some (close s)
    | .yielding _ => some (close s)
    | _ => none
  | .consumerEnds =>
    match s.consumer, s.producer with
    | .closing, .finished how =>
      -- An exception of the source leaves `finally` before the watcher is awaited.
      if how = .raised ∨ s.watcher = .finished then some { s with consumer := .over } else none
    | _, _ => none
  | .watcherChecks disconnected =>
    match s.watcher, s.producer with
    | .checking, .finished _ => some { s with watcher := .finished }
    | .checking, _ =>
      if disconnected then some { s with watcher := .finished, cancelRequested := true }
      else some { s with watcher := .sleeping }
    | _, _ => none
  | .watcherWakes =>
    match s.watcher with
    | .sleeping => some { s with watcher := .checking }
    | _ => none
  | .watcherStopped =>
    if s.watcherCancelled ∧ s.watcher ≠ .finished then some { s with watcher := .finished } else none

/-- The consumer waits on an empty queue, and nobody is left to put anything on it. -/
def Hung (s : Bridge α) : Prop :=
  (∃ how, s.producer = .finished how) ∧ s.consumer = .getting ∧ s.queue = []

/-- The response generator is still taking frames. -/
def Consumer.isOpen : Consumer α → Bool
  | .getting => true
  | .yielding _ => true
  | _ => false

/-- The action runs the `finally` of `produce`. -/
def Action.finishes : Action α → Bool
  | .sourceEnds _ => true
  | .putCancelled => true
  | _ => false

/-- The source's end does not find the queue full while the response is still reading. -/
def RoomAtEnd (s : Bridge α) (act : Action α) : Prop :=
  act.finishes = true → s.consumer.isOpen = true → room s.queue = true

end InferenceLogger.Sse
