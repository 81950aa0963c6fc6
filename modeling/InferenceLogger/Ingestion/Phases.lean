import InferenceLogger.Foundation.Typestate
import InferenceLogger.Worker.System

/-! # The phases of a handler's transaction

The statements a handler issues between one commit and the next, in the order the code issues
them. A statement that fails leaves a transaction that is only rolled back and closed.
-/
namespace InferenceLogger
open PyText PyJson AsyncTask

/-- What the open transaction of a worker has done. -/
inductive Phase where
  | idle
  | landed (id : Uuid) (payload : Members)
  | logged (id : Uuid) (event : InferenceEvent)
  | processed (id : Uuid) (event : InferenceEvent)
  | failed (id : Uuid) (payload : Members)
  | failing

/-- The phases a commit may come in. -/
def Phase.complete : Phase → Prop
  | .processed _ _ => True
  | .failed _ _ => True
  | _ => False

/-- Where an answer leads: on to the phase, or to the end of the transaction. -/
def reached {α : Type} (r : Except Exc α) (φ : Phase) : Phase :=
  match r with
  | .ok _ => φ
  | .error _ => .failing

def IngestOp.onStream : IngestOp → Prop
  | .xgroupCreate => True
  | .xreadgroup _ => True
  | .xack _ => True
  | .xaddDead _ => True
  | _ => False

namespace IngestionWorker
variable (w : IngestionWorker)

inductive Allows : Typestate ingestSignature Exc Phase where
  | stream {op : IngestOp} (r) : op.onStream → Allows .idle op r .idle
  | land {id : Uuid} {eventType : Text} {payload : Members} (r) : extractId payload = some id →
      eventTypeOf w.rt payload = some eventType →
      Allows .idle (.recordRaw id eventType payload) r (reached r (.landed id payload))
  | log {id : Uuid} {payload : Members} {event : InferenceEvent} (r) :
      InferenceEvent.modelValidate w.py payload = .ok event →
      Allows (.landed id payload) (.upsertLog event.fields) r (reached r (.logged id event))
  | process {id : Uuid} {event : InferenceEvent} (r) :
      Allows (.logged id event) (.markRaw id .processed none) r (reached r (.processed id event))
  | fail {id : Uuid} {payload : Members} {errors : List FieldError} {error : Text} (r) :
      InferenceEvent.modelValidate w.py payload = .error (.validation errors) →
      Allows (.landed id payload) (.markRaw id .failed (some error)) r (reached r (.failed id payload))
  | letter {id : Uuid} {payload : Members} (l : DeadLetter) (r) :
      Allows (.failed id payload) (.xaddDead l) r (reached r (.failed id payload))
  | commit {φ : Phase} (r) : φ.complete → Allows φ .commit r (reached r .idle)
  | rollback (φ : Phase) (r) : Allows φ .rollback r .failing
  | close (φ : Phase) (r) : Allows φ .close r .idle

/-- Back where it started, however it ends. -/
def Returning {α : Type} (_ : Except Exc α) (φ : Phase) : Prop := φ = .idle

/-- With a transaction to commit, or with an exception. -/
def Completing {α : Type} : Except Exc α → Phase → Prop
  | .ok _, φ => φ.complete
  | .error _, _ => True

variable {w}

theorem follows_stream (op : IngestOp) (h : op.onStream) : Follows w.Allows Returning (ingest op) .idle :=
  Follows.call (q := fun _ => Returning) fun r => ⟨.idle,.stream r h,rfl⟩

theorem follows_return {α : Type} (a : α) : Follows w.Allows Returning (.done a : IngestTask α) .idle := rfl

theorem follows_raise {α : Type} (e : Exc) : Follows w.Allows Returning (.raise e : IngestTask α) .idle := rfl

theorem follows_bind {α β : Type} {t : IngestTask α} {f : α → IngestTask β} (h : Follows w.Allows Returning t .idle)
    (hf : ∀ a, Follows w.Allows Returning (f a) .idle) : Follows w.Allows Returning (t >>= f) .idle := by
  apply Follows.bind
  refine h.mono fun r φ hφ => ?_
  cases hφ
  cases r with
  | ok a => exact hf a
  | error e => exact rfl

theorem follows_deadLetter (origin : ℕ) (payload : Json) (reason : String) :
    Follows w.Allows Returning (RedisEventStream.deadLetter w.rt origin payload reason) .idle := by
  unfold RedisEventStream.deadLetter
  split
  · exact follows_raise _
  · exact follows_stream _ trivial

theorem follows_ensureGroup : Follows w.Allows Returning RedisEventStream.ensureGroup .idle := by
  apply Follows.resume
  refine (follows_stream .xgroupCreate trivial).mono fun r φ hφ => ?_
  cases hφ
  cases r with
  | ok u => exact follows_return ()
  | error e =>
    dsimp only
    split
    · exact follows_return ()
    · exact follows_raise e

theorem follows_receive (delivered : List DeliveredEvent) (entry : Entry) :
    Follows w.Allows Returning (RedisEventStream.receive w.rt delivered entry) .idle := by
  unfold RedisEventStream.receive
  split
  · exact follows_raise _
  · refine follows_bind (follows_deadLetter _ _ _) fun _ => ?_
    exact follows_bind (follows_stream _ trivial) fun _ => follows_return _
  · exact follows_return _

theorem follows_poll (count : ℕ) : Follows w.Allows Returning (RedisEventStream.poll w.rt count) .idle := by
  apply Follows.resume
  refine (follows_stream (.xreadgroup count) trivial).mono fun r φ hφ => ?_
  cases hφ
  cases r with
  | ok entries => exact Follows.foldlM follows_receive
  | error e =>
    dsimp only
    split
    · exact follows_bind follows_ensureGroup fun _ => follows_return _
    · exact follows_raise e

/-- A statement, and what comes after it when it succeeds. -/
theorem follows_statement {α : Type} {φ φ' : Phase} {op : IngestOp} {f : ingestSignature.Answer op → IngestTask α}
    (h : ∀ r, w.Allows φ op r (reached r φ')) (hf : ∀ a, Follows w.Allows Completing (f a) φ') :
    Follows w.Allows Completing (ingest op >>= f) φ := by
  have hcall := Follows.call (P := w.Allows) (q := fun _ r ψ => ψ = reached r φ') fun r => ⟨_,h r,rfl⟩
  apply Follows.bind
  refine hcall.mono fun r ψ hψ => ?_
  subst hψ
  cases r with
  | ok a => exact hf a
  | error e => exact trivial

/-- The statements of one entry. -/
theorem follows_record {item : DeliveredEvent} {payload : Members} {id : Uuid} {outcome : BatchOutcome}
    (hid : extractId payload = some id) :
    Follows w.Allows Completing (w.record item payload id outcome) .idle := by
  unfold record
  cases ht : eventTypeOf w.rt payload with
  | none => exact trivial
  | some eventType =>
    apply follows_statement (fun r => .land r hid ht)
    intro _
    cases hv : InferenceEvent.modelValidate w.py payload with
    | error err =>
      cases err with
      | typeError => exact trivial
      | validation errors =>
        dsimp only
        cases w.py.errorJson payload errors with
        | none => exact trivial
        | some error =>
          apply follows_statement (fun r => .fail r hv)
          intro _
          unfold RedisEventStream.deadLetter
          cases w.rt.dumps (.obj payload) with
          | none => exact trivial
          | some data =>
            apply follows_statement (fun r => .letter _ r)
            exact fun _ => trivial
    | ok event =>
      apply follows_statement (fun r => .log r hv)
      intro inserted
      apply follows_statement (fun r => .process r)
      exact fun _ => trivial

/-- A unit of work commits what its body has completed, and is closed. -/
theorem follows_session {α : Type} {body : IngestTask α} (h : Follows w.Allows Completing body .idle) :
    Follows w.Allows Returning (ingestSessionOps.session body) .idle := by
  have hclose : ∀ (φ : Phase), Follows w.Allows Returning (ingest .close) φ := fun φ =>
    Follows.call (q := fun _ => Returning) fun r => ⟨.idle,.close φ r,rfl⟩
  have hcommitted : Follows w.Allows (fun _ _ => True) (body >>= fun a => ingest .commit >>= fun _ => pure a) .idle := by
    apply Follows.bind
    refine h.mono fun r φ hφ => ?_
    cases r with
    | error e => exact trivial
    | ok a =>
      have hcommit : Follows w.Allows (fun _ _ => True) (ingest .commit) φ := Follows.call (q := fun _ _ _ => True)
        fun r => ⟨_,.commit r hφ,trivial⟩
      apply Follows.bind
      refine hcommit.mono fun r φ _ => ?_
      cases r with
      | ok u => exact trivial
      | error e => exact trivial
  have htransact : Follows w.Allows (fun _ _ => True) (ingestSessionOps.transact body) .idle := by
    apply Follows.resume
    refine hcommitted.mono fun r φ _ => ?_
    cases r with
    | ok a => exact trivial
    | error e =>
      dsimp only
      split
      · have hrollback : Follows w.Allows (fun _ _ => True) (ingest .rollback) φ := Follows.call (q := fun _ _ _ => True)
          fun r => ⟨_,.rollback φ r,trivial⟩
        apply Follows.bind
        refine hrollback.mono fun r φ _ => ?_
        cases r with
        | ok u => exact trivial
        | error e => exact trivial
      · exact trivial
  apply Follows.resume
  refine htransact.mono fun r φ _ => ?_
  apply Follows.bind
  refine (hclose φ).mono fun q φ' hφ => ?_
  cases hφ
  cases q with
  | error e => exact rfl
  | ok u =>
    cases r with
    | ok a => exact rfl
    | error e => exact rfl

theorem follows_handle (outcome : BatchOutcome) (item : DeliveredEvent) :
    Follows w.Allows Returning (w.handle outcome item) .idle := by
  unfold handle
  split
  · rename_i payload _
    split
    · refine follows_bind (follows_deadLetter _ _ _) fun _ => ?_
      exact follows_bind (follows_stream _ trivial) fun _ => follows_return _
    · rename_i id hid
      refine follows_bind (follows_session (follows_record hid)) fun outcome => ?_
      exact follows_bind (follows_stream _ trivial) fun _ => follows_return outcome
  · exact follows_raise _

theorem follows_processBatch : Follows w.Allows Returning w.processBatch .idle :=
  follows_bind (follows_poll w.batchSize) fun _ => Follows.foldlM follows_handle

theorem follows_startUp : Follows w.Allows Returning System.startUp .idle :=
  follows_bind follows_ensureGroup fun _ => follows_return _

end IngestionWorker
end InferenceLogger
