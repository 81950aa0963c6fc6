import InferenceLogger.Core.Errors
import InferenceLogger.Db.Models

/-! # Transactions of several sessions

Committed tables, and the writes each open transaction has made. A session sees the committed
rows and its own writes; a statement waits while another transaction holds the row it needs,
and a failed statement aborts its transaction.
-/
namespace InferenceLogger
open PyText PyJson KeyedTable

/-- A row change, with the time it is stamped with. -/
inductive Write where
  | insertRaw (id : Uuid) (eventType : Text) (payload : Members) (now : ℤ)
  | markRaw (id : Uuid) (status : ProcessingStatus) (error : Option Text) (now : ℤ)
  | insertLog (row : EventFields) (now : ℤ)

namespace Db
variable (db : Db)

def applyWrite : Write → Db
  | .insertRaw id eventType payload now =>
    {db with eventsRaw := db.eventsRaw.insertNew id ⟨eventType,payload,now,none,.pending,none⟩}
  | .markRaw id status error now =>
    {db with eventsRaw := db.eventsRaw.updateAt id fun row =>
      {row with processingStatus := status, processedAt := some now, processingError := error}}
  | .insertLog row now => {db with inferenceLogs := db.inferenceLogs.insertNew row.id ⟨row,now⟩}

def applyWrites (ws : List Write) : Db := ws.foldl applyWrite db

/-- The foreign keys of a log row. -/
def refersOk (row : EventFields) : Bool :=
  row.conversationId.all (fun c => db.conversations.has c) && row.messageId.all (fun m => db.messages.has m)

end Db

/-- `writes` are those of the open transactions, by session; `aborted` lists the sessions whose
transaction has failed. -/
structure Cluster where
  db : Db
  writes : List (ℕ × Write) := []
  aborted : List ℕ := []

def databaseError (name : String) : Exc := .foreign 0 (.exception (text name) [])

namespace Cluster
variable (c : Cluster) (me : ℕ)

def own : List Write := (c.writes.filter fun w => decide (w.1 = me)).map Prod.snd

def view : Db := c.db.applyWrites (c.own me)

/-- Another transaction has such a write pending. -/
def heldByOther (p : Write → Bool) : Bool := c.writes.any fun w => decide (w.1 ≠ me) && p w.2

def push (w : Write) : Cluster := {c with writes := c.writes ++ [(me,w)]}

/-- The transaction's writes and locks are gone. -/
def forget : Cluster :=
  {c with writes := c.writes.filter (fun w => decide (w.1 ≠ me)), aborted := c.aborted.filter (fun i => decide (i ≠ me))}

def abort : Cluster := {c.forget me with aborted := me :: c.aborted}

def commit : Cluster := {c.forget me with db := c.view me}

def insertsRaw (id : Uuid) : Write → Bool
  | .insertRaw id' _ _ _ => decide (id' = id)
  | _ => false

def marksRaw (id : Uuid) : Write → Bool
  | .markRaw id' _ _ _ => decide (id' = id)
  | _ => false

def insertsLog (id : Uuid) : Write → Bool
  | .insertLog row _ => decide (row.id = id)
  | _ => false

/-- A statement: an aborted transaction refuses it, a bad value aborts it, and it waits while
another transaction holds its row. -/
def statement {α : Type} (admits : Bool) (held : Write → Bool) (run : Option (Cluster × Except Exc α)) :
    Option (Cluster × Except Exc α) :=
  if me ∈ c.aborted then some (c,.error (databaseError "InFailedSQLTransactionError"))
  else if admits = false then some (c.abort me,.error (databaseError "DBAPIError"))
  else if c.heldByOther me held then none
  else run

variable (pg : Postgres)

/-- `INSERT INTO events_raw … ON CONFLICT DO NOTHING`. -/
def recordRaw (id : Uuid) (eventType : Text) (payload : Members) (now : ℤ) : Option (Cluster × Except Exc Bool) :=
  c.statement me (Postgres.varchar 64 eventType && pg.admitsJson (.obj payload)) (insertsRaw id)
    (if (c.view me).eventsRaw.has id then some (c,.ok false)
    else some (c.push me (.insertRaw id eventType payload now),.ok true))

/-- `UPDATE events_raw … WHERE id = …`. -/
def markRaw (id : Uuid) (status : ProcessingStatus) (error : Option Text) (now : ℤ) :
    Option (Cluster × Except Exc Unit) :=
  c.statement me (error.all pg.admitsText) (marksRaw id)
    (if (c.view me).eventsRaw.has id then some (c.push me (.markRaw id status error now),.ok ())
    else some (c,.ok ()))

/-- `INSERT INTO inference_logs … ON CONFLICT DO NOTHING`: the row's own constraints come before
the conflict, its foreign keys after it. -/
def upsertLog (row : EventFields) (now : ℤ) : Option (Cluster × Except Exc Bool) :=
  c.statement me (pg.admitsLog row) (insertsLog row.id)
    (if (c.view me).inferenceLogs.has row.id then some (c,.ok false)
    else if c.db.refersOk row then some (c.push me (.insertLog row now),.ok true)
    else some (c.abort me,.error (databaseError "IntegrityError")))

/-- A pending log row keeps what it refers to from being deleted. -/
def keepsConversation (id : Uuid) : Write → Bool
  | .insertLog row _ => decide (row.conversationId = some id) ||
    row.messageId.any fun m => (c.db.messages.get m).any fun m => decide (m.conversationId = id)
  | _ => false

/-! ## Own writes -/

variable {c me}

theorem own_push_self (w : Write) : (c.push me w).own me = c.own me ++ [w] := by
  simp [own,push]

theorem view_push (w : Write) : (c.push me w).view me = (c.view me).applyWrite w := by
  unfold view Db.applyWrites
  rw [own_push_self, List.foldl_append]
  rfl

theorem own_push_other {j : ℕ} (h : j ≠ me) (w : Write) : (c.push me w).own j = c.own j := by
  simp [own,push,Ne.symm h]

theorem own_forget_self : (c.forget me).own me = [] := by
  simp [own,forget]

theorem own_forget_other {j : ℕ} (h : j ≠ me) : (c.forget me).own j = c.own j := by
  unfold own forget
  rw [List.filter_filter]
  congr 1
  refine List.filter_congr fun w _ => ?_
  by_cases hw : w.1 = j
  · simp [hw,h]
  · simp [hw]

theorem mem_aborted_forget {j : ℕ} : j ∈ (c.forget me).aborted ↔ j ∈ c.aborted ∧ j ≠ me := by
  simp [forget]

/-- Whatever one session does, the others' transactions are as they were. -/
structure Frame (me : ℕ) (c c' : Cluster) : Prop where
  own : ∀ j, j ≠ me → c'.own j = c.own j
  aborted : ∀ j, j ≠ me → (j ∈ c'.aborted ↔ j ∈ c.aborted)

theorem frame_refl (c : Cluster) (me : ℕ) : Frame me c c := ⟨fun _ _ => rfl,fun _ _ => Iff.rfl⟩

theorem frame_push (w : Write) : Frame me c (c.push me w) :=
  ⟨fun _ h => own_push_other h w,fun _ _ => Iff.rfl⟩

theorem frame_forget : Frame me c (c.forget me) := by
  refine ⟨fun j h => own_forget_other h,fun j h => ?_⟩
  rw [mem_aborted_forget]
  exact and_iff_left h

theorem frame_abort : Frame me c (c.abort me) := by
  refine ⟨fun j h => own_forget_other h,fun j h => ?_⟩
  simp only [abort, List.mem_cons, h, false_or]

theorem frame_commit : Frame me c (c.commit me) := ⟨frame_forget.own,frame_forget.aborted⟩

theorem mem_writes_forget {w : ℕ × Write} (h : w ∈ (c.forget me).writes) : w ∈ c.writes :=
  List.mem_of_mem_filter h

/-! ## Statements -/

variable {pg : Postgres}

/-- A statement of a transaction that has not failed runs, or its values abort it. -/
theorem statement_cases {α : Type} {admits : Bool} {held : Write → Bool} {run : Option (Cluster × Except Exc α)}
    {r : Cluster × Except Exc α} (hna : me ∉ c.aborted) (h : c.statement me admits held run = some r) :
    (admits = false ∧ r = (c.abort me,.error (databaseError "DBAPIError"))) ∨ (admits = true ∧ run = some r) := by
  unfold statement at h
  rw [if_neg hna] at h
  cases admits with
  | false => exact .inl ⟨rfl,by simpa using h.symm⟩
  | true =>
    simp only [Bool.true_eq_false, if_false] at h
    split at h
    · cases h
    · exact .inr ⟨rfl,h⟩

theorem recordRaw_cases {id : Uuid} {eventType : Text} {payload : Members} {now : ℤ} {r : Cluster × Except Exc Bool}
    (hna : me ∉ c.aborted) (h : c.recordRaw me pg id eventType payload now = some r) :
    ((Postgres.varchar 64 eventType && pg.admitsJson (.obj payload)) = false ∧ ∃ e, r = (c.abort me,.error e)) ∨
    ((c.view me).eventsRaw.has id = true ∧ r = (c,.ok false)) ∨
    r = (c.push me (.insertRaw id eventType payload now),.ok true) := by
  rcases statement_cases hna h with ⟨ha,rfl⟩ | ⟨-,h⟩
  · exact .inl ⟨ha,_,rfl⟩
  · split at h
    · rename_i hhas
      cases h
      exact .inr (.inl ⟨hhas,rfl⟩)
    · cases h
      exact .inr (.inr rfl)

theorem markRaw_cases {id : Uuid} {status : ProcessingStatus} {error : Option Text} {now : ℤ}
    {r : Cluster × Except Exc Unit} (hna : me ∉ c.aborted)
    (hhas : (c.view me).eventsRaw.has id = true) (h : c.markRaw me pg id status error now = some r) :
    (error.all pg.admitsText = false ∧ ∃ e, r = (c.abort me,.error e)) ∨
    r = (c.push me (.markRaw id status error now),.ok ()) := by
  rcases statement_cases hna h with ⟨ha,rfl⟩ | ⟨-,h⟩
  · exact .inl ⟨ha,_,rfl⟩
  · rw [if_pos hhas] at h
    cases h
    exact .inr rfl

theorem upsertLog_cases {row : EventFields} {now : ℤ} {r : Cluster × Except Exc Bool} (hna : me ∉ c.aborted)
    (h : c.upsertLog me pg row now = some r) :
    (pg.admitsLog row = false ∧ ∃ e, r = (c.abort me,.error e)) ∨
    ((c.view me).inferenceLogs.has row.id = true ∧ r = (c,.ok false)) ∨
    ((c.view me).inferenceLogs.has row.id = false ∧ c.db.refersOk row = true ∧
      r = (c.push me (.insertLog row now),.ok true)) ∨
    ((c.view me).inferenceLogs.has row.id = false ∧ c.db.refersOk row = false ∧ ∃ e, r = (c.abort me,.error e)) := by
  rcases statement_cases hna h with ⟨ha,rfl⟩ | ⟨-,h⟩
  · exact .inl ⟨ha,_,rfl⟩
  · split at h
    · rename_i hhas
      cases h
      exact .inr (.inl ⟨hhas,rfl⟩)
    · rename_i hhas
      have hnot : (c.view me).inferenceLogs.has row.id = false := by simpa using hhas
      split at h
      · rename_i hrefs
        cases h
        exact .inr (.inr (.inl ⟨hnot,hrefs,rfl⟩))
      · rename_i hrefs
        cases h
        exact .inr (.inr (.inr ⟨hnot,by simpa using hrefs,_,rfl⟩))

end Cluster
end InferenceLogger
