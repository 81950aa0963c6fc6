import InferenceLogger.Ingestion.Disposition

/-! # Where the rows come from

Every committed row is one a published entry accounts for. The writes of a handler's
transaction have one of two shapes, and committing either keeps that true.
-/
namespace InferenceLogger
open PyText PyJson KeyedTable

namespace IngestionWorker
variable (w : IngestionWorker)

/-- The entry carries this payload under this id. -/
def Carries (e : Entry) (id : Uuid) (payload : Members) : Prop :=
  (∃ event, w.disposition e = .accepted id payload event) ∨ ∃ errors, w.disposition e = .rejected id payload errors

/-- How handling the entry leaves the raw row. -/
inductive Marks (e : Entry) (id : Uuid) : ProcessingStatus → Option Text → Prop where
  | processed {payload : Members} {event : InferenceEvent} : w.disposition e = .accepted id payload event →
      Marks e id .processed none
  | failed {payload : Members} {errors : List FieldError} {error : Text} :
      w.disposition e = .rejected id payload errors → w.py.errorJson payload errors = some error →
      Marks e id .failed (some (error.take 4000))

/-- The log row of an entry that validates is there. -/
def Logged (db : Db) (e : Entry) : Prop :=
  ∀ id payload event, w.disposition e = .accepted id payload event → db.inferenceLogs.has event.fields.id = true

/-- One entry landed the payload, and one, with the same id, left the status, along with its log
row. -/
structure RawFrom (s : Store) (id : Uuid) (row : RawEvent) : Prop where
  landed : ∃ e ∈ s.published, w.Carries e id row.payload ∧ eventTypeOf w.rt row.payload = some row.eventType
  marked : ∃ e ∈ s.published, w.Marks e id row.processingStatus row.processingError ∧ w.Logged s.db e

theorem RawFrom.mono {w : IngestionWorker} {s s' : Store} {id : Uuid} {row : RawEvent} (h : w.RawFrom s id row)
    (hp : ∀ e ∈ s.published, e ∈ s'.published) (hk : s.db.Keeps s'.db) : w.RawFrom s' id row := by
  obtain ⟨⟨a,ha,hlanded⟩,b,hb,hmarks,hlogged⟩ := h
  exact ⟨⟨a,hp a ha,hlanded⟩,b,hp b hb,hmarks,fun id payload event hd => hk.logs _ (hlogged id payload event hd)⟩

end IngestionWorker

/-- The row with the references that still exist. -/
def Db.severed (db : Db) (row : EventFields) : EventFields :=
  {row with
    conversationId := row.conversationId.filter db.conversations.has
    messageId := row.messageId.filter db.messages.has}

/-- What the row refers to has existed. -/
structure Store.Knows (s : Store) (row : EventFields) : Prop where
  conversation : ∀ c, row.conversationId = some c → c ∈ s.knownConversations
  message : ∀ m, row.messageId = some m → m ∈ s.knownMessages

/-- The log row is that of a published event, up to references that are gone. -/
def IngestionWorker.LogFrom (w : IngestionWorker) (s : Store) (id : Uuid) (log : InferenceLog) : Prop :=
  ∃ e ∈ s.published, ∃ id' payload event, w.disposition e = .accepted id' payload event ∧
    event.fields.id = id ∧ s.Knows event.fields ∧ log.fields = s.db.severed event.fields

/-- Nothing is lost by a step that leaves the committed rows alone. -/
theorem IngestionWorker.LogFrom.mono {w : IngestionWorker} {s s' : Store} {id : Uuid} {log : InferenceLog}
    (h : w.LogFrom s id log) (hp : ∀ e ∈ s.published, e ∈ s'.published) (hdb : s'.db = s.db)
    (hc : s'.knownConversations = s.knownConversations) (hm : s'.knownMessages = s.knownMessages) :
    w.LogFrom s' id log := by
  obtain ⟨e,he,id',payload,event,hd,hid,hk,hf⟩ := h
  refine ⟨e,hp e he,id',payload,event,hd,hid,⟨?_,?_⟩,by rw [hdb]; exact hf⟩
  · rw [hc]
    exact hk.conversation
  · rw [hm]
    exact hk.message

/-! ## Scripts -/

inductive RawPart (w : IngestionWorker) (db : Db) (id : Uuid) (payload : Members) : List Write → Prop where
  | present : db.eventsRaw.has id = true → RawPart w db id payload []
  | inserted {eventType : Text} (now : ℤ) : eventTypeOf w.rt payload = some eventType →
      RawPart w db id payload [.insertRaw id eventType payload now]

inductive LogPart (db : Db) (row : EventFields) : List Write → Prop where
  | present : db.inferenceLogs.has row.id = true → LogPart db row []
  | inserted (now : ℤ) : LogPart db row [.insertLog row now]

/-- The writes of a transaction that has handled the entry. -/
inductive Script (w : IngestionWorker) (db : Db) (e : Entry) : List Write → Prop where
  | accepted {id : Uuid} {payload : Members} {event : InferenceEvent} {raw log : List Write} (now : ℤ) :
      w.disposition e = .accepted id payload event → RawPart w db id payload raw → LogPart db event.fields log →
      Script w db e (raw ++ log ++ [.markRaw id .processed none now])
  | rejected {id : Uuid} {payload : Members} {errors : List FieldError} {error : Text} {raw : List Write} (now : ℤ) :
      w.disposition e = .rejected id payload errors → RawPart w db id payload raw →
      w.py.errorJson payload errors = some error →
      Script w db e (raw ++ [.markRaw id .failed (some (error.take 4000)) now])

theorem RawPart.mono {w : IngestionWorker} {db db' : Db} {id : Uuid} {payload : Members} {ws : List Write}
    (h : RawPart w db id payload ws) (hk : db.Keeps db') : RawPart w db' id payload ws := by
  cases h with
  | present hp => exact .present (hk.raw _ hp)
  | inserted now ht => exact .inserted now ht

theorem LogPart.mono {db db' : Db} {row : EventFields} {ws : List Write} (h : LogPart db row ws)
    (hk : db.Keeps db') : LogPart db' row ws := by
  cases h with
  | present hp => exact .present (hk.logs _ hp)
  | inserted now => exact .inserted now

theorem Script.mono {w : IngestionWorker} {db db' : Db} {e : Entry} {ws : List Write} (h : Script w db e ws)
    (hk : db.Keeps db') : Script w db' e ws := by
  cases h with
  | accepted now hd hr hl => exact .accepted now hd (hr.mono hk) (hl.mono hk)
  | rejected now hd hr he => exact .rejected now hd (hr.mono hk) he

/-! ## What writes do to the tables -/

namespace Db

theorem applyWrites_append (db : Db) (ws ws' : List Write) :
    db.applyWrites (ws ++ ws') = (db.applyWrites ws).applyWrites ws' := List.foldl_append

/-- Ingestion leaves the conversations and their messages alone. -/
theorem applyWrites_product (ws : List Write) (db : Db) :
    (db.applyWrites ws).conversations = db.conversations ∧ (db.applyWrites ws).messages = db.messages := by
  induction ws generalizing db with
  | nil => exact ⟨rfl,rfl⟩
  | cons w ws ih =>
    obtain ⟨hc,hm⟩ := ih (db.applyWrite w)
    refine ⟨hc.trans ?_,hm.trans ?_⟩
    · cases w <;> rfl
    · cases w <;> rfl

theorem keeps_applyWrites (ws : List Write) (db : Db) : db.Keeps (db.applyWrites ws) := by
  induction ws generalizing db with
  | nil => exact .refl db
  | cons w ws ih =>
    refine Keeps.trans ?_ (ih (db.applyWrite w))
    cases w with
    | insertRaw id eventType payload now => exact ⟨fun k h => (Table.has_insertNew _ _ _ k).mpr (.inl h),fun k h => h⟩
    | insertLog row now => exact ⟨fun k h => h,fun k h => (Table.has_insertNew _ _ _ k).mpr (.inl h)⟩
    | markRaw id status error now =>
      refine ⟨fun k h => ?_,fun k h => h⟩
      obtain ⟨a,ha⟩ := Table.has_iff.mp h
      refine Table.has_iff.mpr ?_
      change ∃ v, (db.eventsRaw.updateAt id _).get k = some v
      rw [Table.get_updateAt, ha]
      split <;> exact ⟨_,rfl⟩

end Db

/-- A landed raw row: as it was, or the payload's own. -/
theorem RawPart.apply {w : IngestionWorker} {db : Db} {id : Uuid} {payload : Members} {ws : List Write}
    (h : RawPart w db id payload ws) :
    (db.applyWrites ws).eventsRaw.has id = true ∧
    (db.applyWrites ws).inferenceLogs = db.inferenceLogs ∧
    (∀ k, k ≠ id → (db.applyWrites ws).eventsRaw.get k = db.eventsRaw.get k) ∧
    ∀ row, (db.applyWrites ws).eventsRaw.get id = some row → db.eventsRaw.get id = some row ∨
      (row.payload = payload ∧ eventTypeOf w.rt payload = some row.eventType) := by
  cases h with
  | present hp => exact ⟨hp,rfl,fun _ _ => rfl,fun _ hr => .inl hr⟩
  | @inserted eventType now ht =>
    have hget : ∀ k, (db.applyWrites [.insertRaw id eventType payload now]).eventsRaw.get k =
        if k = id ∧ db.eventsRaw.get id = none then some ⟨eventType,payload,now,none,.pending,none⟩
        else db.eventsRaw.get k := fun k => Table.get_insertNew _ _ _ _
    refine ⟨(Table.has_insertNew _ _ _ id).mpr (.inr rfl),rfl,?_,?_⟩
    · intro k hk
      rw [hget, if_neg (fun h => hk h.1)]
    · intro row hr
      rw [hget] at hr
      split at hr
      · cases hr
        exact .inr ⟨rfl,ht⟩
      · exact .inl hr

theorem LogPart.apply {db : Db} {row : EventFields} {ws : List Write} (h : LogPart db row ws) :
    (db.applyWrites ws).inferenceLogs.has row.id = true ∧
    (db.applyWrites ws).eventsRaw = db.eventsRaw ∧
    ∀ k log, (db.applyWrites ws).inferenceLogs.get k = some log → db.inferenceLogs.get k = some log ∨
      (ws ≠ [] ∧ k = row.id ∧ log.fields = row) := by
  cases h with
  | present hp => exact ⟨hp,rfl,fun _ _ hl => .inl hl⟩
  | inserted now =>
    have hget : ∀ k, (db.applyWrites [.insertLog row now]).inferenceLogs.get k =
        if k = row.id ∧ db.inferenceLogs.get row.id = none then some ⟨row,now⟩
        else db.inferenceLogs.get k := fun k => Table.get_insertNew _ _ _ _
    refine ⟨(Table.has_insertNew _ _ _ row.id).mpr (.inr rfl),rfl,?_⟩
    · intro k log hl
      rw [hget] at hl
      split at hl
      · rename_i hk
        cases hl
        exact .inr ⟨by simp,hk.1,rfl⟩
      · exact .inl hl

theorem markRaw_apply (db : Db) (id : Uuid) (status : ProcessingStatus) (error : Option Text) (now : ℤ) :
    (db.applyWrites [.markRaw id status error now]).inferenceLogs = db.inferenceLogs ∧
    (∀ k, k ≠ id → (db.applyWrites [.markRaw id status error now]).eventsRaw.get k = db.eventsRaw.get k) ∧
    ∀ row, (db.applyWrites [.markRaw id status error now]).eventsRaw.get id = some row →
      ∃ old, db.eventsRaw.get id = some old ∧ row.payload = old.payload ∧ row.eventType = old.eventType ∧
        row.processingStatus = status ∧ row.processingError = error := by
  have hget : ∀ k, (db.applyWrites [.markRaw id status error now]).eventsRaw.get k =
      if k = id then (db.eventsRaw.get k).map fun row =>
        {row with processingStatus := status, processedAt := some now, processingError := error}
      else db.eventsRaw.get k := fun k => Table.get_updateAt _ _ _ _
  refine ⟨rfl,?_,?_⟩
  · intro k hk
    rw [hget, if_neg hk]
  · intro row hr
    rw [hget, if_pos rfl] at hr
    obtain ⟨old,ho,rfl⟩ := Option.map_eq_some_iff.mp hr
    exact ⟨old,ho,rfl,rfl,rfl,rfl⟩

namespace Script
variable {w : IngestionWorker} {db : Db} {e : Entry} {ws : List Write}

/-- The rows the entry needs are there once its script is applied. -/
theorem rows (h : Script w db e ws) :
    (∀ id payload event, w.disposition e = .accepted id payload event →
      (db.applyWrites ws).eventsRaw.has id = true ∧ (db.applyWrites ws).inferenceLogs.has event.fields.id = true) ∧
    ∀ id payload errors, w.disposition e = .rejected id payload errors →
      (db.applyWrites ws).eventsRaw.has id = true := by
  cases h with
  | @accepted id payload event raw log now hd hr hl =>
    have hraw := hr.apply.1
    have hrest := Db.keeps_applyWrites (log ++ [.markRaw id .processed none now]) (db.applyWrites raw)
    have hlogs := (hl.mono (Db.keeps_applyWrites raw db)).apply.1
    have hmark := Db.keeps_applyWrites [.markRaw id .processed none now] ((db.applyWrites raw).applyWrites log)
    refine ⟨fun id' payload' event' hd' => ?_,fun id' payload' errors hd' => by cases hd.symm.trans hd'⟩
    cases hd.symm.trans hd'
    rw [List.append_assoc, Db.applyWrites_append]
    refine ⟨hrest.raw _ hraw,?_⟩
    rw [Db.applyWrites_append]
    exact hmark.logs _ hlogs
  | @rejected id payload errors error raw now hd hr he =>
    have hmark := Db.keeps_applyWrites [.markRaw id .failed (some (error.take 4000)) now] (db.applyWrites raw)
    constructor
    · intro id' payload' event' hd'
      cases hd.symm.trans hd'
    · intro id' payload' errors' hd'
      cases hd.symm.trans hd'
      rw [Db.applyWrites_append]
      exact hmark.raw _ hr.apply.1

theorem usable (h : Script w db e ws) : w.disposition e ≠ .fatal := by
  cases h with
  | accepted now hd => simp [hd]
  | rejected now hd => simp [hd]

/-- A raw row after the script: an old one, or one the entry has left its mark on. -/
theorem raw_row (h : Script w db e ws) {k : Uuid} {row : RawEvent}
    (hrow : (db.applyWrites ws).eventsRaw.get k = some row) :
    db.eventsRaw.get k = some row ∨ (w.Marks e k row.processingStatus row.processingError ∧
      ((∃ old, db.eventsRaw.get k = some old ∧ row.payload = old.payload ∧ row.eventType = old.eventType) ∨
        (w.Carries e k row.payload ∧ eventTypeOf w.rt row.payload = some row.eventType))) := by
  -- the raw part, then writes that leave the raw rows alone, then the mark
  have hmarked : ∀ {id payload status error now} {raw : List Write} {db₁ : Db}, RawPart w db id payload raw →
      db₁.eventsRaw = (db.applyWrites raw).eventsRaw → w.Marks e id status error → w.Carries e id payload →
      (db₁.applyWrites [.markRaw id status error now]).eventsRaw.get k = some row →
      db.eventsRaw.get k = some row ∨ (w.Marks e k row.processingStatus row.processingError ∧
        ((∃ old, db.eventsRaw.get k = some old ∧ row.payload = old.payload ∧ row.eventType = old.eventType) ∨
          (w.Carries e k row.payload ∧ eventTypeOf w.rt row.payload = some row.eventType))) := by
    intro id payload status error now raw db₁ hr hsame hmarks hcarries hget
    obtain ⟨-,-,hother,hown⟩ := hr.apply
    obtain ⟨-,hkept,hmark⟩ := markRaw_apply db₁ id status error now
    by_cases hk : k = id
    · subst hk
      obtain ⟨old,ho,hp,ht,hs,he⟩ := hmark row hget
      rw [hsame] at ho
      refine .inr ⟨by rw [hs, he]; exact hmarks,?_⟩
      rcases hown old ho with hold | ⟨hpayload,htype⟩
      · exact .inl ⟨old,hold,hp,ht⟩
      · refine .inr ⟨?_,?_⟩
        · rw [hp, hpayload]
          exact hcarries
        · rw [hp, hpayload, ht]
          exact htype
    · rw [hkept k hk, hsame, hother k hk] at hget
      exact .inl hget
  cases h with
  | @accepted id payload event raw log now hd hr hl =>
    rw [Db.applyWrites_append, Db.applyWrites_append] at hrow
    have hlog := (hl.mono (Db.keeps_applyWrites raw db)).apply.2.1
    exact hmarked hr hlog (.processed hd) (.inl ⟨event,hd⟩) hrow
  | @rejected id payload errors error raw now hd hr he =>
    rw [Db.applyWrites_append] at hrow
    exact hmarked hr rfl (.failed hd he) (.inr ⟨errors,hd⟩) hrow

/-- A log row after the script: an old one, or the entry's own. -/
theorem log_row (h : Script w db e ws) {k : Uuid} {log : InferenceLog}
    (hlog : (db.applyWrites ws).inferenceLogs.get k = some log) :
    db.inferenceLogs.get k = some log ∨ ∃ id payload event now, w.disposition e = .accepted id payload event ∧
      event.fields.id = k ∧ log.fields = event.fields ∧ .insertLog event.fields now ∈ ws := by
  cases h with
  | @accepted id payload event raw lg now hd hr hl =>
    rw [Db.applyWrites_append, Db.applyWrites_append, (markRaw_apply _ _ _ _ _).1] at hlog
    rcases (hl.mono (Db.keeps_applyWrites raw db)).apply.2.2 k log hlog with hold | ⟨hne,rfl,hf⟩
    · rw [hr.apply.2.1] at hold
      exact .inl hold
    · cases hl with
      | present _ => exact absurd rfl hne
      | inserted now' => exact .inr ⟨id,payload,event,now',hd,rfl,hf,by simp⟩
  | @rejected id payload errors error raw now hd hr he =>
    rw [Db.applyWrites_append, (markRaw_apply _ _ _ _ _).1, hr.apply.2.1] at hlog
    exact .inl hlog

end Script
end InferenceLogger
