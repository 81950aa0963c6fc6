import InferenceLogger.Ingestion.Payloads

/-! # A log and its conversation

Conversations are deleted while their events are on the way. A log row that is written in time
outlives its conversation; an event that comes after the deletion is refused by the foreign
key, and takes its whole transaction with it.
-/
namespace InferenceLogger
open PyText PyJson AsyncTask KeyedTable RelyGuarantee Cluster Transition

namespace Payloads
variable {d : Deployment} (P : Payloads d)

/-- The stores are healthy, only these payloads are published, and a log row is written while what
it refers to exists, unless it is there already. Conversations come and go at any time. -/
def Orderly (s : System) : Action → Prop
  | .turn i choice => ∀ starting op k, s.workers i = some ⟨starting,.await op k⟩ → Smoothly s.store op choice
  | .publish e => ∃ id payload, P.Carried e id payload
  | _ => True

variable {P}

theorem orderly_calm {s : System} {a : Action} (h : P.Orderly s a) : d.Calm s a := by
  cases a with
  | turn i choice => exact h
  | publish e =>
    obtain ⟨id,payload,hcarried⟩ := h
    change d.FitsAs (d.disposition e)
    rw [hcarried.disposition]
    exact fits_validated hcarried.1
  | _ => trivial

theorem orderly_inv {s : System} (h : Guarded (System.step d) P.Orderly System.initial s) : CarryInv P true s := by
  refine h.invariant (initial_carry P true) fun t a u hs ha ht => carry_step hs (fun _ => orderly_calm ha) ?_ ht
  rintro e rfl
  exact ha

end Payloads

/-- In every run in which each log row is written while what it refers to exists, or is there
already: no worker raises, and none waits but for another's transaction; the rows of every
payload that has been handled are there, with the references that still exist; and rows stay. -/
theorem log_outlives_conversation {d : Deployment} (hl : d.py.Lawful) (P : Payloads d) {s : System}
    (h : Guarded (System.step d) P.Orderly System.initial s) :
    (∀ i starting x, s.workers i ≠ some ⟨starting,.raise x⟩) ∧
    (∀ i starting op k now, s.workers i = some ⟨starting,.await op k⟩ →
      (∃ r, ingestExec d.pg i s.store op ⟨.none,now⟩ = some r) ∨ ∃ w ∈ s.store.cluster.writes, w.1 ≠ i) ∧
    (∀ id payload event, P.of id = some payload → InferenceEvent.modelValidate d.py payload = .ok event →
      P.Handled s.store id →
        (∃ row, s.store.db.eventsRaw.get id = some row ∧ d.expectedRaw payload = some row.content) ∧
        ∃ log, s.store.db.inferenceLogs.get id = some log ∧ log.fields = {event.fields with
          conversationId := event.fields.conversationId.filter s.store.db.conversations.has
          messageId := event.fields.messageId.filter s.store.db.messages.has}) ∧
    ∀ t, Reach (System.step d) s t → ∀ id, s.store.db.inferenceLogs.has id = true →
      t.store.db.inferenceLogs.has id = true := by
  have hinv := Payloads.orderly_inv h
  refine ⟨?_,?_,?_,?_⟩
  · intro i starting x hp
    have hended : ended true i (.error x) s.store :=
      hinv.system.running i _ hp s.store (.refl i _) hinv.system.store
    exact absurd hended.2 (by simp)
  · intro i starting op k now _
    cases he : ingestExec d.pg i s.store op ⟨.none,now⟩ with
    | some r => exact .inl ⟨r,rfl⟩
    | none => exact .inr (perform_waits he)
  · intro id payload event hp hv hh
    obtain ⟨row,hrow⟩ := Table.has_iff.mp (Payloads.handled_raw hinv hh)
    obtain ⟨hp',hexpected,-⟩ := Payloads.raw_row hinv hrow
    cases hp.symm.trans hp'
    obtain ⟨log,hlog⟩ := Table.has_iff.mp (Payloads.handled_log hl hinv hp hh hv)
    obtain ⟨payload',event',hp'',hv',-,hf⟩ := Payloads.log_row hl hinv hlog
    cases hp.symm.trans hp''
    cases hv.symm.trans hv'
    exact ⟨⟨row,hrow,hexpected⟩,log,hlog,hf⟩
  · intro t ht id hid
    exact (reach_grows h.reach ht).keeps.logs id hid

/-! The event of a call for conversation 12, and the conversation. -/

@[irreducible] def tiedEntry : Entry :=
  ⟨1,[(text "data",
    text "\x7b\"id\": \"00000000-0000-0000-0000-00000000000b\", " ++
      text "\"conversation_id\": \"00000000-0000-0000-0000-00000000000c\", \"provider\": \"mock\", " ++
      text "\"model\": \"m\", \"status\": \"success\", \"started_at\": 0, \"completed_at\": 1\x7d")]⟩

def tiedConversation : Conversation := ⟨12,none,.active,0,0⟩

theorem tied_id : extractId (payloadOf plain.rt tiedEntry) = some 11 := by
  rw [tiedEntry, text_ofList, text_ofList, text_ofList, text_ofList]
  decide +kernel

theorem tied_fits : plain.FitsAs (plain.dispositionOf (payloadOf plain.rt tiedEntry)) := by
  rw [tiedEntry, text_ofList, text_ofList, text_ofList, text_ofList]
  decide +kernel

def tiedPayloads : Payloads plain := .single plain 11 tiedEntry tied_id tied_fits

def tiedOrderly (s : System) : Action → Bool
  | .turn i choice => smoothTurn s i choice
  | .publish e => decide (e = tiedEntry)
  | _ => true

theorem tied_orderly {s : System} {a : Action} (h : tiedOrderly s a = true) : tiedPayloads.Orderly s a := by
  cases a with
  | turn i choice => exact smoothTurn_smoothly h
  | publish e =>
    rw [of_decide_eq_true h]
    exact ⟨_,_,Payloads.single_carried tied_id tied_fits⟩
  | _ => trivial

theorem tied_valid : (InferenceEvent.modelValidate plain.py (payloadOf plain.rt tiedEntry)).isOk = true := by
  rw [tiedEntry, text_ofList, text_ofList, text_ofList, text_ofList]
  decide +kernel

/-- Ingested in time: the conversation is deleted afterwards, and the log row stays. -/
theorem log_outlives_tied : ∃ s, Guarded (System.step plain) tiedPayloads.Orderly System.initial s ∧
    s.store.db.conversations.has 12 = false ∧ ∃ log, s.store.db.inferenceLogs.get 11 = some log ∧
      ∃ event : InferenceEvent, log.fields = {event.fields with
        conversationId := event.fields.conversationId.filter s.store.db.conversations.has
        messageId := event.fields.messageId.filter s.store.db.messages.has} := by
  have hrun : ((play (checked (System.step plain) tiedOrderly) System.initial
      ([.spawn 0,goes 0,.createConversation tiedConversation,.publish tiedEntry,.next 0] ++
        List.replicate 7 (goes 0) ++ [.deleteConversation 12])).any fun s =>
          decide (s.store.db.conversations.has 12 = false ∧ tiedEntry ∈ s.store.published ∧
            tiedEntry.id ∈ s.store.acked)) = true := by
    rw [tiedEntry, text_ofList, text_ofList, text_ofList, text_ofList]
    decide +kernel
  obtain ⟨s,hplay,hs⟩ := play_any hrun
  rw [decide_eq_true_eq] at hs
  cases hv : InferenceEvent.modelValidate plain.py (payloadOf plain.rt tiedEntry) with
  | ok event =>
    have hguarded := play_checked (fun _ _ => tied_orderly) hplay
    have hof : tiedPayloads.of 11 = some (payloadOf plain.rt tiedEntry) := (Payloads.single_carried tied_id tied_fits).1
    have hrows := (log_outlives_conversation plainPydantic_lawful tiedPayloads hguarded).2.2.1 11 _ event hof hv
      (Payloads.single_handled tied_id tied_fits hs.2.1 hs.2.2 hof)
    obtain ⟨log,hlog,hf⟩ := hrows.2
    exact ⟨s,hguarded,hs.1,log,hlog,event,hf⟩
  | error err =>
    have hvalid := tied_valid
    rw [hv] at hvalid
    cases hvalid

/-- A process that has ended with an exception. -/
def hasRaised : Option Process → Bool
  | some ⟨false,.raise _⟩ => true
  | _ => false

/-- Deleted first: nothing fails but the foreign key, the handler raises, and neither row is there. -/
theorem deletion_refuses_event : ∃ s,
    Guarded (System.step plain) (fun _ a => ∀ i choice, a = .turn i choice → choice.fault = .none) System.initial s ∧
    tiedEntry ∈ s.store.published ∧ (∃ x, s.workers 0 = some ⟨false,.raise x⟩) ∧
    s.store.db.eventsRaw.has 11 = false ∧ s.store.db.inferenceLogs.has 11 = false := by
  have hrun : ((play (System.step plain) System.initial
      ([.spawn 0,goes 0,.createConversation tiedConversation,.publish tiedEntry,.deleteConversation 12,.next 0] ++
        List.replicate 5 (goes 0))).any fun s => hasRaised (s.workers 0) && decide (tiedEntry ∈ s.store.published ∧
            s.store.db.eventsRaw.has 11 = false ∧ s.store.db.inferenceLogs.has 11 = false)) = true := by
    rw [tiedEntry, text_ofList, text_ofList, text_ofList, text_ofList]
    decide +kernel
  obtain ⟨s,hplay,hs⟩ := play_any hrun
  rw [Bool.and_eq_true, decide_eq_true_eq] at hs
  obtain ⟨hraised,hpublished,hrows⟩ := hs
  refine ⟨s,play_guarded hplay fun a ha t i choice heq => ?_,hpublished,?_,hrows⟩
  · simp only [List.mem_append, List.mem_cons, List.mem_replicate, List.not_mem_nil, or_false] at ha
    rcases ha with (rfl | rfl | rfl | rfl | rfl | rfl) | ⟨-,rfl⟩
    all_goals cases heq
    all_goals rfl
  · unfold hasRaised at hraised
    split at hraised
    · rename_i x hp
      exact ⟨x,hp⟩
    · cases hraised

end InferenceLogger
