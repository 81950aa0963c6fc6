import InferenceLogger.Ingestion.Payloads

/-! # Redelivery leaves one row

Payloads under ids of their own, delivered any number of times by any number of workers, with
any failures in between. However it went, once each has been handled the tables hold what
the payloads determine.
-/
namespace InferenceLogger
open PyText PyJson AsyncTask KeyedTable Transition

namespace Payloads
variable {d : Deployment} (P : Payloads d)

/-- The event of one of the payloads. -/
def EventOf (event : InferenceEvent) : Prop :=
  ∃ id payload, P.of id = some payload ∧ InferenceEvent.modelValidate d.py payload = .ok event

/-- Deleting the conversation takes nothing away that an event refers to. -/
def Spares (db : Db) (c : Uuid) : Prop :=
  ∀ event, P.EventOf event → event.fields.conversationId ≠ some c ∧
    ∀ m row, event.fields.messageId = some m → db.messages.get m = some row → row.conversationId ≠ c

/-- Only these payloads are published, any number of times, and the conversations they refer to
are not deleted. Anything else may happen. -/
def Replay (s : System) : Action → Prop
  | .publish e => ∃ id payload, P.Carried e id payload
  | .deleteConversation c => P.Spares s.store.db c
  | _ => True

variable {P}

/-! ## What the events refer to is kept -/

/-- What the row refers to is there, if it ever was. -/
structure Alive (s : Store) (row : EventFields) : Prop where
  conversation : ∀ c, row.conversationId = some c → c ∈ s.knownConversations → s.db.conversations.has c = true
  message : ∀ m, row.messageId = some m → m ∈ s.knownMessages → s.db.messages.has m = true

theorem Alive.severed {s : Store} {row : EventFields} (h : Alive s row) (hk : s.Knows row) : s.db.severed row = row := by
  refine Db.severed_of_refersOk ?_
  unfold Db.refersOk
  rw [Bool.and_eq_true, Option.all_eq_true, Option.all_eq_true]
  exact ⟨fun c hc => h.conversation c hc (hk.conversation c hc),fun m hm => h.message m hm (hk.message m hm)⟩

theorem Alive.same {s s' : Store} {row : EventFields} (h : Alive s row)
    (hc : s'.db.conversations = s.db.conversations) (hm : s'.db.messages = s.db.messages)
    (hkc : s'.knownConversations = s.knownConversations) (hkm : s'.knownMessages = s.knownMessages) : Alive s' row := by
  constructor
  · rw [hc, hkc]
    exact h.conversation
  · rw [hm, hkm]
    exact h.message

/-- The invariant of the runs: on top of the system's, every entry carries one of the payloads,
and what their events refer to is kept. -/
structure ReplayInv (P : Payloads d) (s : System) : Prop where
  carries : CarryInv P false s
  alive : ∀ event, P.EventOf event → Alive s.store event.fields

theorem alive_step {s t : System} {a : Action} {event : InferenceEvent} (hs : SystemInv d false s)
    (hevent : P.EventOf event) (ha : P.Replay s a) (ht : System.step d s a = some t)
    (h : Alive s.store event.fields) : Alive t.store event.fields := by
  cases a with
  | turn i choice =>
    simp only [System.step] at ht
    split at ht
    · rename_i starting op k hp
      obtain ⟨r,hr,rfl⟩ := Option.map_eq_some_iff.mp ht
      have hbeside := (hs.turn hp (by simp) hr).1.beside
      exact h.same hbeside.conversations hbeside.messages hbeside.knownConversations hbeside.knownMessages
    · cases ht
  | createConversation c =>
    simp only [System.step] at ht
    split at ht
    · cases ht
    · cases ht
      refine ⟨fun k hk hmem => ?_,h.message⟩
      refine (Table.has_insertNew _ _ _ k).mpr ?_
      rcases List.mem_cons.mp hmem with rfl | hmem
      · exact .inr rfl
      · exact .inl (h.conversation k hk hmem)
  | saveTurn c m =>
    simp only [System.step] at ht
    split at ht
    · cases ht
      refine ⟨fun k hk hmem => (Table.has_set _ _ _ k).mpr (.inl (h.conversation k hk hmem)),fun k hk hmem => ?_⟩
      refine (Table.has_insertNew _ _ _ k).mpr ?_
      rcases List.mem_cons.mp hmem with rfl | hmem
      · exact .inr rfl
      · exact .inl (h.message k hk hmem)
    · cases ht
  | deleteConversation c =>
    simp only [System.step] at ht
    split at ht
    · cases ht
    · cases ht
      obtain ⟨hconv,hmess⟩ := ha event hevent
      refine ⟨fun k hk hmem => ?_,fun k hk hmem => ?_⟩
      · have hne : k ≠ c := by
          rintro rfl
          exact hconv hk
        have hhas := h.conversation k hk hmem
        change ((s.store.db.conversations.erase c).get k).isSome = true
        rw [Table.get_erase, if_neg hne]
        exact hhas
      · obtain ⟨row,hrow⟩ := Table.has_iff.mp (h.message k hk hmem)
        have hne := hmess k row hk hrow
        change ((s.store.db.messages.filter fun _ m => decide (m.conversationId ≠ c)).get k).isSome = true
        rw [Table.get_filter, hrow]
        simp [Option.filter,hne]
  | spawn i =>
    simp only [System.step] at ht
    split at ht <;> cases ht
    exact h
  | next i =>
    simp only [System.step] at ht
    split at ht
    · cases ht
      exact h
    · split at ht <;> cases ht
      exact h.same rfl rfl rfl rfl
    · cases ht
  | exit i =>
    simp only [System.step] at ht
    split at ht <;> cases ht
    · exact h.same rfl rfl rfl rfl
    · exact h.same rfl rfl rfl rfl
  | crash i =>
    cases ht
    exact h.same rfl rfl rfl rfl
  | publish e =>
    simp only [System.step] at ht
    split at ht <;> cases ht
    exact h.same rfl rfl rfl rfl
  | trim n =>
    cases ht
    exact h.same rfl rfl rfl rfl
  | dropGroup =>
    cases ht
    exact h.same rfl rfl rfl rfl

theorem replay_step {s t : System} {a : Action} (h : ReplayInv P s) (ha : P.Replay s a)
    (ht : System.step d s a = some t) : ReplayInv P t := by
  have hpublish : ∀ e, a = .publish e → ∃ id payload, P.Carried e id payload := by
    rintro e rfl
    exact ha
  exact ⟨carry_step h.carries (by simp) hpublish ht,
    fun event he => alive_step h.carries.system he ha ht (h.alive event he)⟩

theorem replay_inv {s : System} (h : Guarded (System.step d) P.Replay System.initial s) : ReplayInv P s := by
  refine h.invariant ⟨initial_carry P false,fun event _ => ?_⟩ ?_
  · exact ⟨fun c _ hc => absurd hc List.not_mem_nil,fun m _ hm => absurd hm List.not_mem_nil⟩
  · exact fun _ _ _ hs ha ht => replay_step hs ha ht

end Payloads

/-- However the payloads were delivered, once each has been handled the tables hold one raw row for
each id and one log row for each payload that validates, the ones the payloads determine. -/
theorem exactly_once {d : Deployment} (hl : d.py.Lawful) (P : Payloads d) {s : System}
    (h : Guarded (System.step d) P.Replay System.initial s)
    (hall : ∀ id payload, P.of id = some payload → P.Handled s.store id) :
    (∀ id, (s.store.db.eventsRaw.get id).map RawEvent.content = (P.of id).bind d.expectedRaw) ∧
    (∀ id, (s.store.db.inferenceLogs.get id).map InferenceLog.fields = (P.of id).bind d.expectedLog) ∧
    ∀ id payload, P.of id = some payload → (d.expectedRaw payload).isSome = true ∧
      ∀ event, InferenceEvent.modelValidate d.py payload = .ok event →
        event.fields.id = id ∧ d.expectedLog payload = some event.fields := by
  have hinv := Payloads.replay_inv h
  refine ⟨fun id => ?_,fun id => ?_,fun id payload hp => Payloads.expected hl hp⟩
  · cases hrow : s.store.db.eventsRaw.get id with
    | some row =>
      obtain ⟨hp,hexpected,-⟩ := Payloads.raw_row hinv.carries hrow
      rw [hp, Option.bind_some, hexpected]
      rfl
    | none =>
      cases hp : P.of id with
      | none => rfl
      | some payload =>
        obtain ⟨row,hhas⟩ := Table.has_iff.mp (Payloads.handled_raw hinv.carries (hall id payload hp))
        cases hrow.symm.trans hhas
  · cases hlog : s.store.db.inferenceLogs.get id with
    | some log =>
      obtain ⟨payload,event,hp,hv,hk,hf⟩ := Payloads.log_row hl hinv.carries hlog
      rw [hp, Option.bind_some, ((Payloads.expected hl hp).2 event hv).2, Option.map_some, hf,
        (hinv.alive event ⟨id,payload,hp,hv⟩).severed hk]
    | none =>
      cases hp : P.of id with
      | none => rfl
      | some payload =>
        rw [Option.bind_some]
        unfold Deployment.expectedLog
        cases hv : InferenceEvent.modelValidate d.py payload with
        | error err => rfl
        | ok event =>
          obtain ⟨log,hsome⟩ := Table.has_iff.mp (Payloads.handled_log hl hinv.carries hp (hall id payload hp) hv)
          cases hlog.symm.trans hsome

/-! A redelivery: the first delivery is committed and the worker crashes before the
acknowledgement, then the group is recreated. -/

theorem plain_id : extractId (payloadOf plain.rt plainEntry) = some 10 := by
  rw [plainEntry, text_ofList, text_ofList, text_ofList]
  decide +kernel

theorem plain_fits : plain.FitsAs (plain.dispositionOf (payloadOf plain.rt plainEntry)) := by
  rw [plainEntry, text_ofList, text_ofList, text_ofList]
  decide +kernel

theorem exactly_once_plain : ∃ s,
    Guarded (System.step plain) (Payloads.single plain 10 plainEntry plain_id plain_fits).Replay System.initial s ∧
    ∀ id, (s.store.db.eventsRaw.get id).map RawEvent.content =
      ((Payloads.single plain 10 plainEntry plain_id plain_fits).of id).bind plain.expectedRaw := by
  have hrun : ((play (System.step plain) System.initial
      ([.spawn 0,goes 0,.publish plainEntry,.next 0] ++ List.replicate 5 (goes 0) ++
        [.crash 0,.dropGroup,.spawn 1,goes 1,.next 1] ++ List.replicate 7 (goes 1))).any fun s =>
          decide (plainEntry ∈ s.store.published ∧ plainEntry.id ∈ s.store.acked)) = true := by
    rw [plainEntry, text_ofList, text_ofList, text_ofList]
    decide +kernel
  obtain ⟨s,hplay,hs⟩ := play_any hrun
  rw [decide_eq_true_eq] at hs
  have hguarded : Guarded (System.step plain) (Payloads.single plain 10 plainEntry plain_id plain_fits).Replay
      System.initial s := by
    refine play_guarded hplay fun a ha t => ?_
    simp only [List.mem_append, List.mem_cons, List.mem_replicate, List.not_mem_nil, or_false] at ha
    rcases ha with (((rfl | rfl | rfl | rfl) | ⟨-,rfl⟩) | (rfl | rfl | rfl | rfl | rfl)) | ⟨-,rfl⟩
    all_goals first | trivial | exact ⟨_,_,Payloads.single_carried plain_id plain_fits⟩
  exact ⟨s,hguarded,(exactly_once plainPydantic_lawful _ hguarded fun id payload hp =>
    Payloads.single_handled plain_id plain_fits hs.1 hs.2 hp).1⟩

end InferenceLogger
