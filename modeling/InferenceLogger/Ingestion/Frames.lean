import InferenceLogger.Foundation.Alone
import InferenceLogger.Ingestion.Rules

/-! # What handling one item leaves alone

A handler works on the rows of one id, adds dead letters for one entry, and acknowledges that
entry; whatever fails on the way, nothing else changes.
-/
namespace InferenceLogger
open PyText PyJson AsyncTask KeyedTable RelyGuarantee Cluster

/-- The id the payload is landed under, if it has one. -/
def DeliveredEvent.eventId (item : DeliveredEvent) : Option Uuid :=
  match item.payload with
  | .obj payload => extractId payload
  | _ => none

namespace Write

/-- The id of the row it writes. -/
def key : Write → Uuid
  | .insertRaw id _ _ _ => id
  | .markRaw id _ _ _ => id
  | .insertLog row _ => row.id

end Write

namespace Db

/-- The rows of an id are the same in both. -/
structure SameRows (a b : Db) (id : Uuid) : Prop where
  raw : a.eventsRaw.get id = b.eventsRaw.get id
  log : a.inferenceLogs.get id = b.inferenceLogs.get id

variable {a b c : Db} {id : Uuid}

theorem SameRows.refl (a : Db) (id : Uuid) : a.SameRows a id := ⟨rfl,rfl⟩

theorem SameRows.trans (h : a.SameRows b id) (h' : b.SameRows c id) : a.SameRows c id :=
  ⟨h.raw.trans h'.raw,h.log.trans h'.log⟩

/-- A write leaves the rows of every other id. -/
theorem sameRows_applyWrite (db : Db) {w : Write} (h : w.key ≠ id) : (db.applyWrite w).SameRows db id := by
  cases w with
  | insertRaw k eventType payload now =>
    refine ⟨?_,rfl⟩
    change (db.eventsRaw.insertNew k _).get id = _
    rw [Table.get_insertNew, if_neg (fun hk => h hk.1.symm)]
  | markRaw k status error now =>
    refine ⟨?_,rfl⟩
    change (db.eventsRaw.updateAt k _).get id = _
    rw [Table.get_updateAt, if_neg (fun hk => h hk.symm)]
  | insertLog row now =>
    refine ⟨rfl,?_⟩
    change (db.inferenceLogs.insertNew row.id _).get id = _
    rw [Table.get_insertNew, if_neg (fun hk => h hk.1.symm)]

theorem sameRows_applyWrites {ws : List Write} (db : Db) (h : ∀ w ∈ ws, w.key ≠ id) : (db.applyWrites ws).SameRows db id := by
  induction ws generalizing db with
  | nil => exact .refl db id
  | cons w ws ih =>
    have hrest := ih (db.applyWrite w) fun w' hw' => h w' (List.mem_cons_of_mem _ hw')
    exact hrest.trans (sameRows_applyWrite db (h w List.mem_cons_self))

end Db

/-! ## The operations of a handler -/

namespace DeliveredEvent

/-- An operation on this item. -/
def Concerns (item : DeliveredEvent) : IngestOp → Prop
  | .recordRaw id _ _ => item.eventId = some id
  | .markRaw id _ _ => item.eventId = some id
  | .upsertLog row => item.eventId = some row.id
  | .xaddDead letter => letter.origin = item.deliveryId
  | .xack id => id = item.deliveryId
  | .commit => True
  | .rollback => True
  | .close => True
  | _ => False

end DeliveredEvent

namespace IngestionWorker
variable {w : IngestionWorker} {item : DeliveredEvent} {payload : Members} {id : Uuid}

theorem awaits_deadLetter (j : Json) (reason : String) :
    Awaits item.Concerns (RedisEventStream.deadLetter w.rt item.deliveryId j reason) := by
  unfold RedisEventStream.deadLetter
  split
  · exact awaits_raise _
  · exact awaits_call rfl

theorem awaits_ack : Awaits item.Concerns (RedisEventStream.ack item.deliveryId) := awaits_call rfl

theorem awaits_record (hl : w.py.Lawful) {outcome : BatchOutcome} (hid : item.eventId = some id)
    (hx : extractId payload = some id) : Awaits item.Concerns (w.record item payload id outcome) := by
  unfold record
  cases eventTypeOf w.rt payload with
  | none => exact awaits_raise _
  | some eventType =>
    refine Awaits.bind (awaits_call hid) fun _ => ?_
    cases hv : InferenceEvent.modelValidate w.py payload with
    | error err =>
      cases err with
      | typeError => exact awaits_raise _
      | validation errors =>
        dsimp only
        cases w.py.errorJson payload errors with
        | none => exact awaits_raise _
        | some error =>
          refine Awaits.bind (awaits_call hid) fun _ => ?_
          exact (awaits_deadLetter _ _).bind fun _ => awaits_done _
    | ok event =>
      have hrow : item.Concerns (.upsertLog event.toRow) := by
        have hevent := validated_id hl hx (validated_accepted.mpr ⟨rfl,rfl,hv⟩)
        rw [← hevent] at hid
        exact hid
      refine (awaits_call hrow).bind fun inserted => ?_
      exact Awaits.bind (awaits_call hid) fun _ => awaits_done _

/-- A handler awaits operations on its own item. -/
theorem awaits_handle (hl : w.py.Lawful) (outcome : BatchOutcome) (item : DeliveredEvent) :
    Awaits item.Concerns (w.handle outcome item) := by
  unfold handle
  split
  · rename_i payload hp
    have hid : item.eventId = extractId payload := by
      unfold DeliveredEvent.eventId
      rw [hp]
    split
    · refine (awaits_deadLetter _ _).bind fun _ => ?_
      exact awaits_ack.bind fun _ => awaits_done _
    · rename_i id hx
      have hsession : Awaits item.Concerns (ingestSessionOps.session (w.record item payload id outcome)) :=
        SessionOps.awaits_session (awaits_record hl (hid.trans hx) hx) (awaits_call trivial) (awaits_call trivial)
          (awaits_call trivial)
      refine hsession.bind fun outcome => ?_
      exact awaits_ack.bind fun _ => awaits_done _
  · exact awaits_raise _

/-- So does decoding an entry, which answers for an item of that entry. -/
theorem awaits_receive (delivered : List DeliveredEvent) (e : Entry) :
    Awaits (DeliveredEvent.Concerns ⟨e.id,.null⟩) (RedisEventStream.receive w.rt delivered e) := by
  unfold RedisEventStream.receive
  split
  · exact awaits_raise _
  · have hletter : Awaits (DeliveredEvent.Concerns ⟨e.id,.null⟩) (RedisEventStream.deadLetter w.rt e.id
        (.obj [(text "raw",.str (w.rt.fieldsRepr e.fields))]) "malformed_json") := awaits_deadLetter _ _
    refine hletter.bind fun _ => ?_
    exact Awaits.bind (awaits_call rfl) fun _ => awaits_done _
  · exact awaits_done _

end IngestionWorker

/-! ## What they do -/

namespace Store

/-- What operations on the item leave alone. -/
structure Spares (me : ℕ) (item : DeliveredEvent) (s s' : Store) : Prop where
  rows : ∀ id, item.eventId ≠ some id → s'.db.SameRows s.db id
  letters : ∃ new, s'.redis.deadLetters = s.redis.deadLetters ++ new ∧ ∀ l ∈ new, l.origin = item.deliveryId
  held : ∀ id ∈ s'.hands me, id ∈ s.hands me
  kept : ∀ id ∈ s.hands me, id ≠ item.deliveryId → id ∈ s'.hands me

/-- What is pending is the item's own. -/
def Owns (me : ℕ) (item : DeliveredEvent) (s : Store) : Prop := ∀ w ∈ s.cluster.own me, item.eventId = some w.key

variable {me : ℕ} {item : DeliveredEvent} {s s' s'' : Store}

theorem Spares.refl (me : ℕ) (item : DeliveredEvent) (s : Store) : Spares me item s s :=
  ⟨fun id _ => .refl s.db id,⟨[],(List.append_nil _).symm,fun _ h => absurd h List.not_mem_nil⟩,fun _ h => h,fun _ h _ => h⟩

theorem Spares.trans (h : Spares me item s s') (h' : Spares me item s' s'') : Spares me item s s'' := by
  obtain ⟨new,hnew,horigin⟩ := h.letters
  obtain ⟨new',hnew',horigin'⟩ := h'.letters
  refine ⟨fun id hid => (h'.rows id hid).trans (h.rows id hid),⟨new ++ new',?_,?_⟩,fun id hid => h.held id (h'.held id hid),
    fun id hid hne => h'.kept id (h.kept id hid hne) hne⟩
  · rw [hnew', hnew, List.append_assoc]
  · intro l hl
    exact (List.mem_append.mp hl).elim (horigin l) (horigin' l)

/-- The committed tables and the stream stay as they are. -/
theorem Spares.pending {c : Cluster} (hdb : c.db = s.cluster.db) : Spares me item s {s with cluster := c} := by
  refine ⟨fun id _ => ?_,⟨[],(List.append_nil _).symm,fun _ h => absurd h List.not_mem_nil⟩,fun _ h => h,fun _ h _ => h⟩
  change c.db.SameRows s.cluster.db id
  rw [hdb]
  exact .refl _ id

theorem spares_commit (hown : s.Owns me item) : Spares me item s {s with cluster := s.cluster.commit me} := by
  refine ⟨fun id hid => ?_,⟨[],(List.append_nil _).symm,fun _ h => absurd h List.not_mem_nil⟩,fun _ h => h,fun _ h _ => h⟩
  refine Db.sameRows_applyWrites s.db fun w hw hkey => hid ?_
  rw [hown w hw, hkey]

theorem spares_ack : Spares me item s (s.acknowledge me item.deliveryId) := by
  have hhands : (s.acknowledge me item.deliveryId).hands me = (s.hands me).filter fun i => decide (i ≠ item.deliveryId) :=
    Function.update_self _ _ _
  refine ⟨fun id _ => .refl s.db id,⟨[],(List.append_nil _).symm,fun _ h => absurd h List.not_mem_nil⟩,?_,?_⟩
  · rw [hhands]
    exact fun id hid => List.mem_of_mem_filter hid
  · rw [hhands]
    exact fun id hid hne => List.mem_filter.mpr ⟨hid,decide_eq_true hne⟩

theorem spares_letter {l : DeadLetter} (hl : l.origin = item.deliveryId) :
    Spares me item s {s with redis := s.redis.addDead l} := by
  refine ⟨fun id _ => .refl s.db id,⟨[l],rfl,fun l' hl' => ?_⟩,fun _ h => h,fun _ h _ => h⟩
  rw [List.mem_singleton.mp hl']
  exact hl

/-- A statement adds at most one write, to its own row. -/
inductive Stated (me : ℕ) (id : Uuid) (c : Cluster) : Cluster → Prop where
  | same : Stated me id c c
  | aborted : Stated me id c (c.abort me)
  | pushed (w : Write) : w.key = id → Stated me id c (c.push me w)

theorem Stated.spares {id : Uuid} {c : Cluster} (h : Stated me id s.cluster c) (hid : item.eventId = some id)
    (hown : s.Owns me item) : Spares me item s {s with cluster := c} ∧ ({s with cluster := c} : Store).Owns me item := by
  cases h with
  | same => exact ⟨.refl me item s,hown⟩
  | aborted =>
    refine ⟨.pending rfl,fun w hw => ?_⟩
    change w ∈ (s.cluster.forget me).own me at hw
    rw [own_forget_self] at hw
    cases hw
  | pushed w hkey =>
    refine ⟨.pending rfl,fun w' hw' => ?_⟩
    change w' ∈ (s.cluster.push me w).own me at hw'
    rw [own_push_self] at hw'
    rcases List.mem_append.mp hw' with hw' | hw'
    · exact hown w' hw'
    · rw [List.mem_singleton.mp hw', hkey]
      exact hid

end Store

namespace Cluster
variable {me : ℕ} {pg : Postgres} {c : Cluster}

theorem stated_statement {α : Type} {admits : Bool} {held : Write → Bool} {run : Option (Cluster × Except Exc α)}
    {id : Uuid} {r : Cluster × Except Exc α} (h : c.statement me admits held run = some r)
    (hrun : run = some r → Store.Stated me id c r.1) : Store.Stated me id c r.1 := by
  unfold statement at h
  split at h
  · cases h
    exact .same
  · split at h
    · cases h
      exact .aborted
    · split at h
      · cases h
      · exact hrun h

theorem stated_recordRaw {id : Uuid} {eventType : Text} {payload : Members} {now : ℤ} {r : Cluster × Except Exc Bool}
    (h : c.recordRaw me pg id eventType payload now = some r) : Store.Stated me id c r.1 := by
  refine stated_statement h fun hrun => ?_
  split at hrun <;> cases hrun
  · exact .same
  · exact .pushed _ rfl

theorem stated_markRaw {id : Uuid} {status : ProcessingStatus} {error : Option Text} {now : ℤ}
    {r : Cluster × Except Exc Unit} (h : c.markRaw me pg id status error now = some r) : Store.Stated me id c r.1 := by
  refine stated_statement h fun hrun => ?_
  split at hrun <;> cases hrun
  · exact .pushed _ rfl
  · exact .same

theorem stated_upsertLog {row : EventFields} {now : ℤ} {r : Cluster × Except Exc Bool}
    (h : c.upsertLog me pg row now = some r) : Store.Stated me row.id c r.1 := by
  refine stated_statement h fun hrun => ?_
  split at hrun
  · cases hrun
    exact .same
  · split at hrun <;> cases hrun
    · exact .pushed _ rfl
    · exact .aborted

end Cluster

namespace Store
variable {me : ℕ} {item : DeliveredEvent} {s s' : Store} {pg : Postgres}

/-- One operation on the item, however it ends. -/
theorem spares_exec {op : IngestOp} {c : Choice} {r : Except Exc (ingestSignature.Answer op)} (hop : item.Concerns op)
    (hown : s.Owns me item) (h : ingestExec pg me s op c = some (s',r)) : Spares me item s s' ∧ s'.Owns me item := by
  have hnone : ∀ {c : Cluster}, c.own me = [] → ({s with cluster := c} : Store).Owns me item := by
    intro c hc w hw
    change w ∈ c.own me at hw
    rw [hc] at hw
    cases hw
  have hforget : Spares me item s {s with cluster := s.cluster.forget me} ∧
      ({s with cluster := s.cluster.forget me} : Store).Owns me item := ⟨.pending rfl,hnone own_forget_self⟩
  have habort : Spares me item s {s with cluster := s.cluster.abort me} ∧
      ({s with cluster := s.cluster.abort me} : Store).Owns me item := ⟨.pending rfl,hnone own_forget_self⟩
  have hcommit : Spares me item s {s with cluster := s.cluster.commit me} ∧
      ({s with cluster := s.cluster.commit me} : Store).Owns me item := ⟨spares_commit hown,hnone own_forget_self⟩
  have hsame : Spares me item s s ∧ s.Owns me item := ⟨.refl me item s,hown⟩
  rcases ingestExec_cases h with ⟨-,hperform⟩ | ⟨-,-,hfail⟩
  · cases op with
    | xgroupCreate => cases hop
    | xreadgroup n => cases hop
    | xack id =>
      cases hop
      cases hperform
      exact ⟨spares_ack,hown⟩
    | xaddDead l =>
      cases hperform
      exact ⟨spares_letter hop,hown⟩
    | recordRaw id eventType payload =>
      obtain ⟨q,hq,heq⟩ := Option.map_eq_some_iff.mp hperform
      cases heq
      exact (stated_recordRaw hq).spares hop hown
    | markRaw id status error =>
      obtain ⟨q,hq,heq⟩ := Option.map_eq_some_iff.mp hperform
      cases heq
      exact (stated_markRaw hq).spares hop hown
    | upsertLog row =>
      obtain ⟨q,hq,heq⟩ := Option.map_eq_some_iff.mp hperform
      cases heq
      exact (stated_upsertLog hq).spares hop hown
    | commit =>
      cases hperform
      exact hcommit
    | rollback =>
      cases hperform
      exact hforget
    | close =>
      cases hperform
      exact hforget
  · cases op with
    | xgroupCreate => cases hop
    | xreadgroup n => cases hop
    | xack id =>
      cases hop
      rcases hfail with rfl | rfl
      · exact hsame
      · exact ⟨spares_ack,hown⟩
    | xaddDead l =>
      rcases hfail with rfl | rfl
      · exact hsame
      · exact ⟨spares_letter hop,hown⟩
    | commit =>
      rcases hfail with rfl | rfl
      · exact habort
      · exact hcommit
    | recordRaw id eventType payload => rcases hfail with rfl | rfl <;> exact habort
    | markRaw id status error => rcases hfail with rfl | rfl <;> exact habort
    | upsertLog row => rcases hfail with rfl | rfl <;> exact habort
    | rollback => rcases hfail with rfl | rfl <;> exact hforget
    | close => rcases hfail with rfl | rfl <;> exact hforget

/-- A run of operations on the item. -/
theorem spares_executes {tr : Trace ingestSignature Exc} (h : Executes (ingestExec pg) me s tr s')
    (htr : ∀ e ∈ tr, item.Concerns e.op) (hown : s.Owns me item) : Spares me item s s' ∧ s'.Owns me item := by
  refine h.keeps (I := fun u => Spares me item s u ∧ u.Owns me item) ?_ ⟨.refl me item s,hown⟩
  rintro e he u u' c hexec ⟨hspares,hu⟩
  obtain ⟨hstep,hown'⟩ := spares_exec (htr e he) hu hexec
  exact ⟨hspares.trans hstep,hown'⟩

end Store
end InferenceLogger
