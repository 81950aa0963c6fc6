import InferenceLogger.Foundation.Alone
import InferenceLogger.Ingestion.Handling

/-! # The register of a worker alone

One worker with healthy stores and nobody in between. What it sees of them is a register: which ids
have a log row, how the raw rows are marked, which entries are dead-lettered, and which are still
in its hands. Each operation has one effect on it, and one condition under which it goes through.
-/
namespace InferenceLogger
open PyText PyJson AsyncTask KeyedTable RelyGuarantee Cluster

@[ext] structure Register where
  logged : Uuid → Bool
  status : Uuid → Option ProcessingStatus
  letters : List ℕ
  held : List ℕ

namespace Register
variable (l : Register)

/-- The raw row is there. -/
def land (id : Uuid) : Register := {l with status := Function.update l.status id (some ((l.status id).getD .pending))}

def mark (id : Uuid) (status : ProcessingStatus) : Register := {l with status := Function.update l.status id (some status)}

def log (id : Uuid) : Register := {l with logged := Function.update l.logged id true}

def letter (origin : ℕ) : Register := {l with letters := l.letters ++ [origin]}

def settle (origin : ℕ) : Register := {l with held := l.held.filter fun i => decide (i ≠ origin)}

/-- What an entry adds, by its disposition. -/
def enter (x : ℕ × Disposition) : Register :=
  match x.2 with
  | .malformed => l.letter x.1
  | .fatal => l
  | .anonymous _ => l.letter x.1
  | .rejected id _ _ => ((l.land id).mark id .failed).letter x.1
  | .accepted id _ _ => ((l.land id).log id).mark id .processed

def take (x : ℕ × Disposition) : Register := (l.enter x).settle x.1

/-- The register of tables. -/
def ofTables (db : Db) (letters held : List ℕ) : Register where
  logged id := db.inferenceLogs.has id
  status id := (db.eventsRaw.get id).map RawEvent.processingStatus
  letters := letters
  held := held

variable {db : Db} {letters held : List ℕ} {id : Uuid}

theorem land_present (h : db.eventsRaw.has id = true) : (ofTables db letters held).land id = ofTables db letters held := by
  obtain ⟨row,hrow⟩ := Table.has_iff.mp h
  have hstatus : (ofTables db letters held).status id = some row.processingStatus := congrArg (Option.map _) hrow
  unfold land
  rw [hstatus, Option.getD_some, ← hstatus, Function.update_eq_self]

theorem ofTables_insertRaw {eventType : Text} {payload : Members} {now : ℤ} (h : db.eventsRaw.has id = false) :
    ofTables (db.applyWrite (.insertRaw id eventType payload now)) letters held = (ofTables db letters held).land id := by
  have hnone : db.eventsRaw.get id = none := Option.isSome_eq_false_iff.mp h |> Option.isNone_iff_eq_none.mp
  have hstatus : (ofTables db letters held).status id = none := congrArg (Option.map _) hnone
  refine Register.ext rfl ?_ rfl rfl
  funext k
  change Option.map _ ((db.eventsRaw.insertNew id _).get k) =
    Function.update (fun k => (db.eventsRaw.get k).map RawEvent.processingStatus) id _ k
  rw [Table.get_insertNew, hstatus]
  by_cases hk : k = id
  · subst hk
    simp [hnone]
  · simp [hk]

theorem ofTables_markRaw {status : ProcessingStatus} {error : Option Text} {now : ℤ} (h : db.eventsRaw.has id = true) :
    ofTables (db.applyWrite (.markRaw id status error now)) letters held = (ofTables db letters held).mark id status := by
  obtain ⟨row,hrow⟩ := Table.has_iff.mp h
  refine Register.ext rfl ?_ rfl rfl
  funext k
  change Option.map _ ((db.eventsRaw.updateAt id _).get k) =
    Function.update (fun k => (db.eventsRaw.get k).map RawEvent.processingStatus) id _ k
  rw [Table.get_updateAt]
  by_cases hk : k = id
  · subst hk
    simp [hrow]
  · simp [hk]

theorem log_present (h : db.inferenceLogs.has id = true) : (ofTables db letters held).log id = ofTables db letters held := by
  have hlogged : (ofTables db letters held).logged id = true := h
  unfold log
  rw [← hlogged, Function.update_eq_self]

theorem ofTables_insertLog {row : EventFields} {now : ℤ} :
    ofTables (db.applyWrite (.insertLog row now)) letters held = (ofTables db letters held).log row.id := by
  refine Register.ext ?_ rfl rfl rfl
  funext k
  change (db.inferenceLogs.insertNew row.id _).has k = Function.update (fun k => db.inferenceLogs.has k) row.id true k
  rw [Bool.eq_iff_iff, Table.has_insertNew]
  by_cases hk : k = row.id
  · subst hk
    simp
  · simp [hk]

end Register

/-! ## The operations -/

/-- The operations with nothing going wrong on the way to the stores. -/
def calmExec (pg : Postgres) : Executor ℕ ingestSignature Exc Store ℤ := fun me s op now => s.perform pg me now op

namespace Store

def register (s : Store) (me : ℕ) : Register :=
  .ofTables (s.cluster.view me) (s.redis.deadLetters.map DeadLetter.origin) (s.hands me)

/-- Between two operations: the register, and which references hold. -/
structure Sees (me : ℕ) (refers : EventFields → Bool) (l : Register) (s : Store) : Prop where
  alive : me ∉ s.cluster.aborted
  refers : s.db.refersOk = refers
  register : s.register me = l

/-- And with no transaction open. -/
structure Rests (me : ℕ) (refers : EventFields → Bool) (l : Register) (s : Store) : Prop extends Sees me refers l s where
  own : s.cluster.own me = []

variable {s : Store} {me : ℕ} {refers : EventFields → Bool} {l : Register}

theorem Sees.push {w : Write} {l' : Register} (h : Sees me refers l s)
    (hl : ∀ letters held, Register.ofTables (s.cluster.view me) letters held = l →
      Register.ofTables ((s.cluster.view me).applyWrite w) letters held = l') :
    Sees me refers l' {s with cluster := s.cluster.push me w} := by
  refine ⟨h.alive,h.refers,?_⟩
  unfold Store.register
  rw [view_push]
  exact hl _ _ h.register

theorem Rests.view (h : Rests me refers l s) : s.cluster.view me = s.db := by
  unfold Cluster.view
  rw [h.own]
  rfl

end Store

/-- Alone with healthy stores, the program returns exactly when `fit` holds, and then with this. -/
abbrev Judged {α : Type} (pg : Postgres) (me : ℕ) (t : IngestTask α) (fit : Prop) (p : α → Store → Prop) (s : Store) : Prop :=
  Sat (calmExec pg) (solitary Store) me t (Decides fit p) s

section
open Store
variable {pg : Postgres} {me : ℕ} {refers : EventFields → Bool} {l : Register} {s : Store}

theorem judged_recordRaw {id : Uuid} {eventType : Text} {payload : Members} (h : Sees me refers l s) :
    Judged pg me (ingest (.recordRaw id eventType payload))
      (Postgres.varchar 64 eventType = true ∧ pg.admitsJson (.obj payload) = true)
      (fun _ u => Sees me refers (l.land id) u ∧ (u.cluster.view me).eventsRaw.has id = true) s := by
  refine decides_call fun now u r he => ?_
  obtain ⟨⟨c,r'⟩,hrec,heq⟩ := Option.map_eq_some_iff.mp he
  cases heq
  rcases statement_cases h.alive hrec with ⟨hbad,hr⟩ | ⟨hgood,hrun⟩
  · cases hr
    intro hfit
    rw [Bool.and_eq_false_iff] at hbad
    rcases hbad with hbad | hbad
    · rw [hfit.1] at hbad
      cases hbad
    · rw [hfit.2] at hbad
      cases hbad
  · have hfit := Bool.and_eq_true_iff.mp hgood
    split at hrun
    · rename_i hhas
      cases hrun
      refine ⟨hfit,⟨h.alive,h.refers,?_⟩,hhas⟩
      rw [← h.register]
      exact (Register.land_present hhas).symm
    · rename_i hnot
      cases hrun
      refine ⟨hfit,h.push fun letters held hl => ?_,?_⟩
      · rw [← hl]
        exact Register.ofTables_insertRaw (by simpa using hnot)
      · change ((s.cluster.push me _).view me).eventsRaw.has id = true
        rw [view_push]
        exact (Table.has_insertNew _ _ _ _).mpr (.inr rfl)

theorem judged_markRaw {id : Uuid} {status : ProcessingStatus} {error : Option Text} (h : Sees me refers l s)
    (hhas : (s.cluster.view me).eventsRaw.has id = true) :
    Judged pg me (ingest (.markRaw id status error)) (error.all pg.admitsText = true)
      (fun _ => Sees me refers (l.mark id status)) s := by
  refine decides_call fun now u r he => ?_
  obtain ⟨⟨c,r'⟩,hrec,heq⟩ := Option.map_eq_some_iff.mp he
  cases heq
  rcases statement_cases h.alive hrec with ⟨hbad,hr⟩ | ⟨hgood,hrun⟩
  · cases hr
    intro hfit
    rw [hfit] at hbad
    cases hbad
  · rw [if_pos hhas] at hrun
    cases hrun
    refine ⟨hgood,h.push fun letters held hl => ?_⟩
    rw [← hl]
    exact Register.ofTables_markRaw hhas

/-- The row's own constraints, and the references of a row that is new. -/
theorem judged_upsertLog {row : EventFields} (h : Sees me refers l s) :
    Judged pg me (ingest (.upsertLog row)) (pg.admitsLog row = true ∧ (l.logged row.id = true ∨ refers row = true))
      (fun _ u => Sees me refers (l.log row.id) u ∧ (u.cluster.view me).eventsRaw = (s.cluster.view me).eventsRaw) s := by
  have hlogged : l.logged row.id = (s.cluster.view me).inferenceLogs.has row.id := by
    rw [← h.register]
    rfl
  rw [hlogged, ← h.refers]
  refine decides_call fun now u r he => ?_
  obtain ⟨⟨c,r'⟩,hrec,heq⟩ := Option.map_eq_some_iff.mp he
  cases heq
  rcases statement_cases h.alive hrec with ⟨hbad,hr⟩ | ⟨hgood,hrun⟩
  · cases hr
    intro hfit
    rw [hfit.1] at hbad
    cases hbad
  · split at hrun
    · rename_i hhas
      cases hrun
      refine ⟨⟨hgood,.inl hhas⟩,⟨h.alive,rfl,?_⟩,rfl⟩
      rw [← h.register]
      exact (Register.log_present hhas).symm
    · rename_i hnot
      split at hrun
      · rename_i hrefers
        cases hrun
        refine ⟨⟨hgood,.inr hrefers⟩,?_,?_⟩
        · rw [h.refers]
          refine h.push fun letters held hl => ?_
          rw [← hl]
          exact Register.ofTables_insertLog
        · change ((s.cluster.push me _).view me).eventsRaw = _
          rw [view_push]
          rfl
      · rename_i hdangling
        cases hrun
        rintro ⟨-,hhas | hrefers⟩
        · exact hnot hhas
        · exact hdangling hrefers

theorem judged_deadLetter {rt : Runtime} {origin : ℕ} {payload : Json} {reason : String} (h : Sees me refers l s) :
    Judged pg me (RedisEventStream.deadLetter rt origin payload reason) ((rt.dumps payload).isSome = true)
      (fun _ u => Sees me refers (l.letter origin) u ∧ u.cluster = s.cluster) s := by
  unfold RedisEventStream.deadLetter
  split
  · rename_i hnone
    exact decides_raise (by simp [hnone])
  · rename_i data hdata
    refine decides_call fun now u r he => ?_
    cases he
    refine ⟨by simp [hdata],⟨h.alive,h.refers,?_⟩,rfl⟩
    rw [← h.register]
    refine Register.ext rfl rfl ?_ rfl
    exact List.map_append

theorem judged_ack {origin : ℕ} (h : Rests me refers l s) :
    Judged pg me (RedisEventStream.ack origin) True (fun _ => Rests me refers (l.settle origin)) s := by
  refine decides_call fun now u r he => ?_
  cases he
  refine ⟨trivial,⟨h.alive,h.refers,?_⟩,h.own⟩
  rw [← h.register]
  refine Register.ext rfl rfl rfl ?_
  exact Function.update_self _ _ _

/-! ## The unit of work -/

theorem judged_commit (h : Sees me refers l s) :
    Judged pg me (ingest .commit) True (fun _ => Rests me refers l) s := by
  refine decides_call fun now u r he => ?_
  cases he
  have hown : (s.cluster.commit me).own me = [] := own_forget_self
  refine ⟨trivial,⟨fun ha => (mem_aborted_forget.mp ha).2 rfl,?_,?_⟩,hown⟩
  · -- the writes of a handler are not to the tables referred to
    obtain ⟨hc,hm⟩ := Db.applyWrites_product (s.cluster.own me) s.db
    rw [← h.refers]
    funext row
    change (s.cluster.view me).refersOk row = s.db.refersOk row
    unfold Db.refersOk Cluster.view
    rw [hc, hm]
  · rw [← h.register]
    have hview : (s.cluster.commit me).view me = s.cluster.view me := by
      change Db.applyWrites _ ((s.cluster.commit me).own me) = _
      rw [hown]
      rfl
    change Register.ofTables ((s.cluster.commit me).view me) _ _ = _
    rw [hview]
    rfl

theorem judged_close (h : Rests me refers l s) :
    Judged pg me (ingest .close) True (fun _ => Rests me refers l) s := by
  refine decides_call fun now u r he => ?_
  cases he
  refine ⟨trivial,⟨fun ha => (mem_aborted_forget.mp ha).2 rfl,h.refers,?_⟩,own_forget_self⟩
  rw [← h.register]
  unfold Store.register
  rw [h.view]
  change Register.ofTables ((s.cluster.forget me).view me) _ _ = _
  unfold Cluster.view
  rw [own_forget_self]
  rfl

/-- A session returns exactly when its body does. -/
theorem judged_session {α : Type} {body : IngestTask α} {fit : Prop} {p : α → Prop}
    (h : Judged pg me body fit (fun a u => p a ∧ Sees me refers l u) s) :
    Judged pg me (ingestSessionOps.session body) fit (fun a u => p a ∧ Rests me refers l u) s := by
  have hcommitted : Judged pg me (body >>= fun a => ingest .commit >>= fun _ => pure a) (fit ∧ True ∧ True)
      (fun a u => p a ∧ Rests me refers l u) s := by
    refine decides_bind h fun a u _ hu => ?_
    refine decides_bind (judged_commit hu.2) fun _ v _ hv => ?_
    exact decides_done ⟨hu.1,hv⟩
  have htransact : Judged pg me (ingestSessionOps.transact body) fit (fun a u => p a ∧ Rests me refers l u) s := by
    refine Sat.resume (hcommitted.mono fun r u _ hr => ?_) trivial
    cases r with
    | ok a => exact decides_iff (decides_done hr.2) (iff_of_true trivial hr.1.1)
    | error x =>
      have hfit : ¬ fit := fun hfit => hr ⟨hfit,trivial,trivial⟩
      change Judged pg me (if x.isException = true then (ingest .rollback >>= fun _ => throw x) else throw x) _ _ u
      split
      · refine Sat.bind (Sat.call ?_) trivial
        rintro u rfl - now v q he
        refine ⟨trivial,trivial,?_⟩
        rintro v rfl -
        cases he
        exact decides_raise hfit
      · exact decides_raise hfit
  refine Sat.resume (htransact.mono fun r u _ hr => ?_) trivial
  cases r with
  | ok a =>
    have hclosed : Judged pg me (ingest .close >>= fun _ => Task.ofExcept (.ok a)) (True ∧ True)
        (fun a u => p a ∧ Rests me refers l u) u :=
      decides_bind (judged_close hr.2.2) fun _ v _ hv => decides_done ⟨hr.2.1,hv⟩
    exact decides_iff hclosed (iff_of_true ⟨trivial,trivial⟩ hr.1)
  | error x =>
    refine Sat.bind (Sat.call ?_) trivial
    rintro u rfl - now v q he
    refine ⟨trivial,trivial,?_⟩
    rintro v rfl -
    cases he
    exact decides_raise hr

end

/-! ## One entry -/

/-- The log row of an accepted payload is there already, or what it refers to is. -/
def Disposition.Placed (refers : EventFields → Bool) (logged : Uuid → Bool) : Disposition → Prop
  | .accepted id _ event => logged id = true ∨ refers event.fields = true
  | _ => True

/-- One more item is counted. -/
structure BatchOutcome.Counts (o o' : BatchOutcome) : Prop where
  received : o'.received = o.received
  handled : o'.inserted + o'.duplicates + o'.rejected = o.inserted + o.duplicates + o.rejected + 1

section
open Store
variable {d : Deployment} {me : ℕ} {refers : EventFields → Bool} {l : Register} {s : Store} {payload : Members} {id : Uuid}

theorem fits_landable (h : d.FitsAs (d.validated id payload)) : d.Landable payload := by
  cases hv : d.validated id payload with
  | rejected id' payload' errors =>
    obtain ⟨-,rfl,-⟩ := IngestionWorker.validated_rejected.mp hv
    rw [hv] at h
    exact h.1
  | accepted id' payload' event =>
    obtain ⟨-,rfl,-⟩ := IngestionWorker.validated_accepted.mp hv
    rw [hv] at h
    exact h.1
  | fatal =>
    rw [hv] at h
    exact h.elim
  | malformed =>
    unfold IngestionWorker.validated at hv
    split at hv <;> cases hv
  | anonymous payload' =>
    unfold IngestionWorker.validated at hv
    split at hv <;> cases hv

/-- The transaction of `_handle`. -/
theorem judged_record (hl : d.py.Lawful) (hid : extractId payload = some id) (item : DeliveredEvent)
    (outcome : BatchOutcome) (h : Sees me refers l s) :
    Judged d.pg me (d.record item payload id outcome)
      (d.FitsAs (d.validated id payload) ∧ (d.validated id payload).Placed refers l.logged)
      (fun o u => outcome.Counts o ∧ Sees me refers (l.enter (item.deliveryId,d.validated id payload)) u) s := by
  unfold IngestionWorker.record
  cases ht : eventTypeOf d.rt payload with
  | none =>
    refine decides_raise fun hfit => ?_
    obtain ⟨eventType,htype,-⟩ := fits_landable hfit.1
    rw [ht] at htype
    cases htype
  | some eventType =>
    have hlandable : d.Landable payload ↔ Postgres.varchar 64 eventType = true ∧ d.pg.admitsJson (.obj payload) = true := by
      simp [Deployment.Landable,ht]
    have hland : Judged d.pg me (ingest (.recordRaw id eventType payload)) _ _ s := judged_recordRaw h
    cases hv : InferenceEvent.modelValidate d.py payload with
    | error err =>
      cases err with
      | typeError =>
        have hfatal : d.validated id payload = .fatal := by
          unfold IngestionWorker.validated
          rw [hv]
        rw [hfatal]
        exact decides_iff (decides_bind_raise hland fun _ => ⟨_,rfl⟩) ⟨fun h => h.elim,fun h => h.1.elim⟩
      | validation errors =>
        have hrejected : d.validated id payload = .rejected id payload errors :=
          IngestionWorker.validated_rejected.mpr ⟨rfl,rfl,hv⟩
        rw [hrejected]
        change Judged d.pg me (ingest (.recordRaw id eventType payload) >>= fun _ => _) _ _ s
        dsimp only
        cases he : d.py.errorJson payload errors with
        | none =>
          refine decides_iff (decides_bind_raise hland fun _ => ⟨_,rfl⟩) ?_
          simp [Deployment.FitsAs,he]
        | some error =>
          refine decides_iff (decides_bind hland fun _ u _ hu => decides_bind (judged_markRaw hu.1 hu.2) fun _ v _ hv =>
            decides_bind (judged_deadLetter hv) fun _ w _ hw => decides_done ⟨⟨rfl,?_⟩,hw.1⟩) ?_
          · exact Nat.add_assoc _ _ 1 |>.symm
          · simp [Deployment.FitsAs,Disposition.Placed,he,hlandable]
            tauto
    | ok event =>
      have haccepted : d.validated id payload = .accepted id payload event :=
        IngestionWorker.validated_accepted.mpr ⟨rfl,rfl,hv⟩
      have hevent : event.fields.id = id := IngestionWorker.validated_id hl hid haccepted
      rw [haccepted]
      have hdone : ∀ (inserted : Bool) (v : Store), Sees me refers (((l.land id).log id).mark id .processed) v →
          Judged d.pg me (.done (if inserted = true then {outcome with inserted := outcome.inserted + 1}
            else {outcome with duplicates := outcome.duplicates + 1})) True (fun o u => outcome.Counts o ∧
              Sees me refers (l.enter (item.deliveryId,.accepted id payload event)) u) v := by
        intro inserted v hv
        refine decides_done ⟨?_,hv⟩
        cases inserted
        · refine ⟨rfl,?_⟩
          change outcome.inserted + (outcome.duplicates + 1) + outcome.rejected = _
          omega
        · refine ⟨rfl,?_⟩
          change outcome.inserted + 1 + outcome.duplicates + outcome.rejected = _
          omega
      refine decides_iff (decides_bind hland fun _ u _ hu => decides_bind (judged_upsertLog hu.1) fun inserted v _ hv =>
        decides_bind (judged_markRaw hv.1 ?_) fun _ w _ hw => hdone inserted w ?_) ?_
      · rw [hv.2]
        exact hevent ▸ hu.2
      · exact hevent ▸ hw
      · simp [Deployment.FitsAs,Disposition.Placed,InferenceEvent.toRow,hlandable,hevent]
        tauto

end
end InferenceLogger
