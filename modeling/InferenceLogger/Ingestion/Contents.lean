import InferenceLogger.Foundation.Alone
import InferenceLogger.Ingestion.Frames

/-! # What a handler writes under its id

The rows of an id up to their time stamps, and what a handler's transaction makes of them when
its COMMIT takes effect; until then nothing of it is there. The connection may fail at every
operation, before or after it takes effect.
-/
namespace InferenceLogger
open PyText PyJson AsyncTask KeyedTable RelyGuarantee Cluster

/-! ## The rows of an id -/

/-- The raw row (event type, payload, status and error) and the log row of an id. -/
structure Contents where
  raw : Option (Text × Members × ProcessingStatus × Option Text)
  log : Option EventFields

def Db.contents (db : Db) (id : Uuid) : Contents where
  raw := (db.eventsRaw.get id).map fun row => (row.eventType,row.payload,row.processingStatus,row.processingError)
  log := (db.inferenceLogs.get id).map InferenceLog.fields

namespace Contents
variable (k : Contents)

def land (eventType : Text) (payload : Members) : Contents := {k with raw := k.raw.or (some (eventType,payload,.pending,none))}

def record (row : EventFields) : Contents := {k with log := k.log.or (some row)}

def mark (m : ProcessingStatus × Option Text) : Contents := {k with raw := k.raw.map fun r => (r.1,r.2.1,m)}

/-- How the raw row is marked. -/
def marked : Option (ProcessingStatus × Option Text) := k.raw.map fun r => r.2.2

variable {k} {eventType : Text} {payload : Members} {row : EventFields} {m : ProcessingStatus × Option Text}

theorem land_present (h : k.raw.isSome = true) : k.land eventType payload = k := by
  obtain ⟨r,hr⟩ := Option.isSome_iff_exists.mp h
  unfold land
  rw [hr, Option.some_or, ← hr]

theorem record_present (h : k.log.isSome = true) : k.record row = k := by
  obtain ⟨r,hr⟩ := Option.isSome_iff_exists.mp h
  unfold record
  rw [hr, Option.some_or, ← hr]

theorem mark_eq_iff (h : k.raw.isSome = true) : k.mark m = k ↔ k.marked = some m := by
  obtain ⟨⟨t,p,m'⟩,hr⟩ := Option.isSome_iff_exists.mp h
  constructor
  · intro heq
    have hraw := congrArg raw heq
    simp only [mark, hr, Option.map_some, Option.some_inj, Prod.mk.injEq, true_and] at hraw
    simp [marked,hr,hraw]
  · intro hm
    simp only [marked, hr, Option.map_some, Option.some_inj] at hm
    unfold mark
    rw [hr, Option.map_some, ← hm, ← hr]

end Contents

namespace Db
variable {db : Db} {id : Uuid}

theorem SameRows.contents {db' : Db} (h : db.SameRows db' id) : db.contents id = db'.contents id := by
  unfold Db.contents
  rw [h.raw, h.log]

theorem raw_isSome : (db.contents id).raw.isSome = db.eventsRaw.has id := Option.isSome_map

theorem log_isSome : (db.contents id).log.isSome = db.inferenceLogs.has id := Option.isSome_map

theorem contents_insertRaw (eventType : Text) (payload : Members) (now : ℤ) :
    (db.applyWrite (.insertRaw id eventType payload now)).contents id = (db.contents id).land eventType payload := by
  have hget : (db.eventsRaw.insertNew id ⟨eventType,payload,now,none,.pending,none⟩).get id =
      (db.eventsRaw.get id).or (some ⟨eventType,payload,now,none,.pending,none⟩) := by
    rw [Table.get_insertNew]
    cases h : db.eventsRaw.get id <;> simp
  unfold contents Contents.land
  congr 1
  change Option.map _ ((db.eventsRaw.insertNew id _).get id) = _
  rw [hget]
  cases db.eventsRaw.get id <;> rfl

theorem contents_insertLog {row : EventFields} (h : row.id = id) (now : ℤ) :
    (db.applyWrite (.insertLog row now)).contents id = (db.contents id).record row := by
  subst h
  have hget : (db.inferenceLogs.insertNew row.id ⟨row,now⟩).get row.id =
      (db.inferenceLogs.get row.id).or (some ⟨row,now⟩) := by
    rw [Table.get_insertNew]
    cases h : db.inferenceLogs.get row.id <;> simp
  unfold contents Contents.record
  congr 1
  change Option.map _ ((db.inferenceLogs.insertNew row.id _).get row.id) = _
  rw [hget]
  cases db.inferenceLogs.get row.id <;> rfl

theorem contents_markRaw (status : ProcessingStatus) (error : Option Text) (now : ℤ) :
    (db.applyWrite (.markRaw id status error now)).contents id = (db.contents id).mark (status,error) := by
  unfold contents Contents.mark
  congr 1
  change Option.map _ ((db.eventsRaw.updateAt id _).get id) = _
  rw [Table.get_updateAt, if_pos rfl, Option.map_map, Option.map_map]
  rfl

end Db

/-! ## The transaction of a handler -/

/-- How the raw row of a payload ends up marked. -/
def IngestionWorker.markOf (w : IngestionWorker) (payload : Members) : Option (ProcessingStatus × Option Text) :=
  match InferenceEvent.modelValidate w.py payload with
  | .ok _ => some (.processed,none)
  | .error (.validation errors) => (w.py.errorJson payload errors).map fun error => (.failed,some (error.take 4000))
  | .error .typeError => none

/-- What a completed transaction makes of the rows. -/
inductive Written (w : IngestionWorker) (payload : Members) (k : Contents) : Contents → Prop where
  | accepted {eventType : Text} {event : InferenceEvent} : InferenceEvent.modelValidate w.py payload = .ok event →
      Written w payload k (((k.land eventType payload).record event.toRow).mark (.processed,none))
  | rejected {eventType : Text} {errors : List FieldError} {error : Text} :
      InferenceEvent.modelValidate w.py payload = .error (.validation errors) →
      w.py.errorJson payload errors = some error →
      Written w payload k ((k.land eventType payload).mark (.failed,some (error.take 4000)))

/-- A raw row is there, and with the mark of an accepted payload its log row. -/
def Contents.Settled (k : Contents) : Prop :=
  k.raw.isSome = true ∧ (k.marked = some (.processed,none) → k.log.isSome = true)

namespace Written
variable {w : IngestionWorker} {payload : Members} {k k' : Contents}

theorem settled (h : Written w payload k k') : k'.Settled := by
  cases h with
  | accepted hv => exact ⟨by simp [Contents.mark,Contents.record,Contents.land],fun _ => by simp [Contents.mark,Contents.record]⟩
  | rejected hv he =>
    refine ⟨by simp [Contents.mark,Contents.land],fun hm => ?_⟩
    simp [Contents.marked,Contents.mark,Contents.land] at hm

/-- Where an item of the id has been handled before, the rows stay what they are exactly when
the payload gets the mark that is there. -/
theorem same_iff (h : Written w payload k k') (hk : k.Settled) : k' = k ↔ w.markOf payload = k.marked := by
  obtain ⟨hraw,hlog⟩ := hk
  unfold IngestionWorker.markOf
  cases h with
  | accepted hv =>
    rw [hv, Contents.land_present hraw]
    dsimp only
    constructor
    · intro heq
      have hmarked : k.marked = (k.mark (.processed,none)).marked := by
        have hsame := congrArg Contents.marked heq
        exact hsame.symm
      rw [hmarked]
      obtain ⟨r,hr⟩ := Option.isSome_iff_exists.mp hraw
      simp [Contents.marked,Contents.mark,hr]
    · intro hm
      rw [Contents.record_present (hlog hm.symm)]
      exact (Contents.mark_eq_iff hraw).mpr hm.symm
  | rejected hv he =>
    rw [hv, Contents.land_present hraw]
    dsimp only
    rw [he, Option.map_some, Contents.mark_eq_iff hraw, eq_comm]

end Written

/-- An operation with which a COMMIT takes effect. -/
def lands (op : IngestOp) (c : Choice) : Bool :=
  match op, c.fault with
  | .commit, .before _ => false
  | .commit, _ => true
  | _, _ => false

/-- Alone with the stores, noting whether a COMMIT has taken effect. -/
abbrev Noted {α : Type} (pg : Postgres) (me : ℕ) (t : IngestTask α) (post : Except Exc α → Store × Bool → Prop)
    (s : Store × Bool) : Prop :=
  Sat (noting (ingestExec pg) lands) (solitary (Store × Bool)) me t post s

/-- Before the COMMIT: the tables are as they were, and this is what the transaction sees of the id. -/
structure Staged (me : ℕ) (base : Db) (id : Uuid) (k : Contents) (s : Store × Bool) : Prop where
  unlanded : s.2 = false
  db : s.1.db = base
  view : (s.1.cluster.view me).contents id = k

/-- A statement that goes through stages its effect; one that fails changes no table. -/
def StagedOr {α : Type} (me : ℕ) (base : Db) (id : Uuid) (k : Contents) : Except Exc α → Store × Bool → Prop
  | .ok _, s => Staged me base id k s
  | .error _, s => s.2 = false ∧ s.1.db = base

section
variable {d : Deployment} {me : ℕ} {base : Db} {id : Uuid} {k : Contents} {s : Store × Bool}

theorem statement_stages {α : Type} {c : Cluster} {admits : Bool} {held : Write → Bool} {run : Option (Cluster × Except Exc α)}
    {r : Cluster × Except Exc α} (h : c.statement me admits held run = some r)
    (hrun : run = some r → r.1.db = c.db ∧ ∀ a, r.2 = .ok a → (r.1.view me).contents id = k) :
    r.1.db = c.db ∧ ∀ a, r.2 = .ok a → (r.1.view me).contents id = k := by
  unfold statement at h
  split at h
  · cases h
    exact ⟨rfl,fun a ha => by cases ha⟩
  · split at h
    · cases h
      exact ⟨rfl,fun a ha => by cases ha⟩
    · split at h
      · cases h
      · exact hrun h

/-- A statement is one call: its effect, or a failure of the connection. -/
theorem noted_statement {op : IngestOp} {stmt : ℤ → Option (Cluster × Except Exc (ingestSignature.Answer op))} {k' : Contents}
    (hs : Staged me base id k s) (hperform : ∀ now, s.1.perform d.pg me now op =
      (stmt now).map fun r => ({s.1 with cluster := r.1},r.2))
    (hfail : s.1.failBefore me op = {s.1 with cluster := s.1.cluster.abort me} ∧
      s.1.failAfter me op = {s.1 with cluster := s.1.cluster.abort me}) (hlands : ∀ c, lands op c = false)
    (hstmt : ∀ now r, stmt now = some r → r.1.db = s.1.cluster.db ∧ ∀ a, r.2 = .ok a → (r.1.view me).contents id = k') :
    Noted d.pg me (ingest op) (StagedOr me base id k') s := by
  refine Sat.alone_noting fun c u r hexec => ?_
  have hseen : (s.2 || lands op c) = false := by rw [hlands, Bool.or_false, hs.unlanded]
  rcases ingestExec_cases hexec with ⟨-,hdone⟩ | ⟨-,⟨e,rfl⟩,hfailed⟩
  · rw [hperform] at hdone
    obtain ⟨q,hq,heq⟩ := Option.map_eq_some_iff.mp hdone
    cases heq
    obtain ⟨hdb,hview⟩ := hstmt _ q hq
    have hbase : q.1.db = base := hdb.trans hs.db
    cases hr : q.2 with
    | ok a => exact ⟨hseen,hbase,hview a hr⟩
    | error e => exact ⟨hseen,hbase⟩
  · rw [hfail.1, hfail.2, or_self] at hfailed
    cases hfailed
    exact ⟨hseen,hs.db⟩

theorem noted_recordRaw (hs : Staged me base id k s) (eventType : Text) (payload : Members) :
    Noted d.pg me (ingest (.recordRaw id eventType payload)) (StagedOr me base id (k.land eventType payload)) s := by
  refine noted_statement hs (fun _ => rfl) ⟨rfl,rfl⟩ (fun _ => rfl) fun now r hr => statement_stages hr fun hrun => ?_
  split at hrun
  · rename_i hhas
    cases hrun
    rw [← hs.view, ← Db.raw_isSome] at *
    exact ⟨rfl,fun _ _ => (Contents.land_present hhas).symm⟩
  · cases hrun
    refine ⟨rfl,fun _ _ => ?_⟩
    rw [view_push, Db.contents_insertRaw, hs.view]

theorem noted_upsertLog (hs : Staged me base id k s) {row : EventFields} (hid : row.id = id) :
    Noted d.pg me (ingest (.upsertLog row)) (StagedOr me base id (k.record row)) s := by
  refine noted_statement hs (fun _ => rfl) ⟨rfl,rfl⟩ (fun _ => rfl) fun now r hr => statement_stages hr fun hrun => ?_
  split at hrun
  · rename_i hhas
    cases hrun
    refine ⟨rfl,fun _ _ => ?_⟩
    rw [hs.view, Contents.record_present]
    rw [← hs.view, Db.log_isSome, ← hid]
    exact hhas
  · split at hrun <;> cases hrun
    · refine ⟨rfl,fun _ _ => ?_⟩
      rw [view_push, Db.contents_insertLog hid, hs.view]
    · exact ⟨rfl,fun a ha => by cases ha⟩

theorem noted_markRaw (hs : Staged me base id k s) (hraw : k.raw.isSome = true) (status : ProcessingStatus)
    (error : Option Text) :
    Noted d.pg me (ingest (.markRaw id status error)) (StagedOr me base id (k.mark (status,error))) s := by
  refine noted_statement hs (fun _ => rfl) ⟨rfl,rfl⟩ (fun _ => rfl) fun now r hr => statement_stages hr fun hrun => ?_
  have hhas : (s.1.cluster.view me).eventsRaw.has id = true := by
    rw [← Db.raw_isSome, hs.view]
    exact hraw
  rw [if_pos hhas] at hrun
  cases hrun
  refine ⟨rfl,fun _ _ => ?_⟩
  rw [view_push, Db.contents_markRaw, hs.view]

theorem noted_deadLetter {rt : Runtime} {origin : ℕ} {payload : Json} {reason : String} (hs : Staged me base id k s) :
    Noted d.pg me (RedisEventStream.deadLetter rt origin payload reason) (StagedOr me base id k) s := by
  unfold RedisEventStream.deadLetter
  split
  · exact Sat.alone_raise ⟨hs.unlanded,hs.db⟩
  · refine Sat.alone_noting fun c u r hexec => ?_
    have hcluster : u.cluster = s.1.cluster := by
      rcases ingestExec_cases hexec with ⟨-,hdone⟩ | ⟨-,-,rfl | rfl⟩
      · cases hdone
        rfl
      · rfl
      · rfl
    have hseen : (s.2 || false) = false := by rw [Bool.or_false, hs.unlanded]
    have hdb : u.db = base := (congrArg Cluster.db hcluster).trans hs.db
    cases r with
    | ok a => exact ⟨hseen,hdb,hcluster ▸ hs.view⟩
    | error e => exact ⟨hseen,hdb⟩

/-- The statements of one payload, up to the COMMIT. -/
def Recording (w : IngestionWorker) (me : ℕ) (base : Db) (id : Uuid) (payload : Members) {α : Type} :
    Except Exc α → Store × Bool → Prop
  | .ok _, s => ∃ k, Written w payload (base.contents id) k ∧ Staged me base id k s
  | .error _, s => s.2 = false ∧ s.1.db = base

theorem noted_record (hl : d.py.Lawful) {payload : Members} (hid : extractId payload = some id) (item : DeliveredEvent)
    (outcome : BatchOutcome) (hs : Staged me base id (base.contents id) s) :
    Noted d.pg me (d.record item payload id outcome) (Recording d.toIngestionWorker me base id payload) s := by
  unfold IngestionWorker.record
  split
  · exact Sat.alone_raise ⟨hs.unlanded,hs.db⟩
  · rename_i eventType _
    refine Sat.alone_bind (noted_recordRaw hs eventType payload) (fun _ s hs => ?_) fun e s h => h
    have hraw : ((base.contents id).land eventType payload).raw.isSome = true := by simp [Contents.land]
    split
    · exact Sat.alone_raise ⟨hs.unlanded,hs.db⟩
    · rename_i errors hv
      split
      · exact Sat.alone_raise ⟨hs.unlanded,hs.db⟩
      · rename_i error he
        refine Sat.alone_bind (noted_markRaw hs hraw .failed (some (error.take 4000))) (fun _ s hs => ?_) fun e s h => h
        refine Sat.alone_bind (noted_deadLetter hs) (fun _ s hs => ?_) fun e s h => h
        exact Sat.alone_return ⟨_,.rejected hv he,hs⟩
    · rename_i event hv
      have hevent : event.toRow.id = id :=
        IngestionWorker.validated_id hl hid (IngestionWorker.validated_accepted.mpr ⟨rfl,rfl,hv⟩)
      refine Sat.alone_bind (noted_upsertLog hs hevent) (fun inserted s hs => ?_) fun e s h => h
      refine Sat.alone_bind (noted_markRaw hs hraw .processed none) (fun _ s hs => ?_) fun e s h => h
      exact Sat.alone_return ⟨_,.accepted hv,hs⟩

/-- What a handler has left: its rows if its COMMIT took effect, nothing otherwise, and then it has
failed. -/
def Leaves (w : IngestionWorker) (base : Db) (id : Uuid) (payload : Members) (failed : Prop) (s : Store × Bool) : Prop :=
  (s.2 = true ∧ Written w payload (base.contents id) (s.1.db.contents id)) ∨ (s.2 = false ∧ s.1.db = base ∧ failed)

theorem Leaves.weaken {w : IngestionWorker} {payload : Members} {failed failed' : Prop} (h : Leaves w base id payload failed s)
    (himp : failed → failed') : Leaves w base id payload failed' s :=
  h.imp_right fun h => ⟨h.1,h.2.1,himp h.2.2⟩

/-- An operation that is no COMMIT leaves the tables. -/
theorem noted_kept {op : IngestOp} {payload : Members} {failed : Prop} (hs : Leaves d.toIngestionWorker base id payload failed s)
    (hlands : ∀ c, lands op c = false)
    (hperform : ∀ now u r, s.1.perform d.pg me now op = some (u,r) → u.db = s.1.db)
    (hfail : (s.1.failBefore me op).db = s.1.db ∧ (s.1.failAfter me op).db = s.1.db) :
    Noted d.pg me (ingest op) (fun _ => Leaves d.toIngestionWorker base id payload failed) s := by
  refine Sat.alone_noting fun c u r hexec => ?_
  have hdb : u.db = s.1.db := by
    rcases ingestExec_cases hexec with ⟨-,hdone⟩ | ⟨-,-,rfl | rfl⟩
    · exact hperform _ u r hdone
    · exact hfail.1
    · exact hfail.2
  unfold Leaves
  rw [hlands, Bool.or_false, hdb]
  exact hs

theorem noted_rollback {payload : Members} {failed : Prop} (hs : Leaves d.toIngestionWorker base id payload failed s) :
    Noted d.pg me (ingest .rollback) (fun _ => Leaves d.toIngestionWorker base id payload failed) s := by
  refine noted_kept hs (fun _ => rfl) (fun now u r h => ?_) ⟨rfl,rfl⟩
  cases h
  rfl

theorem noted_close {payload : Members} {failed : Prop} (hs : Leaves d.toIngestionWorker base id payload failed s) :
    Noted d.pg me (ingest .close) (fun _ => Leaves d.toIngestionWorker base id payload failed) s := by
  refine noted_kept hs (fun _ => rfl) (fun now u r h => ?_) ⟨rfl,rfl⟩
  cases h
  rfl

theorem noted_ack {payload : Members} {failed : Prop} (origin : ℕ) (hs : Leaves d.toIngestionWorker base id payload failed s) :
    Noted d.pg me (RedisEventStream.ack origin) (fun _ => Leaves d.toIngestionWorker base id payload failed) s := by
  refine noted_kept hs (fun _ => rfl) (fun now u r h => ?_) ⟨rfl,rfl⟩
  cases h
  rfl

theorem noted_commit {payload : Members} (hs : Recording d.toIngestionWorker me base id payload (.ok () : Except Exc Unit) s) :
    Noted d.pg me (ingest .commit)
      (fun r => Leaves d.toIngestionWorker base id payload (r.isOk = false)) s := by
  obtain ⟨k,hk,hstaged⟩ := hs
  refine Sat.alone_noting fun c u r hexec => ?_
  have hcommit : u = {s.1 with cluster := s.1.cluster.commit me} → lands .commit c = true →
      Leaves d.toIngestionWorker base id payload (r.isOk = false) (u,s.2 || lands .commit c) := by
    rintro rfl hlands
    refine .inl ⟨by rw [hlands, Bool.or_true],?_⟩
    change Written _ payload _ ((s.1.cluster.view me).contents id)
    rw [hstaged.view]
    exact hk
  unfold ingestExec at hexec
  cases hf : c.fault with
  | none =>
    rw [hf] at hexec
    cases hexec
    exact hcommit rfl (by simp [lands,hf])
  | before e =>
    rw [hf] at hexec
    cases hexec
    exact .inr ⟨by simp [lands,hf,hstaged.unlanded],hstaged.db,rfl⟩
  | after e =>
    rw [hf] at hexec
    cases hexec
    exact hcommit rfl (by simp [lands,hf])

theorem noted_session {α : Type} {body : IngestTask α} {payload : Members}
    (h : Noted d.pg me body (Recording d.toIngestionWorker me base id payload) s) :
    Noted d.pg me (ingestSessionOps.session body)
      (fun r => Leaves d.toIngestionWorker base id payload (r.isOk = false)) s := by
  have hcommitted : Noted d.pg me (body >>= fun a => ingest .commit >>= fun _ => pure a)
      (fun r => Leaves d.toIngestionWorker base id payload (r.isOk = false)) s := by
    refine Sat.alone_bind h (fun a u hu => ?_) fun e u hu => .inr ⟨hu.1,hu.2,rfl⟩
    refine Sat.alone_bind (noted_commit hu) (fun _ v hv => Sat.alone_return hv) fun e v hv => hv
  have htransact : Noted d.pg me (ingestSessionOps.transact body)
      (fun r => Leaves d.toIngestionWorker base id payload (r.isOk = false)) s := by
    refine Sat.resume (hcommitted.mono fun r u _ hr => ?_) trivial
    cases r with
    | ok a => exact Sat.alone_return hr
    | error x =>
      change Noted d.pg me (if x.isException = true then (ingest .rollback >>= fun _ => throw x) else throw x) _ u
      split
      · exact Sat.alone_bind (noted_rollback hr) (fun _ v hv => Sat.alone_raise hv) fun e v hv => hv
      · exact Sat.alone_raise hr
  refine Sat.resume (htransact.mono fun r u _ hr => ?_) trivial
  refine Sat.alone_bind (noted_close hr) (fun _ v hv => ?_) fun e v hv => ?_
  · cases r with
    | ok a => exact Sat.alone_return hv
    | error x => exact Sat.alone_raise hv
  · exact hv.weaken fun _ => rfl

/-- Whatever fails, the handler's COMMIT decides whether anything of its id is written. -/
theorem noted_handle (hl : d.py.Lawful) {item : DeliveredEvent} {payload : Members} (hp : item.payload = .obj payload)
    (hid : extractId payload = some id) (outcome : BatchOutcome) {s : Store} (hown : s.cluster.own me = []) :
    Noted d.pg me (d.handle outcome item)
      (fun r => Leaves d.toIngestionWorker s.db id payload (r.isOk = false)) (s,false) := by
  have hstaged : Staged me s.db id (s.db.contents id) (s,false) := by
    refine ⟨rfl,rfl,?_⟩
    unfold Cluster.view
    rw [hown]
    rfl
  unfold IngestionWorker.handle
  simp only [hp, hid]
  refine Sat.alone_bind (noted_session (noted_record hl hid item outcome hstaged)) (fun o u hu => ?_) fun e u hu => hu
  refine Sat.alone_bind (noted_ack _ hu) (fun _ v hv => Sat.alone_return hv) fun e v hv => ?_
  exact hv.weaken fun _ => rfl

end

section
variable {d : Deployment} {me : ℕ} {id : Uuid} {s : Store} {tr : Trace ingestSignature Exc}
variable {allowed : (op : IngestOp) → Except Exc (ingestSignature.Answer op) → Prop}

/-- A handler in whose run a COMMIT took effect, or none did. -/
theorem handle_leaves (hl : d.py.Lawful) {item : DeliveredEvent} {payload : Members} (hp : item.payload = .obj payload)
    (hid : extractId payload = some id) {outcome : BatchOutcome} {out : Except Exc BatchOutcome} {t : Store × Bool}
    (h : Run allowed (d.handle outcome item) tr out)
    (hex : Executes (noting (ingestExec d.pg) lands) me (s,false) tr t) (hown : s.cluster.own me = []) :
    Leaves d.toIngestionWorker s.db id payload (out.isOk = false) t :=
  (noted_handle hl hp hid outcome hown).sound h hex

/-- An item that has been handled leaves the rows of its id settled. -/
theorem handled_settled (hl : d.py.Lawful) {item : DeliveredEvent} (hid : item.eventId = some id)
    {outcome o : BatchOutcome} {t : Store} (h : Run allowed (d.handle outcome item) tr (.ok o))
    (hex : Executes (ingestExec d.pg) me s tr t) (hown : s.cluster.own me = []) : (t.db.contents id).Settled := by
  obtain ⟨seen,hnoted⟩ : ∃ seen, Executes (noting (ingestExec d.pg) lands) me (s,false) tr (t,seen) := hex.noted false
  unfold DeliveredEvent.eventId at hid
  split at hid
  · rename_i payload hp
    rcases handle_leaves hl hp hid h hnoted hown with ⟨-,hwritten⟩ | ⟨-,-,hfailed⟩
    · exact hwritten.settled
    · cases hfailed
  · cases hid

end
end InferenceLogger
