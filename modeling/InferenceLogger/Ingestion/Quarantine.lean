import InferenceLogger.Foundation.Reports
import InferenceLogger.Ingestion.Blocking
import InferenceLogger.Ingestion.Solo

/-! # Ingested or quarantined

Every entry of a batch is to end acknowledged, and in exactly one of three ways: as a log row with
its raw row, as a failed raw row with a dead letter, or as a dead letter. It does when every entry
fits and no accepted one is followed by a rejected one with its id.
-/
namespace InferenceLogger
open PyText PyJson AsyncTask KeyedTable RelyGuarantee Cluster

/-! ## What a batch leaves -/

namespace Register
variable {l : Register} {xs : List (ℕ × Disposition)}

theorem foldl_status (id : Uuid) : (xs.foldl take l).status id = (Reports.last (fun x => x.2.marks id) xs).or (l.status id) :=
  Reports.foldl_field (fun l : Register => l.status id) (fun x => x.2.marks id) (fun l x => l.take_status x id) xs l

/-- What is accepted has a log row. -/
theorem foldl_logged {id : Uuid} (h : ∃ x ∈ xs, x.2.marks id = some .processed) : (xs.foldl take l).logged id = true := by
  have hkeep : ∀ (xs : List (ℕ × Disposition)) (l : Register), l.logged id = true → (xs.foldl take l).logged id = true := by
    intro xs
    induction xs with
    | nil => exact fun l h => h
    | cons x xs ih => exact fun l h => ih _ (by rw [take_logged]; exact Disposition.logs_iff.mpr (.inl h))
  induction xs generalizing l with
  | nil =>
    obtain ⟨x,hx,-⟩ := h
    cases hx
  | cons x xs ih =>
    obtain ⟨y,hy,hmarks⟩ := h
    rcases List.mem_cons.mp hy with rfl | hy
    · exact hkeep xs _ (by rw [take_logged]; exact Disposition.logs_iff.mpr (.inr hmarks))
    · exact ih ⟨y,hy,hmarks⟩

theorem foldl_letters : (xs.foldl take l).letters = l.letters ++ (xs.filter fun x => x.2.isLettered).map Prod.fst := by
  induction xs generalizing l with
  | nil => exact (List.append_nil _).symm
  | cons x xs ih =>
    rw [List.foldl_cons, ih, take_letters, List.filter_cons, List.append_assoc]
    cases x.2.isLettered <;> rfl

/-- Nothing that is taken stays in the worker's hands. -/
theorem foldl_held {i : ℕ} (h : i ∈ (xs.foldl take l).held) : ∀ x ∈ xs, x.1 ≠ i := by
  have hsub : ∀ (xs : List (ℕ × Disposition)) (l : Register), i ∈ (xs.foldl take l).held → i ∈ l.held := by
    intro xs
    induction xs with
    | nil => exact fun l h => h
    | cons x xs ih =>
      intro l h
      have hmem := ih _ h
      rw [take_held] at hmem
      exact List.mem_of_mem_filter hmem
  induction xs generalizing l with
  | nil => exact fun _ hx => absurd hx List.not_mem_nil
  | cons x xs ih =>
    have hmem := hsub xs _ h
    rw [take_held] at hmem
    refine List.forall_mem_cons.mpr ⟨fun heq => ?_,ih h⟩
    exact of_decide_eq_true (List.mem_filter.mp hmem).2 heq.symm

end Register

/-- The order of the agenda is that of the batch, but for the malformed ones, which mark nothing. -/
theorem last_agenda (id : Uuid) (cases : List (ℕ × Disposition)) :
    Reports.last (fun x => x.2.marks id) (agenda cases) = Reports.last (fun x => x.2.marks id) cases := by
  have hsilent : ∀ x : ℕ × Disposition, x.2.isMalformed = true → x.2.marks id = none := by
    rintro ⟨origin,disposition⟩ h
    cases disposition with
    | malformed => rfl
    | _ => cases h
  have hnone : Reports.last (fun x : ℕ × Disposition => x.2.marks id) (cases.filter fun x => x.2.isMalformed) = none :=
    Reports.last_eq_none.mpr fun x hx => hsilent x (List.mem_filter.mp hx).2
  have hrest : Reports.last (fun x : ℕ × Disposition => x.2.marks id) (cases.filter fun x => !x.2.isMalformed) =
      Reports.last (fun x => x.2.marks id) cases :=
    Reports.last_filter fun x _ hx => hsilent x (by simpa using hx)
  unfold agenda
  rw [Reports.last_append, hnone, hrest, Option.or_none]

theorem mem_agenda {x : ℕ × Disposition} {cases : List (ℕ × Disposition)} : x ∈ agenda cases ↔ x ∈ cases := by
  unfold agenda
  rw [List.mem_append, List.mem_filter, List.mem_filter, ← and_or_left]
  exact and_iff_left (by cases x.2.isMalformed <;> simp)

/-! ## The three ends of an entry -/

namespace Deployment
variable (d : Deployment)

/-- The id the payload of an entry is landed under. -/
def landedId (e : Entry) : Option Uuid :=
  match RedisEventStream.decode d.rt e.fields with
  | .ok (some (.obj payload)) => extractId payload
  | _ => none

/-- A log row, and its raw row is processed. -/
def Ingested (t : Store) (e : Entry) : Prop :=
  ∃ id row, d.landedId e = some id ∧ t.db.inferenceLogs.has id = true ∧ t.db.eventsRaw.get id = some row ∧
    row.processingStatus = .processed

/-- Dead-lettered between these two states. -/
def Lettered (s t : Store) (e : Entry) : Prop :=
  ∃ letter ∈ t.redis.deadLetters.drop s.redis.deadLetters.length, letter.origin = e.id

/-- A failed raw row and a dead letter. -/
def Quarantined (s t : Store) (e : Entry) : Prop :=
  (∃ id row, d.landedId e = some id ∧ t.db.eventsRaw.get id = some row ∧ row.processingStatus = .failed) ∧ Lettered s t e

/-- A dead letter alone. -/
def OnlyLettered (s t : Store) (e : Entry) : Prop :=
  Lettered s t e ∧ ∀ id, d.landedId e = some id → t.db.eventsRaw.has id = false

/-- Exactly one of the three. -/
def Filed (s t : Store) (e : Entry) : Prop :=
  (d.Ingested t e ∧ ¬ d.Quarantined s t e ∧ ¬ d.OnlyLettered s t e) ∨
  (¬ d.Ingested t e ∧ d.Quarantined s t e ∧ ¬ d.OnlyLettered s t e) ∨
  (¬ d.Ingested t e ∧ ¬ d.Quarantined s t e ∧ d.OnlyLettered s t e)

/-- The worker gets through its batch, and however it does, it does not raise, and every entry is
acknowledged and filed. -/
def Digests (me : ℕ) (s : Store) : Prop :=
  (∃ tr out t, Run Whatever d.processBatch tr out ∧ Executes (calmExec d.pg) me s tr t) ∧
  ∀ tr out t, Run Whatever d.processBatch tr out → Executes (calmExec d.pg) me s tr t →
    (∃ outcome, out = .ok outcome) ∧ ∀ e ∈ s.redis.batch d.batchSize, e.id ∉ t.hands me ∧ d.Filed s t e

/-- Every entry fits; what an accepted one refers to is there, unless its log row is, or comes of an
entry before it; and the last entry with the id of an accepted one is accepted too. -/
structure Digestible (db : Db) (batch : List Entry) : Prop where
  fits : ∀ e ∈ batch, d.Fits e
  placed : ∀ before e after id payload event, batch = before ++ e :: after → d.disposition e = .accepted id payload event →
    db.inferenceLogs.has id = true ∨ db.refersOk event.fields = true ∨
      ∃ e' ∈ before, (d.disposition e').marks id = some .processed
  kept : ∀ e ∈ batch, ∀ id, (d.disposition e).marks id = some .processed →
    Reports.last (fun e => (d.disposition e).marks id) batch = some .processed

end Deployment

section
open Store
variable {d : Deployment} {me : ℕ} {refers : EventFields → Bool} {l : Register} {s t : Store} {batch : List Entry}

theorem clears_iff {logged : Uuid → Bool} : d.Clears refers logged (batch.map d.disposition) ↔ (∀ e ∈ batch, d.Fits e) ∧
    ∀ before e after id payload event, batch = before ++ e :: after → d.disposition e = .accepted id payload event →
      logged id = true ∨ refers event.fields = true ∨ ∃ e' ∈ before, (d.disposition e').marks id = some .processed := by
  induction batch generalizing logged with
  | nil =>
    refine iff_of_true trivial ⟨fun _ he => absurd he List.not_mem_nil,fun before e after id payload event h => ?_⟩
    cases before <;> cases h
  | cons x batch ih =>
    rw [List.forall_mem_cons]
    constructor
    · rintro ⟨⟨hfits,hplaced⟩,hclears⟩
      obtain ⟨hrest,hlater⟩ := ih.mp hclears
      refine ⟨⟨hfits,hrest⟩,fun before e after id payload event hsplit hdisp => ?_⟩
      cases before with
      | nil =>
        cases hsplit
        rw [hdisp] at hplaced
        exact hplaced.imp_right .inl
      | cons y before =>
        cases hsplit
        rcases hlater before e after id payload event rfl hdisp with hlogs | hrefers | ⟨e',he',hmarks⟩
        · rcases Disposition.logs_iff.mp hlogs with hlogged | hmarks
          · exact .inl hlogged
          · exact .inr (.inr ⟨x,List.mem_cons_self,hmarks⟩)
        · exact .inr (.inl hrefers)
        · exact .inr (.inr ⟨e',List.mem_cons_of_mem _ he',hmarks⟩)
    · rintro ⟨⟨hfits,hrest⟩,hplaced⟩
      refine ⟨⟨hfits,?_⟩,ih.mpr ⟨hrest,fun before e after id payload event hsplit hdisp => ?_⟩⟩
      · cases hdisp : d.disposition x with
        | accepted id payload event =>
          rcases hplaced [] x batch id payload event rfl hdisp with hlogged | hrefers | ⟨e',he',-⟩
          · exact .inl hlogged
          · exact .inr hrefers
          · cases he'
        | _ => trivial
      · subst hsplit
        rcases hplaced (x :: before) e after id payload event rfl hdisp with hlogged | hrefers | ⟨e',he',hmarks⟩
        · exact .inl (Disposition.logs_iff.mpr (.inl hlogged))
        · exact .inr (.inl hrefers)
        · rcases List.mem_cons.mp he' with rfl | he'
          · exact .inl (Disposition.logs_iff.mpr (.inr hmarks))
          · exact .inr (.inr ⟨e',he',hmarks⟩)

/-- The id is part of the decision. -/
theorem landedId_disposition {e : Entry} (h : d.disposition e ≠ .fatal) : d.landedId e = (d.disposition e).landed := by
  unfold Deployment.landedId
  unfold IngestionWorker.disposition at h ⊢
  cases hd : RedisEventStream.decode d.rt e.fields with
  | error x =>
    rw [hd] at h
    exact absurd rfl h
  | ok payload =>
    rw [hd] at h
    cases payload with
    | none => rfl
    | some payload =>
      cases payload with
      | obj payload =>
        change d.dispositionOf payload ≠ .fatal at h
        change extractId payload = (d.dispositionOf payload).landed
        unfold IngestionWorker.dispositionOf at h ⊢
        cases hid : extractId payload with
        | none => rfl
        | some id =>
          rw [hid] at h
          change d.validated id payload ≠ .fatal at h
          change some id = (d.validated id payload).landed
          unfold IngestionWorker.validated at h ⊢
          split <;> rename_i hv
          · rfl
          · rfl
          · rw [hv] at h
            exact absurd rfl h
      | _ => exact absurd rfl h

/-- An entry with a raw row ends as the row says. -/
theorem filed_row {e : Entry} {id : Uuid} {row : RawEvent} (hland : d.landedId e = some id)
    (hrow : t.db.eventsRaw.get id = some row) : d.Filed s t e ↔
      (t.db.inferenceLogs.has id = true ∧ row.processingStatus = .processed) ∨
      (row.processingStatus = .failed ∧ Deployment.Lettered s t e) := by
  have hingested : d.Ingested t e ↔ t.db.inferenceLogs.has id = true ∧ row.processingStatus = .processed := by
    constructor
    · rintro ⟨id',row',hid,hlog,hget,hstatus⟩
      cases hland.symm.trans hid
      cases hrow.symm.trans hget
      exact ⟨hlog,hstatus⟩
    · exact fun h => ⟨id,row,hland,h.1,hrow,h.2⟩
  have hquarantined : d.Quarantined s t e ↔ row.processingStatus = .failed ∧ Deployment.Lettered s t e := by
    refine and_congr_left fun _ => ⟨?_,fun h => ⟨id,row,hland,hrow,h⟩⟩
    rintro ⟨id',row',hid,hget,hstatus⟩
    cases hland.symm.trans hid
    cases hrow.symm.trans hget
    exact hstatus
  have honly : ¬ d.OnlyLettered s t e := by
    intro h
    have hnone := h.2 id hland
    unfold Table.has at hnone
    rw [hrow] at hnone
    cases hnone
  unfold Deployment.Filed
  rw [hingested, hquarantined]
  cases row.processingStatus <;> simp [honly]

/-- One without an id ends as a dead letter or not at all. -/
theorem filed_unlanded {e : Entry} (hland : d.landedId e = none) : d.Filed s t e ↔ Deployment.Lettered s t e := by
  have hingested : ¬ d.Ingested t e := by
    rintro ⟨id,row,hid,-⟩
    rw [hland] at hid
    cases hid
  have hquarantined : ¬ d.Quarantined s t e := by
    rintro ⟨⟨id,row,hid,-⟩,-⟩
    rw [hland] at hid
    cases hid
  have honly : d.OnlyLettered s t e ↔ Deployment.Lettered s t e := by
    refine and_iff_left fun id hid => ?_
    rw [hland] at hid
    cases hid
  unfold Deployment.Filed
  rw [honly]
  simp [hingested,hquarantined]

/-- The stores at the end of a batch. -/
structure Ended (d : Deployment) (me : ℕ) (batch : List Entry) (s t : Store) : Prop where
  fits : ∀ e ∈ batch, d.Fits e
  distinct : (batch.map Entry.id).Nodup
  register : ∃ held, t.register me = (agenda (batch.map d.entryCase)).foldl Register.take {s.register me with held := held}
  view : t.cluster.view me = t.db

namespace Ended

theorem held (h : Ended d me batch s t) {e : Entry} (he : e ∈ batch) : e.id ∉ t.hands me := by
  obtain ⟨held,hregister⟩ := h.register
  intro hmem
  have hend : e.id ∈ ((agenda (batch.map d.entryCase)).foldl Register.take {s.register me with held := held}).held := by
    rw [← hregister]
    exact hmem
  exact Register.foldl_held hend (d.entryCase e) (mem_agenda.mpr (List.mem_map_of_mem he)) rfl

/-- The raw row of an id that is marked in the batch has its last mark. -/
theorem raw (h : Ended d me batch s t) {id : Uuid} {status : ProcessingStatus}
    (hlast : Reports.last (fun e => (d.disposition e).marks id) batch = some status) :
    ∃ row, t.db.eventsRaw.get id = some row ∧ row.processingStatus = status := by
  obtain ⟨held,hregister⟩ := h.register
  have hmap : Reports.last (fun x => x.2.marks id) (batch.map d.entryCase) = some status := by
    unfold Reports.last at hlast ⊢
    rw [List.filterMap_map]
    exact hlast
  have hstatus : (t.register me).status id = some status := by
    rw [hregister, Register.foldl_status, last_agenda, hmap]
    rfl
  change (t.cluster.view me |>.eventsRaw.get id).map RawEvent.processingStatus = some status at hstatus
  rw [h.view] at hstatus
  exact Option.map_eq_some_iff.mp hstatus

theorem logged (h : Ended d me batch s t) {e : Entry} (he : e ∈ batch) {id : Uuid}
    (hmarks : (d.disposition e).marks id = some .processed) : t.db.inferenceLogs.has id = true := by
  obtain ⟨held,hregister⟩ := h.register
  have hlogged : (t.register me).logged id = true := by
    rw [hregister]
    exact Register.foldl_logged ⟨d.entryCase e,mem_agenda.mpr (List.mem_map_of_mem he),hmarks⟩
  change (t.cluster.view me).inferenceLogs.has id = true at hlogged
  rwa [h.view] at hlogged

theorem lettered (h : Ended d me batch s t) {e : Entry} (he : e ∈ batch) :
    Deployment.Lettered s t e ↔ (d.disposition e).isLettered = true := by
  obtain ⟨held,hregister⟩ := h.register
  have hletters : t.redis.deadLetters.map DeadLetter.origin = s.redis.deadLetters.map DeadLetter.origin ++
      ((agenda (batch.map d.entryCase)).filter fun x => x.2.isLettered).map Prod.fst := by
    have hfold := congrArg Register.letters hregister
    rw [Register.foldl_letters] at hfold
    exact hfold
  have hnew : (t.redis.deadLetters.drop s.redis.deadLetters.length).map DeadLetter.origin =
      ((agenda (batch.map d.entryCase)).filter fun x => x.2.isLettered).map Prod.fst := by
    rw [List.map_drop, hletters]
    exact List.drop_left' (List.length_map _)
  have hmem : Deployment.Lettered s t e ↔ e.id ∈ (t.redis.deadLetters.drop s.redis.deadLetters.length).map DeadLetter.origin :=
    List.mem_map.symm
  rw [hmem, hnew, List.mem_map]
  constructor
  · rintro ⟨x,hx,hid⟩
    obtain ⟨hagenda,hlettered⟩ := List.mem_filter.mp hx
    obtain ⟨e',he',rfl⟩ := List.mem_map.mp (mem_agenda.mp hagenda)
    rwa [List.inj_on_of_nodup_map h.distinct he' he hid] at hlettered
  · exact fun hlettered => ⟨d.entryCase e,List.mem_filter.mpr ⟨mem_agenda.mpr (List.mem_map_of_mem he),hlettered⟩,rfl⟩

/-- An entry of the batch is filed, unless it is accepted and a later one with its id is not. -/
theorem filed_iff (h : Ended d me batch s t) {e : Entry} (he : e ∈ batch) : d.Filed s t e ↔
    ∀ id, (d.disposition e).marks id = some .processed →
      Reports.last (fun e => (d.disposition e).marks id) batch = some .processed := by
  have hfits : d.FitsAs (d.disposition e) := h.fits e he
  have hlettered := h.lettered he
  have hland : d.landedId e = (d.disposition e).landed := landedId_disposition fun hfatal => by
    rw [hfatal] at hfits
    exact hfits
  -- an id that is marked in the batch has a last mark there
  have hmarked : ∀ id, (d.disposition e).marks id ≠ none →
      ∃ status, Reports.last (fun e => (d.disposition e).marks id) batch = some status := by
    refine fun id hne => Option.ne_none_iff_exists'.mp fun hnone => hne ?_
    exact Reports.last_eq_none.mp hnone e he
  cases hd : d.disposition e with
  | fatal =>
    rw [hd] at hfits
    exact hfits.elim
  | malformed =>
    rw [hd] at hland hlettered
    rw [filed_unlanded hland, hlettered]
    exact iff_of_true rfl fun id hmarks => by cases hmarks
  | anonymous payload =>
    rw [hd] at hland hlettered
    rw [filed_unlanded hland, hlettered]
    exact iff_of_true rfl fun id hmarks => by cases hmarks
  | rejected id payload errors =>
    rw [hd] at hland hlettered
    obtain ⟨status,hlast⟩ := hmarked id (by simp [hd,Disposition.marks])
    obtain ⟨row,hrow,hstatus⟩ := h.raw hlast
    rw [filed_row hland hrow]
    refine iff_of_true ?_ fun id' hmarks => ?_
    · obtain ⟨e',he',hmarks⟩ := Reports.last_eq_some hlast
      cases status with
      | processed => exact .inl ⟨h.logged he' hmarks,hstatus⟩
      | failed => exact .inr ⟨hstatus,hlettered.mpr rfl⟩
      | pending => exact absurd hmarks Disposition.marks_pending
    · obtain ⟨payload',event,hx⟩ := Disposition.marks_processed.mp hmarks
      cases hx
  | accepted id payload event =>
    rw [hd] at hland hlettered
    have hmarks : (d.disposition e).marks id = some .processed := Disposition.marks_processed.mpr ⟨payload,event,hd⟩
    obtain ⟨status,hlast⟩ := hmarked id (by simp [hmarks])
    obtain ⟨row,hrow,hstatus⟩ := h.raw hlast
    have hnot : ¬ Deployment.Lettered s t e := fun hl => by cases hlettered.mp hl
    rw [filed_row hland hrow]
    constructor
    · rintro (⟨-,hprocessed⟩ | ⟨-,hl⟩) id' hmarks'
      · obtain ⟨payload',event',hx⟩ := Disposition.marks_processed.mp hmarks'
        cases hx
        rw [hlast, ← hstatus, hprocessed]
      · exact absurd hl hnot
    · intro hkept
      have hprocessed := hkept id (by rw [← hd]; exact hmarks)
      rw [hlast] at hprocessed
      exact .inl ⟨h.logged he hmarks,hstatus.trans (Option.some.inj hprocessed)⟩

end Ended

/-! ## A worker about to poll -/

/-- Nobody has a transaction open, and the ids of the stream are distinct. -/
structure Store.Ready (me : ℕ) (s : Store) : Prop where
  writes : s.cluster.writes = []
  alive : me ∉ s.cluster.aborted
  distinct : (s.redis.entries.map Entry.id).Nodup

theorem Store.Ready.rests (h : s.Ready me) : s.Rests me s.db.refersOk (s.register me) := by
  refine ⟨⟨h.alive,rfl,rfl⟩,?_⟩
  unfold Cluster.own
  rw [h.writes]
  rfl

theorem batch_sublist (r : Redis) (n : ℕ) : (r.batch n).Sublist r.entries := by
  unfold Redis.batch
  split
  · exact List.nil_sublist _
  · exact (List.take_sublist _ _).trans List.filter_sublist

theorem Store.Stated.writes {id : Uuid} {c c' : Cluster} (h : Store.Stated me id c c') :
    ∀ w ∈ c'.writes, w.1 = me ∨ w ∈ c.writes := by
  intro w hw
  cases h with
  | same => exact .inr hw
  | aborted => exact .inr (mem_writes_forget hw)
  | pushed w' =>
    rcases List.mem_append.mp hw with hw | hw
    · exact .inr hw
    · exact .inl (congrArg Prod.fst (List.mem_singleton.mp hw))

/-- What is pending afterwards was pending, or is the worker's own. -/
theorem perform_writes {pg : Postgres} {now : ℤ} {op : IngestOp} {r : Except Exc (ingestSignature.Answer op)}
    (h : s.perform pg me now op = some (t,r)) : ∀ w ∈ t.cluster.writes, w.1 = me ∨ w ∈ s.cluster.writes := by
  cases op with
  | xgroupCreate =>
    cases h
    exact fun w hw => .inr hw
  | xreadgroup n =>
    rw [perform_xreadgroup] at h
    split at h <;> cases h <;> exact fun w hw => .inr hw
  | xack id =>
    cases h
    exact fun w hw => .inr hw
  | xaddDead letter =>
    cases h
    exact fun w hw => .inr hw
  | recordRaw id eventType payload =>
    obtain ⟨q,hq,heq⟩ := Option.map_eq_some_iff.mp h
    cases heq
    exact (stated_recordRaw hq).writes
  | markRaw id status error =>
    obtain ⟨q,hq,heq⟩ := Option.map_eq_some_iff.mp h
    cases heq
    exact (stated_markRaw hq).writes
  | upsertLog row =>
    obtain ⟨q,hq,heq⟩ := Option.map_eq_some_iff.mp h
    cases heq
    exact (stated_upsertLog hq).writes
  | commit =>
    cases h
    exact fun w hw => .inr (mem_writes_forget hw)
  | rollback =>
    cases h
    exact fun w hw => .inr (mem_writes_forget hw)
  | close =>
    cases h
    exact fun w hw => .inr (mem_writes_forget hw)

/-- With nobody else's transaction open, no operation waits. -/
theorem Store.Ready.runs {α : Type} (h : s.Ready me) (pg : Postgres) (task : IngestTask α) :
    ∃ tr out t, Run Whatever task tr out ∧ Executes (calmExec pg) me s tr t := by
  refine Executes.exists_run (I := fun u : Store => ∀ w ∈ u.cluster.writes, w.1 = me) 0 (fun u op hu => ?_) task ?_
  · cases hperform : u.perform pg me 0 op with
    | none =>
      obtain ⟨w,hw,hne⟩ := perform_waits hperform
      exact absurd (hu w hw) hne
    | some step =>
      refine ⟨step.1,step.2,hperform,fun w hw => ?_⟩
      exact (perform_writes hperform w hw).elim (fun h => h) (hu w)
  · rw [h.writes]
    exact fun _ hw => absurd hw List.not_mem_nil

/-- A batch that is digested fits. -/
theorem digests_clears (hl : d.py.Lawful) (hs : s.Ready me) (h : d.Digests me s) :
    d.Clears s.db.refersOk (s.register me).logged ((s.redis.batch d.batchSize).map d.disposition) := by
  obtain ⟨tr,out,t,hrun,hex⟩ := h.1
  obtain ⟨⟨outcome,rfl⟩,-⟩ := h.2 tr out t hrun hex
  exact ((judged_batch hl hs.rests).sound hrun hex).1

theorem register_logged (hs : s.Ready me) : (s.register me).logged = fun id => s.db.inferenceLogs.has id := by
  unfold Store.register
  rw [hs.rests.view]
  rfl

/-- A batch that runs to its end. -/
theorem batch_ended (hl : d.py.Lawful) (hs : s.Ready me) {tr : Trace ingestSignature Exc} {outcome : BatchOutcome}
    (hrun : Run Whatever d.processBatch tr (.ok outcome)) (hex : Executes (calmExec d.pg) me s tr t) :
    Ended d me (s.redis.batch d.batchSize) s t := by
  obtain ⟨hclears,-,held,hrests⟩ := (judged_batch hl hs.rests).sound hrun hex
  exact ⟨(clears_iff.mp hclears).1,hs.distinct.sublist ((batch_sublist s.redis d.batchSize).map Entry.id),
    ⟨held,hrests.register⟩,hrests.view⟩

end

/-- A worker with healthy stores gets through a batch, with every entry acknowledged and in exactly one
of the three ends, exactly when every entry fits and is placed and no accepted one is marked as failed
by a later one; and the counts of a batch that completes add up. -/
theorem batch_digested_iff {d : Deployment} (hl : d.py.Lawful) {me : ℕ} {s : Store} (hs : s.Ready me) :
    (∀ tr outcome t, Run Whatever d.processBatch tr (.ok outcome) → Executes (calmExec d.pg) me s tr t →
      outcome.received = outcome.inserted + outcome.duplicates + outcome.rejected) ∧
    (d.Digests me s ↔ d.Digestible s.db (s.redis.batch d.batchSize)) := by
  refine ⟨fun tr outcome t hrun hex => ((judged_batch hl hs.rests).sound hrun hex).2.1,fun h => ?_,fun h => ?_⟩
  · have hclears := digests_clears hl hs h
    rw [register_logged hs] at hclears
    obtain ⟨hfits,hplaced⟩ := clears_iff.mp hclears
    refine ⟨hfits,hplaced,fun e he => ?_⟩
    obtain ⟨tr,out,t,hrun,hex⟩ := h.1
    obtain ⟨⟨outcome,rfl⟩,hfiled⟩ := h.2 tr out t hrun hex
    exact ((batch_ended hl hs hrun hex).filed_iff he).mp (hfiled e he).2
  · refine ⟨hs.runs d.pg d.processBatch,fun tr out t hrun hex => ?_⟩
    have hclears : d.Clears s.db.refersOk (s.register me).logged ((s.redis.batch d.batchSize).map d.disposition) := by
      rw [register_logged hs]
      exact clears_iff.mpr ⟨h.fits,h.placed⟩
    cases out with
    | error x => exact absurd hclears ((judged_batch hl hs.rests).sound hrun hex)
    | ok outcome =>
      have hended := batch_ended hl hs hrun hex
      exact ⟨⟨outcome,rfl⟩,fun e he => ⟨hended.held he,(hended.filed_iff he).mpr (h.kept e he)⟩⟩

/-! An entry that is no dictionary, alone in the stream, and one that has no id. -/

def arrayEntry : Entry := ⟨1,arrayFields⟩

def flatEntry : Entry := ⟨2,flatFields⟩

def oneEntry (e : Entry) : Store :=
  {cluster := {db := ⟨.empty,.empty,.empty,.empty⟩}, redis := {entries := [e], lastId := e.id, group := some ⟨0,[]⟩}}

theorem oneEntry_ready (e : Entry) : (oneEntry e).Ready 0 := ⟨rfl,List.not_mem_nil,List.nodup_singleton _⟩

theorem oneEntry_batch {e : Entry} (h : 0 < e.id) : (oneEntry e).redis.batch plain.batchSize = [e] := by
  change (List.filter (fun e : Entry => decide (0 < e.id)) [e]).take 100 = [e]
  have hfresh : List.filter (fun e : Entry => decide (0 < e.id)) [e] = [e] := by simp [h]
  rw [hfresh]
  rfl

theorem batch_digested_flat :
    (∀ tr outcome t, Run Whatever plain.processBatch tr (.ok outcome) →
      Executes (calmExec plain.pg) 0 (oneEntry flatEntry) tr t →
        outcome.received = outcome.inserted + outcome.duplicates + outcome.rejected) ∧
    plain.Digests 0 (oneEntry flatEntry) := by
  obtain ⟨k,t,hdecode,hk⟩ := flatFields_decode
  have hdisposition : plain.disposition flatEntry = .anonymous [(k,.str t)] := by
    refine (IngestionWorker.disposition_obj hdecode).trans ?_
    have hid : extractId [(k,.str t)] = none := by simp [extractId,PyJson.get,hk]
    unfold IngestionWorker.dispositionOf
    rw [hid]
  have hfits : plain.Fits flatEntry := by
    unfold Deployment.Fits
    rw [hdisposition]
    exact plain.rt.dumps_flat k t
  have hbatch := batch_digested_iff (d := plain) plainPydantic_lawful (oneEntry_ready flatEntry)
  refine ⟨hbatch.1,hbatch.2.mpr ?_⟩
  rw [oneEntry_batch (by decide)]
  refine ⟨fun e he => List.mem_singleton.mp he ▸ hfits,
    fun before e after id payload event hsplit hdisp => ?_,fun e he id hmarks => ?_⟩
  · have he : e ∈ [flatEntry] := by
      rw [hsplit]
      exact List.mem_append_right _ List.mem_cons_self
    rw [List.mem_singleton.mp he, hdisposition] at hdisp
    cases hdisp
  · rw [List.mem_singleton.mp he, hdisposition] at hmarks
    cases hmarks

/-- The text of the other is an empty list. -/
theorem array_never_digested : (oneEntry arrayEntry).Ready 0 ∧ (oneEntry arrayEntry).redis.batch plain.batchSize = [arrayEntry] ∧
    ¬ plain.Digests 0 (oneEntry arrayEntry) := by
  have hbatch := oneEntry_batch (e := arrayEntry) (by decide)
  refine ⟨oneEntry_ready arrayEntry,hbatch,fun h => ?_⟩
  have hclears := digests_clears plainPydantic_lawful (oneEntry_ready arrayEntry) h
  rw [hbatch] at hclears
  have hfits := clears_fits hclears (plain.disposition arrayEntry) (List.mem_map_of_mem List.mem_cons_self)
  have hfatal : plain.disposition arrayEntry = .fatal := by
    unfold IngestionWorker.disposition
    rw [show arrayEntry.fields = arrayFields from rfl, arrayFields_decode]
  rw [hfatal] at hfits
  exact hfits

end InferenceLogger
