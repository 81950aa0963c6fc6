import InferenceLogger.Frontend.Dashboard
import InferenceLogger.Ingestion.Consistency
import InferenceLogger.Ingestion.Frames

/-! # What the ingestion panel shows

A handler lands the raw row first and marks it before it commits, so that the panel's counts of
the two tables fit together in every run, although three statements read them one after another.
-/
namespace InferenceLogger
open PyText PyJson AsyncTask KeyedTable RelyGuarantee Cluster Transition

/-- Every log row has its raw row. -/
def Db.Backed (db : Db) : Prop := ∀ k, db.inferenceLogs.has k = true → db.eventsRaw.has k = true

theorem Db.has_applyWrites (ws : List Write) (db : Db) (k : Uuid) :
    ((db.applyWrites ws).eventsRaw.has k = true ↔ db.eventsRaw.has k = true ∨ ∃ w ∈ ws, insertsRaw k w = true) ∧
    ((db.applyWrites ws).inferenceLogs.has k = true ↔ db.inferenceLogs.has k = true ∨ ∃ w ∈ ws, insertsLog k w = true) := by
  induction ws generalizing db with
  | nil => simp [Db.applyWrites]
  | cons w ws ih =>
    obtain ⟨hraw,hlog⟩ := ih (db.applyWrite w)
    change ((db.applyWrite w).applyWrites ws).eventsRaw.has k = true ↔ _ at hraw
    refine ⟨hraw.trans ?_,hlog.trans ?_⟩
    · have hw : (db.applyWrite w).eventsRaw.has k = true ↔ db.eventsRaw.has k = true ∨ insertsRaw k w = true := by
        cases w with
        | insertRaw id eventType payload now =>
          rw [insertsRaw, decide_eq_true_eq]
          exact (Table.has_insertNew db.eventsRaw id _ k).trans (or_congr_right eq_comm)
        | markRaw id status error now =>
          unfold Db.applyWrite Table.has
          rw [Table.get_updateAt]
          split <;> simp [insertsRaw]
        | insertLog row now => simp [Db.applyWrite,insertsRaw]
      rw [hw]
      simp [or_assoc]
    · have hw : (db.applyWrite w).inferenceLogs.has k = true ↔ db.inferenceLogs.has k = true ∨ insertsLog k w = true := by
        cases w with
        | insertRaw id eventType payload now => simp [Db.applyWrite,insertsLog]
        | markRaw id status error now => simp [Db.applyWrite,insertsLog]
        | insertLog row now =>
          rw [insertsLog, decide_eq_true_eq]
          exact (Table.has_insertNew db.inferenceLogs row.id _ k).trans (or_congr_right eq_comm)
      rw [hw]
      simp [or_assoc]

/-! ## One operation -/

namespace Cluster
variable {c c' : Cluster} {me i j : ℕ} {k : Uuid}

theorem view_raw : (c.view i).eventsRaw.has k = true ↔ c.db.eventsRaw.has k = true ∨ ∃ w ∈ c.own i, insertsRaw k w = true :=
  (Db.has_applyWrites (c.own i) c.db k).1

theorem view_log : (c.view i).inferenceLogs.has k = true ↔ c.db.inferenceLogs.has k = true ∨
    ∃ w ∈ c.own i, insertsLog k w = true :=
  (Db.has_applyWrites (c.own i) c.db k).2

/-- In the committed tables and as every transaction sees them. -/
structure Backed (c : Cluster) : Prop where
  committed : c.db.Backed
  views : ∀ i, (c.view i).Backed

/-- A transaction is as it was, and the committed rows are still there. -/
theorem raw_kept (hown : c'.own j = c.own j) (hk : c.db.Keeps c'.db) (h : (c.view j).eventsRaw.has k = true) :
    (c'.view j).eventsRaw.has k = true := by
  rw [view_raw] at h ⊢
  rw [hown]
  exact h.imp (hk.raw k) id

theorem Backed.beside (hb : c.Backed) (hc : c'.db.Backed) (hown : c'.own j = c.own j) (hk : c.db.Keeps c'.db) :
    (c'.view j).Backed := by
  intro k hlog
  rcases view_log.mp hlog with hlog | hlog
  · exact view_raw.mpr (.inl (hc k hlog))
  · rw [hown] at hlog
    exact raw_kept hown hk (hb.views j k (view_log.mpr (.inr hlog)))

/-- What one session does to the tables. -/
structure Secures (me : ℕ) (c c' : Cluster) : Prop where
  backed : c'.Backed
  keeps : c.db.Keeps c'.db
  own : ∀ j, j ≠ me → c'.own j = c.own j

theorem backed_view (hc : c.db.Backed) (hown : c.own i = []) : (c.view i).Backed := by
  unfold view
  rw [hown]
  exact hc

theorem Backed.secures (hb : c.Backed) (hc : c'.db.Backed) (hk : c.db.Keeps c'.db) (hown : ∀ j, j ≠ me → c'.own j = c.own j)
    (hme : (c'.view me).Backed) : Secures me c c' := by
  refine ⟨⟨hc,fun j => ?_⟩,hk,hown⟩
  by_cases hj : j = me
  · exact hj ▸ hme
  · exact hb.beside hc (hown j hj) hk

theorem secures_refl (hb : c.Backed) : Secures me c c := ⟨hb,.refl _,fun _ _ => rfl⟩

theorem secures_forget (hb : c.Backed) : Secures me c (c.forget me) :=
  hb.secures hb.committed (.refl _) frame_forget.own (backed_view hb.committed own_forget_self)

theorem secures_abort (hb : c.Backed) : Secures me c (c.abort me) :=
  hb.secures hb.committed (.refl _) frame_abort.own (backed_view hb.committed own_forget_self)

theorem secures_commit (hb : c.Backed) : Secures me c (c.commit me) :=
  hb.secures (hb.views me) (Db.keeps_applyWrites _ _) frame_commit.own (backed_view (hb.views me) own_forget_self)

/-- A log row is written under an id that has a raw row. -/
theorem secures_push {w : Write} (hb : c.Backed) (hw : ∀ k, insertsLog k w = true → (c.view me).eventsRaw.has k = true) :
    Secures me c (c.push me w) := by
  refine hb.secures hb.committed (.refl _) (fun j hj => own_push_other hj w) ?_
  have hraw : ∀ k, (c.view me).eventsRaw.has k = true → ((c.push me w).view me).eventsRaw.has k = true := by
    intro k h
    rw [view_raw] at h ⊢
    rw [own_push_self]
    exact h.imp id fun ⟨w',hmem,hins⟩ => ⟨w',List.mem_append_left _ hmem,hins⟩
  intro k hlog
  rw [view_log, own_push_self] at hlog
  rcases hlog with hlog | ⟨w',hmem,hins⟩
  · exact hraw k (hb.views me k (view_log.mpr (.inl hlog)))
  · rcases List.mem_append.mp hmem with hmem | hmem
    · exact hraw k (hb.views me k (view_log.mpr (.inr ⟨w',hmem,hins⟩)))
    · cases List.mem_singleton.mp hmem
      exact hraw k (hw k hins)

/-- A statement about a row that has landed. -/
theorem Backed.stated {id : Uuid} (hb : c.Backed) (hhas : (c.view me).eventsRaw.has id = true) (h : Store.Stated me id c c') :
    Secures me c c' := by
  cases h with
  | same => exact secures_refl hb
  | aborted => exact secures_abort hb
  | pushed w hkey =>
    refine secures_push hb fun k hins => ?_
    cases w with
    | insertLog row now =>
      have hk : row.id = k := of_decide_eq_true hins
      have hid : row.id = id := hkey
      rw [← hk, hid]
      exact hhas
    | _ => cases hins

end Cluster

/-- The transaction has landed the row of its event. -/
def Phase.Landed (c : Cluster) (i : ℕ) : Phase → Prop
  | .landed id payload => extractId payload = some id ∧ (c.view i).eventsRaw.has id = true
  | .logged id _ => (c.view i).eventsRaw.has id = true
  | _ => True

theorem Phase.Landed.mono {c c' : Cluster} {i : ℕ} {φ : Phase} (h : φ.Landed c i)
    (hraw : ∀ k, (c.view i).eventsRaw.has k = true → (c'.view i).eventsRaw.has k = true) : φ.Landed c' i := by
  cases φ with
  | landed id payload => exact ⟨h.1,hraw id h.2⟩
  | logged id event => exact hraw id h
  | _ => trivial

section
variable {d : Deployment} {i : ℕ} {s s' : Store} {op : IngestOp} {c : Choice} {id : Uuid}

theorem raw_pushed {c : Cluster} {w : Write} (h : (c.view i).eventsRaw.has id = true) :
    ((c.push i w).view i).eventsRaw.has id = true := by
  rw [view_raw] at h ⊢
  rw [own_push_self]
  exact h.imp (fun h => h) fun ⟨w',hmem,hins⟩ => ⟨w',List.mem_append_left _ hmem,hins⟩

/-- A statement that gets no answer aborts. -/
theorem exec_stated {r} (hop : ∀ now t r, s.perform d.pg i now op = some (t,r) → Store.Stated i id s.cluster t.cluster)
    (hbefore : s.failBefore i op = {s with cluster := s.cluster.abort i})
    (hafter : s.failAfter i op = {s with cluster := s.cluster.abort i})
    (he : ingestExec d.pg i s op c = some (s',r)) : Store.Stated i id s.cluster s'.cluster := by
  rcases ingestExec_cases he with ⟨-,hperform⟩ | ⟨-,-,rfl | rfl⟩
  · exact hop _ _ _ hperform
  · rw [hbefore]
    exact .aborted
  · rw [hafter]
    exact .aborted

theorem exec_markRaw {status : ProcessingStatus} {error : Option Text} {r}
    (he : ingestExec d.pg i s (.markRaw id status error) c = some (s',r)) : Store.Stated i id s.cluster s'.cluster := by
  refine exec_stated (fun now t r hperform => ?_) rfl rfl he
  obtain ⟨q,hq,heq⟩ := Option.map_eq_some_iff.mp hperform
  cases heq
  exact stated_markRaw hq

theorem exec_upsertLog {row : EventFields} {r} (he : ingestExec d.pg i s (.upsertLog row) c = some (s',r)) :
    Store.Stated i row.id s.cluster s'.cluster := by
  refine exec_stated (fun now t r hperform => ?_) rfl rfl he
  obtain ⟨q,hq,heq⟩ := Option.map_eq_some_iff.mp hperform
  cases heq
  exact stated_upsertLog hq

/-- Landing: the row is there already, or the statement adds it. -/
theorem secures_recordRaw {eventType : Text} {payload : Members} {r} (hb : s.cluster.Backed)
    (he : ingestExec d.pg i s (.recordRaw id eventType payload) c = some (s',r)) :
    Secures i s.cluster s'.cluster ∧ ∀ b, r = .ok b → (s'.cluster.view i).eventsRaw.has id = true := by
  have hfailed : ∀ t : Store, t = {s with cluster := s.cluster.abort i} → Secures i s.cluster t.cluster :=
    fun t ht => ht ▸ secures_abort hb
  rcases ingestExec_cases he with ⟨-,hperform⟩ | ⟨-,⟨e,rfl⟩,hfail⟩
  · obtain ⟨q,hq,heq⟩ := Option.map_eq_some_iff.mp hperform
    cases heq
    by_cases halive : i ∈ s.cluster.aborted
    · unfold recordRaw statement at hq
      rw [if_pos halive] at hq
      cases hq
      exact ⟨secures_refl hb,fun b hr => by cases hr⟩
    · rcases recordRaw_cases halive hq with ⟨-,e,rfl⟩ | ⟨hhas,rfl⟩ | rfl
      · exact ⟨secures_abort hb,fun b hr => by cases hr⟩
      · exact ⟨secures_refl hb,fun _ _ => hhas⟩
      · refine ⟨secures_push hb fun k hins => (by cases hins),fun _ _ => ?_⟩
        refine view_raw.mpr (.inr ⟨.insertRaw id eventType payload c.now,?_,decide_eq_true rfl⟩)
        change Write.insertRaw id eventType payload c.now ∈ (s.cluster.push i _).own i
        rw [own_push_self]
        exact List.mem_append_right _ (List.mem_singleton_self _)
  · refine ⟨?_,fun b hr => by cases hr⟩
    rcases hfail with rfl | rfl
    · exact hfailed _ rfl
    · exact hfailed _ rfl

/-- Every operation that its phase allows. -/
theorem secures_allowed {φ φ' : Phase} {r : Except Exc (ingestSignature.Answer op)} (hl : d.py.Lawful)
    (hb : s.cluster.Backed) (hm : φ.Landed s.cluster i) (ha : d.Allows φ op r φ')
    (he : ingestExec d.pg i s op c = some (s',r)) : Secures i s.cluster s'.cluster ∧ φ'.Landed s'.cluster i := by
  have hsame : s'.cluster = s.cluster → Secures i s.cluster s'.cluster := fun h => by
    rw [h]
    exact secures_refl hb
  have hgone : (op = .rollback ∨ op = .close) → Secures i s.cluster s'.cluster := by
    intro hop
    have hforget : s'.cluster = s.cluster.forget i := by
      rcases ingestExec_cases he with ⟨-,hperform⟩ | ⟨-,-,hfail⟩
      · rcases hop with rfl | rfl <;> (cases hperform; rfl)
      · rcases hop with rfl | rfl <;> rcases hfail with rfl | rfl <;> rfl
    rw [hforget]
    exact secures_forget hb
  cases ha with
  | stream r hop => exact ⟨hsame (stream_cluster hop he),trivial⟩
  | land r hid ht =>
    obtain ⟨hsecures,hhas⟩ := secures_recordRaw hb he
    refine ⟨hsecures,?_⟩
    cases r with
    | ok b => exact ⟨hid,hhas b rfl⟩
    | error e => trivial
  | @log id payload event r hv =>
    have hevent : event.fields.id = id := IngestionWorker.validated_id hl hm.1
        (IngestionWorker.validated_accepted.mpr ⟨rfl,rfl,hv⟩)
    have hstated := exec_upsertLog he
    rw [hevent] at hstated
    refine ⟨hb.stated hm.2 hstated,?_⟩
    cases r with
    | error e => trivial
    | ok b =>
      obtain ⟨⟨c₁,r₁⟩,hq,heq⟩ := Option.map_eq_some_iff.mp (performed he)
      cases heq
      rcases upsertLog_cases (statement_ok hq).1 hq with ⟨-,e,hr⟩ | ⟨-,hr⟩ | ⟨-,-,hr⟩ | ⟨-,-,e,hr⟩
      · cases hr
      · cases hr
        exact hm.2
      · cases hr
        exact raw_pushed hm.2
      · cases hr
  | process r =>
    refine ⟨hb.stated hm (exec_markRaw he),?_⟩
    cases r <;> trivial
  | fail r hv =>
    refine ⟨hb.stated hm.2 (exec_markRaw he),?_⟩
    cases r <;> trivial
  | letter l r =>
    have hletter : (IngestOp.xaddDead l).onStream := trivial
    refine ⟨hsame (stream_cluster hletter he),?_⟩
    cases r <;> trivial
  | commit r hφ =>
    refine ⟨?_,by cases r <;> trivial⟩
    rcases ingestExec_cases he with ⟨-,hperform⟩ | ⟨-,-,rfl | rfl⟩
    · cases hperform
      exact secures_commit hb
    · exact secures_abort hb
    · exact secures_commit hb
  | rollback φ r => exact ⟨hgone (.inl rfl),trivial⟩
  | close φ r => exact ⟨hgone (.inr rfl),trivial⟩

end

/-! ## Runs -/

structure BackedInv (d : Deployment) (s : System) : Prop where
  backed : s.store.cluster.Backed
  running : ∀ i p, s.workers i = some p → ∃ φ : Phase, φ.Landed s.store.cluster i ∧
    Follows d.Allows IngestionWorker.Returning p.task φ

namespace BackedInv
variable {d : Deployment} {s t : System}

/-- The stream or a worker's hands change, and a worker may begin or be gone. -/
theorem worker (h : BackedInv d s) {i : ℕ} {p : Option Process} {v : Store} (hs : Secures i s.store.cluster v.cluster)
    (hp : ∀ q, p = some q → ∃ φ : Phase, φ.Landed v.cluster i ∧ Follows d.Allows IngestionWorker.Returning q.task φ) :
    BackedInv d (({s with store := v} : System).setWorker i p) where
  backed := hs.backed
  running := by
    intro j q hq
    change Function.update s.workers i p j = some q at hq
    by_cases hj : j = i
    · subst hj
      rw [Function.update_self] at hq
      exact hp q hq
    · rw [Function.update_of_ne hj] at hq
      obtain ⟨φ,hm,hf⟩ := h.running j q hq
      exact ⟨φ,hm.mono fun k => raw_kept (hs.own j hj) hs.keeps,hf⟩

/-- The rows of a table that ingestion does not write, or the references of the log rows. -/
theorem reshape (h : BackedInv d s) (store : Store) (hwrites : store.cluster.writes = s.store.cluster.writes)
    (hraw : store.db.eventsRaw = s.store.db.eventsRaw)
    (hlogs : ∀ k, store.db.inferenceLogs.has k = s.store.db.inferenceLogs.has k) : BackedInv d {s with store := store} := by
  have hown : ∀ i, store.cluster.own i = s.store.cluster.own i := fun i => by rw [own, own, hwrites]
  have hkeeps : s.store.db.Keeps store.db := by
    refine ⟨fun k hk => ?_,fun k hk => (hlogs k).trans hk⟩
    rw [hraw]
    exact hk
  have hcommitted : store.db.Backed := by
    intro k hk
    rw [hraw]
    exact h.backed.committed k ((hlogs k).symm.trans hk)
  refine ⟨⟨hcommitted,fun i => h.backed.beside hcommitted (hown i) hkeeps⟩,fun i p hp => ?_⟩
  obtain ⟨φ,hm,hf⟩ := h.running i p hp
  exact ⟨φ,hm.mono fun k => raw_kept (hown i) hkeeps,hf⟩

theorem kill (h : BackedInv d s) (i : ℕ) : BackedInv d (s.kill i) :=
  h.worker (v := ({s.store with cluster := s.store.cluster.forget i} : Store).withHand i [])
    (secures_forget h.backed) fun q hq => by cases hq

theorem start (h : BackedInv d s) {i : ℕ} {p : Process} {v : Store} (hs : v.cluster = s.store.cluster)
    (hf : Follows d.Allows IngestionWorker.Returning p.task .idle) :
    BackedInv d (({s with store := v} : System).setWorker i (some p)) := by
  refine h.worker (by rw [hs]; exact secures_refl h.backed) fun q hq => ?_
  cases hq
  exact ⟨.idle,trivial,hf⟩

theorem step (hl : d.py.Lawful) (h : BackedInv d s) {a : Action} (ht : System.step d s a = some t) : BackedInv d t := by
  have hstream : ∀ store : Store, store.cluster = s.store.cluster → BackedInv d {s with store := store} := by
    intro store hs
    refine h.reshape store (by rw [hs]) ?_ fun k => ?_
    · exact congrArg (fun c : Cluster => c.db.eventsRaw) hs
    · exact congrArg (fun c : Cluster => c.db.inferenceLogs.has k) hs
  cases a with
  | spawn i =>
    simp only [System.step] at ht
    split at ht
    · cases ht
      exact h.start (v := s.store) rfl IngestionWorker.follows_startUp
    · cases ht
  | turn i choice =>
    simp only [System.step] at ht
    split at ht
    · rename_i starting op k hp
      obtain ⟨r,hr,rfl⟩ := Option.map_eq_some_iff.mp ht
      obtain ⟨φ,hm,hf⟩ := h.running i _ hp
      obtain ⟨φ',hallow,hrest⟩ := hf r.2
      obtain ⟨hsecures,hlanded⟩ := secures_allowed hl h.backed hm hallow hr
      refine h.worker hsecures fun q hq => ?_
      cases hq
      exact ⟨φ',hlanded,hrest⟩
    · cases ht
  | next i =>
    simp only [System.step] at ht
    split at ht
    · cases ht
      exact h.start (v := s.store) rfl IngestionWorker.follows_processBatch
    · split at ht
      · cases ht
        exact h.start (v := s.store.withHand i []) rfl IngestionWorker.follows_processBatch
      · cases ht
    · cases ht
  | exit i =>
    simp only [System.step] at ht
    split at ht <;> cases ht <;> exact h.kill i
  | crash i =>
    cases ht
    exact h.kill i
  | publish e =>
    simp only [System.step] at ht
    split at ht <;> cases ht
    exact hstream _ rfl
  | trim n =>
    cases ht
    exact hstream _ rfl
  | dropGroup =>
    cases ht
    exact hstream _ rfl
  | createConversation c =>
    simp only [System.step] at ht
    split at ht <;> cases ht
    exact h.reshape _ rfl rfl fun _ => rfl
  | saveTurn c m =>
    simp only [System.step] at ht
    split at ht <;> cases ht
    exact h.reshape _ rfl rfl fun _ => rfl
  | deleteConversation id =>
    simp only [System.step] at ht
    split at ht <;> cases ht
    refine h.reshape _ rfl rfl fun k => ?_
    change ((s.store.db.deleteConversation id).inferenceLogs.get k).isSome = _
    unfold Table.has Db.deleteConversation
    rw [Table.get_update, Option.isSome_map]

end BackedInv

theorem initial_backed (d : Deployment) : BackedInv d System.initial := by
  have hempty : (Db.mk .empty .empty .empty .empty).Backed := fun k hk => by cases hk
  exact ⟨⟨hempty,fun i => backed_view hempty rfl⟩,fun _ _ h => by cases h⟩

/-- Whatever fails, every log row has its raw row. -/
theorem reach_backed {d : Deployment} (hl : d.py.Lawful) {s : System} (h : Reach (System.step d) System.initial s) :
    s.store.db.Backed :=
  (h.invariant (initial_backed d) fun _ _ _ hs _ ht => hs.step hl ht).backed.committed

/-! ## The panel -/

section
variable {d : Deployment}

/-- A raw row is marked, and one that is processed has its log row. -/
theorem Inv.raw_marked {healthy : Bool} {s : Store} (hl : d.py.Lawful) (hi : Inv d healthy s) {id : Uuid} {row : RawEvent}
    (hrow : s.db.eventsRaw.get id = some row) :
    (row.processingStatus = .processed ∧ s.db.inferenceLogs.has id = true) ∨ row.processingStatus = .failed := by
  obtain ⟨-,e,-,hmarks,hlogged⟩ := hi.raw id row hrow
  generalize hstatus : row.processingStatus = status at hmarks
  generalize row.processingError = error at hmarks
  cases hmarks with
  | @processed payload event haccepted =>
    obtain ⟨-,hid⟩ := IngestionWorker.disposition_accepted haccepted
    have hvalidated := haccepted
    rw [IngestionWorker.disposition, (IngestionWorker.disposition_accepted haccepted).1] at hvalidated
    change d.dispositionOf payload = _ at hvalidated
    rw [IngestionWorker.dispositionOf_id hid] at hvalidated
    refine .inl ⟨rfl,?_⟩
    rw [← IngestionWorker.validated_id hl hid hvalidated]
    exact hlogged id payload event haccepted
  | failed hrejected herror => exact .inr rfl

/-- The processed rows. -/
def Db.processedRaw (db : Db) : Table Uuid RawEvent := db.eventsRaw.filter fun _ row =>
    decide (row.processingStatus = .processed)

theorem count_rawRows (db : Db) (p : RawEvent → Bool) :
    countWhere p db.rawRows = (db.eventsRaw.filter fun _ row => p row).rows.length := by
  rw [countWhere_length]
  unfold Db.rawRows Table.filter
  rw [List.filter_map, List.length_map]
  rfl

/-- Where every raw row is processed or failed, they are counted once. -/
theorem count_marked {db : Db}
    (h : ∀ id row, db.eventsRaw.get id = some row → row.processingStatus = .processed ∨ row.processingStatus = .failed) :
    countWhere (fun row : RawEvent => decide (row.processingStatus = .pending)) db.rawRows = 0 ∧
    countRows db.rawRows = db.processedRaw.rows.length +
      countWhere (fun row : RawEvent => decide (row.processingStatus = .failed)) db.rawRows := by
  have hrows : ∀ r ∈ db.eventsRaw.rows, r.2.processingStatus = .processed ∨ r.2.processingStatus = .failed :=
    fun r hr => h r.1 r.2 (Table.get_eq_some.mpr hr)
  rw [count_rawRows, count_rawRows]
  constructor
  · have hnone : db.eventsRaw.rows.filter (fun r => decide (r.2.processingStatus = .pending)) = [] := by
      apply List.filter_eq_nil_iff.mpr
      intro r hr
      rcases hrows r hr with hp | hf
      · simp [hp]
      · simp [hf]
    change ((db.eventsRaw.rows.filter _).length : ℤ) = 0
    rw [hnone]
    rfl
  · have hsplit := List.length_eq_length_filter_add (l := db.eventsRaw.rows) fun r => decide (r.2.processingStatus = .processed)
    have hrest : db.eventsRaw.rows.filter (fun r => !decide (r.2.processingStatus = .processed)) =
        db.eventsRaw.rows.filter fun r => decide (r.2.processingStatus = .failed) := by
      apply List.filter_congr
      intro r hr
      rcases hrows r hr with hp | hf
      · simp [hp]
      · simp [hf]
    rw [hrest] at hsplit
    have hcast := congrArg (Nat.cast (R := ℤ)) hsplit
    rw [Int.natCast_add] at hcast
    change ((db.eventsRaw.rows.map Prod.snd).length : ℤ) = _
    rw [List.length_map]
    exact hcast

theorem countRows_logRows (db : Db) : countRows db.logRows = db.inferenceLogs.rows.length := by
  unfold countRows Db.logRows
  rw [List.length_map]

/-- The latest of some rows: none of them is younger, and one is as old. -/
theorem sqlMax_iff {α : Type} {column : α → ℤ} {rows : List α} {m : ℤ} :
    sqlMax column rows = some m ↔ (∃ r ∈ rows, column r = m) ∧ ∀ r ∈ rows, column r ≤ m := by
  unfold sqlMax
  rw [List.max?_eq_some_iff]
  simp

/-- Stalled: something has been ingested, and nothing lately. -/
theorem stalled_iff {first second third : Db} {now : ℤ} (hkept : first.logRows ≠ [] → third.logRows ≠ []) :
    (MetricsRepository.ingestionHealth first second third now).isStalled = true ↔
      first.logRows ≠ [] ∧ ∀ row ∈ third.logRows, row.ingestedAt + stalledAfter < now := by
  have hsome : (sqlMax InferenceLog.ingestedAt first.logRows).isSome = true ↔ first.logRows ≠ [] := by
    unfold sqlMax
    rw [List.isSome_max?_iff]
    simp
  change ((if (sqlMax InferenceLog.ingestedAt first.logRows).isSome = true then
      (sqlMax InferenceLog.ingestedAt third.logRows).map fun last => now - last else none).any fun lag =>
        decide (stalledAfter < lag)) = true ↔ _
  by_cases hfirst : first.logRows = []
  · rw [if_neg (fun h => hsome.mp h hfirst)]
    simp [hfirst]
  · rw [if_pos (hsome.mpr hfirst)]
    have hthird : ∃ m, sqlMax InferenceLog.ingestedAt third.logRows = some m := by
      apply Option.isSome_iff_exists.mp
      unfold sqlMax
      rw [List.isSome_max?_iff]
      simpa using hkept hfirst
    obtain ⟨m,hm⟩ := hthird
    rw [hm]
    obtain ⟨⟨r,hr,hrm⟩,hle⟩ := sqlMax_iff.mp hm
    simp only [Option.map_some, Option.any_some, decide_eq_true_eq]
    constructor
    · intro hlag
      refine ⟨hfirst,fun row hrow => ?_⟩
      have hrow' := hle row hrow
      omega
    · rintro ⟨-,hall⟩
      have hold := hall r hr
      omega

/-- Whatever the workers do while the panel reads: nothing is pending, every log row is counted
among the raw ones, every raw row that has not failed among the log rows, and those are all if no
rejected payload is marked under an id that has a log row. It says stalled exactly when there are
log rows, none of them younger than the threshold. -/
theorem ingestion_panel (hl : d.py.Lawful) {s t u : System} (hs : Reach (System.step d) System.initial s)
    (ht : Reach (System.step d) s t) (hu : Reach (System.step d) t u) {now : ℤ} {panel : IngestionHealth}
    (hpanel : panel = MetricsRepository.ingestionHealth s.store.db t.store.db u.store.db now) :
    panel.rawEventsPending = 0 ∧ panel.logsTotal ≤ panel.rawEventsTotal ∧
    panel.rawEventsTotal ≤ countRows t.store.db.logRows + panel.rawEventsFailed ∧
    (Guarded (System.step d) Untangled System.initial t →
      panel.rawEventsTotal = countRows t.store.db.logRows + panel.rawEventsFailed) ∧
    (panel.isStalled = true ↔ s.store.db.logRows ≠ [] ∧ ∀ row ∈ u.store.db.logRows, row.ingestedAt + stalledAfter < now) := by
  subst hpanel
  have hreach := hs.trans ht
  have hmarked : ∀ id row, t.store.db.eventsRaw.get id = some row →
      (row.processingStatus = .processed ∧ t.store.db.inferenceLogs.has id = true) ∨ row.processingStatus = .failed :=
    fun id row hrow => Inv.raw_marked hl (reach_inv hreach).store hrow
  obtain ⟨hpending,htotal⟩ := count_marked fun id row hrow => (hmarked id row hrow).imp And.left fun hf => hf
  have hbacked := reach_backed hl hreach
  have hprocessed : t.store.db.processedRaw.rows.length ≤ t.store.db.inferenceLogs.rows.length := by
    refine Table.length_le fun id hid => ?_
    obtain ⟨row,hrow,hp⟩ := Table.has_filter.mp hid
    rw [decide_eq_true_eq] at hp
    rcases hmarked id row hrow with ⟨-,hhas⟩ | hfailed
    · exact hhas
    · cases hp.symm.trans hfailed
  have hkeeps := (reach_grows hs (ht.trans hu)).keeps
  refine ⟨hpending,?_,?_,fun hguarded => ?_,stalled_iff fun hne => ?_⟩
  · have hgrown : s.store.db.inferenceLogs.rows.length ≤ t.store.db.eventsRaw.rows.length :=
      Table.length_le fun id hid => hbacked id ((reach_grows hs ht).keeps.logs id hid)
    change countRows s.store.db.logRows ≤ ((t.store.db.eventsRaw.rows.map Prod.snd).length : ℤ)
    rw [countRows_logRows, List.length_map]
    omega
  · change countRows t.store.db.rawRows ≤ _ + countWhere _ t.store.db.rawRows
    rw [htotal, countRows_logRows]
    omega
  · have hinv : ConsistencyInv d t := hguarded.invariant (initial_consistency d) fun _ _ _ h hg ht => h.step hl hg ht
    have hlogged : t.store.db.inferenceLogs.rows.length ≤ t.store.db.processedRaw.rows.length := by
      refine Table.length_le fun id hid => ?_
      obtain ⟨row,hrow⟩ := Table.has_iff.mp (hbacked id hid)
      rcases hinv.consistent id row hrow with ⟨hstatus,-⟩ | ⟨-,hnone,-⟩
      · exact Table.has_filter.mpr ⟨row,hrow,decide_eq_true hstatus⟩
      · cases hnone.symm.trans hid
    change countRows t.store.db.rawRows = _ + countWhere _ t.store.db.rawRows
    rw [htotal, countRows_logRows]
    omega
  · have hle : s.store.db.inferenceLogs.rows.length ≤ u.store.db.inferenceLogs.rows.length :=
      Table.length_le fun id hid => hkeeps.logs id hid
    intro hnil
    unfold Db.logRows at hne hnil
    rw [List.map_eq_nil_iff] at hnil
    rw [hnil] at hle
    exact hne (by rw [List.eq_nil_of_length_eq_zero (Nat.le_zero.mp hle)]; rfl)

end

/-- The panel between two statements of which a worker commits. -/
theorem ingestion_panel_plain : ∃ (s t : System) (panel : IngestionHealth),
    s.store.db.inferenceLogs.has 10 = false ∧ t.store.db.inferenceLogs.has 10 = true ∧
    panel = MetricsRepository.ingestionHealth s.store.db t.store.db t.store.db 1000 ∧
    panel.rawEventsPending = 0 ∧ panel.logsTotal ≤ panel.rawEventsTotal ∧
    panel.rawEventsTotal ≤ countRows t.store.db.logRows + panel.rawEventsFailed ∧
    (Guarded (System.step plain) Untangled System.initial t →
      panel.rawEventsTotal = countRows t.store.db.logRows + panel.rawEventsFailed) ∧
    (panel.isStalled = true ↔ s.store.db.logRows ≠ [] ∧ ∀ row ∈ t.store.db.logRows, row.ingestedAt + stalledAfter < 1000) := by
  have hrun : ((play (System.step plain) System.initial [.spawn 0,goes 0,.publish plainEntry,.next 0]).any fun s =>
      !s.store.db.inferenceLogs.has 10 && (play (System.step plain) s (List.replicate 7 (goes 0))).any fun t =>
        t.store.db.inferenceLogs.has 10) = true := by
    rw [plainEntry, text_ofList, text_ofList, text_ofList]
    decide +kernel
  obtain ⟨s,hs,hst⟩ := play_any hrun
  rw [Bool.and_eq_true, Bool.not_eq_true'] at hst
  obtain ⟨t,ht,hhas⟩ := play_any hst.2
  exact ⟨s,t,_,hst.1,hhas,rfl,ingestion_panel plainPydantic_lawful (play_reach hs) (play_reach ht) (.refl t) rfl⟩

end InferenceLogger
