import InferenceLogger.Ingestion.Phases
import InferenceLogger.Ingestion.Runs

/-! # Raw rows and log rows agree

Three statements with different rules for conflicts: the raw row keeps the first payload, the
log row the first event, the mark always the last one. As long as no payload is marked failed
under an id that has a log row, the two tables do not contradict each other.
-/
namespace InferenceLogger
open PyText PyJson AsyncTask KeyedTable RelyGuarantee Cluster Transition

/-- A raw row is processed and has its log row, or it is failed and its own payload is one the
schema rejects. -/
def Db.Consistent (db : Db) (py : Pydantic) : Prop :=
  ∀ id row, db.eventsRaw.get id = some row →
    (row.processingStatus = .processed ∧ db.inferenceLogs.has id = true) ∨
    (row.processingStatus = .failed ∧ db.inferenceLogs.has id = false ∧
      ∃ errors, InferenceEvent.modelValidate py row.payload = .error (.validation errors))

/-- At most one open transaction has marked a raw row. -/
def Cluster.Exclusive (c : Cluster) : Prop :=
  ∀ i j a b id, (i,a) ∈ c.writes → (j,b) ∈ c.writes → marksRaw id a = true → marksRaw id b = true → i = j

/-- The pending writes of a worker in this phase. -/
def Deployment.Matches (d : Deployment) (s : Store) (i : ℕ) : Phase → Prop
  | .idle => s.cluster.own i = []
  | .landed id payload => extractId payload = some id ∧
      RawPart d.toIngestionWorker s.db id payload (s.cluster.own i)
  | .logged id event => event.fields.id = id ∧ ∃ payload raw log,
      RawPart d.toIngestionWorker s.db id payload raw ∧ LogPart s.db event.fields log ∧
      s.cluster.own i = raw ++ log
  | .processed id event => event.fields.id = id ∧ ∃ payload raw log now,
      RawPart d.toIngestionWorker s.db id payload raw ∧ LogPart s.db event.fields log ∧
      s.cluster.own i = raw ++ log ++ [.markRaw id .processed none now]
  | .failed id payload => (∃ errors, InferenceEvent.modelValidate d.py payload = .error (.validation errors)) ∧
      s.db.inferenceLogs.has id = false ∧ ∃ raw error now, RawPart d.toIngestionWorker s.db id payload raw ∧
      s.cluster.own i = raw ++ [.markRaw id .failed (some error) now]
  | .failing => True

/-! ## The commit -/

theorem LogPart.other {db : Db} {row : EventFields} {ws : List Write} (h : LogPart db row ws) {k : Uuid}
    (hk : k ≠ row.id) : (db.applyWrites ws).inferenceLogs.has k = db.inferenceLogs.has k := by
  cases h with
  | present _ => rfl
  | inserted now =>
    have hget : ∀ k, (db.applyWrites [.insertLog row now]).inferenceLogs.get k =
        if k = row.id ∧ db.inferenceLogs.get row.id = none then some ⟨row,now⟩
        else db.inferenceLogs.get k := fun k => Table.get_insertNew _ _ _ _
    unfold Table.has
    rw [hget, if_neg (fun h => hk h.1)]

section
variable {w : IngestionWorker} {db : Db} {id : Uuid} {payload : Members} {raw log : List Write}

theorem consistent_processed {event : InferenceEvent} {now : ℤ} (h : db.Consistent w.py) (hid : event.fields.id = id)
    (hr : RawPart w db id payload raw) (hl : LogPart db event.fields log) :
    (db.applyWrites (raw ++ log ++ [.markRaw id .processed none now])).Consistent w.py ∧
    ∀ k, k ≠ id → (db.applyWrites (raw ++ log ++ [.markRaw id .processed none now])).inferenceLogs.has k =
      db.inferenceLogs.has k := by
  rw [Db.applyWrites_append, Db.applyWrites_append]
  have hl' := hl.mono (Db.keeps_applyWrites raw db)
  obtain ⟨hlogs,hother,hmark⟩ := markRaw_apply ((db.applyWrites raw).applyWrites log) id .processed none now
  obtain ⟨hhas,hraws,-⟩ := hl'.apply
  obtain ⟨-,hsame,hkept,-⟩ := hr.apply
  have hothers : ∀ k, k ≠ id →
      ((db.applyWrites raw).applyWrites log).inferenceLogs.has k = db.inferenceLogs.has k := by
    intro k hk
    rw [hl'.other (by rw [hid]; exact hk), hsame]
  refine ⟨fun k row hrow => ?_,fun k hk => ?_⟩
  · by_cases hk : k = id
    · subst hk
      obtain ⟨old,-,-,-,hstatus,-⟩ := hmark row hrow
      refine .inl ⟨hstatus,?_⟩
      rw [hlogs, ← hid]
      exact hhas
    · rw [hother k hk, hraws, hkept k hk] at hrow
      rw [hlogs, hothers k hk]
      exact h k row hrow
  · rw [hlogs]
    exact hothers k hk

theorem consistent_failed {error : Option Text} {now : ℤ} {errors : List FieldError} (h : db.Consistent w.py)
    (hbad : InferenceEvent.modelValidate w.py payload = .error (.validation errors))
    (hr : RawPart w db id payload raw) (hnone : db.inferenceLogs.has id = false) :
    (db.applyWrites (raw ++ [.markRaw id .failed error now])).Consistent w.py ∧
    (db.applyWrites (raw ++ [.markRaw id .failed error now])).inferenceLogs = db.inferenceLogs := by
  rw [Db.applyWrites_append]
  obtain ⟨hlogs,hother,hmark⟩ := markRaw_apply (db.applyWrites raw) id .failed error now
  obtain ⟨-,hsame,hkept,hown⟩ := hr.apply
  refine ⟨fun k row hrow => ?_,hlogs.trans hsame⟩
  by_cases hk : k = id
  · subst hk
    obtain ⟨old,hold,hpayload,-,hstatus,-⟩ := hmark row hrow
    rw [hlogs, hsame]
    refine .inr ⟨hstatus,hnone,?_⟩
    rw [hpayload]
    rcases hown old hold with hbefore | ⟨hnew,-⟩
    · rcases h k old hbefore with ⟨-,hhas⟩ | ⟨-,-,hrejected⟩
      · rw [hnone] at hhas
        cases hhas
      · exact hrejected
    · rw [hnew]
      exact ⟨errors,hbad⟩
  · rw [hother k hk, hkept k hk] at hrow
    rw [hlogs, hsame]
    exact h k row hrow

end

/-! ## One operation -/

namespace Cluster
variable {c c' : Cluster} {me : ℕ} {pg : Postgres}

/-- A statement that succeeds is one of a transaction that has not failed, and no other
transaction holds its row. -/
theorem statement_ok {α : Type} {admits : Bool} {held : Write → Bool} {run : Option (Cluster × Except Exc α)} {a : α}
    (h : c.statement me admits held run = some (c',.ok a)) : me ∉ c.aborted ∧ c.heldByOther me held = false := by
  unfold statement at h
  split at h
  · cases h
  · rename_i hna
    split at h
    · cases h
    · split at h
      · cases h
      · rename_i hfree
        exact ⟨hna,by simpa using hfree⟩

/-- A statement that fails changes nothing, or aborts. -/
theorem statement_error {α : Type} {admits : Bool} {held : Write → Bool} {run : Option (Cluster × Except Exc α)} {e : Exc}
    (hrun : run = some (c',.error e) → c' = c ∨ c' = c.abort me)
    (h : c.statement me admits held run = some (c',.error e)) : c' = c ∨ c' = c.abort me := by
  unfold statement at h
  split at h
  · cases h
    exact .inl rfl
  · split at h
    · cases h
      exact .inr rfl
    · split at h
      · cases h
      · exact hrun h

theorem recordRaw_error {id : Uuid} {eventType : Text} {payload : Members} {now : ℤ} {e : Exc}
    (h : c.recordRaw me pg id eventType payload now = some (c',.error e)) : c' = c ∨ c' = c.abort me := by
  refine statement_error (fun hrun => ?_) h
  split at hrun <;> cases hrun

theorem markRaw_error {id : Uuid} {status : ProcessingStatus} {error : Option Text} {now : ℤ} {e : Exc}
    (h : c.markRaw me pg id status error now = some (c',.error e)) : c' = c ∨ c' = c.abort me := by
  refine statement_error (fun hrun => ?_) h
  split at hrun <;> cases hrun

theorem upsertLog_error {row : EventFields} {now : ℤ} {e : Exc}
    (h : c.upsertLog me pg row now = some (c',.error e)) : c' = c ∨ c' = c.abort me := by
  refine statement_error (fun hrun => ?_) h
  split at hrun
  · cases hrun
  · split at hrun
    · cases hrun
    · cases hrun
      exact .inr rfl

theorem Exclusive.subset (h : c.Exclusive) (hsub : ∀ w ∈ c'.writes, w ∈ c.writes) : c'.Exclusive :=
  fun i j a b id ha hb => h i j a b id (hsub _ ha) (hsub _ hb)

theorem Exclusive.push {w : Write} (h : c.Exclusive)
    (hfree : ∀ id, marksRaw id w = true → c.heldByOther me (marksRaw id) = false) : (c.push me w).Exclusive := by
  have hmine : ∀ j b id, (j,b) ∈ c.writes → marksRaw id w = true → marksRaw id b = true → j = me := by
    intro j b id hb hw hmark
    have hnone := List.any_eq_false.mp (hfree id hw) _ hb
    simp only [hmark, Bool.and_true, decide_eq_true_eq, not_not] at hnone
    exact hnone
  intro i j a b id ha hb hma hmb
  rcases List.mem_append.mp ha with ha | ha
  · rcases List.mem_append.mp hb with hb | hb
    · exact h i j a b id ha hb hma hmb
    · cases List.mem_singleton.mp hb
      exact hmine i a id ha hmb hma
  · cases List.mem_singleton.mp ha
    rcases List.mem_append.mp hb with hb | hb
    · exact (hmine j b id hb hma hmb).symm
    · cases List.mem_singleton.mp hb
      rfl

end Cluster

/-- What one operation of a worker does to the tables and to the other transactions. -/
structure Deployment.Advances (d : Deployment) (i : ℕ) (φ : Phase) (s s' : Store) : Prop where
  frame : Frame i s.cluster s'.cluster
  exclusive : s'.cluster.Exclusive
  consistent : s'.db.Consistent d.py
  matched : d.Matches s' i φ
  keeps : s.db.Keeps s'.db
  fresh : ∀ k, s.db.inferenceLogs.has k = false → s'.db.inferenceLogs.has k = false ∨
    ∃ w ∈ s.cluster.own i, marksRaw k w = true

section
variable {d : Deployment} {i : ℕ} {s s' : Store} {op : IngestOp} {c : Choice}

/-- The committed rows stay as they are. -/
theorem advances_pending {φ : Phase} {c' : Cluster} (hx : c'.Exclusive) (hc : s.db.Consistent d.py)
    (hs : s'.cluster = c') (hf : Frame i s.cluster c') (hdb : c'.db = s.db)
    (hm : d.Matches s' i φ) : d.Advances i φ s s' := by
  have hdb' : s'.db = s.db := (congrArg Cluster.db hs).trans hdb
  refine ⟨by rw [hs]; exact hf,by rw [hs]; exact hx,by rw [hdb']; exact hc,hm,by rw [hdb']; exact .refl _,?_⟩
  intro k hk
  rw [hdb']
  exact .inl hk

theorem advances_failing {c' : Cluster} (hx : s.cluster.Exclusive) (hc : s.db.Consistent d.py) (hs : s'.cluster = c')
    (h : c' = s.cluster ∨ c' = s.cluster.abort i ∨ c' = s.cluster.forget i) : d.Advances i .failing s s' := by
  have hsub : c'.Exclusive ∧ Frame i s.cluster c' ∧ c'.db = s.db := by
    rcases h with rfl | rfl | rfl
    · exact ⟨hx,frame_refl _ _,rfl⟩
    · exact ⟨hx.subset fun _ hw => mem_writes_forget hw,frame_abort,rfl⟩
    · exact ⟨hx.subset fun _ hw => mem_writes_forget hw,frame_forget,rfl⟩
  exact advances_pending hsub.1 hc hs hsub.2.1 hsub.2.2 trivial

theorem stream_cluster {r : Except Exc (ingestSignature.Answer op)} (hop : op.onStream)
    (he : ingestExec d.pg i s op c = some (s',r)) : s'.cluster = s.cluster := by
  rcases ingestExec_cases he with ⟨-,hperform⟩ | ⟨-,-,rfl | rfl⟩
  · cases op with
    | xreadgroup n =>
      rw [perform_xreadgroup] at hperform
      split at hperform <;> cases hperform <;> rfl
    | xgroupCreate =>
      cases hperform
      rfl
    | xack id =>
      cases hperform
      rfl
    | xaddDead l =>
      cases hperform
      rfl
    | _ => cases hop
  · cases op <;> first | rfl | cases hop
  · cases op <;> first | rfl | cases hop

/-- A statement that got no answer. -/
theorem statement_failing {e : Exc} (hop : ∀ now c', (s.perform d.pg i now op = some (c',.error e)) →
      c'.cluster = s.cluster ∨ c'.cluster = s.cluster.abort i)
    (hbefore : s.failBefore i op = {s with cluster := s.cluster.abort i})
    (hafter : s.failAfter i op = {s with cluster := s.cluster.abort i})
    (hx : s.cluster.Exclusive) (hc : s.db.Consistent d.py)
    (he : ingestExec d.pg i s op c = some (s',.error e)) : d.Advances i .failing s s' := by
  refine advances_failing hx hc rfl ?_
  rcases ingestExec_cases he with ⟨-,hperform⟩ | ⟨-,-,rfl | rfl⟩
  · rcases hop _ _ hperform with h | h
    · exact .inl h
    · exact .inr (.inl h)
  · rw [hbefore]
    exact .inr (.inl rfl)
  · rw [hafter]
    exact .inr (.inl rfl)

/-- One write more. -/
theorem advances_push {w : Write} {φ : Phase} (hx : s.cluster.Exclusive) (hc : s.db.Consistent d.py)
    (hs : s' = {s with cluster := s.cluster.push i w})
    (hfree : ∀ id, marksRaw id w = true → s.cluster.heldByOther i (marksRaw id) = false)
    (hm : d.Matches {s with cluster := s.cluster.push i w} i φ) : d.Advances i φ s s' := by
  subst hs
  exact advances_pending (hx.push hfree) hc rfl (frame_push w) rfl hm

theorem advances_recordRaw {id : Uuid} {eventType : Text} {payload : Members} {r}
    (hx : s.cluster.Exclusive) (hc : s.db.Consistent d.py) (hm : s.cluster.own i = [])
    (hid : extractId payload = some id) (ht : eventTypeOf d.rt payload = some eventType)
    (he : ingestExec d.pg i s (.recordRaw id eventType payload) c = some (s',r)) :
    d.Advances i (reached r (.landed id payload)) s s' := by
  cases r with
  | error e =>
    refine statement_failing ?_ rfl rfl hx hc he
    intro now c' hperform
    obtain ⟨⟨c₁,r₁⟩,hrec,heq⟩ := Option.map_eq_some_iff.mp hperform
    cases heq
    exact recordRaw_error hrec
  | ok b =>
    obtain ⟨⟨c₁,r₁⟩,hrec,heq⟩ := Option.map_eq_some_iff.mp (performed he)
    cases heq
    rcases recordRaw_cases (statement_ok hrec).1 hrec with ⟨-,e,hr⟩ | ⟨hhas,hr⟩ | hr
    · cases hr
    · cases hr
      refine advances_pending hx hc rfl (frame_refl _ _) rfl ⟨hid,?_⟩
      change RawPart _ s.db id payload (s.cluster.own i)
      unfold Cluster.view at hhas
      rw [hm] at hhas ⊢
      exact .present hhas
    · cases hr
      refine advances_push hx hc rfl (by simp [marksRaw]) ⟨hid,?_⟩
      change RawPart _ s.db id payload ((s.cluster.push i _).own i)
      rw [own_push_self, hm]
      exact .inserted c.now ht

theorem advances_upsertLog {id : Uuid} {payload : Members} {event : InferenceEvent} {r} (hl : d.py.Lawful)
    (hx : s.cluster.Exclusive) (hc : s.db.Consistent d.py) (hm : d.Matches s i (.landed id payload))
    (hv : InferenceEvent.modelValidate d.py payload = .ok event)
    (he : ingestExec d.pg i s (.upsertLog event.fields) c = some (s',r)) :
    d.Advances i (reached r (.logged id event)) s s' := by
  obtain ⟨hid,hraw⟩ := hm
  have hevent : event.fields.id = id := IngestionWorker.validated_id hl hid (IngestionWorker.validated_accepted.mpr ⟨rfl,rfl,hv⟩)
  cases r with
  | error e =>
    refine statement_failing ?_ rfl rfl hx hc he
    intro now c' hperform
    obtain ⟨⟨c₁,r₁⟩,hrec,heq⟩ := Option.map_eq_some_iff.mp hperform
    cases heq
    exact upsertLog_error hrec
  | ok b =>
    obtain ⟨⟨c₁,r₁⟩,hrec,heq⟩ := Option.map_eq_some_iff.mp (performed he)
    cases heq
    rcases upsertLog_cases (statement_ok hrec).1 hrec with ⟨-,e,hr⟩ | ⟨hhas,hr⟩ | ⟨-,-,hr⟩ | ⟨-,-,e,hr⟩
    · cases hr
    · cases hr
      refine advances_pending hx hc rfl (frame_refl _ _) rfl ⟨hevent,payload,s.cluster.own i,[],hraw,?_,?_⟩
      · unfold Cluster.view at hhas
        rw [hraw.apply.2.1] at hhas
        exact .present hhas
      · exact (List.append_nil _).symm
    · cases hr
      refine advances_push hx hc rfl (by simp [marksRaw]) ⟨hevent,payload,_,_,hraw,.inserted c.now,?_⟩
      exact own_push_self _
    · cases hr

/-- A mark, once the transaction has landed the row. -/
theorem pushed_markRaw {id : Uuid} {status : ProcessingStatus} {error : Option Text} {u : Unit}
    (hhas : (s.cluster.view i).eventsRaw.has id = true)
    (he : ingestExec d.pg i s (.markRaw id status error) c = some (s',.ok u)) :
    s' = {s with cluster := s.cluster.push i (.markRaw id status error c.now)} ∧
    ∀ k, marksRaw k (.markRaw id status error c.now) = true → s.cluster.heldByOther i (marksRaw k) = false := by
  obtain ⟨⟨c₁,r₁⟩,hrec,heq⟩ := Option.map_eq_some_iff.mp (performed he)
  cases heq
  obtain ⟨halive,hfree⟩ := statement_ok hrec
  rcases markRaw_cases halive hhas hrec with ⟨-,e,hr⟩ | hr
  · cases hr
  · cases hr
    refine ⟨rfl,fun k hk => ?_⟩
    cases of_decide_eq_true hk
    exact hfree

theorem failing_markRaw {id : Uuid} {status : ProcessingStatus} {error : Option Text} {e : Exc}
    (hx : s.cluster.Exclusive) (hc : s.db.Consistent d.py)
    (he : ingestExec d.pg i s (.markRaw id status error) c = some (s',.error e)) : d.Advances i .failing s s' := by
  refine statement_failing ?_ rfl rfl hx hc he
  intro now c' hperform
  obtain ⟨⟨c₁,r₁⟩,hrec,heq⟩ := Option.map_eq_some_iff.mp hperform
  cases heq
  exact markRaw_error hrec

theorem advances_processed {id : Uuid} {event : InferenceEvent} {r} (hx : s.cluster.Exclusive)
    (hc : s.db.Consistent d.py) (hm : d.Matches s i (.logged id event))
    (he : ingestExec d.pg i s (.markRaw id .processed none) c = some (s',r)) :
    d.Advances i (reached r (.processed id event)) s s' := by
  obtain ⟨hid,payload,raw,log,hraw,hlog,hown⟩ := hm
  cases r with
  | error e => exact failing_markRaw hx hc he
  | ok u =>
    have hhas : (s.cluster.view i).eventsRaw.has id = true := by
      unfold Cluster.view
      rw [hown, Db.applyWrites_append]
      exact (Db.keeps_applyWrites log _).raw _ hraw.apply.1
    obtain ⟨hs,hfree⟩ := pushed_markRaw hhas he
    refine advances_push hx hc hs hfree ⟨hid,payload,raw,log,c.now,hraw,hlog,?_⟩
    change (s.cluster.push i _).own i = _
    rw [own_push_self, hown]

theorem advances_failed {id : Uuid} {payload : Members} {errors : List FieldError} {error : Text} {r}
    (hx : s.cluster.Exclusive) (hc : s.db.Consistent d.py) (hm : d.Matches s i (.landed id payload))
    (hv : InferenceEvent.modelValidate d.py payload = .error (.validation errors))
    (hnone : s.db.inferenceLogs.has id = false)
    (he : ingestExec d.pg i s (.markRaw id .failed (some error)) c = some (s',r)) :
    d.Advances i (reached r (.failed id payload)) s s' := by
  obtain ⟨hid,hraw⟩ := hm
  cases r with
  | error e => exact failing_markRaw hx hc he
  | ok u =>
    obtain ⟨hs,hfree⟩ := pushed_markRaw (i := i) hraw.apply.1 he
    refine advances_push hx hc hs hfree ⟨⟨errors,hv⟩,hnone,_,error,c.now,hraw,?_⟩
    exact own_push_self _

/-- The commit of a handled entry. -/
theorem advances_committed {φ : Phase} (hx : s.cluster.Exclusive) (hc : s.db.Consistent d.py)
    (hm : d.Matches s i φ) (hφ : φ.complete) :
    d.Advances i .idle s {s with cluster := s.cluster.commit i} := by
  have hsub : (s.cluster.commit i).Exclusive := hx.subset fun _ hw => mem_writes_forget hw
  have hown : d.Matches {s with cluster := s.cluster.commit i} i .idle := own_forget_self
  cases φ with
  | processed id event =>
    obtain ⟨hid,payload,raw,log,now,hraw,hlog,heq⟩ := hm
    obtain ⟨hcons,hothers⟩ := consistent_processed hc hid hraw hlog
    rw [← heq] at hcons hothers
    refine ⟨frame_commit,hsub,hcons,hown,Db.keeps_applyWrites _ _,fun k hk => ?_⟩
    by_cases h : k = id
    · refine .inr ⟨.markRaw id .processed none now,?_,by simp [marksRaw,h]⟩
      rw [heq]
      exact List.mem_append_right _ (List.mem_singleton_self _)
    · exact .inl ((hothers k h).trans hk)
  | failed id payload =>
    obtain ⟨⟨errors,hbad⟩,hnone,raw,error,now,hraw,heq⟩ := hm
    obtain ⟨hcons,hlogs⟩ := consistent_failed hc hbad hraw hnone
    rw [← heq] at hcons hlogs
    refine ⟨frame_commit,hsub,hcons,hown,Db.keeps_applyWrites _ _,fun k hk => .inl ?_⟩
    change (s.db.applyWrites (s.cluster.own i)).inferenceLogs.has k = false
    rw [hlogs]
    exact hk
  | _ => cases hφ

theorem Deployment.Advances.failing {φ : Phase} (h : d.Advances i φ s s') : d.Advances i .failing s s' :=
  ⟨h.frame,h.exclusive,h.consistent,trivial,h.keeps,h.fresh⟩

theorem advances_commit {φ : Phase} {r} (hx : s.cluster.Exclusive) (hc : s.db.Consistent d.py)
    (hm : d.Matches s i φ) (hφ : φ.complete) (he : ingestExec d.pg i s .commit c = some (s',r)) :
    d.Advances i (reached r .idle) s s' := by
  have hcommitted := advances_committed hx hc hm hφ
  rcases ingestExec_cases he with ⟨-,hperform⟩ | ⟨-,⟨e,rfl⟩,rfl | rfl⟩
  · cases hperform
    exact hcommitted
  · exact advances_failing hx hc rfl (.inr (.inl rfl))
  · exact hcommitted.failing

/-- Every operation that its phase allows, unless it marks a row failed that has a log row. -/
theorem advances_allowed {φ φ' : Phase} {r : Except Exc (ingestSignature.Answer op)} (hl : d.py.Lawful)
    (hx : s.cluster.Exclusive) (hc : s.db.Consistent d.py) (hm : d.Matches s i φ) (ha : d.Allows φ op r φ')
    (hguard : ∀ id error, op = .markRaw id .failed error → s.db.inferenceLogs.has id = false)
    (he : ingestExec d.pg i s op c = some (s',r)) : d.Advances i φ' s s' := by
  have hforget : (op = .rollback ∨ op = .close) → s'.cluster = s.cluster.forget i := by
    intro hop
    rcases ingestExec_cases he with ⟨-,hperform⟩ | ⟨-,-,hfail⟩
    · rcases hop with rfl | rfl <;> (cases hperform; rfl)
    · rcases hop with rfl | rfl <;> rcases hfail with rfl | rfl <;> rfl
  cases ha with
  | stream r hop =>
    have hsame := stream_cluster hop he
    refine advances_pending hx hc hsame (frame_refl _ _) rfl ?_
    change s'.cluster.own i = []
    rw [hsame]
    exact hm
  | land r hid ht => exact advances_recordRaw hx hc hm hid ht he
  | log r hv => exact advances_upsertLog hl hx hc hm hv he
  | process r => exact advances_processed hx hc hm he
  | fail r hv => exact advances_failed hx hc hm hv (hguard _ _ rfl) he
  | letter l r =>
    have hletter : (IngestOp.xaddDead l).onStream := trivial
    have hsame := stream_cluster hletter he
    cases r with
    | error e => exact advances_failing hx hc hsame (.inl rfl)
    | ok u =>
      refine advances_pending hx hc hsame (frame_refl _ _) rfl ?_
      obtain ⟨hbad,hnone,raw,error,now,hraw,hown⟩ := hm
      have hdb : s'.db = s.db := congrArg Cluster.db hsame
      refine ⟨hbad,by rw [hdb]; exact hnone,raw,error,now,by rw [hdb]; exact hraw,?_⟩
      rw [hsame]
      exact hown
  | commit r hφ => exact advances_commit hx hc hm hφ he
  | rollback φ r => exact advances_failing hx hc (hforget (.inl rfl)) (.inr (.inr rfl))
  | close φ r =>
    refine advances_pending (hx.subset fun _ hw => mem_writes_forget hw) hc (hforget (.inr rfl)) frame_forget rfl ?_
    change s'.cluster.own i = []
    rw [hforget (.inr rfl)]
    exact own_forget_self

end

/-! ## Runs -/

/-- No payload that the schema rejects is marked under an id whose log row is there. -/
def Untangled (s : System) : Action → Prop
  | .turn i _ => ∀ starting id error k, s.workers i = some ⟨starting,.await (.markRaw id .failed error) k⟩ →
      s.store.db.inferenceLogs.has id = false
  | _ => True

structure ConsistencyInv (d : Deployment) (s : System) : Prop where
  consistent : s.store.db.Consistent d.py
  exclusive : s.store.cluster.Exclusive
  running : ∀ i p, s.workers i = some p → ∃ φ, d.Matches s.store i φ ∧
    Follows d.Allows IngestionWorker.Returning p.task φ
  absent : ∀ i, s.workers i = none → s.store.cluster.own i = []

section
variable {d : Deployment} {s t : System}

/-- The pending writes of a worker no step is about. -/
theorem Deployment.Matches.frame {s s' : Store} {j : ℕ} {φ : Phase} (h : d.Matches s j φ)
    (hown : s'.cluster.own j = s.cluster.own j) (hk : s.db.Keeps s'.db)
    (hfresh : ∀ id payload, φ = .failed id payload → s'.db.inferenceLogs.has id = false) : d.Matches s' j φ := by
  cases φ with
  | idle => exact hown.trans h
  | landed id payload =>
    obtain ⟨hid,hraw⟩ := h
    exact ⟨hid,by rw [hown]; exact hraw.mono hk⟩
  | logged id event =>
    obtain ⟨hid,payload,raw,log,hraw,hlog,heq⟩ := h
    exact ⟨hid,payload,raw,log,hraw.mono hk,hlog.mono hk,hown.trans heq⟩
  | processed id event =>
    obtain ⟨hid,payload,raw,log,now,hraw,hlog,heq⟩ := h
    exact ⟨hid,payload,raw,log,now,hraw.mono hk,hlog.mono hk,hown.trans heq⟩
  | failed id payload =>
    obtain ⟨hbad,-,raw,error,now,hraw,heq⟩ := h
    exact ⟨hbad,hfresh id payload rfl,raw,error,now,hraw.mono hk,hown.trans heq⟩
  | failing => exact trivial

/-- One worker's operation, seen by another: no log row appears under an id it has marked. -/
theorem matches_beside {s s' : Store} {i j : ℕ} {φ ψ : Phase} (hx : s.cluster.Exclusive) (h : d.Advances i φ s s')
    (hm : d.Matches s j ψ) (hj : j ≠ i) : d.Matches s' j ψ := by
  refine hm.frame (h.frame.own j hj) h.keeps ?_
  rintro id payload rfl
  obtain ⟨-,hnone,raw,error,now,-,hown⟩ := hm
  rcases h.fresh id hnone with hstill | ⟨w,hw,hmark⟩
  · exact hstill
  · have hmine : Write.markRaw id .failed (some error) now ∈ s.cluster.own j := by
      rw [hown]
      exact List.mem_append_right _ (List.mem_singleton_self _)
    exact absurd (hx j i _ _ id (own_mem_writes hmine) (own_mem_writes hw) (decide_eq_true rfl) hmark) hj

/-- Rows of conversations and messages come and go. -/
theorem ConsistencyInv.reshape (h : ConsistencyInv d s) (db : Db) {cs ms : List Uuid}
    (hraw : db.eventsRaw = s.store.db.eventsRaw)
    (hlogs : ∀ id, db.inferenceLogs.has id = s.store.db.inferenceLogs.has id) :
    ConsistencyInv d {s with store := Reshaped.after s.store db cs ms} where
  consistent := by
    intro id row hrow
    change (_ ∧ db.inferenceLogs.has id = true) ∨ (_ ∧ db.inferenceLogs.has id = false ∧ _)
    rw [hlogs id]
    exact h.consistent id row (hraw ▸ hrow)
  exclusive := h.exclusive
  running := by
    intro i p hp
    obtain ⟨φ,hm,hf⟩ := h.running i p hp
    refine ⟨φ,hm.frame rfl ⟨fun id hid => ?_,fun id hid => (hlogs id).trans hid⟩ ?_,hf⟩
    · change db.eventsRaw.has id = true
      rw [hraw]
      exact hid
    · rintro id payload rfl
      exact (hlogs id).trans hm.2.1
  absent := h.absent

/-- The stream changes, or a worker's hands. -/
theorem ConsistencyInv.stream (h : ConsistencyInv d s) (store : Store) (hs : store.cluster = s.store.cluster) :
    ConsistencyInv d {s with store := store} := by
  obtain ⟨hcons,hx,hrun,habsent⟩ := h
  have hdb : store.db = s.store.db := congrArg Cluster.db hs
  refine ⟨by rw [hdb]; exact hcons,by rw [hs]; exact hx,fun i p hp => ?_,fun i hi => by rw [hs]; exact habsent i hi⟩
  obtain ⟨φ,hm,hf⟩ := hrun i p hp
  refine ⟨φ,hm.frame (by rw [hs]) (by rw [hdb]; exact .refl _) ?_,hf⟩
  rintro id payload rfl
  rw [hdb]
  exact hm.2.1

/-- A worker begins a program, with nothing pending. -/
theorem ConsistencyInv.begin (h : ConsistencyInv d s) {i : ℕ} {p : Process} (hown : s.store.cluster.own i = [])
    (hf : Follows d.Allows IngestionWorker.Returning p.task .idle) : ConsistencyInv d (s.setWorker i (some p)) where
  consistent := h.consistent
  exclusive := h.exclusive
  running := by
    intro j q hq
    change Function.update s.workers i (some p) j = some q at hq
    by_cases hj : j = i
    · subst hj
      rw [Function.update_self] at hq
      cases hq
      exact ⟨.idle,hown,hf⟩
    · rw [Function.update_of_ne hj] at hq
      exact h.running j q hq
  absent := by
    intro j hq
    change Function.update s.workers i (some p) j = none at hq
    by_cases hj : j = i
    · subst hj
      rw [Function.update_self] at hq
      cases hq
    · rw [Function.update_of_ne hj] at hq
      exact h.absent j hq

theorem ConsistencyInv.kill (h : ConsistencyInv d s) (i : ℕ) : ConsistencyInv d (s.kill i) where
  consistent := h.consistent
  exclusive := h.exclusive.subset fun _ hw => mem_writes_forget hw
  running := by
    intro j q hq
    change Function.update s.workers i none j = some q at hq
    by_cases hj : j = i
    · subst hj
      rw [Function.update_self] at hq
      cases hq
    · rw [Function.update_of_ne hj] at hq
      obtain ⟨φ,hm,hf⟩ := h.running j q hq
      refine ⟨φ,hm.frame (own_forget_other hj) (.refl _) ?_,hf⟩
      rintro id payload rfl
      exact hm.2.1
  absent := by
    intro j hq
    change Function.update s.workers i none j = none at hq
    by_cases hj : j = i
    · subst hj
      exact own_forget_self
    · rw [Function.update_of_ne hj] at hq
      exact (own_forget_other hj).trans (h.absent j hq)

theorem ConsistencyInv.turn (hl : d.py.Lawful) (h : ConsistencyInv d s) {i : ℕ} {choice : Choice}
    (hguard : Untangled s (.turn i choice)) (ht : System.step d s (.turn i choice) = some t) : ConsistencyInv d t := by
  simp only [System.step] at ht
  split at ht
  · rename_i starting op k hp
    obtain ⟨r,hr,rfl⟩ := Option.map_eq_some_iff.mp ht
    obtain ⟨φ,hm,hf⟩ := h.running i _ hp
    obtain ⟨φ',hallow,hrest⟩ := hf r.2
    have hadvances := advances_allowed hl h.exclusive h.consistent hm hallow (fun id error hop => by
      subst hop
      exact hguard starting id error k hp) hr
    refine ⟨hadvances.consistent,hadvances.exclusive,fun j q hq => ?_,fun j hq => ?_⟩
    · change Function.update s.workers i _ j = some q at hq
      by_cases hj : j = i
      · subst hj
        rw [Function.update_self] at hq
        cases hq
        exact ⟨φ',hadvances.matched,hrest⟩
      · rw [Function.update_of_ne hj] at hq
        obtain ⟨ψ,hm',hf'⟩ := h.running j q hq
        exact ⟨ψ,matches_beside h.exclusive hadvances hm' hj,hf'⟩
    · change Function.update s.workers i _ j = none at hq
      by_cases hj : j = i
      · subst hj
        rw [Function.update_self] at hq
        cases hq
      · rw [Function.update_of_ne hj] at hq
        exact (hadvances.frame.own j hj).trans (h.absent j hq)
  · cases ht

theorem ConsistencyInv.step (hl : d.py.Lawful) (h : ConsistencyInv d s) {a : Action} (hguard : Untangled s a)
    (ht : System.step d s a = some t) : ConsistencyInv d t := by
  -- a program that has ended has nothing pending
  have hended : ∀ {i p}, s.workers i = some p → (∃ b, p.task = .done b) ∨ (∃ e, p.task = .raise e) →
      s.store.cluster.own i = [] := by
    intro i p hp hend
    obtain ⟨φ,hm,hf⟩ := h.running i p hp
    have hidle : φ = .idle := by
      rcases hend with ⟨b,hb⟩ | ⟨e,he⟩
      · rw [hb] at hf
        exact hf
      · rw [he] at hf
        exact hf
    subst hidle
    exact hm
  cases a with
  | spawn i =>
    simp only [System.step] at ht
    split at ht
    · rename_i habsent
      cases ht
      exact h.begin (h.absent i habsent) IngestionWorker.follows_startUp
    · cases ht
  | turn i choice => exact h.turn hl hguard ht
  | next i =>
    simp only [System.step] at ht
    split at ht
    · rename_i hp
      cases ht
      exact h.begin (hended hp (.inl ⟨_,rfl⟩)) IngestionWorker.follows_processBatch
    · rename_i hp
      split at ht
      · cases ht
        have hown := hended hp (.inr ⟨_,rfl⟩)
        exact (h.stream (s.store.withHand i []) rfl).begin hown IngestionWorker.follows_processBatch
      · cases ht
    · cases ht
  | exit i =>
    simp only [System.step] at ht
    split at ht <;> cases ht <;> exact h.kill i
  | crash i =>
    cases ht
    exact h.kill i
  | publish e =>
    simp only [System.step] at ht
    split at ht <;> cases ht
    exact h.stream _ rfl
  | trim n =>
    cases ht
    exact h.stream _ rfl
  | dropGroup =>
    cases ht
    exact h.stream _ rfl
  | createConversation c =>
    simp only [System.step] at ht
    split at ht <;> cases ht
    exact h.reshape {s.store.db with conversations := _} rfl fun _ => rfl
  | saveTurn c m =>
    simp only [System.step] at ht
    split at ht <;> cases ht
    exact h.reshape (s.store.db.saveTurn c m) rfl fun _ => rfl
  | deleteConversation id =>
    simp only [System.step] at ht
    split at ht <;> cases ht
    refine h.reshape (s.store.db.deleteConversation id) rfl fun k => ?_
    unfold Table.has Db.deleteConversation
    rw [Table.get_update, Option.isSome_map]

theorem initial_consistency (d : Deployment) : ConsistencyInv d System.initial where
  consistent := fun _ _ h => by cases h
  exclusive := fun _ _ _ _ _ h => absurd h List.not_mem_nil
  running := fun _ _ h => by cases h
  absent := fun _ _ => rfl

end

/-- In every run in which no rejected payload is marked under an id that has a log row, after
every step: no raw row is pending, a raw row is processed exactly when its log row is there, and
one that is failed has no log row and holds a payload the schema rejects. -/
theorem raw_rows_agree {d : Deployment} (hl : d.py.Lawful) {s : System}
    (h : Guarded (System.step d) Untangled System.initial s) {id : Uuid} {row : RawEvent}
    (hrow : s.store.db.eventsRaw.get id = some row) :
    row.processingStatus ≠ .pending ∧
    (row.processingStatus = .processed ↔ s.store.db.inferenceLogs.has id = true) ∧
    (row.processingStatus = .failed → s.store.db.inferenceLogs.has id = false ∧
      ∃ errors, InferenceEvent.modelValidate d.py row.payload = .error (.validation errors)) := by
  have hinv : ConsistencyInv d s := h.invariant (initial_consistency d) fun _ _ _ hs hg ht => hs.step hl hg ht
  rcases hinv.consistent id row hrow with ⟨hstatus,hhas⟩ | ⟨hstatus,hnone,hbad⟩
  · simp [hstatus,hhas]
  · simp [hstatus,hnone,hbad]

/-- The guard, evaluated. -/
def untangled (s : System) : Action → Bool
  | .turn i _ => match s.workers i with
    | some ⟨_,.await (.markRaw id .failed _) _⟩ => !s.store.db.inferenceLogs.has id
    | _ => true
  | _ => true

theorem untangled_sound {s : System} {a : Action} (h : untangled s a = true) : Untangled s a := by
  cases a with
  | turn i choice =>
    intro starting id error k hp
    simp only [untangled, hp, Bool.not_eq_true'] at h
    exact h
  | _ => trivial

def reporting : Deployment := {plain with py := {plainPydantic with errorJson := fun _ _ => some (text "[]")}}

@[irreducible] def strangerEntry : Entry :=
  ⟨2,[(text "data",text "\x7b\"id\": \"00000000-0000-0000-0000-00000000000b\"\x7d")]⟩

/-- A valid payload, and a rejected one under another id. -/
theorem raw_rows_agree_stranger : ∃ s valid rejected, Guarded (System.step reporting) Untangled System.initial s ∧
    s.store.db.eventsRaw.get 10 = some valid ∧ valid.processingStatus = .processed ∧ s.store.db.inferenceLogs.has 10 = true ∧
    s.store.db.eventsRaw.get 11 = some rejected ∧ rejected.processingStatus = .failed ∧ s.store.db.inferenceLogs.has 11 = false ∧
    ∃ errors, InferenceEvent.modelValidate reporting.py rejected.payload = .error (.validation errors) := by
  have hrun : ((play (checked (System.step reporting) untangled) System.initial
      ([.spawn 0,goes 0,.publish plainEntry,.publish strangerEntry,.next 0] ++ List.replicate 13 (goes 0))).any fun s =>
        (s.store.db.eventsRaw.get 10).isSome && s.store.db.inferenceLogs.has 10 &&
          (s.store.db.eventsRaw.get 11).any fun row => decide (row.processingStatus = .failed)) = true := by
    rw [plainEntry, text_ofList, text_ofList, text_ofList]
    decide +kernel
  obtain ⟨s,hplay,hs⟩ := play_any hrun
  rw [Bool.and_eq_true, Bool.and_eq_true, Option.any_eq_true] at hs
  obtain ⟨⟨hfirst,hhas⟩,rejected,hsecond,hfailed⟩ := hs
  obtain ⟨valid,hfirst⟩ := Option.isSome_iff_exists.mp hfirst
  have hfailed := of_decide_eq_true hfailed
  have hguarded := play_checked (fun s a => untangled_sound) hplay
  have hlawful : reporting.py.Lawful := ⟨plainPydantic_lawful.1⟩
  obtain ⟨-,hprocessed,-⟩ := raw_rows_agree hlawful hguarded hfirst
  obtain ⟨hnone,hinvalid⟩ := (raw_rows_agree hlawful hguarded hsecond).2.2 hfailed
  exact ⟨s,valid,rejected,hguarded,hfirst,hprocessed.mpr hhas,hhas,hsecond,hfailed,hnone,hinvalid⟩

/-! A second payload under the first one's id, with nothing but the id. -/

@[irreducible] def bareEntry : Entry :=
  ⟨2,[(text "data",text "\x7b\"id\": \"00000000-0000-0000-0000-00000000000a\"\x7d")]⟩

/-- The row of the event that was ingested is failed now, and its payload is valid. -/
theorem bare_payload_fails_row : ∃ s row, Reach (System.step reporting) System.initial s ∧
    s.store.db.eventsRaw.get 10 = some row ∧ row.processingStatus = .failed ∧
    s.store.db.inferenceLogs.has 10 = true ∧ ∃ event, InferenceEvent.modelValidate reporting.py row.payload = .ok event := by
  have hrun : ((play (System.step reporting) System.initial
      ([.spawn 0,goes 0,.publish plainEntry,.publish bareEntry,.next 0] ++ List.replicate 13 (goes 0))).any fun s =>
        s.store.db.inferenceLogs.has 10 && (s.store.db.eventsRaw.get 10).any fun row =>
          decide (row.processingStatus = .failed) && (InferenceEvent.modelValidate reporting.py row.payload).isOk) = true := by
    rw [plainEntry, text_ofList, text_ofList, text_ofList]
    decide +kernel
  obtain ⟨s,hplay,hs⟩ := play_any hrun
  rw [Bool.and_eq_true, Option.any_eq_true] at hs
  obtain ⟨hhas,row,hrow,hcond⟩ := hs
  rw [Bool.and_eq_true, decide_eq_true_eq] at hcond
  obtain ⟨hfailed,hvalid⟩ := hcond
  refine ⟨s,row,play_reach hplay,hrow,hfailed,hhas,?_⟩
  cases hv : InferenceEvent.modelValidate reporting.py row.payload with
  | ok event => exact ⟨event,rfl⟩
  | error e =>
    rw [hv] at hvalid
    cases hvalid

end InferenceLogger
