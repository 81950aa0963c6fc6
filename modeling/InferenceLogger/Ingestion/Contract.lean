import InferenceLogger.Ingestion.Provenance

/-! # The contract of a worker

What a worker may rely on while it waits, what it guarantees the others, and the invariant of
the stores. Whether the stores are healthy is a parameter: in healthy runs nothing fails, and
every published entry fits.
-/
namespace InferenceLogger
open PyText PyJson AsyncTask KeyedTable RelyGuarantee Cluster

/-- What only grows, whoever takes a step. -/
structure Grows (s s' : Store) : Prop where
  published : ∀ e ∈ s.published, e ∈ s'.published
  keeps : s.db.Keeps s'.db
  letters : ∀ l ∈ s.redis.deadLetters, l ∈ s'.redis.deadLetters

theorem Grows.refl (s : Store) : Grows s s := ⟨fun _ h => h,.refl _,fun _ h => h⟩

theorem Grows.trans {a b c : Store} (h : Grows a b) (h' : Grows b c) : Grows a c where
  published := fun e he => h'.published e (h.published e he)
  keeps := h.keeps.trans h'.keeps
  letters := fun l hl => h'.letters l (h.letters l hl)

/-- What the others leave alone. -/
structure Rely (me : ℕ) (s s' : Store) : Prop where
  grows : Grows s s'
  own : s'.cluster.own me = s.cluster.own me
  aborted : me ∈ s'.cluster.aborted ↔ me ∈ s.cluster.aborted
  hand : s'.hands me = s.hands me

theorem Rely.refl (me : ℕ) (s : Store) : Rely me s s := ⟨.refl s,rfl,Iff.rfl,rfl⟩

theorem Rely.trans {me : ℕ} {a b c : Store} (h : Rely me a b) (h' : Rely me b c) : Rely me a c where
  grows := h.grows.trans h'.grows
  own := h'.own.trans h.own
  aborted := h'.aborted.trans h.aborted
  hand := h'.hand.trans h.hand

/-- What ingestion leaves alone. -/
structure Beside (s s' : Store) : Prop where
  published : s'.published = s.published
  conversations : s'.db.conversations = s.db.conversations
  messages : s'.db.messages = s.db.messages
  knownConversations : s'.knownConversations = s.knownConversations
  knownMessages : s'.knownMessages = s.knownMessages

/-- What a step of one worker may do: the others rely on it, and of its own batch it only lets go
of what it has acknowledged. -/
structure Guar (me : ℕ) (s s' : Store) : Prop where
  others : ∀ j, j ≠ me → Rely j s s'
  beside : Beside s s'
  hand : ∀ id ∈ s.hands me, id ∈ s'.hands me ∨ id ∈ s'.acked

theorem Guar.refl (me : ℕ) (s : Store) : Guar me s s :=
  ⟨fun j _ => .refl j s,⟨rfl,rfl,rfl,rfl,rfl⟩,fun _ hid => .inl hid⟩

/-- The invariant of the stores. -/
structure Inv (d : Deployment) (healthy : Bool) (s : Store) : Prop where
  ordered : s.published.Pairwise fun a b => a.id < b.id
  positive : ∀ e ∈ s.published, 0 < e.id
  bounded : ∀ e ∈ s.published, e.id ≤ s.redis.lastId
  retained : s.redis.entries <:+ s.published
  acked : ∀ id ∈ s.acked, ∃ e ∈ s.published, e.id = id ∧ d.Recorded s e
  raw : ∀ id row, s.db.eventsRaw.get id = some row → d.RawFrom s id row
  logs : ∀ id log, s.db.inferenceLogs.get id = some log → d.LogFrom s id log
  pending : ∀ i row now, (i,.insertLog row now) ∈ s.cluster.writes → s.db.refersOk row = true
  conversations : ∀ c, s.db.conversations.has c = true → c ∈ s.knownConversations
  messages : ∀ m, s.db.messages.has m = true → m ∈ s.knownMessages
  fits : healthy = true → ∀ e ∈ s.published, d.Fits e

namespace Inv
variable {d : Deployment} {healthy : Bool} {s : Store}

theorem id_unique (h : Inv d healthy s) {a b : Entry} (ha : a ∈ s.published) (hb : b ∈ s.published)
    (hid : a.id = b.id) : a = b := by
  have hdistinct : (s.published.map Entry.id).Nodup := List.pairwise_map.mpr (h.ordered.imp Nat.ne_of_lt)
  exact List.inj_on_of_nodup_map hdistinct ha hb hid

theorem entry_mem (h : Inv d healthy s) {e : Entry} (he : e ∈ s.redis.entries) : e ∈ s.published :=
  h.retained.subset he

end Inv

/-! ## Steps that commit nothing -/

/-- A step of one worker that leaves the committed tables and the stream alone. -/
structure Quiet (me : ℕ) (s s' : Store) : Prop where
  published : s'.published = s.published
  db : s'.db = s.db
  knownConversations : s'.knownConversations = s.knownConversations
  knownMessages : s'.knownMessages = s.knownMessages
  entries : s'.redis.entries = s.redis.entries
  lastId : s'.redis.lastId = s.redis.lastId
  letters : ∀ l ∈ s.redis.deadLetters, l ∈ s'.redis.deadLetters
  frame : Frame me s.cluster s'.cluster
  hands : ∀ j, j ≠ me → s'.hands j = s.hands j
  hand : ∀ id ∈ s.hands me, id ∈ s'.hands me ∨ id ∈ s'.acked

namespace Quiet
variable {d : Deployment} {healthy : Bool} {me : ℕ} {s s' : Store}

theorem grows (h : Quiet me s s') : Grows s s' := by
  refine ⟨?_,?_,h.letters⟩
  · rw [h.published]
    exact fun _ he => he
  · rw [h.db]
    exact .refl _

theorem guar (h : Quiet me s s') : Guar me s s' := by
  refine ⟨fun j hj => ⟨h.grows,h.frame.own j hj,h.frame.aborted j hj,h.hands j hj⟩,?_,h.hand⟩
  exact ⟨h.published,congrArg Db.conversations h.db,congrArg Db.messages h.db,h.knownConversations,h.knownMessages⟩

theorem inv (h : Quiet me s s') (hi : Inv d healthy s)
    (hp : ∀ i row now, (i,.insertLog row now) ∈ s'.cluster.writes → s.db.refersOk row = true)
    (ha : ∀ id ∈ s'.acked, id ∈ s.acked ∨ ∃ e ∈ s.published, e.id = id ∧ d.Recorded s' e) : Inv d healthy s' where
  ordered := by
    rw [h.published]
    exact hi.ordered
  positive := by
    rw [h.published]
    exact hi.positive
  bounded := by
    rw [h.published, h.lastId]
    exact hi.bounded
  retained := by
    rw [h.published, h.entries]
    exact hi.retained
  acked := by
    rw [h.published]
    intro id hack
    rcases ha id hack with hack | hrec
    · obtain ⟨e,he,hid,hrec⟩ := hi.acked id hack
      exact ⟨e,he,hid,hrec.mono h.grows.keeps h.letters⟩
    · exact hrec
  raw := by
    rw [h.db]
    exact fun id row hr => (hi.raw id row hr).mono h.grows.published h.grows.keeps
  logs := by
    rw [h.db]
    exact fun id log hl => (hi.logs id log hl).mono h.grows.published h.db h.knownConversations h.knownMessages
  pending := by
    rw [h.db]
    exact hp
  conversations := by
    rw [h.db, h.knownConversations]
    exact hi.conversations
  messages := by
    rw [h.db, h.knownMessages]
    exact hi.messages
  fits := by
    rw [h.published]
    exact hi.fits

theorem redis {r : Redis} (he : r.entries = s.redis.entries) (hl : r.lastId = s.redis.lastId)
    (hd : ∀ l ∈ s.redis.deadLetters, l ∈ r.deadLetters) : Quiet me s {s with redis := r} :=
  ⟨rfl,rfl,rfl,rfl,he,hl,hd,frame_refl _ _,fun _ _ => rfl,fun _ hid => .inl hid⟩

/-- A worker that holds nothing receives a batch. -/
theorem withHand (h : Quiet me s s') (ids : List ℕ) (hnone : s.hands me = []) :
    Quiet me s (s'.withHand me ids) := by
  refine ⟨h.published,h.db,h.knownConversations,h.knownMessages,h.entries,h.lastId,h.letters,h.frame,
    fun j hj => (Function.update_of_ne hj _ _).trans (h.hands j hj),fun id hid => ?_⟩
  rw [hnone] at hid
  cases hid

theorem cluster {c : Cluster} (hdb : c.db = s.db) (hf : Frame me s.cluster c) :
    Quiet me s ({s with cluster := c} : Store) :=
  ⟨rfl,hdb,rfl,rfl,rfl,rfl,fun _ hl => hl,hf,fun _ _ => rfl,fun _ hid => .inl hid⟩

theorem acknowledge (id : ℕ) : Quiet me s (s.acknowledge me id) := by
  refine ⟨rfl,rfl,rfl,rfl,rfl,rfl,fun _ hl => hl,frame_refl _ _,fun _ hj => Function.update_of_ne hj _ _,?_⟩
  intro i hi
  by_cases h : i = id
  · exact .inr (List.mem_append_right _ (List.mem_singleton.mpr h))
  · have hmem : i ∈ (s.hands me).filter fun i => decide (i ≠ id) := List.mem_filter.mpr ⟨hi,by simpa using h⟩
    exact .inl (by simpa [Store.acknowledge,Store.withHand] using hmem)

end Quiet

theorem Redis.readGroup_entries (r : Redis) (n : ℕ) :
    (r.readGroup n).1.entries = r.entries ∧ (r.readGroup n).1.lastId = r.lastId ∧
      (r.readGroup n).1.deadLetters = r.deadLetters := by
  unfold Redis.readGroup
  split <;> exact ⟨rfl,rfl,rfl⟩

theorem Redis.createGroup_entries (r : Redis) :
    r.createGroup.1.entries = r.entries ∧ r.createGroup.1.lastId = r.lastId ∧
      r.createGroup.1.deadLetters = r.deadLetters := by
  unfold Redis.createGroup
  split <;> exact ⟨rfl,rfl,rfl⟩

/-- An operation that fails commits nothing, unless it is a commit whose reply is lost; and what
it leaves pending was pending before. -/
theorem failed_quiet {me : ℕ} {s : Store} {op : IngestOp} :
    (Quiet me s (s.failBefore me op) ∧ ∀ w ∈ (s.failBefore me op).cluster.writes, w ∈ s.cluster.writes) ∧
    (op ≠ .commit → Quiet me s (s.failAfter me op) ∧
      ∀ w ∈ (s.failAfter me op).cluster.writes, w ∈ s.cluster.writes) := by
  have habort : Quiet me s {s with cluster := s.cluster.abort me} ∧
      ∀ w ∈ (s.cluster.abort me).writes, w ∈ s.cluster.writes :=
    ⟨.cluster rfl frame_abort,fun _ => mem_writes_forget⟩
  have hforget : Quiet me s {s with cluster := s.cluster.forget me} ∧
      ∀ w ∈ (s.cluster.forget me).writes, w ∈ s.cluster.writes :=
    ⟨.cluster rfl frame_forget,fun _ => mem_writes_forget⟩
  have hsame : Quiet me s s ∧ ∀ w ∈ s.cluster.writes, w ∈ s.cluster.writes :=
    ⟨.cluster (c := s.cluster) rfl (frame_refl _ _),fun _ h => h⟩
  have hredis : ∀ r : Redis, r.entries = s.redis.entries → r.lastId = s.redis.lastId →
      (∀ l ∈ s.redis.deadLetters, l ∈ r.deadLetters) → Quiet me s ({s with redis := r} : Store) ∧
      ∀ w ∈ s.cluster.writes, w ∈ s.cluster.writes :=
    fun _ he hl hd => ⟨.redis he hl hd,fun _ h => h⟩
  cases op with
  | xgroupCreate =>
    obtain ⟨he,hl,hd⟩ := s.redis.createGroup_entries
    exact ⟨hsame,fun _ => hredis _ he hl (by simp [hd])⟩
  | xreadgroup n =>
    obtain ⟨he,hl,hd⟩ := s.redis.readGroup_entries n
    exact ⟨hsame,fun _ => hredis _ he hl (by simp [hd])⟩
  | xack id => exact ⟨hsame,fun _ => ⟨.acknowledge id,fun _ h => h⟩⟩
  | xaddDead l => exact ⟨hsame,fun _ => hredis _ rfl rfl fun _ h => List.mem_append_left _ h⟩
  | recordRaw id eventType payload => exact ⟨habort,fun _ => habort⟩
  | markRaw id status error => exact ⟨habort,fun _ => habort⟩
  | upsertLog row => exact ⟨habort,fun _ => habort⟩
  | commit => exact ⟨habort,fun h => absurd rfl h⟩
  | rollback => exact ⟨hforget,fun _ => hforget⟩
  | close => exact ⟨hforget,fun _ => hforget⟩

/-! ## The commit -/

theorem Db.severed_of_refersOk {db : Db} {row : EventFields} (h : db.refersOk row = true) : db.severed row = row := by
  unfold Db.refersOk at h
  rw [Bool.and_eq_true] at h
  obtain ⟨hc,hm⟩ := h
  unfold Db.severed
  have hconv : row.conversationId.filter db.conversations.has = row.conversationId := by
    cases hrow : row.conversationId with
    | none => rfl
    | some c =>
      rw [hrow] at hc
      exact Option.filter_some_pos hc
  have hmess : row.messageId.filter db.messages.has = row.messageId := by
    cases hrow : row.messageId with
    | none => rfl
    | some m =>
      rw [hrow] at hm
      exact Option.filter_some_pos hm
  rw [hconv, hmess]

theorem Db.severed_congr {db db' : Db} (hc : db'.conversations = db.conversations) (hm : db'.messages = db.messages)
    (row : EventFields) : db'.severed row = db.severed row ∧ db'.refersOk row = db.refersOk row := by
  unfold Db.severed Db.refersOk
  rw [hc, hm]
  exact ⟨rfl,rfl⟩

theorem Inv.knows {d : Deployment} {healthy : Bool} {s : Store} (hi : Inv d healthy s) {row : EventFields}
    (h : s.db.refersOk row = true) : s.Knows row := by
  unfold Db.refersOk at h
  rw [Bool.and_eq_true] at h
  refine ⟨fun c hc => ?_,fun m hm => ?_⟩
  · rw [hc] at h
    exact hi.conversations c h.1
  · rw [hm] at h
    exact hi.messages m h.2

theorem own_mem_writes {c : Cluster} {me : ℕ} {w : Write} (h : w ∈ c.own me) : (me,w) ∈ c.writes := by
  obtain ⟨⟨j,w'⟩,hm,rfl⟩ := List.mem_map.mp h
  obtain ⟨hmem,hj⟩ := List.mem_filter.mp hm
  simp only [decide_eq_true_eq] at hj
  exact hj ▸ hmem

/-- A handler's transaction commits: the others are not disturbed, the invariant holds, and the
entry's rows are there. -/
theorem commit_script {d : Deployment} {healthy : Bool} {me : ℕ} {s : Store} {e : Entry}
    (hi : Inv d healthy s) (he : e ∈ s.published) (hs : Script d.toIngestionWorker s.db e (s.cluster.own me)) :
    Grows s {s with cluster := s.cluster.commit me} ∧ Guar me s {s with cluster := s.cluster.commit me} ∧
    Inv d healthy {s with cluster := s.cluster.commit me} := by
  obtain ⟨hconv,hmess⟩ := Db.applyWrites_product (s.cluster.own me) s.db
  have hkeeps := Db.keeps_applyWrites (s.cluster.own me) s.db
  have hsevered := Db.severed_congr hconv hmess
  have hgrows : Grows s {s with cluster := s.cluster.commit me} := ⟨fun _ h => h,hkeeps,fun _ h => h⟩
  have hguar : Guar me s {s with cluster := s.cluster.commit me} :=
    ⟨fun j hj => ⟨hgrows,frame_commit.own j hj,frame_commit.aborted j hj,rfl⟩,⟨rfl,hconv,hmess,rfl,rfl⟩,fun _ hid => .inl hid⟩
  refine ⟨hgrows,hguar,hi.ordered,hi.positive,hi.bounded,hi.retained,?_,?_,?_,?_,?_,?_,hi.fits⟩
  · intro id hack
    obtain ⟨e',he',hid,hrec⟩ := hi.acked id hack
    exact ⟨e',he',hid,hrec.mono hkeeps fun _ h => h⟩
  · intro id row hrow
    rcases hs.raw_row hrow with hold | ⟨hmarks,hfrom⟩
    · exact (hi.raw id row hold).mono (fun _ h => h) hkeeps
    · refine ⟨?_,e,he,hmarks,fun id payload event hd => (hs.rows.1 id payload event hd).2⟩
      rcases hfrom with ⟨old,ho,hp,ht⟩ | ⟨hc,ht⟩
      · rw [hp, ht]
        exact (hi.raw id old ho).landed
      · exact ⟨e,he,hc,ht⟩
  · intro id log hlog
    rcases hs.log_row hlog with hold | ⟨id',payload,event,now,hd,hid,hf,hmem⟩
    · obtain ⟨e',he',id',payload,event,hd,hid,hk,hf⟩ := hi.logs id log hold
      exact ⟨e',he',id',payload,event,hd,hid,⟨hk.conversation,hk.message⟩,hf.trans (hsevered _).1.symm⟩
    · have hrefs := hi.pending me _ now (own_mem_writes hmem)
      have hk := hi.knows hrefs
      refine ⟨e,he,id',payload,event,hd,hid,⟨hk.conversation,hk.message⟩,?_⟩
      rw [hf]
      exact ((hsevered _).1.trans (Db.severed_of_refersOk hrefs)).symm
  · intro i row now hmem
    exact (hsevered row).2.trans (hi.pending i row now (mem_writes_forget hmem))
  · intro c hc
    exact hi.conversations c (by rw [← hconv]; exact hc)
  · intro m hm
    exact hi.messages m (by rw [← hmess]; exact hm)

/-! ## Judgements -/

/-- A log row that is not there yet is written while what it refers to exists. -/
def Placeable (s : Store) (op : IngestOp) : Prop :=
  ∀ row, op = .upsertLog row → s.db.inferenceLogs.has row.id = true ∨ s.db.refersOk row = true

/-- What a healthy run is made of. -/
def Smoothly (s : Store) (op : IngestOp) (c : Choice) : Prop := c.fault = .none ∧ Placeable s op

instance (s : Store) (op : IngestOp) : Decidable (Placeable s op) :=
  match op with
  | .upsertLog row => decidable_of_iff (s.db.inferenceLogs.has row.id = true ∨ s.db.refersOk row = true)
      ⟨fun h _ hrow => by cases hrow; exact h,fun h => h row rfl⟩
  | .xgroupCreate => isTrue fun _ h => by cases h
  | .xreadgroup _ => isTrue fun _ h => by cases h
  | .xack _ => isTrue fun _ h => by cases h
  | .xaddDead _ => isTrue fun _ h => by cases h
  | .recordRaw _ _ _ => isTrue fun _ h => by cases h
  | .markRaw _ _ _ => isTrue fun _ h => by cases h
  | .commit => isTrue fun _ h => by cases h
  | .rollback => isTrue fun _ h => by cases h
  | .close => isTrue fun _ h => by cases h

instance (c : Choice) : Decidable (c.fault = .none) :=
  match h : c.fault with
  | .none => isTrue rfl
  | .before _ => isFalse (by simp)
  | .after _ => isFalse (by simp)

instance (s : Store) (op : IngestOp) (c : Choice) : Decidable (Smoothly s op c) :=
  inferInstanceAs (Decidable (c.fault = .none ∧ Placeable s op))

/-- Operations, smooth ones when the stores are healthy. -/
def healthyExec (pg : Postgres) (healthy : Bool) : Executor ℕ ingestSignature Exc Store Choice :=
  fun me s op c => if healthy = true → Smoothly s op c then ingestExec pg me s op c else none

def ingestContract (d : Deployment) (healthy : Bool) (me : ℕ) : Contract Store where
  inv := Inv d healthy
  rely := Rely me
  guar := Guar me
  rely_refl := Rely.refl me
  rely_trans := Rely.trans

/-- The judgement of a worker's program. -/
abbrev Works (d : Deployment) (healthy : Bool) (me : ℕ) {α : Type} (t : IngestTask α)
    (post : Except Exc α → Store → Prop) (s : Store) : Prop :=
  Sat (healthyExec d.pg healthy) (ingestContract d healthy me) me t post s

/-- An assertion the others cannot break. -/
def Stable (me : ℕ) (p : Store → Prop) : Prop := ∀ s s', Rely me s s' → p s → p s'

theorem healthyExec_some {pg : Postgres} {healthy : Bool} {me : ℕ} {s s' : Store} {op : IngestOp} {c : Choice}
    {r : Except Exc (ingestSignature.Answer op)} (h : healthyExec pg healthy me s op c = some (s',r)) :
    ingestExec pg me s op c = some (s',r) ∧ (healthy = true → Smoothly s op c) := by
  unfold healthyExec at h
  split at h
  · rename_i hsmooth
    exact ⟨h,hsmooth⟩
  · cases h

section Rules
variable {d : Deployment} {healthy : Bool} {me : ℕ}

/-- One operation, from a stable assertion to a stable one. -/
theorem works_op {op : IngestOp} {s : Store} {p : Store → Prop}
    {q : Except Exc (ingestSignature.Answer op) → Store → Prop} (hs : p s) (hp : Stable me p)
    (hq : ∀ r, Stable me (q r))
    (h : ∀ s c s' r, Inv d healthy s → p s → ingestExec d.pg me s op c = some (s',r) →
      (healthy = true → Smoothly s op c) → Guar me s s' ∧ Inv d healthy s' ∧ q r s') :
    Works d healthy me (ingest op) q s := by
  refine Sat.call ?_
  intro s₁ hr hi c s₂ r he
  obtain ⟨hexec,hsmooth⟩ := healthyExec_some he
  obtain ⟨hg,hi₂,hq₂⟩ := h s₁ c s₂ r hi (hp s s₁ hr hs) hexec hsmooth
  exact ⟨hg,hi₂,fun s₃ hr₃ _ => hq r s₂ s₃ hr₃ hq₂⟩

theorem works_done {α : Type} {a : α} {post : Except Exc α → Store → Prop} {s : Store}
    (hp : Stable me (post (.ok a))) (h : post (.ok a) s) : Works d healthy me (.done a) post s :=
  fun s₁ hr _ => hp s s₁ hr h

theorem works_raise {α : Type} {e : Exc} {post : Except Exc α → Store → Prop} {s : Store}
    (hp : Stable me (post (.error e))) (h : post (.error e) s) : Works d healthy me (.raise e) post s :=
  fun s₁ hr _ => hp s s₁ hr h

end Rules
end InferenceLogger
