import InferenceLogger.Events.Cursor
import InferenceLogger.Ingestion.Runs

/-! # Where an entry is

An entry of the stream is recorded, or in the hands of a live worker, or a later poll returns
it. A batch that is dropped, or whose delivery is lost, is none of these: nothing asks for
pending entries.
-/
namespace InferenceLogger
open PyText PyJson AsyncTask KeyedTable RelyGuarantee Cluster Transition

def Process.raised (p : Process) : Bool :=
  match p.task with
  | .raise _ => true
  | _ => false

/-- The entry's raw row or a dead letter for it is there. -/
def IngestionWorker.Stored (w : IngestionWorker) (s : Store) (e : Entry) : Prop :=
  (∃ id payload, RedisEventStream.decode w.rt e.fields = .ok (some (.obj payload)) ∧ extractId payload = some id ∧
    s.db.eventsRaw.has id = true) ∨ ∃ l ∈ s.redis.deadLetters, l.origin = e.id

/-- In the part of a live worker's batch that it has not handled. -/
def System.Held (s : System) (e : Entry) : Prop :=
  ∃ i p, s.workers i = some p ∧ p.raised = false ∧ e.id ∈ s.store.hands i

namespace Deployment
variable (d : Deployment)

/-- The three situations an entry may be in. -/
def Safe (s : System) (e : Entry) : Prop :=
  d.Stored s.store e ∨ s.Held e ∨ Redis.Returns d.batchSize s.store.redis e

/-- What is left of a worker's batch is in no danger: each entry is recorded, or with another
worker, or the cursor is still before it. -/
def Settled (s : System) (i : ℕ) : Prop :=
  ∀ e ∈ s.store.redis.entries, e.id ∈ s.store.hands i → d.Stored s.store e ∨
    (∃ j p, j ≠ i ∧ s.workers j = some p ∧ p.raised = false ∧ e.id ∈ s.store.hands j) ∨
    s.store.redis.Ahead e

/-- No crash drops an unsettled batch, and no exception does; and the reply of a poll that hands
out entries is not lost. -/
def Lossless (s : System) : Action → Prop
  | .crash i => d.Settled s i
  | .turn i choice => ∀ starting op k r, s.workers i = some ⟨starting,.await op k⟩ →
      ingestExec d.pg i s.store op choice = some r →
        (∀ n x, op = .xreadgroup n → choice.fault = .after x → ∀ e es, (s.store.redis.readGroup n).2 ≠ .ok (e :: es)) ∧
        ((⟨starting,k r.2⟩ : Process).raised = true → d.Settled {s with store := r.1} i)
  | _ => True

end Deployment

theorem IngestionWorker.Recorded.stored {w : IngestionWorker} {s : Store} {e : Entry} (h : w.Recorded s e) :
    w.Stored s e := by
  have hletter : ∀ {payload}, w.DeadLettered s e payload → w.Stored s e := by
    rintro payload ⟨l,hl,ho,-⟩
    exact .inr ⟨l,hl,ho⟩
  unfold Recorded at h
  cases hx : w.disposition e with
  | malformed =>
    rw [hx] at h
    exact hletter h
  | fatal =>
    rw [hx] at h
    exact h.elim
  | anonymous payload =>
    rw [hx] at h
    exact hletter h
  | rejected id payload errors =>
    rw [hx] at h
    exact hletter h.2
  | accepted id payload event =>
    rw [hx] at h
    obtain ⟨hdec,hid⟩ := disposition_accepted hx
    exact .inl ⟨id,payload,hdec,hid,h.1⟩

theorem IngestionWorker.Stored.mono {w : IngestionWorker} {s s' : Store} {e : Entry} (h : w.Stored s e)
    (hg : Grows s s') : w.Stored s' e := by
  rcases h with ⟨id,payload,hdec,hid,hraw⟩ | ⟨l,hl,ho⟩
  · exact .inl ⟨id,payload,hdec,hid,hg.keeps.raw id hraw⟩
  · exact .inr ⟨l,hg.letters l hl,ho⟩

theorem Inv.redis_ordered {d : Deployment} {healthy : Bool} {s : Store} (h : Inv d healthy s) : s.redis.Ordered :=
  ⟨h.ordered.sublist h.retained.sublist,fun e he => h.positive e (h.entry_mem he)⟩

/-- What one operation of a worker does to the stream. -/
theorem ingestExec_redis {pg : Postgres} {me : ℕ} {s : Store} {op : IngestOp} {c : Choice}
    {r : Store × Except Exc (ingestSignature.Answer op)} (h : ingestExec pg me s op c = some r) :
    r.1.redis = s.redis ∨ r.1.redis = s.redis.createGroup.1 ∨ (∃ id, r.1.redis = s.redis.ack id) ∨
    (∃ l, r.1.redis = s.redis.addDead l) ∨
    ∃ n, op = .xreadgroup n ∧ r.1.redis = (s.redis.readGroup n).1 ∧ ∀ batch, (s.redis.readGroup n).2 = .ok batch →
      r.1.hands me = batch.map Entry.id ∨ ∃ x, c.fault = .after x := by
  unfold ingestExec at h
  cases hf : c.fault with
  | before x =>
    rw [hf] at h
    cases h
    left
    cases op <;> rfl
  | after x =>
    rw [hf] at h
    cases h
    cases op with
    | xgroupCreate => exact .inr (.inl rfl)
    | xreadgroup n => exact .inr (.inr (.inr (.inr ⟨n,rfl,rfl,fun _ _ => .inr ⟨x,rfl⟩⟩)))
    | xack id => exact .inr (.inr (.inl ⟨id,rfl⟩))
    | xaddDead l => exact .inr (.inr (.inr (.inl ⟨l,rfl⟩)))
    | _ => exact .inl rfl
  | none =>
    rw [hf] at h
    cases op with
    | xgroupCreate =>
      cases h
      exact .inr (.inl rfl)
    | xreadgroup n =>
      refine .inr (.inr (.inr (.inr ⟨n,rfl,?_⟩)))
      change s.perform pg me c.now (.xreadgroup n) = some r at h
      rw [perform_xreadgroup] at h
      cases hr : (s.redis.readGroup n).2 with
      | ok batch =>
        rw [hr] at h
        cases h
        refine ⟨rfl,fun batch' hb => .inl ?_⟩
        cases hb
        exact Function.update_self _ _ _
      | error x =>
        rw [hr] at h
        cases h
        exact ⟨rfl,fun batch' hb => by cases hb⟩
    | xack id =>
      cases h
      exact .inr (.inr (.inl ⟨id,rfl⟩))
    | xaddDead l =>
      cases h
      exact .inr (.inr (.inr (.inl ⟨l,rfl⟩)))
    | commit =>
      cases h
      exact .inl rfl
    | rollback =>
      cases h
      exact .inl rfl
    | close =>
      cases h
      exact .inl rfl
    | _ =>
      obtain ⟨r',-,rfl⟩ := Option.map_eq_some_iff.mp h
      exact .inl rfl

namespace Deployment
variable {d : Deployment}

/-- The invariant of lossless runs. -/
structure SafeInv (d : Deployment) (s : System) : Prop where
  system : SystemInv d false s
  bounded : s.store.redis.Bounded
  safe : ∀ e ∈ s.store.redis.entries, d.Safe s e

theorem returns_iff {s : System} {e : Entry} (h : SystemInv d false s) (he : e ∈ s.store.redis.entries) :
    Redis.Returns d.batchSize s.store.redis e ↔ s.store.redis.Ahead e :=
  (Redis.returns_iff h.store.redis_ordered d.batch_pos).trans (and_iff_right he)

section
variable {s t : System} {e : Entry}

/-- Where the entry goes with one operation of a worker, if it was ahead of the cursor. -/
theorem ahead_turn {i : ℕ} {op : IngestOp} {c : Choice} {r : Store × Except Exc (ingestSignature.Answer op)}
    (h : SystemInv d false s) (hb : s.store.redis.Bounded) (hr : ingestExec d.pg i s.store op c = some r) :
    r.1.redis.Bounded ∧ r.1.redis.entries = s.store.redis.entries ∧
    ∀ e ∈ s.store.redis.entries, s.store.redis.Ahead e → r.1.redis.Ahead e ∨ e.id ∈ r.1.hands i ∨
      ∃ n x e' es, op = .xreadgroup n ∧ c.fault = .after x ∧ (s.store.redis.readGroup n).2 = .ok (e' :: es) := by
  have hordered := h.store.redis_ordered
  have hids : ∀ x ∈ s.store.redis.entries, x.id ≤ s.store.redis.lastId :=
    fun x hx => h.store.bounded x (h.store.entry_mem hx)
  have hsame : ∀ r' : Redis, r'.entries = s.store.redis.entries → r'.lastId = s.store.redis.lastId →
      (∀ g', r'.group = some g' → ∃ g, s.store.redis.group = some g ∧ g'.lastDelivered = g.lastDelivered) →
      r'.Bounded ∧ r'.entries = s.store.redis.entries ∧ ∀ e, s.store.redis.Ahead e → r'.Ahead e := by
    intro r' hentries hlast hgroup
    refine ⟨fun g' hg' => ?_,hentries,fun e ha g' hg' => ?_⟩
    · obtain ⟨g,hg,heq⟩ := hgroup g' hg'
      rw [heq, hlast]
      exact hb g hg
    · obtain ⟨g,hg,heq⟩ := hgroup g' hg'
      rw [heq]
      exact ha g hg
  rcases ingestExec_redis hr with heq | heq | ⟨id,heq⟩ | ⟨l,heq⟩ | ⟨n,hop,heq,hhand⟩
  · rw [heq]
    exact ⟨hb,rfl,fun _ _ => .inl⟩
  · rw [heq]
    cases hg : s.store.redis.group with
    | some g =>
      have hkept : s.store.redis.createGroup.1 = s.store.redis := by
        unfold Redis.createGroup
        rw [hg]
      rw [hkept]
      exact ⟨hb,rfl,fun _ _ => .inl⟩
    | none =>
      have hmade : s.store.redis.createGroup.1 = {s.store.redis with group := some ⟨0,[]⟩} := by
        unfold Redis.createGroup
        rw [hg]
      rw [hmade]
      refine ⟨fun g hg' => ?_,rfl,fun e he _ => .inl fun g hg' => ?_⟩
      · cases hg'
        exact Nat.zero_le _
      · cases hg'
        exact hordered.positive e he
  · rw [heq]
    obtain ⟨hbound,hentries,ha⟩ := hsame (s.store.redis.ack id) rfl rfl (fun g' hg' => by
      obtain ⟨g,hg,rfl⟩ := Option.map_eq_some_iff.mp hg'
      exact ⟨g,hg,rfl⟩)
    exact ⟨hbound,hentries,fun e _ h => .inl (ha e h)⟩
  · rw [heq]
    obtain ⟨hbound,hentries,ha⟩ := hsame (s.store.redis.addDead l) rfl rfl (fun g' hg' => ⟨g',hg',rfl⟩)
    exact ⟨hbound,hentries,fun e _ h => .inl (ha e h)⟩
  · rw [heq]
    refine ⟨hb.readGroup hids,(s.store.redis.readGroup_entries n).1,fun e he ha => ?_⟩
    cases hg : s.store.redis.group with
    | none =>
      obtain ⟨x,hx⟩ := Redis.readGroup_none (n := n) hg
      rw [hx]
      exact .inl ha
    | some g =>
      rcases Redis.readGroup_ahead (n := n) hordered hg he ha with hmem | hahead
      · have hread := congrArg Prod.snd (Redis.readGroup_some (n := n) hg)
        rcases hhand _ hread with hhand | ⟨x,hx⟩
        · rw [hhand]
          exact .inr (.inl (List.mem_map.mpr ⟨e,hmem,rfl⟩))
        · -- the reply is lost with the entry in it
          obtain ⟨e',es,hne⟩ := List.exists_cons_of_ne_nil (List.ne_nil_of_mem hmem)
          rw [hne] at hread
          exact .inr (.inr ⟨n,x,e',es,hop,hx,hread⟩)
      · exact .inl hahead

/-- A worker that no action is about keeps what it holds. -/
theorem step_hands {a : Action} (h : SystemInv d false s) (ht : System.step d s a = some t) {j : ℕ}
    (hj : a.worker ≠ some j) : t.store.hands j = s.store.hands j := by
  have hne : ∀ {i}, a.worker = some i → j ≠ i := by
    rintro i hi rfl
    exact hj hi
  cases a with
  | turn i choice =>
    simp only [System.step] at ht
    split at ht
    · rename_i starting op k hp
      obtain ⟨r,hr,rfl⟩ := Option.map_eq_some_iff.mp ht
      exact ((h.turn hp (by simp) hr).1.others j (hne rfl)).hand
    · cases ht
  | next i =>
    simp only [System.step] at ht
    split at ht
    · cases ht
      rfl
    · split at ht <;> cases ht
      exact Function.update_of_ne (hne rfl) _ _
    · cases ht
  | exit i =>
    simp only [System.step] at ht
    split at ht <;> cases ht <;> exact Function.update_of_ne (hne rfl) _ _
  | crash i =>
    cases ht
    exact Function.update_of_ne (hne rfl) _ _
  | trim n =>
    cases ht
    rfl
  | dropGroup =>
    cases ht
    rfl
  | _ =>
    simp only [System.step] at ht
    split at ht <;> cases ht
    rfl

theorem held_elsewhere {a : Action} {j : ℕ} {p : Process} (h : SystemInv d false s) (ht : System.step d s a = some t)
    (hj : a.worker ≠ some j) (hp : s.workers j = some p) (hraised : p.raised = false) (hheld : e.id ∈ s.store.hands j) :
    t.Held e := by
  refine ⟨j,p,(step_others ht hj).trans hp,hraised,?_⟩
  rw [step_hands h ht hj]
  exact hheld

/-- The stream under an action that is no operation of a worker: the group is the same or gone,
and new entries come after all others. -/
theorem step_stream {a : Action} (ha : ∀ i choice, a ≠ .turn i choice) (ht : System.step d s a = some t) :
    (∀ g, t.store.redis.group = some g → s.store.redis.group = some g) ∧
    s.store.redis.lastId ≤ t.store.redis.lastId ∧
    ∀ x ∈ t.store.redis.entries, x ∈ s.store.redis.entries ∨ s.store.redis.lastId < x.id := by
  have hsame : ∀ {u : System}, u.store.redis = s.store.redis →
      (∀ g, u.store.redis.group = some g → s.store.redis.group = some g) ∧
      s.store.redis.lastId ≤ u.store.redis.lastId ∧
      ∀ x ∈ u.store.redis.entries, x ∈ s.store.redis.entries ∨ s.store.redis.lastId < x.id := by
    intro u hu
    rw [hu]
    exact ⟨fun _ hg => hg,le_rfl,fun _ hx => .inl hx⟩
  cases a with
  | turn i choice => exact absurd rfl (ha i choice)
  | publish x =>
    simp only [System.step] at ht
    split at ht
    · rename_i hnew
      cases ht
      refine ⟨fun _ hg => hg,Nat.le_of_lt hnew,fun y hy => ?_⟩
      rcases List.mem_append.mp hy with hy | hy
      · exact .inl hy
      · rw [List.mem_singleton.mp hy]
        exact .inr hnew
    · cases ht
  | trim n =>
    cases ht
    exact ⟨fun _ hg => hg,le_rfl,fun _ hx => .inl (List.mem_of_mem_drop hx)⟩
  | dropGroup =>
    cases ht
    exact ⟨fun _ hg => (by cases hg),le_rfl,fun _ hx => .inl hx⟩
  | next i =>
    simp only [System.step] at ht
    split at ht
    · cases ht
      exact hsame rfl
    · split at ht <;> cases ht
      exact hsame rfl
    · cases ht
  | exit i =>
    simp only [System.step] at ht
    split at ht <;> cases ht <;> exact hsame rfl
  | crash i =>
    cases ht
    exact hsame rfl
  | _ =>
    simp only [System.step] at ht
    split at ht <;> cases ht
    exact hsame rfl

/-- What a worker holds stays with it until it is acknowledged, and then it is recorded. -/
theorem held_turn {i : ℕ} {starting : Bool} {op : IngestOp}
    {k : Except Exc (ingestSignature.Answer op) → IngestTask BatchOutcome} {c : Choice}
    {r : Store × Except Exc (ingestSignature.Answer op)} (h : SystemInv d false s)
    (hp : s.workers i = some ⟨starting,.await op k⟩) (hr : ingestExec d.pg i s.store op c = some r)
    (he : e ∈ s.store.redis.entries) (hheld : e.id ∈ s.store.hands i) :
    e.id ∈ r.1.hands i ∨ d.Stored r.1 e := by
  obtain ⟨hguar,hnext⟩ := h.turn hp (by simp) hr
  rcases hguar.hand _ hheld with hin | hack
  · exact .inl hin
  · obtain ⟨e',he',hid,hrec⟩ := hnext.store.acked _ hack
    have hpub : e ∈ r.1.published := by
      rw [hguar.beside.published]
      exact h.store.entry_mem he
    cases hnext.store.id_unique he' hpub hid
    exact .inr hrec.stored

/-- A worker with nothing to do holds nothing. -/
theorem done_hands {i : ℕ} {starting : Bool} {outcome : BatchOutcome} (h : SystemInv d false s)
    (hp : s.workers i = some ⟨starting,.done outcome⟩) : s.store.hands i = [] := by
  have hidle : Idle i s.store := h.running i _ hp s.store (.refl i _) h.store
  exact hidle.hands

/-- Where an entry in a worker's hands is after a step about that worker. -/
theorem held_step {a : Action} {i : ℕ} {p : Process} (h : SystemInv d false s) (hl : d.Lossless s a)
    (ha : ∀ i choice, a ≠ .turn i choice) (ht : System.step d s a = some t) (hw : a.worker = some i)
    (hp : s.workers i = some p) (hraised : p.raised = false) (hheld : e.id ∈ s.store.hands i)
    (he : e ∈ s.store.redis.entries) :
    d.Stored s.store e ∨ t.Held e ∨ s.store.redis.Ahead e := by
  cases a with
  | turn j choice => exact absurd rfl (ha j choice)
  | spawn j =>
    cases hw
    simp only [System.step] at ht
    rw [hp] at ht
    cases ht
  | next j =>
    cases hw
    simp only [System.step] at ht
    split at ht
    · rename_i hdone
      rw [done_hands h hdone] at hheld
      cases hheld
    · rename_i x hraise
      cases hp.symm.trans hraise
      cases hraised
    · cases ht
  | exit j =>
    cases hw
    simp only [System.step] at ht
    split at ht
    · rename_i hdone
      rw [done_hands h hdone] at hheld
      cases hheld
    · rename_i hraise
      cases hp.symm.trans hraise
      cases hraised
    · cases ht
  | crash j =>
    cases hw
    rcases hl e he hheld with hstored | ⟨j,q,hj,hq,hqr,hqh⟩ | hahead
    · exact .inl hstored
    · refine .inr (.inl (held_elsewhere h ht ?_ hq hqr hqh))
      intro heq
      exact hj (Option.some.inj heq).symm
    · exact .inr (.inr hahead)
  | _ => cases hw

/-- After an operation: where the worker's own entries are, if it goes on and if it raises. -/
theorem own_turn {i : ℕ} {starting : Bool} {op : IngestOp}
    {k : Except Exc (ingestSignature.Answer op) → IngestTask BatchOutcome} {c : Choice}
    {r : Store × Except Exc (ingestSignature.Answer op)}
    (hp : s.workers i = some ⟨starting,.await op k⟩) (hr : ingestExec d.pg i s.store op c = some r)
    (hl : d.Lossless s (.turn i c)) (he : e ∈ r.1.redis.entries) (hin : e.id ∈ r.1.hands i) :
    d.Stored r.1 e ∨ (({s with store := r.1} : System).setWorker i (some ⟨starting,k r.2⟩)).Held e ∨
      r.1.redis.Ahead e := by
  cases hraised : (⟨starting,k r.2⟩ : Process).raised with
  | false => exact .inr (.inl ⟨i,_,Function.update_self _ _ _,hraised,hin⟩)
  | true =>
    rcases (hl starting op k r hp hr).2 hraised e he hin with hstored | ⟨j,q,hj,hq,hqr,hqh⟩ | hahead
    · exact .inl hstored
    · exact .inr (.inl ⟨j,q,(Function.update_of_ne hj _ _).trans hq,hqr,hqh⟩)
    · exact .inr (.inr hahead)

theorem SafeInv.turn {i : ℕ} {c : Choice} (h : SafeInv d s) (hl : d.Lossless s (.turn i c))
    (ht : System.step d s (.turn i c) = some t) : SafeInv d t := by
  obtain ⟨hsys,hgrows⟩ := h.system.advance (by simp) ht
  have helsewhere := fun (e : Entry) j p => @held_elsewhere d s t e _ j p h.system ht
  simp only [System.step] at ht
  split at ht
  · rename_i starting op k hp
    obtain ⟨r,hr,rfl⟩ := Option.map_eq_some_iff.mp ht
    obtain ⟨hbounded,hentries,hahead⟩ := ahead_turn h.system h.bounded hr
    refine ⟨hsys,hbounded,fun e he => ?_⟩
    have hold : e ∈ s.store.redis.entries := by
      rw [← hentries]
      exact he
    have howned := fun hin : e.id ∈ r.1.hands i =>
      (own_turn hp hr hl he hin).imp_right (Or.imp_right (returns_iff hsys he).mpr)
    rcases h.safe e hold with hstored | ⟨j,p,hj,hraised,hheld⟩ | hreturns
    · exact .inl (hstored.mono hgrows)
    · by_cases hij : i = j
      · subst hij
        cases hp.symm.trans hj
        rcases held_turn h.system hp hr hold hheld with hin | hstored
        · exact howned hin
        · exact .inl hstored
      · have hne : (Action.turn i c).worker ≠ some j := fun heq => hij (Option.some.inj heq)
        exact .inr (.inl (helsewhere e j p hne hj hraised hheld))
    · rcases hahead e hold ((returns_iff h.system hold).mp hreturns) with ha | hin | ⟨n,x,e',es,hop,hf,hread⟩
      · exact .inr (.inr ((returns_iff hsys he).mpr ha))
      · exact howned hin
      · exact absurd hread ((hl starting op k r hp hr).1 n x hop hf e' es)
  · cases ht

theorem SafeInv.step {a : Action} (h : SafeInv d s) (hl : d.Lossless s a) (ht : System.step d s a = some t) :
    SafeInv d t := by
  by_cases hturn : ∃ i c, a = .turn i c
  · obtain ⟨i,c,rfl⟩ := hturn
    exact h.turn hl ht
  · have ha : ∀ i c, a ≠ .turn i c := fun i c heq => hturn ⟨i,c,heq⟩
    obtain ⟨hsys,hgrows⟩ := h.system.advance (by simp) ht
    obtain ⟨hgroup,hlast,hnew⟩ := step_stream ha ht
    have hahead : ∀ e ∈ t.store.redis.entries, s.store.redis.Ahead e → Redis.Returns d.batchSize t.store.redis e :=
      fun e he h' => (returns_iff hsys he).mpr fun g hg => h' g (hgroup g hg)
    refine ⟨hsys,fun g hg => (h.bounded g (hgroup g hg)).trans hlast,fun e he => ?_⟩
    rcases hnew e he with hold | hlater
    · have hkept : d.Stored s.store e ∨ t.Held e ∨ s.store.redis.Ahead e := by
        rcases h.safe e hold with hstored | ⟨j,p,hj,hraised,hheld⟩ | hreturns
        · exact .inl hstored
        · by_cases hw : a.worker = some j
          · exact held_step h.system hl ha ht hw hj hraised hheld hold
          · exact .inr (.inl (held_elsewhere h.system ht hw hj hraised hheld))
        · exact .inr (.inr ((returns_iff h.system hold).mp hreturns))
      rcases hkept with hstored | hheld | h'
      · exact .inl (hstored.mono hgrows)
      · exact .inr (.inl hheld)
      · exact .inr (.inr (hahead e he h'))
    · refine .inr (.inr (hahead e he fun g hg => ?_))
      have hle := h.bounded g hg
      omega

end

end Deployment

/-- The steps of such a run: nothing fails, no worker raises or crashes. -/
def smooth (d : Deployment) (s : System) : Action → Bool
  | .turn i choice => match s.workers i with
    | some ⟨starting,.await op k⟩ => decide (choice.fault = .none) &&
        (ingestExec d.pg i s.store op choice).all fun r => !(⟨starting,k r.2⟩ : Process).raised
    | _ => true
  | .crash _ => false
  | _ => true

/-- The entry's raw row is there. -/
def landed (rt : Runtime) (s : Store) (e : Entry) : Bool :=
  match RedisEventStream.decode rt e.fields with
  | .ok (some (.obj payload)) => (extractId payload).any s.db.eventsRaw.has
  | _ => false

end InferenceLogger
