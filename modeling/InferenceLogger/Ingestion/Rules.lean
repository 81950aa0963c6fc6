import InferenceLogger.Ingestion.Contract

/-! # One rule for each operation

What a worker knows between two operations: its own writes, the part of its batch it still
holds, and facts that last. An operation of the worker takes such an assertion to another, or
fails, which in healthy runs it does not.
-/
namespace InferenceLogger
open PyText PyJson AsyncTask KeyedTable RelyGuarantee Cluster

/-- A fact no step can break. -/
def Lasting (f : Store → Prop) : Prop := ∀ s s', Grows s s' → f s → f s'

theorem Lasting.and {f g : Store → Prop} (hf : Lasting f) (hg : Lasting g) : Lasting fun s => f s ∧ g s :=
  fun s s' h hs => ⟨hf s s' h hs.1,hg s s' h hs.2⟩

theorem lasting_published (e : Entry) : Lasting fun s => e ∈ s.published := fun _ _ h hs => h.published e hs

theorem lasting_letter (l : DeadLetter) : Lasting fun s => l ∈ s.redis.deadLetters := fun _ _ h hs => h.letters l hs

theorem lasting_rawPart (w : IngestionWorker) (id : Uuid) (payload : Members) (ws : List Write) :
    Lasting fun s => RawPart w s.db id payload ws := fun _ _ h hs => hs.mono h.keeps

theorem lasting_logPart (row : EventFields) (ws : List Write) : Lasting fun s => LogPart s.db row ws :=
  fun _ _ h hs => hs.mono h.keeps

theorem lasting_script (w : IngestionWorker) (e : Entry) (ws : List Write) :
    Lasting fun s => Script w s.db e ws := fun _ _ h hs => hs.mono h.keeps

/-- Between two operations of a worker. -/
structure At (me : ℕ) (ws : List Write) (hand : ℕ → Prop) (facts : Store → Prop) (s : Store) : Prop where
  own : s.cluster.own me = ws
  alive : me ∉ s.cluster.aborted
  hand : ∀ id ∈ s.hands me, hand id
  facts : facts s

theorem At.stable {me : ℕ} {ws : List Write} {hand : ℕ → Prop} {facts : Store → Prop} (hf : Lasting facts) :
    Stable me (At me ws hand facts) := by
  intro s s' hr h
  refine ⟨hr.own.trans h.own,fun ha => h.alive (hr.aborted.mp ha),?_,hf s s' hr.grows h.facts⟩
  rw [hr.hand]
  exact h.hand

/-- The session holds these writes, in a transaction that has not failed. -/
structure Holds (me : ℕ) (ws : List Write) (s : Store) : Prop where
  own : s.cluster.own me = ws
  alive : me ∉ s.cluster.aborted

theorem Holds.stable (me : ℕ) (ws : List Write) : Stable me (Holds me ws) :=
  fun _ _ hr h => ⟨hr.own.trans h.own,fun ha => h.alive (hr.aborted.mp ha)⟩

/-- The postcondition of a program that fails only when the stores do, and how it leaves them
then. -/
def Yields {α : Type} (healthy : Bool) (broken : Store → Prop) (p : α → Store → Prop) : Except Exc α → Store → Prop
  | .ok a, s => p a s
  | .error _, s => broken s ∧ healthy = false

def Anyhow (_ : Store) : Prop := True

theorem anyhow_stable (me : ℕ) : Stable me Anyhow := fun _ _ _ h => h

theorem Yields.stable {α : Type} {healthy : Bool} {me : ℕ} {broken : Store → Prop} {p : α → Store → Prop}
    (hb : Stable me broken) (h : ∀ a, Stable me (p a)) (r : Except Exc α) :
    Stable me (Yields healthy broken p r) := by
  cases r with
  | ok a => exact h a
  | error e => exact fun s s' hr hs => ⟨hb s s' hr hs.1,hs.2⟩

section
variable {d : Deployment} {healthy : Bool} {me : ℕ} {broken : Store → Prop}

theorem works_bind {α β : Type} {t : IngestTask α} {f : α → IngestTask β} {p : α → Store → Prop}
    {q : β → Store → Prop} {s : Store} (hb : Stable me broken) (hi : Inv d healthy s)
    (h : Works d healthy me t (Yields healthy broken p) s)
    (hf : ∀ a s, Inv d healthy s → p a s → Works d healthy me (f a) (Yields healthy broken q) s) :
    Works d healthy me (t >>= f) (Yields healthy broken q) s := by
  refine Sat.bind (h.mono ?_) hi
  intro r s' hs' hr
  cases r with
  | ok a => exact hf a s' hs' hr
  | error e => exact works_raise (fun _ _ hr' hh => ⟨hb _ _ hr' hh.1,hh.2⟩) hr

theorem works_return {α : Type} {a : α} {p : α → Store → Prop} {s : Store} (hp : Stable me (p a)) (h : p a s) :
    Works d healthy me (.done a) (Yields healthy broken p) s := works_done hp h

theorem works_fail {α : Type} {e : Exc} {p : α → Store → Prop} {s : Store} (hb : Stable me broken)
    (h : broken s) (hh : healthy = false) : Works d healthy me (.raise e) (Yields healthy broken p) s :=
  works_raise (fun _ _ hr h => ⟨hb _ _ hr h.1,h.2⟩) ⟨h,hh⟩

theorem works_weaken {α : Type} {t : IngestTask α} {broken' : Store → Prop} {p p' : α → Store → Prop} {s : Store}
    (h : Works d healthy me t (Yields healthy broken p) s) (hb : ∀ s, broken s → broken' s)
    (hp : ∀ a s, Inv d healthy s → p a s → p' a s) : Works d healthy me t (Yields healthy broken' p') s := by
  refine h.mono fun r s hi hr => ?_
  cases r with
  | ok a => exact hp a s hi hr
  | error e => exact ⟨hb s hr.1,hr.2⟩

/-- An operation goes through, or it fails before or after its effect. -/
theorem ingestExec_cases {pg : Postgres} {s s' : Store} {op : IngestOp} {c : Choice}
    {r : Except Exc (ingestSignature.Answer op)} (h : ingestExec pg me s op c = some (s',r)) :
    (c.fault = .none ∧ s.perform pg me c.now op = some (s',r)) ∨
      (c.fault ≠ .none ∧ (∃ e, r = .error e) ∧ (s' = s.failBefore me op ∨ s' = s.failAfter me op)) := by
  unfold ingestExec at h
  cases hf : c.fault with
  | none =>
    rw [hf] at h
    exact .inl ⟨rfl,h⟩
  | before e =>
    rw [hf] at h
    cases h
    exact .inr ⟨by simp,⟨e,rfl⟩,.inl rfl⟩
  | after e =>
    rw [hf] at h
    cases h
    exact .inr ⟨by simp,⟨e,rfl⟩,.inr rfl⟩

/-- Answered, so it went through. -/
theorem performed {pg : Postgres} {s s' : Store} {op : IngestOp} {c : Choice} {a : ingestSignature.Answer op}
    (he : ingestExec pg me s op c = some (s',.ok a)) : s.perform pg me c.now op = some (s',.ok a) := by
  rcases ingestExec_cases he with ⟨-,hperform⟩ | ⟨-,⟨e,hr⟩,-⟩
  · exact hperform
  · cases hr

/-- A failed operation keeps the contract. -/
theorem failed_keeps {s s' : Store} {op : IngestOp} (hi : Inv d healthy s) (hop : op ≠ .commit)
    (hack : ∀ id, op = .xack id → ∃ e ∈ s.published, e.id = id ∧ d.Recorded s e)
    (h : s' = s.failBefore me op ∨ s' = s.failAfter me op) :
    Guar me s s' ∧ Inv d healthy s' := by
  obtain ⟨⟨hb,hbw⟩,hafter⟩ := failed_quiet (s := s)
  obtain ⟨ha,haw⟩ := hafter hop
  rcases h with rfl | rfl
  · refine ⟨hb.guar,hb.inv hi (fun i row now hm => hi.pending i row now (hbw _ hm)) fun id hm => .inl ?_⟩
    cases op <;> exact hm
  · refine ⟨ha.guar,ha.inv hi (fun i row now hm => hi.pending i row now (haw _ hm)) fun i hm => ?_⟩
    cases op with
    | xack id =>
      rcases List.mem_append.mp hm with hm | hm
      · exact .inl hm
      · obtain ⟨e,he,hid,hrec⟩ := hack id rfl
        exact .inr ⟨e,he,hid.trans (List.mem_singleton.mp hm).symm,hrec.mono ha.grows.keeps ha.grows.letters⟩
    | _ => exact .inl hm

/-- The rule of an operation: its effect when it goes through. -/
theorem works_effect {op : IngestOp} {s : Store} {p : Store → Prop} {q : ingestSignature.Answer op → Store → Prop}
    (hs : p s) (hp : Stable me p) (hb : Stable me broken) (hq : ∀ a, Stable me (q a)) (hop : op ≠ .commit)
    (hbroken : ∀ s s', p s → s' = s.failBefore me op ∨ s' = s.failAfter me op → broken s')
    (hack : ∀ id, op = .xack id → ∀ s, p s → ∃ e ∈ s.published, e.id = id ∧ d.Recorded s e)
    (heffect : ∀ s now s' r, Inv d healthy s → p s → (healthy = true → Placeable s op) →
      s.perform d.pg me now op = some (s',r) →
      Guar me s s' ∧ Inv d healthy s' ∧ Yields healthy broken q r s') :
    Works d healthy me (ingest op) (Yields healthy broken q) s := by
  refine works_op hs hp (Yields.stable hb hq) ?_
  intro s c s' r hi hps he hfault
  rcases ingestExec_cases he with ⟨-,hperform⟩ | ⟨hf,⟨e,rfl⟩,hfail⟩
  · exact heffect s c.now s' r hi hps (fun hh => (hfault hh).2) hperform
  · obtain ⟨hguar,hinv⟩ := failed_keeps hi hop (fun id hid => hack id hid s hps) hfail
    refine ⟨hguar,hinv,hbroken s s' hps hfail,?_⟩
    cases hh : healthy with
    | false => rfl
    | true => exact absurd (hfault hh).1 hf

variable {ws : List Write} {hand : ℕ → Prop} {facts : Store → Prop} {s : Store}

/-- Operations on Redis leave the session alone. -/
theorem At.unchanged {s s' : Store} (h : At me ws hand facts s) (hc : s'.cluster = s.cluster) : Holds me ws s' :=
  ⟨hc ▸ h.own,hc ▸ h.alive⟩

theorem works_xaddDead {l : DeadLetter} (h : At me ws hand facts s) (hf : Lasting facts) :
    Works d healthy me (ingest (.xaddDead l))
      (Yields healthy (Holds me ws) fun _ => At me ws hand fun s => facts s ∧ l ∈ s.redis.deadLetters) s := by
  refine works_effect h (.stable hf) (.stable me ws) (fun _ => .stable (hf.and (lasting_letter l))) (by simp)
    (fun _ _ hs hfail => hs.unchanged (by rcases hfail with rfl | rfl <;> rfl)) (by simp) ?_
  intro s now s' r hi hs hplace he
  cases he
  have hquiet : Quiet me s {s with redis := s.redis.addDead l} :=
    .redis rfl rfl fun _ hl => List.mem_append_left _ hl
  refine ⟨hquiet.guar,hquiet.inv hi hi.pending fun _ hm => .inl hm,?_⟩
  refine ⟨hs.own,hs.alive,hs.hand,hf _ _ hquiet.grows hs.facts,?_⟩
  exact List.mem_append_right _ (List.mem_singleton_self l)

/-- Acknowledging takes the entry out of the worker's hand; the entry has to be recorded. -/
theorem works_xack {id : ℕ} (h : At me ws hand facts s) (hf : Lasting facts)
    (hrec : ∀ s, facts s → ∃ e ∈ s.published, e.id = id ∧ d.Recorded s e) :
    Works d healthy me (ingest (.xack id))
      (Yields healthy (Holds me ws) fun _ => At me ws (fun i => hand i ∧ i ≠ id) facts) s := by
  refine works_effect h (.stable hf) (.stable me ws) (fun _ => .stable hf) (by simp)
    (fun _ _ hs hfail => hs.unchanged (by rcases hfail with rfl | rfl <;> rfl)) ?_ ?_
  · intro id' hid s hs
    cases hid
    exact hrec s hs.facts
  · intro s now s' r hi hs _ he
    cases he
    have hquiet : Quiet me s (s.acknowledge me id) := .acknowledge id
    refine ⟨hquiet.guar,hquiet.inv hi hi.pending fun i hm => ?_,?_⟩
    · rcases List.mem_append.mp hm with hm | hm
      · exact .inl hm
      · obtain ⟨e,he,hid,hr⟩ := hrec s hs.facts
        exact .inr ⟨e,he,hid.trans (List.mem_singleton.mp hm).symm,hr.mono hquiet.grows.keeps hquiet.grows.letters⟩
    · refine ⟨hs.own,hs.alive,fun i hm => ?_,hf _ _ hquiet.grows hs.facts⟩
      have hm' : i ∈ (s.hands me).filter fun i => decide (i ≠ id) := by
        simpa [Store.acknowledge,Store.withHand] using hm
      obtain ⟨hmem,hne⟩ := List.mem_filter.mp hm'
      exact ⟨hs.hand i hmem,by simpa using hne⟩

/-! ### Statements -/

theorem not_healthy {p : Prop} (h : healthy = true → p) (hn : ¬ p) : healthy = false := by
  cases hh : healthy with
  | false => rfl
  | true => exact absurd (h hh) hn

/-- The effect of a push on the stores. -/
theorem push_keeps {s : Store} {w : Write} (hi : Inv d healthy s)
    (hw : ∀ row now, w = .insertLog row now → s.db.refersOk row = true) :
    Quiet me s {s with cluster := s.cluster.push me w} ∧ Inv d healthy {s with cluster := s.cluster.push me w} := by
  have hquiet : Quiet me s {s with cluster := s.cluster.push me w} := .cluster rfl (frame_push w)
  refine ⟨hquiet,hquiet.inv hi ?_ fun _ hm => .inl hm⟩
  intro i row now hm
  rcases List.mem_append.mp hm with hm | hm
  · exact hi.pending i row now hm
  · have heq : (i,Write.insertLog row now) = (me,w) := List.mem_singleton.mp hm
    cases heq
    exact hw row now rfl

theorem abort_keeps {s : Store} (hi : Inv d healthy s) :
    Quiet me s {s with cluster := s.cluster.abort me} ∧ Inv d healthy {s with cluster := s.cluster.abort me} := by
  have hquiet : Quiet me s {s with cluster := s.cluster.abort me} := .cluster rfl frame_abort
  exact ⟨hquiet,hquiet.inv hi (fun i row now hm => hi.pending i row now (mem_writes_forget hm)) fun _ hm => .inl hm⟩

theorem At.pushed {s : Store} {w : Write} (h : At me ws hand facts s) (hf : Lasting facts)
    (hquiet : Quiet me s {s with cluster := s.cluster.push me w}) :
    At me (ws ++ [w]) hand facts {s with cluster := s.cluster.push me w} := by
  refine ⟨?_,h.alive,h.hand,hf _ _ hquiet.grows h.facts⟩
  rw [← h.own]
  exact own_push_self w

theorem works_recordRaw {id : Uuid} {eventType : Text} {payload : Members} (h : At me [] hand facts s)
    (hf : Lasting facts) (ht : eventTypeOf d.rt payload = some eventType)
    (hfit : healthy = true → Postgres.varchar 64 eventType = true ∧ d.pg.admitsJson (.obj payload) = true) :
    Works d healthy me (ingest (.recordRaw id eventType payload)) (Yields healthy Anyhow fun _ s => ∃ raw,
      At me raw hand (fun s => facts s ∧ RawPart d.toIngestionWorker s.db id payload raw) s) s := by
  refine works_effect h (.stable hf) (anyhow_stable me) ?_ (by simp) (fun _ _ _ _ => trivial) (by simp) ?_
  · rintro a s₁ s₂ hr ⟨raw,hat⟩
    exact ⟨raw,At.stable (hf.and (lasting_rawPart _ _ _ _)) s₁ s₂ hr hat⟩
  intro s now s' r hi hs hplace he
  obtain ⟨⟨c,r'⟩,hrec,heq⟩ := Option.map_eq_some_iff.mp he
  cases heq
  rcases recordRaw_cases hs.alive hrec with ⟨hbad,e,hr⟩ | ⟨hhas,hr⟩ | hr
  · cases hr
    obtain ⟨hquiet,hinv⟩ := abort_keeps hi
    refine ⟨hquiet.guar,hinv,trivial,not_healthy hfit ?_⟩
    rintro ⟨hv,hj⟩
    simp [hv,hj] at hbad
  · cases hr
    refine ⟨.refl me s,hi,[],hs.own,hs.alive,hs.hand,hs.facts,.present ?_⟩
    unfold Cluster.view at hhas
    rw [hs.own] at hhas
    exact hhas
  · cases hr
    obtain ⟨hquiet,hinv⟩ := push_keeps (w := .insertRaw id eventType payload now) hi (by simp)
    have hat := hs.pushed hf hquiet
    exact ⟨hquiet.guar,hinv,_,hat.own,hat.alive,hat.hand,hat.facts,.inserted now ht⟩

theorem works_markRaw {id : Uuid} {status : ProcessingStatus} {error : Option Text} (h : At me ws hand facts s)
    (hf : Lasting facts) (hrow : ∀ s, facts s → (s.db.applyWrites ws).eventsRaw.has id = true)
    (hfit : healthy = true → error.all d.pg.admitsText = true) :
    Works d healthy me (ingest (.markRaw id status error)) (Yields healthy Anyhow fun _ s => ∃ now,
      At me (ws ++ [.markRaw id status error now]) hand facts s) s := by
  refine works_effect h (.stable hf) (anyhow_stable me) ?_ (by simp) (fun _ _ _ _ => trivial) (by simp) ?_
  · rintro a s₁ s₂ hr ⟨now,hat⟩
    exact ⟨now,At.stable hf s₁ s₂ hr hat⟩
  intro s now s' r hi hs hplace he
  obtain ⟨⟨c,r'⟩,hrec,heq⟩ := Option.map_eq_some_iff.mp he
  cases heq
  have hview : (s.cluster.view me).eventsRaw.has id = true := by
    unfold Cluster.view
    rw [hs.own]
    exact hrow s hs.facts
  rcases markRaw_cases hs.alive hview hrec with ⟨hbad,e,hr⟩ | hr
  · cases hr
    obtain ⟨hquiet,hinv⟩ := abort_keeps hi
    exact ⟨hquiet.guar,hinv,trivial,not_healthy hfit (by simp [hbad])⟩
  · cases hr
    obtain ⟨hquiet,hinv⟩ := push_keeps (w := .markRaw id status error now) hi (by simp)
    exact ⟨hquiet.guar,hinv,now,hs.pushed hf hquiet⟩

theorem works_upsertLog {row : EventFields} (h : At me ws hand facts s) (hf : Lasting facts)
    (hlogs : ∀ s, facts s → (s.db.applyWrites ws).inferenceLogs = s.db.inferenceLogs)
    (hfit : healthy = true → d.pg.admitsLog row = true) :
    Works d healthy me (ingest (.upsertLog row)) (Yields healthy Anyhow fun _ s => ∃ log,
      At me (ws ++ log) hand (fun s => facts s ∧ LogPart s.db row log) s) s := by
  refine works_effect h (.stable hf) (anyhow_stable me) ?_ (by simp) (fun _ _ _ _ => trivial) (by simp) ?_
  · rintro a s₁ s₂ hr ⟨log,hat⟩
    exact ⟨log,At.stable (hf.and (lasting_logPart _ _)) s₁ s₂ hr hat⟩
  intro s now s' r hi hs hplace he
  obtain ⟨⟨c,r'⟩,hrec,heq⟩ := Option.map_eq_some_iff.mp he
  cases heq
  have hview : (s.cluster.view me).inferenceLogs = s.db.inferenceLogs := by
    unfold Cluster.view
    rw [hs.own]
    exact hlogs s hs.facts
  rcases upsertLog_cases hs.alive hrec with ⟨hbad,e,hr⟩ | ⟨hhas,hr⟩ | ⟨-,hok,hr⟩ | ⟨hnot,hdangling,e,hr⟩
  · cases hr
    obtain ⟨hquiet,hinv⟩ := abort_keeps hi
    exact ⟨hquiet.guar,hinv,trivial,not_healthy hfit (by simp [hbad])⟩
  · cases hr
    refine ⟨.refl me s,hi,[],?_,hs.alive,hs.hand,hs.facts,.present (hview ▸ hhas)⟩
    rw [List.append_nil]
    exact hs.own
  · cases hr
    obtain ⟨hquiet,hinv⟩ := push_keeps (w := .insertLog row now) hi (by
      intro row' now' heq
      cases heq
      exact hok)
    have hat := hs.pushed hf hquiet
    exact ⟨hquiet.guar,hinv,_,hat.own,hat.alive,hat.hand,hat.facts,.inserted now⟩
  · cases hr
    obtain ⟨hquiet,hinv⟩ := abort_keeps hi
    refine ⟨hquiet.guar,hinv,trivial,not_healthy (fun hh => hplace hh row rfl) ?_⟩
    rw [hview] at hnot
    simp [hnot,hdangling]

/-! ### The end of a session -/

/-- The rows the entry needs are committed. -/
structure Rows (w : IngestionWorker) (e : Entry) (s : Store) : Prop where
  usable : w.disposition e ≠ .fatal
  accepted : ∀ id payload event, w.disposition e = .accepted id payload event →
    s.db.eventsRaw.has id = true ∧ s.db.inferenceLogs.has event.fields.id = true
  rejected : ∀ id payload errors, w.disposition e = .rejected id payload errors → s.db.eventsRaw.has id = true

theorem lasting_rows (w : IngestionWorker) (e : Entry) : Lasting (Rows w e) := by
  intro s s' h hs
  refine ⟨hs.usable,fun id payload event hd => ?_,fun id payload errors hd => h.keeps.raw _ (hs.rejected id payload errors hd)⟩
  obtain ⟨hr,hl⟩ := hs.accepted id payload event hd
  exact ⟨h.keeps.raw _ hr,h.keeps.logs _ hl⟩

theorem works_commit {e : Entry} (h : At me ws hand (fun s => facts s ∧ Script d.toIngestionWorker s.db e ws) s)
    (hf : Lasting facts) (hpub : ∀ s, facts s → e ∈ s.published) :
    Works d healthy me (ingest .commit)
      (Yields healthy Anyhow fun _ => At me [] hand fun s => facts s ∧ Rows d.toIngestionWorker e s) s := by
  have hfacts := hf.and (lasting_script d.toIngestionWorker e ws)
  refine works_op h (.stable hfacts) (Yields.stable (anyhow_stable me) fun _ => .stable (hf.and (lasting_rows _ e))) ?_
  intro s c s' r hi hs he hfault
  have hscript : Script d.toIngestionWorker s.db e (s.cluster.own me) := by
    rw [hs.own]
    exact hs.facts.2
  obtain ⟨hgrows,hguar,hinv⟩ := commit_script hi (hpub s hs.facts.1) hscript
  rcases ingestExec_cases he with ⟨-,hperform⟩ | ⟨hf',⟨e',rfl⟩,hfail⟩
  · cases hperform
    refine ⟨hguar,hinv,own_forget_self,?_,hs.hand,hf _ _ hgrows hs.facts.1,?_⟩
    · intro ha
      exact (mem_aborted_forget.mp ha).2 rfl
    · exact ⟨hscript.usable,hscript.rows.1,hscript.rows.2⟩
  · have hbad : healthy = false := not_healthy (fun hh => (hfault hh).1) hf'
    rcases hfail with rfl | rfl
    · obtain ⟨hquiet,hinv'⟩ := abort_keeps hi
      exact ⟨hquiet.guar,hinv',trivial,hbad⟩
    · exact ⟨hguar,hinv,trivial,hbad⟩

/-- A rollback or a close drops what the session has pending, whether it succeeds or not. -/
theorem ends_session {op : IngestOp} (hop : op = .rollback ∨ op = .close) {s s' : Store} {c : Choice}
    {r : Except Exc (ingestSignature.Answer op)} (hi : Inv d healthy s)
    (he : ingestExec d.pg me s op c = some (s',r)) :
    s' = {s with cluster := s.cluster.forget me} ∧ Guar me s s' ∧ Inv d healthy s' ∧
      Holds me [] s' := by
  have hquiet : Quiet me s {s with cluster := s.cluster.forget me} := .cluster rfl frame_forget
  have hs' : s' = {s with cluster := s.cluster.forget me} := by
    rcases ingestExec_cases he with ⟨-,hperform⟩ | ⟨-,-,hfail⟩
    · rcases hop with rfl | rfl <;> (cases hperform; rfl)
    · rcases hop with rfl | rfl <;> rcases hfail with rfl | rfl <;> rfl
  subst hs'
  refine ⟨rfl,hquiet.guar,hquiet.inv hi (fun i row now hm => hi.pending i row now (mem_writes_forget hm))
    fun _ hm => .inl hm,own_forget_self,?_⟩
  intro ha
  exact (mem_aborted_forget.mp ha).2 rfl

theorem works_close (h : At me [] hand facts s) (hf : Lasting facts) :
    Works d healthy me (ingest .close) (Yields healthy (Holds me []) fun _ => At me [] hand facts) s := by
  refine works_op h (.stable hf) (Yields.stable (.stable me []) fun _ => .stable hf) ?_
  intro s c s' r hi hs he hfault
  obtain ⟨rfl,hguar,hinv,hholds⟩ := ends_session (.inr rfl) hi he
  refine ⟨hguar,hinv,?_⟩
  rcases ingestExec_cases he with ⟨-,hperform⟩ | ⟨hf',⟨e,rfl⟩,-⟩
  · cases hperform
    have hgrows : Grows s {s with cluster := s.cluster.forget me} := ⟨fun _ h => h,.refl _,fun _ h => h⟩
    exact ⟨hholds.own,hholds.alive,hs.hand,hf _ _ hgrows hs.facts⟩
  · exact ⟨hholds,not_healthy (fun hh => (hfault hh).1) hf'⟩

/-- Once the stores have failed, ending the session still empties it. -/
theorem works_drop {op : IngestOp} (hop : op = .rollback ∨ op = .close) (h : healthy = false) :
    Works d healthy me (ingest op) (fun _ s => Holds me [] s ∧ healthy = false) s := by
  refine works_op (p := Anyhow) trivial (anyhow_stable me) (fun _ s s' hr hs => ⟨Holds.stable me [] s s' hr hs.1,hs.2⟩) ?_
  intro s c s' r hi _ he _
  obtain ⟨-,hguar,hinv,hholds⟩ := ends_session hop hi he
  exact ⟨hguar,hinv,hholds,h⟩

/-- The unit of work: the entry's rows are committed, or the stores have failed and the session
holds nothing. -/
theorem works_session {α : Type} {body : IngestTask α} {e : Entry} (hf : Lasting facts)
    (hpub : ∀ s, facts s → e ∈ s.published) (hi : Inv d healthy s)
    (hbody : Works d healthy me body (Yields healthy Anyhow fun _ s => ∃ ws,
      At me ws hand (fun s => facts s ∧ Script d.toIngestionWorker s.db e ws) s) s) :
    Works d healthy me (ingestSessionOps.session body) (Yields healthy (Holds me []) fun _ =>
      At me [] hand fun s => facts s ∧ Rows d.toIngestionWorker e s) s := by
  have hfacts := hf.and (lasting_rows d.toIngestionWorker e)
  have hcommitted : Works d healthy me (body >>= fun a => ingest .commit >>= fun _ => pure a)
      (Yields healthy Anyhow fun _ => At me [] hand fun s => facts s ∧ Rows d.toIngestionWorker e s) s := by
    refine works_bind (anyhow_stable me) hi hbody ?_
    rintro a s hi ⟨ws,hat⟩
    refine works_bind (anyhow_stable me) hi (works_commit hat hf hpub) ?_
    intro _ s hi hat
    exact works_return (.stable hfacts) hat
  have htransact : Works d healthy me (ingestSessionOps.transact body)
      (Yields healthy Anyhow fun _ => At me [] hand fun s => facts s ∧ Rows d.toIngestionWorker e s) s := by
    refine Sat.resume (hcommitted.mono ?_) hi
    intro r s hi hr
    cases r with
    | ok a => exact works_return (.stable hfacts) hr
    | error x =>
      change Works d healthy me (if x.isException = true then (ingest .rollback >>= fun _ => throw x) else throw x) _ s
      split
      · refine Sat.bind ((works_drop (.inl rfl) hr.2).mono ?_) hi
        intro q s hi hq
        cases q with
        | ok u => exact works_fail (anyhow_stable me) trivial hq.2
        | error y => exact works_fail (anyhow_stable me) trivial hq.2
      · exact works_fail (anyhow_stable me) trivial hr.2
  refine Sat.resume (htransact.mono ?_) hi
  intro r s hi hr
  cases r with
  | ok a =>
    refine works_bind (.stable me []) hi (works_close hr hfacts) ?_
    intro _ s hi hat
    exact works_return (.stable hfacts) hat
  | error x =>
    refine Sat.bind ((works_drop (.inr rfl) hr.2).mono ?_) hi
    intro q s hi hq
    cases q with
    | ok u => exact works_fail (.stable me []) hq.1 hq.2
    | error y => exact works_fail (.stable me []) hq.1 hq.2

end
end InferenceLogger
