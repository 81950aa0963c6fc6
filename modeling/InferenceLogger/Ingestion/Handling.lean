import InferenceLogger.Ingestion.Rules

/-! # A batch keeps the contract

From the operations to the programs: the group, the poll, one entry, the batch. Whatever is
acknowledged is recorded by then, and in healthy runs the batch goes through.
-/
namespace InferenceLogger
open PyText PyJson AsyncTask KeyedTable RelyGuarantee Cluster

/-- What `poll` hands to the handler: the payload of a published entry. -/
def Deployment.Delivered (d : Deployment) (item : DeliveredEvent) (s : Store) : Prop :=
  ∃ e ∈ s.published, e.id = item.deliveryId ∧ RedisEventStream.decode d.rt e.fields = .ok (some item.payload)

theorem lasting_delivered (d : Deployment) (item : DeliveredEvent) : Lasting (d.Delivered item) := by
  rintro s s' h ⟨e,he,hid,hd⟩
  exact ⟨e,h.published e he,hid,hd⟩

theorem lasting_deadLettered (w : IngestionWorker) (e : Entry) (payload : Json) :
    Lasting fun s => w.DeadLettered s e payload := fun _ _ h hs => hs.mono h.letters

theorem lasting_all {α : Type} {f : α → Store → Prop} (h : ∀ a, Lasting (f a)) : Lasting fun s => ∀ a, f a s :=
  fun s s' hg hs a => h a s s' hg (hs a)

theorem lasting_imp {p : Prop} {f : Store → Prop} (h : Lasting f) : Lasting fun s => p → f s :=
  fun s s' hg hs hp => h s s' hg (hs hp)

/-- A reply the caller may tell from a failure: in healthy runs an error carries this word. -/
def Replies {α : Type} (healthy : Bool) (word : String) (failed : Store → Prop) (p : α → Store → Prop) :
    Except Exc α → Store → Prop
  | .ok a, s => p a s
  | .error e, s => failed s ∧ (healthy = true → respondsWith word e = true)

section
variable {d : Deployment} {healthy : Bool} {me : ℕ} {hand : ℕ → Prop} {facts : Store → Prop} {s : Store}

theorem Replies.stable {α : Type} {word : String} {failed : Store → Prop} {p : α → Store → Prop}
    (hf : Stable me failed) (hp : ∀ a, Stable me (p a)) (r : Except Exc α) :
    Stable me (Replies healthy word failed p r) := by
  cases r with
  | ok a => exact hp a
  | error e => exact fun s s' hr hs => ⟨hf s s' hr hs.1,hs.2⟩

/-! ## The group -/

theorem createGroup_replies (r : Redis) :
    (∃ u, r.createGroup.2 = .ok u) ∨ ∃ e, r.createGroup.2 = .error e ∧ respondsWith "BUSYGROUP" e = true := by
  unfold Redis.createGroup
  cases r.group with
  | none => exact .inl ⟨(),rfl⟩
  | some g => exact .inr ⟨_,rfl,by decide⟩

theorem works_xgroupCreate (h : At me [] hand facts s) (hf : Lasting facts) :
    Works d healthy me (ingest .xgroupCreate)
      (Replies healthy "BUSYGROUP" (At me [] hand facts) fun _ => At me [] hand facts) s := by
  refine works_op h (.stable hf) (Replies.stable (.stable hf) fun _ => .stable hf) ?_
  intro s c s' r hi hs he hsmooth
  obtain ⟨hentries,hlast,hletters⟩ := s.redis.createGroup_entries
  have hquiet : Quiet me s {s with redis := s.redis.createGroup.1} := .redis hentries hlast (by simp [hletters])
  rcases ingestExec_cases he with ⟨-,hperform⟩ | ⟨hfault,⟨e,rfl⟩,hfail⟩
  · cases hperform
    have hat : At me [] hand facts {s with redis := s.redis.createGroup.1} :=
      ⟨hs.own,hs.alive,hs.hand,hf _ _ hquiet.grows hs.facts⟩
    refine ⟨hquiet.guar,hquiet.inv hi hi.pending fun _ hm => .inl hm,?_⟩
    rcases createGroup_replies s.redis with ⟨u,hu⟩ | ⟨e,he,hbusy⟩
    · rw [hu]
      exact hat
    · rw [he]
      exact ⟨hat,fun _ => hbusy⟩
  · obtain ⟨hguar,hinv⟩ := failed_keeps hi (by simp) (by simp) hfail
    refine ⟨hguar,hinv,?_,fun hh => absurd (hsmooth hh).1 hfault⟩
    rcases hfail with rfl | rfl
    · exact hs
    · exact ⟨hs.own,hs.alive,hs.hand,hf _ _ hquiet.grows hs.facts⟩

theorem works_ensureGroup (h : At me [] hand facts s) (hf : Lasting facts) (hi : Inv d healthy s) :
    Works d healthy me RedisEventStream.ensureGroup
      (Yields healthy (Holds me []) fun _ => At me [] hand facts) s := by
  refine Sat.resume ((works_xgroupCreate h hf).mono ?_) hi
  intro r s hi hr
  cases r with
  | ok u => exact works_return (.stable hf) hr
  | error e =>
    change Works d healthy me (if respondsWith "BUSYGROUP" e = true then .done () else .raise e) _ s
    split
    · exact works_return (.stable hf) hr.1
    · rename_i hbusy
      exact works_fail (.stable me []) ⟨hr.1.own,hr.1.alive⟩ (not_healthy hr.2 hbusy)

/-! ## Dead letters and acknowledgements -/

theorem works_deadLetter {ws : List Write} {e : Entry} {payload : Json} (reason : String)
    (h : At me ws hand facts s) (hf : Lasting facts)
    (hfit : healthy = true → (d.rt.dumps payload).isSome = true) :
    Works d healthy me (RedisEventStream.deadLetter d.rt e.id payload reason)
      (Yields healthy (Holds me ws) fun _ => At me ws hand fun s => facts s ∧ d.DeadLettered s e payload) s := by
  unfold RedisEventStream.deadLetter
  cases hd : d.rt.dumps payload with
  | none => exact works_fail (.stable me ws) ⟨h.own,h.alive⟩ (not_healthy hfit (by simp [hd]))
  | some data =>
    refine works_weaken (works_xaddDead h hf) (fun _ hb => hb) ?_
    intro _ s _ hat
    exact ⟨hat.own,hat.alive,hat.hand,hat.facts.1,_,hat.facts.2,rfl,hd⟩

/-- Acknowledging the entry that has been recorded. -/
theorem works_ack {e : Entry} (h : At me [] hand facts s) (hf : Lasting facts)
    (hrec : ∀ s, facts s → e ∈ s.published ∧ d.Recorded s e) :
    Works d healthy me (RedisEventStream.ack e.id)
      (Yields healthy (Holds me []) fun _ => At me [] (fun id => hand id ∧ id ≠ e.id) facts) s := by
  refine works_xack h hf ?_
  intro s hs
  obtain ⟨he,hr⟩ := hrec s hs
  exact ⟨e,he,rfl,hr⟩

/-! ## The poll -/

theorem fatal_unfit {e : Entry} (hi : Inv d healthy s) (he : e ∈ s.published) (hd : d.disposition e = .fatal) :
    healthy = false := by
  refine not_healthy (fun hh => hi.fits hh e he) ?_
  unfold Deployment.Fits
  rw [hd]
  exact id

/-- A loop over a list, given as what holds when these items are left. -/
theorem works_foldlM {β γ : Type} {f : β → γ → IngestTask β} {broken : Store → Prop}
    (loop : List γ → β → Store → Prop) (items : List γ) {b : β} (hi : Inv d healthy s) (h : loop items b s)
    (hb : Stable me broken) (hend : ∀ b, Stable me (loop [] b))
    (hstep : ∀ x rest b s, Inv d healthy s → loop (x :: rest) b s →
      Works d healthy me (f b x) (Yields healthy broken fun b => loop rest b) s) :
    Works d healthy me (items.foldlM f b) (Yields healthy broken fun b => loop [] b) s := by
  refine Sat.foldlM loop items hi h ?_ ?_
  · intro x rest b s hi h
    refine (hstep x rest b s hi h).mono ?_
    intro r s hi hr
    cases r with
    | ok b => exact hr
    | error e => exact works_fail hb hr.1 hr.2
  · intro b s hi h
    exact works_return (hend b) h

/-- Part of a batch: entries still to decode, items decoded. -/
def receiving (d : Deployment) (me : ℕ) (rest : List Entry) (delivered : List DeliveredEvent) : Store → Prop :=
  At me [] (fun id => id ∈ rest.map Entry.id ∨ id ∈ delivered.map DeliveredEvent.deliveryId) fun s =>
    (∀ e, e ∈ rest → e ∈ s.published) ∧ ∀ item, item ∈ delivered → d.Delivered item s

theorem lasting_receiving (d : Deployment) (rest : List Entry) (delivered : List DeliveredEvent) :
    Lasting fun s => (∀ e, e ∈ rest → e ∈ s.published) ∧ ∀ item, item ∈ delivered → d.Delivered item s :=
  (lasting_all fun e => lasting_imp (lasting_published e)).and
    (lasting_all fun item => lasting_imp (lasting_delivered d item))

theorem works_receive {e : Entry} {rest : List Entry} {delivered : List DeliveredEvent}
    (hi : Inv d healthy s) (h : receiving d me (e :: rest) delivered s) :
    Works d healthy me (RedisEventStream.receive d.rt delivered e)
      (Yields healthy (Holds me []) fun delivered => receiving d me rest delivered) s := by
  have he : e ∈ s.published := h.facts.1 e List.mem_cons_self
  unfold RedisEventStream.receive
  cases hd : RedisEventStream.decode d.rt e.fields with
  | error x =>
    have hdisp : d.disposition e = .fatal := by rw [IngestionWorker.disposition, hd]
    exact works_fail (.stable me []) ⟨h.own,h.alive⟩ (fatal_unfit hi he hdisp)
  | ok payload =>
    cases payload with
    | some payload =>
      refine works_return (.stable (lasting_receiving d rest _)) ⟨h.own,h.alive,?_,?_,?_⟩
      · intro id hid
        rcases h.hand id hid with hm | hm
        · rcases List.mem_cons.mp hm with rfl | hm
          · exact .inr (by simp)
          · exact .inl hm
        · refine .inr ?_
          rw [List.map_append]
          exact List.mem_append_left _ hm
      · exact fun e' he' => h.facts.1 e' (List.mem_cons_of_mem _ he')
      · intro item hitem
        rcases List.mem_append.mp hitem with hitem | hitem
        · exact h.facts.2 item hitem
        · rw [List.mem_singleton.mp hitem]
          exact ⟨e,he,rfl,hd⟩
    | none =>
      have hf := lasting_receiving d (e :: rest) delivered
      have hletter := works_deadLetter (e := e) "malformed_json" h hf
        fun _ : healthy = true => d.rt.dumps_flat (text "raw") (d.rt.fieldsRepr e.fields)
      refine works_bind (.stable me []) hi hletter ?_
      intro _ s hi hat
      have hack : Works d healthy me (RedisEventStream.ack e.id) _ s := works_ack hat (hf.and (lasting_deadLettered _ _ _)) ?_
      · refine works_bind (.stable me []) hi hack ?_
        intro _ s hi hat
        refine works_return (.stable (lasting_receiving d rest _)) ⟨hat.own,hat.alive,?_,?_,hat.facts.1.2⟩
        · intro id hid
          obtain ⟨hm | hm,hne⟩ := hat.hand id hid
          · exact .inl ((List.mem_cons.mp hm).resolve_left hne)
          · exact .inr hm
        · exact fun e' he' => hat.facts.1.1 e' (List.mem_cons_of_mem _ he')
      · intro s hs
        refine ⟨hs.1.1 e List.mem_cons_self,?_⟩
        have hdisp : d.disposition e = .malformed := by rw [IngestionWorker.disposition, hd]
        unfold IngestionWorker.Recorded
        rw [hdisp]
        exact hs.2

theorem readGroup_replies (r : Redis) (n : ℕ) :
    (∃ batch, (r.readGroup n).2 = .ok batch ∧ ∀ e ∈ batch, e ∈ r.entries) ∨
      ∃ e, (r.readGroup n).2 = .error e ∧ respondsWith "NOGROUP" e = true := by
  unfold Redis.readGroup
  cases r.group with
  | none => exact .inr ⟨_,rfl,by decide⟩
  | some g => exact .inl ⟨_,rfl,fun e he => List.mem_of_mem_filter (List.mem_of_mem_take he)⟩

theorem perform_xreadgroup {pg : Postgres} {me n : ℕ} {now : ℤ} {s : Store} :
    s.perform pg me now (.xreadgroup n) = some (match (s.redis.readGroup n).2 with
      | .ok entries => (({s with redis := (s.redis.readGroup n).1} : Store).withHand me (entries.map Entry.id),.ok entries)
      | .error e => ({s with redis := (s.redis.readGroup n).1},.error e)) := by
  cases h : s.redis.readGroup n with
  | mk r reply =>
    cases reply <;> simp [Store.perform,h]

/-- Holding nothing. -/
def Idle (me : ℕ) : Store → Prop := At me [] (fun _ => False) fun _ => True

theorem lasting_true : Lasting fun _ => True := fun _ _ _ _ => trivial

theorem Idle.hands {s : Store} (h : Idle me s) : s.hands me = [] :=
  List.eq_nil_iff_forall_not_mem.mpr h.hand

theorem works_xreadgroup {n : ℕ} (h : Idle me s) :
    Works d healthy me (ingest (.xreadgroup n))
      (Replies healthy "NOGROUP" (Idle me) fun entries => receiving d me entries []) s := by
  refine works_op h (.stable lasting_true)
    (Replies.stable (.stable lasting_true) fun entries => .stable (lasting_receiving d entries [])) ?_
  intro s c s' r hi hs he hsmooth
  obtain ⟨hentries,hlast,hletters⟩ := s.redis.readGroup_entries n
  have hquiet : Quiet me s {s with redis := (s.redis.readGroup n).1} := .redis hentries hlast (by simp [hletters])
  rcases ingestExec_cases he with ⟨-,hperform⟩ | ⟨hfault,⟨e,rfl⟩,hfail⟩
  · rcases readGroup_replies s.redis n with ⟨batch,hbatch,hmem⟩ | ⟨e,hreply,hnogroup⟩
    · rw [perform_xreadgroup, hbatch] at hperform
      cases hperform
      have hquiet' := hquiet.withHand (batch.map Entry.id) hs.hands
      refine ⟨hquiet'.guar,hquiet'.inv hi hi.pending fun _ hm => .inl hm,hs.own,hs.alive,?_,?_,?_⟩
      · intro id hid
        exact .inl (by simpa [Store.withHand] using hid)
      · exact fun e he => hi.entry_mem (hmem e he)
      · exact fun _ hitem => absurd hitem (List.not_mem_nil)
    · rw [perform_xreadgroup, hreply] at hperform
      cases hperform
      exact ⟨hquiet.guar,hquiet.inv hi hi.pending fun _ hm => .inl hm,
        ⟨hs.own,hs.alive,hs.hand,trivial⟩,fun _ => hnogroup⟩
  · obtain ⟨hguar,hinv⟩ := failed_keeps hi (by simp) (by simp) hfail
    refine ⟨hguar,hinv,?_,fun hh => absurd (hsmooth hh).1 hfault⟩
    rcases hfail with rfl | rfl
    · exact hs
    · exact ⟨hs.own,hs.alive,hs.hand,trivial⟩

theorem works_poll {n : ℕ} (h : Idle me s) (hi : Inv d healthy s) :
    Works d healthy me (RedisEventStream.poll d.rt n)
      (Yields healthy (Holds me []) fun delivered => receiving d me [] delivered) s := by
  refine Sat.resume ((works_xreadgroup h).mono ?_) hi
  intro r s hi hr
  cases r with
  | ok entries =>
    exact works_foldlM (receiving d me) entries hi hr (.stable me [])
      (fun delivered => .stable (lasting_receiving d [] delivered)) fun e rest delivered s => works_receive
  | error e =>
    change Works d healthy me (if respondsWith "NOGROUP" e = true then
      RedisEventStream.ensureGroup >>= fun _ => pure [] else throw e) _ s
    split
    · refine works_bind (.stable me []) hi (works_ensureGroup hr.1 lasting_true hi) ?_
      intro _ s hi hat
      refine works_return (.stable (lasting_receiving d [] [])) ⟨hat.own,hat.alive,?_,?_,?_⟩
      · exact fun id hid => (hat.hand id hid).elim
      · exact fun _ he => absurd he List.not_mem_nil
      · exact fun _ hitem => absurd hitem List.not_mem_nil
    · rename_i hnogroup
      exact works_fail (.stable me []) ⟨hr.1.own,hr.1.alive⟩ (not_healthy hr.2 hnogroup)

end

/-- An operation that goes through without a fault waits only for a row another transaction
holds. -/
theorem statement_waits {α : Type} {c : Cluster} {me : ℕ} {admits : Bool} {held : Write → Bool}
    {run : Option (Cluster × Except Exc α)} (h : c.statement me admits held run = none) (hrun : run ≠ none) :
    ∃ w ∈ c.writes, w.1 ≠ me := by
  unfold Cluster.statement at h
  split at h
  · cases h
  · split at h
    · cases h
    · split at h
      · rename_i hheld
        obtain ⟨w,hw,hother⟩ := List.any_eq_true.mp hheld
        rw [Bool.and_eq_true, decide_eq_true_eq] at hother
        exact ⟨w,hw,hother.1⟩
      · exact absurd h hrun

theorem perform_waits {pg : Postgres} {me : ℕ} {now : ℤ} {s : Store} {op : IngestOp}
    (h : s.perform pg me now op = none) : ∃ w ∈ s.cluster.writes, w.1 ≠ me := by
  cases op with
  | xreadgroup n =>
    rw [perform_xreadgroup] at h
    cases h
  | recordRaw id eventType payload =>
    refine statement_waits (Option.map_eq_none_iff.mp h) ?_
    split <;> simp
  | markRaw id status error =>
    refine statement_waits (Option.map_eq_none_iff.mp h) ?_
    split <;> simp
  | upsertLog row =>
    refine statement_waits (Option.map_eq_none_iff.mp h) ?_
    split
    · simp
    · split <;> simp
  | _ => cases h

end InferenceLogger
