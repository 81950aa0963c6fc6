import InferenceLogger.Ingestion.Handling

/-! # One entry, and the batch

The transaction of an entry writes its script, the session commits it, and only then is the
entry acknowledged. A batch that ends holds nothing.
-/
namespace InferenceLogger
open PyText PyJson AsyncTask KeyedTable RelyGuarantee Cluster

namespace IngestionWorker

/-- An entry that fails validation is dead-lettered. -/
def Quarantined (w : IngestionWorker) (e : Entry) (s : Store) : Prop :=
  ∀ id payload errors, w.disposition e = .rejected id payload errors → w.DeadLettered s e (.obj payload)

theorem lasting_quarantined (w : IngestionWorker) (e : Entry) : Lasting (w.Quarantined e) :=
  fun _ _ h hs id payload errors hd => (hs id payload errors hd).mono h.letters

end IngestionWorker

section
variable {d : Deployment} {healthy : Bool} {me : ℕ} {hand : ℕ → Prop} {facts : Store → Prop} {s : Store}
variable {e : Entry} {payload : Members} {id : Uuid}

/-- What a handler's transaction has written by its end. -/
def written (d : Deployment) (me : ℕ) (hand : ℕ → Prop) (facts : Store → Prop) (e : Entry) (s : Store) : Prop :=
  ∃ ws, At me ws hand (fun s => (facts s ∧ d.Quarantined e s) ∧ Script d.toIngestionWorker s.db e ws) s

theorem stable_written (hf : Lasting facts) : Stable me (written d me hand facts e) := by
  rintro s s' hr ⟨ws,hat⟩
  exact ⟨ws,At.stable ((hf.and (d.lasting_quarantined e)).and (lasting_script _ e ws)) s s' hr hat⟩

/-- A payload that fails validation: the raw row is marked, and the dead letter is added before
the commit. -/
theorem works_rejected {errors : List FieldError} {raw : List Write} {reason : String} {β : Type} {b : β}
    (hi : Inv d healthy s) (hf : Lasting facts) (hpub : ∀ s, facts s → e ∈ s.published)
    (hd : d.disposition e = .rejected id payload errors)
    (h : At me raw hand (fun s => facts s ∧ RawPart d.toIngestionWorker s.db id payload raw) s) :
    Works d healthy me (match d.py.errorJson payload errors with
      | none => throw (pythonError "PydanticSerializationError")
      | some error => do
        ingest (.markRaw id .failed (some (error.take 4000)))
        RedisEventStream.deadLetter d.rt e.id (.obj payload) reason
        return b) (Yields healthy Anyhow fun _ => written d me hand facts e) s := by
  have hfits : healthy = true → (d.rt.dumps (.obj payload)).isSome = true ∧
      ∃ error, d.py.errorJson payload errors = some error ∧ d.pg.admitsText (error.take 4000) = true := by
    intro hh
    have hfit := hi.fits hh e (hpub s h.facts.1)
    unfold Deployment.Fits at hfit
    rw [hd] at hfit
    exact hfit.2
  have hraw := hf.and (lasting_rawPart d.toIngestionWorker id payload raw)
  cases herror : d.py.errorJson payload errors with
  | none => exact works_fail (anyhow_stable me) trivial (not_healthy hfits (by simp [herror]))
  | some error =>
    have hmark : Works d healthy me (ingest (.markRaw id .failed (some (error.take 4000)))) _ s :=
      works_markRaw h hraw (fun s hs => hs.2.apply.1) ?_
    · refine works_bind (anyhow_stable me) hi hmark ?_
      rintro _ s hi ⟨now,hat⟩
      refine works_bind (anyhow_stable me) hi (works_weaken (works_deadLetter _ hat hraw fun hh => (hfits hh).1)
        (fun _ _ => trivial) fun _ _ _ hat => hat) ?_
      intro _ s hi hat
      refine works_return (stable_written hf) ⟨_,hat.own,hat.alive,hat.hand,⟨hat.facts.1.1,?_⟩,
        .rejected now hd hat.facts.1.2 herror⟩
      intro id' payload' errors' hd'
      cases hd.symm.trans hd'
      exact hat.facts.2
    · intro hh
      obtain ⟨-,error',he',hadmits⟩ := hfits hh
      cases herror.symm.trans he'
      exact hadmits

/-- A payload that validates: the log row is written unless it is there, and the raw row marked. -/
theorem works_accepted {event : InferenceEvent} {raw : List Write} {β : Type} {b : Bool → β}
    (hi : Inv d healthy s) (hf : Lasting facts) (hpub : ∀ s, facts s → e ∈ s.published)
    (hd : d.disposition e = .accepted id payload event)
    (h : At me raw hand (fun s => facts s ∧ RawPart d.toIngestionWorker s.db id payload raw) s) :
    Works d healthy me (do
      let inserted ← ingest (.upsertLog event.toRow)
      ingest (.markRaw id .processed none)
      return b inserted) (Yields healthy Anyhow fun _ => written d me hand facts e) s := by
  have hadmits : healthy = true → d.pg.admitsLog event.fields = true := by
    intro hh
    have hfit := hi.fits hh e (hpub s h.facts.1)
    unfold Deployment.Fits at hfit
    rw [hd] at hfit
    exact hfit.2
  have hraw := hf.and (lasting_rawPart d.toIngestionWorker id payload raw)
  refine works_bind (anyhow_stable me) hi (works_upsertLog h hraw (fun s hs => hs.2.apply.2.1) hadmits) ?_
  rintro inserted s hi ⟨log,hat⟩
  have hrows := hraw.and (lasting_logPart event.fields log)
  refine works_bind (anyhow_stable me) hi (works_markRaw hat hrows ?_ fun _ => rfl) ?_
  · intro s hs
    rw [Db.applyWrites_append]
    exact (Db.keeps_applyWrites log _).raw id hs.1.2.apply.1
  · rintro _ s hi ⟨now,hat⟩
    refine works_return (stable_written hf) ⟨_,hat.own,hat.alive,hat.hand,⟨hat.facts.1.1,?_⟩,
      .accepted now hd hat.facts.1.2 hat.facts.2⟩
    intro id' payload' errors' hd'
    cases hd.symm.trans hd'

theorem works_record {item : DeliveredEvent} {outcome : BatchOutcome} (hi : Inv d healthy s) (hf : Lasting facts)
    (hpub : ∀ s, facts s → e ∈ s.published) (hitem : e.id = item.deliveryId)
    (hdec : RedisEventStream.decode d.rt e.fields = .ok (some (.obj payload))) (hid : extractId payload = some id)
    (h : At me [] hand facts s) :
    Works d healthy me (d.record item payload id outcome)
      (Yields healthy Anyhow fun _ => written d me hand facts e) s := by
  have hdisp := (d.disposition_obj hdec).trans (d.dispositionOf_id hid)
  have hland : healthy = true → d.Landable payload := by
    intro hh
    have hfit := hi.fits hh e (hpub s h.facts)
    unfold Deployment.Fits at hfit
    rw [hdisp] at hfit
    unfold IngestionWorker.validated at hfit
    cases hv : InferenceEvent.modelValidate d.py payload with
    | ok event =>
      rw [hv] at hfit
      exact hfit.1
    | error err =>
      rw [hv] at hfit
      cases err with
      | validation errors => exact hfit.1
      | typeError => exact hfit.elim
  unfold IngestionWorker.validated at hdisp
  unfold IngestionWorker.record
  cases ht : eventTypeOf d.rt payload with
  | none =>
    refine works_fail (anyhow_stable me) trivial (not_healthy hland ?_)
    rintro ⟨eventType,htype,-⟩
    cases ht.symm.trans htype
  | some eventType =>
    have hfit : healthy = true → Postgres.varchar 64 eventType = true ∧ d.pg.admitsJson (.obj payload) = true := by
      intro hh
      obtain ⟨eventType',htype,hvarchar,hjson⟩ := hland hh
      cases ht.symm.trans htype
      exact ⟨hvarchar,hjson⟩
    refine works_bind (anyhow_stable me) hi (works_recordRaw h hf ht hfit) ?_
    intro _ s hi hlanded
    cases hv : InferenceEvent.modelValidate d.py payload with
    | ok event =>
      rw [hv] at hdisp
      refine hlanded.elim fun raw hat => ?_
      dsimp only
      exact works_accepted hi hf hpub hdisp hat
    | error err =>
      rw [hv] at hdisp
      cases err with
      | validation errors =>
        rw [← hitem]
        exact hlanded.elim fun raw hat => works_rejected hi hf hpub hdisp hat
      | typeError =>
        exact hlanded.elim fun raw hat =>
          works_fail (anyhow_stable me) trivial (fatal_unfit hi (hpub s hat.facts.1) hdisp)

/-! ## The handler -/

/-- What is left of a batch. -/
def handling (d : Deployment) (me : ℕ) (rest : List DeliveredEvent) : Store → Prop :=
  At me [] (fun id => id ∈ rest.map DeliveredEvent.deliveryId) fun s => ∀ item, item ∈ rest → d.Delivered item s

theorem lasting_handling (d : Deployment) (rest : List DeliveredEvent) :
    Lasting fun s => ∀ item, item ∈ rest → d.Delivered item s :=
  lasting_all fun item => lasting_imp (lasting_delivered d item)

theorem recorded_of_rows {e : Entry} {s : Store} (hr : Rows d.toIngestionWorker e s) (hq : d.Quarantined e s)
    (hdisp : d.disposition e = d.validated id payload) : d.Recorded s e := by
  unfold IngestionWorker.Recorded
  cases hd : d.disposition e with
  | accepted id' payload' event => exact hr.accepted id' payload' event hd
  | rejected id' payload' errors => exact ⟨hr.rejected id' payload' errors hd,hq id' payload' errors hd⟩
  | fatal => exact absurd hd hr.usable
  | malformed =>
    rw [hdisp] at hd
    unfold IngestionWorker.validated at hd
    split at hd <;> cases hd
  | anonymous p =>
    rw [hdisp] at hd
    unfold IngestionWorker.validated at hd
    split at hd <;> cases hd

/-- Acknowledging the item leaves the rest. -/
theorem handled {item : DeliveredEvent} {rest : List DeliveredEvent} {facts : Store → Prop}
    (hitem : e.id = item.deliveryId) (hrest : ∀ s, facts s → ∀ i, i ∈ rest → d.Delivered i s)
    (h : At me [] (fun id => id ∈ (item :: rest).map DeliveredEvent.deliveryId ∧ id ≠ e.id) facts s) :
    handling d me rest s := by
  refine ⟨h.own,h.alive,fun id hid => ?_,hrest s h.facts⟩
  obtain ⟨hmem,hne⟩ := h.hand id hid
  rcases List.mem_cons.mp hmem with rfl | hmem
  · exact absurd hitem.symm hne
  · exact hmem

theorem works_handle {item : DeliveredEvent} {rest : List DeliveredEvent} {outcome : BatchOutcome}
    (hi : Inv d healthy s) (h : handling d me (item :: rest) s) :
    Works d healthy me (d.handle outcome item)
      (Yields healthy (Holds me []) fun _ => handling d me rest) s := by
  obtain ⟨e,he,hitem,hdec⟩ := h.facts item List.mem_cons_self
  have hlast := (lasting_handling d (item :: rest)).and (lasting_published e)
  have hat : At me [] (fun id => id ∈ (item :: rest).map DeliveredEvent.deliveryId)
      (fun s => (∀ i, i ∈ item :: rest → d.Delivered i s) ∧ e ∈ s.published) s := ⟨h.own,h.alive,h.hand,h.facts,he⟩
  have hrest : ∀ {s : Store}, (∀ i, i ∈ item :: rest → d.Delivered i s) → ∀ i, i ∈ rest → d.Delivered i s :=
    fun hs i hi => hs i (List.mem_cons_of_mem _ hi)
  have hbad : ∀ {j : Json}, item.payload = j → (∀ p, j ≠ .obj p) → d.disposition e = .fatal := by
    rintro j rfl hj
    unfold IngestionWorker.disposition
    rw [hdec]
    cases hp : item.payload with
    | obj p => exact absurd hp (hj p)
    | _ => rfl
  unfold IngestionWorker.handle
  cases hp : item.payload with
  | obj payload =>
    rw [hp] at hdec
    have hdisp := d.disposition_obj hdec
    dsimp only
    cases hx : extractId payload with
    | none =>
      have hanonymous : d.disposition e = .anonymous payload := by
        rw [hdisp]
        unfold IngestionWorker.dispositionOf
        rw [hx]
      have hfit : healthy = true → (d.rt.dumps (.obj payload)).isSome = true := by
        intro hh
        have hfit := hi.fits hh e he
        unfold Deployment.Fits at hfit
        rw [hanonymous] at hfit
        exact hfit
      rw [← hitem]
      refine works_bind (.stable me []) hi (works_deadLetter _ hat hlast hfit) ?_
      intro _ s hi hat
      refine works_bind (.stable me []) hi
        (works_ack (e := e) hat (hlast.and (lasting_deadLettered _ _ _)) fun s hs => ⟨hs.1.2,?_⟩) ?_
      · unfold IngestionWorker.Recorded
        rw [hanonymous]
        exact hs.2
      · intro _ s hi hat
        exact works_return (.stable (lasting_handling d rest)) (handled hitem (fun s hs => hrest hs.1.1) hat)
    | some id =>
      have hdisp := hdisp.trans (d.dispositionOf_id hx)
      have hbody : Works d healthy me (d.record item payload id outcome) _ s :=
        works_record hi hlast (fun s hs => hs.2) hitem hdec hx hat
      refine works_bind (.stable me []) hi
        (works_session (hlast.and (d.lasting_quarantined e)) (fun s hs => hs.1.2) hi hbody) ?_
      intro outcome' s hi hat
      rw [← hitem]
      refine works_bind (.stable me []) hi (works_ack (e := e) hat
        ((hlast.and (d.lasting_quarantined e)).and (lasting_rows _ e)) fun s hs => ⟨hs.1.1.2,?_⟩) ?_
      · exact recorded_of_rows hs.2 hs.1.2 hdisp
      · intro _ s hi hat
        exact works_return (.stable (lasting_handling d rest)) (handled hitem (fun s hs => hrest hs.1.1.1) hat)
  | _ => exact works_fail (.stable me []) ⟨h.own,h.alive⟩ (fatal_unfit hi he (hbad hp (by simp)))

/-- How a worker's program ends: with nothing in its session, and with nothing in its hand unless
the stores have failed. -/
def ended (healthy : Bool) (me : ℕ) : Except Exc BatchOutcome → Store → Prop :=
  Yields healthy (Holds me []) fun _ => Idle me

theorem works_processBatch (hi : Inv d healthy s) (h : Idle me s) :
    Works d healthy me d.processBatch (ended healthy me) s := by
  refine works_bind (.stable me []) hi (works_poll h hi) ?_
  intro delivered s hi hat
  have hstart : handling d me delivered s :=
    ⟨hat.own,hat.alive,fun id hid => (hat.hand id hid).resolve_left (by simp),hat.facts.2⟩
  refine works_weaken (works_foldlM (fun rest (_ : BatchOutcome) => handling d me rest) delivered hi hstart
    (.stable me []) (fun _ => .stable (lasting_handling d [])) ?_) (fun _ hb => hb) ?_
  · exact fun item rest outcome s hi h => works_handle hi h
  · exact fun _ s _ hat => ⟨hat.own,hat.alive,fun id hid => absurd (hat.hand id hid) (by simp),trivial⟩

theorem works_startUp (hi : Inv d healthy s) (h : Idle me s) :
    Works d healthy me System.startUp (ended healthy me) s := by
  refine works_bind (.stable me []) hi (works_ensureGroup h lasting_true hi) ?_
  intro _ s _ hat
  exact works_return (.stable lasting_true) hat

end
end InferenceLogger
