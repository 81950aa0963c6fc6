import InferenceLogger.Ingestion.Register

/-! # A batch handled alone

A batch, from the poll to the last acknowledgement, by one worker with healthy stores. It comes to
its end exactly when every entry can be taken in its turn, and the register then has taken them all.
-/
namespace InferenceLogger
open PyText PyJson AsyncTask KeyedTable RelyGuarantee Cluster

/-! ## The loops of a batch -/

namespace Disposition

/-- The ids with a log row, after it. -/
def logs (logged : Uuid → Bool) : Disposition → Uuid → Bool
  | .accepted id _ _ => Function.update logged id true
  | _ => logged

/-- How it marks the raw row of an id. -/
def marks (id : Uuid) : Disposition → Option ProcessingStatus
  | .accepted id' _ _ => if id = id' then some .processed else none
  | .rejected id' _ _ => if id = id' then some .failed else none
  | _ => none

/-- What is marked as processed is accepted. -/
theorem marks_processed {id : Uuid} {x : Disposition} :
    x.marks id = some .processed ↔ ∃ payload event, x = .accepted id payload event := by
  cases x with
  | accepted id' payload event =>
    unfold marks
    by_cases h : id = id'
    · subst h
      simp
    · simp [h,Ne.symm h]
  | rejected id' payload errors =>
    unfold marks
    by_cases h : id = id' <;> simp [h]
  | _ => simp [marks]

theorem marks_pending {id : Uuid} {x : Disposition} : x.marks id ≠ some .pending := by
  cases x with
  | accepted id' payload event =>
    unfold marks
    split <;> simp
  | rejected id' payload errors =>
    unfold marks
    split <;> simp
  | _ => simp [marks]

theorem logs_iff {logged : Uuid → Bool} {id : Uuid} {x : Disposition} :
    x.logs logged id = true ↔ logged id = true ∨ x.marks id = some .processed := by
  cases x with
  | accepted id' payload event =>
    change Function.update logged id' true id = true ↔ _ ∨ (if id = id' then _ else _ : Option ProcessingStatus) = _
    by_cases h : id = id'
    · subst h
      simp
    · simp [h]
  | rejected id' payload errors =>
    unfold marks
    by_cases h : id = id' <;> simp [logs,h]
  | _ => simp [logs,marks]

/-- The id it is landed under. -/
def landed : Disposition → Option Uuid
  | .rejected id _ _ => some id
  | .accepted id _ _ => some id
  | _ => none

def isMalformed : Disposition → Bool
  | .malformed => true
  | _ => false

def isLettered : Disposition → Bool
  | .malformed => true
  | .anonymous _ => true
  | .rejected _ _ _ => true
  | _ => false

end Disposition

namespace Register
variable (l : Register) (x : ℕ × Disposition)

theorem take_logged : (l.take x).logged = x.2.logs l.logged := by
  obtain ⟨origin,disposition⟩ := x
  cases disposition <;> rfl

theorem take_status (id : Uuid) : (l.take x).status id = (x.2.marks id).or (l.status id) := by
  obtain ⟨origin,disposition⟩ := x
  cases disposition with
  | rejected id' payload errors =>
    change Function.update (Function.update l.status id' _) id' _ id = (if id = id' then _ else _ : Option _).or _
    by_cases h : id = id'
    · subst h
      simp
    · simp [h]
  | accepted id' payload event =>
    change Function.update (Function.update l.status id' _) id' _ id = (if id = id' then _ else _ : Option _).or _
    by_cases h : id = id'
    · subst h
      simp
    · simp [h]
  | _ => rfl

theorem take_letters : (l.take x).letters = l.letters ++ if x.2.isLettered then [x.1] else [] := by
  obtain ⟨origin,disposition⟩ := x
  cases disposition with
  | fatal => exact (List.append_nil _).symm
  | accepted id payload event => exact (List.append_nil _).symm
  | _ => rfl

theorem take_held : (l.take x).held = l.held.filter fun i => decide (i ≠ x.1) := by
  obtain ⟨origin,disposition⟩ := x
  cases disposition <;> rfl

end Register

namespace Deployment
variable (d : Deployment)

/-- Each can be taken when its turn comes. -/
def Clears (refers : EventFields → Bool) : (Uuid → Bool) → List Disposition → Prop
  | _, [] => True
  | logged, x :: xs => (d.FitsAs x ∧ x.Placed refers logged) ∧ Clears refers (x.logs logged) xs

end Deployment

section
open Store
variable {d : Deployment} {me : ℕ} {refers : EventFields → Bool} {l : Register} {s : Store}

/-- Where the payload of an item goes. -/
def IngestionWorker.itemDisposition (w : IngestionWorker) (item : DeliveredEvent) : Disposition :=
  match item.payload with
  | .obj payload => w.dispositionOf payload
  | _ => .fatal

/-- The items of an entry. -/
def itemsOf (rt : Runtime) (e : Entry) : List DeliveredEvent :=
  match RedisEventStream.decode rt e.fields with
  | .ok (some payload) => [⟨e.id,payload⟩]
  | _ => []

/-- An item and what becomes of it. -/
def IngestionWorker.itemCase (w : IngestionWorker) (item : DeliveredEvent) : ℕ × Disposition :=
  (item.deliveryId,w.itemDisposition item)

def IngestionWorker.entryCase (w : IngestionWorker) (e : Entry) : ℕ × Disposition := (e.id,w.disposition e)

theorem judged_handle (hl : d.py.Lawful) (outcome : BatchOutcome) (item : DeliveredEvent) (h : Rests me refers l s) :
    Judged d.pg me (d.handle outcome item) (d.FitsAs (d.itemDisposition item) ∧ (d.itemDisposition item).Placed refers l.logged)
      (fun o u => outcome.Counts o ∧ Rests me refers (l.take (d.itemCase item)) u) s := by
  unfold IngestionWorker.itemCase IngestionWorker.handle
  split
  · rename_i payload hp
    have hcase : d.itemDisposition item = d.dispositionOf payload := by
      unfold IngestionWorker.itemDisposition
      rw [hp]
    rw [hcase]
    split
    · rename_i hx
      have hanonymous : d.dispositionOf payload = .anonymous payload := by
        unfold IngestionWorker.dispositionOf
        rw [hx]
      rw [hanonymous]
      refine decides_iff (decides_bind (judged_deadLetter h.toSees) fun _ u _ hu =>
        decides_bind (judged_ack ⟨hu.1,?_⟩) fun _ v _ hv => decides_done ⟨⟨rfl,?_⟩,hv⟩) ?_
      · rw [hu.2]
        exact h.own
      · exact (Nat.add_assoc _ _ 1).symm
      · simp [Deployment.FitsAs,Disposition.Placed]
    · rename_i id hx
      rw [IngestionWorker.dispositionOf_id hx]
      refine decides_iff (decides_bind (judged_session (judged_record hl hx item outcome h.toSees)) fun o u _ hu =>
        decides_bind (judged_ack hu.2) fun _ v _ hv => decides_done ⟨hu.1,hv⟩) ?_
      simp
  · rename_i hp
    refine decides_raise fun hfit => ?_
    have hfatal : d.itemDisposition item = .fatal := by
      unfold IngestionWorker.itemDisposition
      split
      · rename_i payload hpayload
        exact absurd hpayload (hp payload)
      · rfl
    rw [hfatal] at hfit
    exact hfit.1

/-- Handling the items of a batch. -/
theorem judged_items (hl : d.py.Lawful) (items : List DeliveredEvent) (outcome : BatchOutcome) (h : Rests me refers l s) :
    Judged d.pg me (items.foldlM d.handle outcome) (d.Clears refers l.logged (items.map d.itemDisposition))
      (fun o u => (o.received = outcome.received ∧ o.inserted + o.duplicates + o.rejected =
        outcome.inserted + outcome.duplicates + outcome.rejected + items.length) ∧
          Rests me refers ((items.map d.itemCase).foldl Register.take l) u) s := by
  induction items generalizing outcome l s with
  | nil => exact decides_done ⟨⟨rfl,rfl⟩,h⟩
  | cons item items ih =>
    rw [List.foldlM_cons]
    refine decides_bind (judged_handle hl outcome item h) fun o u _ hu => ?_
    have hrest := ih o hu.2
    rw [Register.take_logged] at hrest
    refine decides_mono hrest fun o' v _ hv => ⟨⟨hv.1.1.trans hu.1.received,?_⟩,hv.2⟩
    rw [hv.1.2, hu.1.handled, List.length_cons]
    omega

theorem itemDisposition_isMalformed (item : DeliveredEvent) : (d.itemDisposition item).isMalformed = false := by
  unfold IngestionWorker.itemDisposition IngestionWorker.dispositionOf IngestionWorker.validated
  split
  · split
    · rfl
    · split <;> rfl
  · rfl

theorem disposition_item {e : Entry} {payload : Json} (h : RedisEventStream.decode d.rt e.fields = .ok (some payload)) :
    d.disposition e = d.itemDisposition ⟨e.id,payload⟩ := by
  unfold IngestionWorker.disposition IngestionWorker.itemDisposition
  rw [h]
  cases payload <;> rfl

/-- The loop body of `poll`. -/
theorem judged_receive (delivered : List DeliveredEvent) (e : Entry) (h : Rests me refers l s) :
    Judged d.pg me (RedisEventStream.receive d.rt delivered e) ((RedisEventStream.decode d.rt e.fields).isOk = true)
      (fun delivered' u => delivered' = delivered ++ itemsOf d.rt e ∧
        Rests me refers (([d.entryCase e].filter fun x => x.2.isMalformed).foldl Register.take l) u) s := by
  unfold RedisEventStream.receive itemsOf
  cases hd : RedisEventStream.decode d.rt e.fields with
  | error x => exact decides_raise fun h => by cases h
  | ok payload =>
    cases payload with
    | none =>
      have hcases : ([d.entryCase e].filter fun x => x.2.isMalformed).foldl Register.take l = (l.letter e.id).settle e.id := by
        have hmalformed : d.disposition e = .malformed := by
          unfold IngestionWorker.disposition
          rw [hd]
        unfold IngestionWorker.entryCase
        rw [hmalformed]
        rfl
      rw [hcases]
      refine decides_iff (decides_bind (judged_deadLetter h.toSees) fun _ u _ hu =>
        decides_bind (judged_ack ⟨hu.1,?_⟩) fun _ v _ hv => decides_done ⟨?_,hv⟩) ?_
      · rw [hu.2]
        exact h.own
      · exact (List.append_nil _).symm
      · exact iff_of_true ⟨d.rt.dumps_flat _ _,trivial,trivial⟩ rfl
    | some payload =>
      have hcases : ([d.entryCase e].filter fun x => x.2.isMalformed).foldl Register.take l = l := by
        unfold IngestionWorker.entryCase
        rw [disposition_item hd, List.filter_cons_of_neg]
        · rfl
        · rw [itemDisposition_isMalformed]
          exact Bool.false_ne_true
      rw [hcases]
      exact decides_iff (decides_done ⟨rfl,h⟩) (iff_of_true trivial rfl)

/-- The loop of `poll`. -/
theorem judged_receives (entries : List Entry) (delivered : List DeliveredEvent) (h : Rests me refers l s) :
    Judged d.pg me (entries.foldlM (RedisEventStream.receive d.rt) delivered)
      (∀ e ∈ entries, (RedisEventStream.decode d.rt e.fields).isOk = true)
      (fun delivered' u => delivered' = delivered ++ entries.flatMap (itemsOf d.rt) ∧
        Rests me refers (((entries.map d.entryCase).filter fun x => x.2.isMalformed).foldl Register.take l) u) s := by
  induction entries generalizing delivered l s with
  | nil =>
    exact decides_iff (decides_done ⟨(List.append_nil _).symm,h⟩)
      (iff_of_true trivial fun _ he => absurd he List.not_mem_nil)
  | cons e entries ih =>
    rw [List.foldlM_cons]
    refine decides_iff (decides_bind (judged_receive delivered e h) fun delivered' u _ hu =>
      decides_mono (ih delivered' hu.2) fun items v _ hv => ⟨?_,?_⟩) (by rw [List.forall_mem_cons])
    · rw [hv.1, hu.1, List.flatMap_cons, List.append_assoc]
    · have hsplit : ((e :: entries).map d.entryCase).filter (fun x => x.2.isMalformed) =
          ([d.entryCase e].filter fun x => x.2.isMalformed) ++ (entries.map d.entryCase).filter fun x => x.2.isMalformed := by
        rw [← List.filter_append]
        rfl
      rw [hsplit, List.foldl_append]
      exact hv.2

/-- The entries a poll hands out. -/
def Redis.batch (r : Redis) (n : ℕ) : List Entry :=
  match r.group with
  | none => []
  | some g => (r.undelivered g).take n

theorem judged_ensureGroup (hg : s.redis.group = none) (h : Rests me refers l s) :
    Judged d.pg me RedisEventStream.ensureGroup True (fun _ => Rests me refers l) s := by
  refine Sat.resume (Sat.call ?_) trivial
  rintro s rfl - now u r he
  refine ⟨trivial,trivial,?_⟩
  rintro u rfl -
  have hperform : s.perform d.pg me now .xgroupCreate = some (u,r) := he
  have hcreate : s.redis.createGroup = ({s.redis with group := some ⟨0,[]⟩},.ok ()) := by
    unfold Redis.createGroup
    rw [hg]
  unfold Store.perform at hperform
  rw [hcreate] at hperform
  cases hperform
  exact decides_done ⟨⟨h.alive,h.refers,h.register⟩,h.own⟩

/-- Polling, whatever the worker held before. -/
theorem judged_poll (n : ℕ) (h : Rests me refers l s) :
    Judged d.pg me (RedisEventStream.poll d.rt n)
      (∀ e ∈ s.redis.batch n, (RedisEventStream.decode d.rt e.fields).isOk = true)
      (fun items u => items = (s.redis.batch n).flatMap (itemsOf d.rt) ∧ ∃ held, Rests me refers
        ((((s.redis.batch n).map d.entryCase).filter fun x => x.2.isMalformed).foldl Register.take
          {l with held := held}) u) s := by
  refine Sat.resume (Sat.call ?_) trivial
  rintro s rfl - now u r he
  refine ⟨trivial,trivial,?_⟩
  rintro u rfl -
  cases hg : s.redis.group with
  | none =>
    have hbatch : s.redis.batch n = [] := by
      unfold Redis.batch
      rw [hg]
    rw [hbatch]
    have hreply : (s.redis.readGroup n).2 = .error (responseError "NOGROUP No such key or consumer group") := by
      unfold Redis.readGroup
      rw [hg]
    have hread : (s.redis.readGroup n).1 = s.redis := by
      unfold Redis.readGroup
      rw [hg]
    have hnogroup : respondsWith "NOGROUP" (responseError "NOGROUP No such key or consumer group") = true := by
      rcases readGroup_replies s.redis n with ⟨batch,hbatch,-⟩ | ⟨e,he,hnogroup⟩
      · rw [hreply] at hbatch
        cases hbatch
      · rw [hreply] at he
        cases he
        exact hnogroup
    have hperform : s.perform d.pg me now (.xreadgroup n) = some (u,r) := he
    rw [perform_xreadgroup, hreply, hread] at hperform
    cases hperform
    change Judged d.pg me (if respondsWith "NOGROUP" (responseError "NOGROUP No such key or consumer group") = true then
      RedisEventStream.ensureGroup >>= fun _ => pure [] else throw _) _ _ s
    rw [if_pos hnogroup]
    refine decides_iff (decides_bind (judged_ensureGroup hg h) fun _ v _ hv => decides_done ⟨rfl,_,hv⟩) ?_
    exact iff_of_true ⟨trivial,trivial⟩ fun _ he => absurd he List.not_mem_nil
  | some g =>
    have hbatch : s.redis.batch n = (s.redis.undelivered g).take n := by
      unfold Redis.batch
      rw [hg]
    have hreply : (s.redis.readGroup n).2 = .ok (s.redis.batch n) := by
      unfold Redis.readGroup
      rw [hg, hbatch]
    have hperform : s.perform d.pg me now (.xreadgroup n) = some (u,r) := he
    rw [perform_xreadgroup, hreply] at hperform
    cases hperform
    have hrests : Rests me refers {l with held := (s.redis.batch n).map Entry.id}
        (({s with redis := (s.redis.readGroup n).1} : Store).withHand me ((s.redis.batch n).map Entry.id)) := by
      refine ⟨⟨h.alive,h.refers,?_⟩,h.own⟩
      rw [← h.register]
      refine Register.ext rfl rfl ?_ (Function.update_self _ _ _)
      exact congrArg (List.map DeadLetter.origin) (s.redis.readGroup_entries n).2.2
    exact decides_mono (judged_receives _ [] hrests) fun items v _ hv => ⟨hv.1,_,hv.2⟩


/-! ## The batch -/

/-- The entries in the order they are settled: the malformed ones during the poll. -/
def agenda (cases : List (ℕ × Disposition)) : List (ℕ × Disposition) :=
  (cases.filter fun x => x.2.isMalformed) ++ cases.filter fun x => !x.2.isMalformed

theorem malformed_logged (cases : List (ℕ × Disposition)) (l : Register) :
    ((cases.filter fun x => x.2.isMalformed).foldl Register.take l).logged = l.logged := by
  induction cases generalizing l with
  | nil => rfl
  | cons x cases ih =>
    obtain ⟨origin,disposition⟩ := x
    cases disposition with
    | malformed => exact ih _
    | _ => exact ih l

theorem decode_ok {e : Entry} (h : d.disposition e ≠ .fatal) : (RedisEventStream.decode d.rt e.fields).isOk = true := by
  unfold IngestionWorker.disposition at h
  split at h
  · exact absurd rfl h
  all_goals
    rename_i hd
    rw [hd]
    rfl

theorem itemsOf_cases {e : Entry} (h : (RedisEventStream.decode d.rt e.fields).isOk = true) :
    (itemsOf d.rt e).map d.itemCase = [d.entryCase e].filter fun x => !x.2.isMalformed := by
  unfold itemsOf
  split
  · rename_i payload hd
    have hcase : d.entryCase e = d.itemCase ⟨e.id,payload⟩ := Prod.ext rfl (disposition_item hd)
    have hkept : (!(d.itemCase ⟨e.id,payload⟩).2.isMalformed) = true := by
      unfold IngestionWorker.itemCase
      rw [itemDisposition_isMalformed]
      rfl
    rw [hcase]
    exact (List.filter_eq_self.mpr fun x hx => by rwa [List.mem_singleton.mp hx]).symm
  · rename_i hd
    have hmalformed : d.disposition e = .malformed := by
      unfold IngestionWorker.disposition
      cases hdec : RedisEventStream.decode d.rt e.fields with
      | error x =>
        rw [hdec] at h
        cases h
      | ok payload =>
        cases payload with
        | none => rfl
        | some payload => exact absurd hdec (hd payload)
    unfold IngestionWorker.entryCase
    rw [hmalformed]
    rfl

theorem items_cases {entries : List Entry} (h : ∀ e ∈ entries, (RedisEventStream.decode d.rt e.fields).isOk = true) :
    (entries.flatMap (itemsOf d.rt)).map d.itemCase = (entries.map d.entryCase).filter fun x => !x.2.isMalformed := by
  induction entries with
  | nil => rfl
  | cons e entries ih =>
    obtain ⟨he,hrest⟩ := List.forall_mem_cons.mp h
    rw [List.flatMap_cons, List.map_append, itemsOf_cases he, ih hrest, ← List.filter_append]
    rfl

/-- The malformed ones can always be taken. -/
theorem clears_filter (logged : Uuid → Bool) (cases : List (ℕ × Disposition)) :
    d.Clears refers logged ((cases.filter fun x => !x.2.isMalformed).map Prod.snd) ↔
      d.Clears refers logged (cases.map Prod.snd) := by
  induction cases generalizing logged with
  | nil => rfl
  | cons x cases ih =>
    obtain ⟨origin,disposition⟩ := x
    cases disposition with
    | malformed => exact (ih logged).trans (and_iff_right ⟨trivial,trivial⟩).symm
    | _ => exact and_congr_right fun _ => ih _

theorem clears_fits {logged : Uuid → Bool} {xs : List Disposition} (h : d.Clears refers logged xs) : ∀ x ∈ xs, d.FitsAs x := by
  induction xs generalizing logged with
  | nil => exact fun _ hx => absurd hx List.not_mem_nil
  | cons x xs ih => exact List.forall_mem_cons.mpr ⟨h.1.1,ih h.2⟩

/-- A batch comes to its end exactly when each entry can be taken in its turn. -/
theorem judged_batch (hl : d.py.Lawful) (h : Rests me refers l s) :
    Judged d.pg me d.processBatch (d.Clears refers l.logged ((s.redis.batch d.batchSize).map d.disposition))
      (fun o u => o.received = o.inserted + o.duplicates + o.rejected ∧ ∃ held, Rests me refers
        ((agenda ((s.redis.batch d.batchSize).map d.entryCase)).foldl Register.take {l with held := held}) u) s := by
  have hcases : ((s.redis.batch d.batchSize).map d.entryCase).map Prod.snd = (s.redis.batch d.batchSize).map d.disposition := by
    rw [List.map_map]
    rfl
  -- whether the items clear is a matter of the entries, once all of them decode
  have hitems : (∀ e ∈ s.redis.batch d.batchSize, (RedisEventStream.decode d.rt e.fields).isOk = true) →
      (d.Clears refers l.logged (((s.redis.batch d.batchSize).flatMap (itemsOf d.rt)).map d.itemDisposition) ↔
        d.Clears refers l.logged ((s.redis.batch d.batchSize).map d.disposition)) := by
    intro hdecode
    have hmap : ((s.redis.batch d.batchSize).flatMap (itemsOf d.rt)).map d.itemDisposition =
        (((s.redis.batch d.batchSize).map d.entryCase).filter fun x => !x.2.isMalformed).map Prod.snd := by
      rw [← items_cases hdecode, List.map_map]
      rfl
    rw [hmap, clears_filter, hcases]
  have hafter : ∀ held u, (∀ e ∈ s.redis.batch d.batchSize, (RedisEventStream.decode d.rt e.fields).isOk = true) →
      Rests me refers ((((s.redis.batch d.batchSize).map d.entryCase).filter fun x => x.2.isMalformed).foldl Register.take
        {l with held := held}) u →
      Judged d.pg me (((s.redis.batch d.batchSize).flatMap (itemsOf d.rt)).foldlM d.handle
          {received := ((s.redis.batch d.batchSize).flatMap (itemsOf d.rt)).length})
        (d.Clears refers l.logged ((s.redis.batch d.batchSize).map d.disposition))
        (fun o u => o.received = o.inserted + o.duplicates + o.rejected ∧ ∃ held, Rests me refers
          ((agenda ((s.redis.batch d.batchSize).map d.entryCase)).foldl Register.take {l with held := held}) u) u := by
    intro held u hdecode hrests
    have hhandled := judged_items hl ((s.redis.batch d.batchSize).flatMap (itemsOf d.rt))
      {received := ((s.redis.batch d.batchSize).flatMap (itemsOf d.rt)).length} hrests
    rw [malformed_logged, items_cases hdecode, ← List.foldl_append] at hhandled
    refine decides_mono (decides_iff hhandled (hitems hdecode)) fun o v _ hv => ⟨?_,held,hv.2⟩
    rw [hv.1.1, hv.1.2]
    exact (Nat.zero_add _).symm
  have hbatch : Judged d.pg me d.processBatch _ _ s := decides_bind (judged_poll d.batchSize h) fun items u hdecode hu => by
    obtain ⟨rfl,held,hrests⟩ := hu
    exact hafter held u hdecode hrests
  refine decides_iff hbatch (and_iff_right_of_imp fun hclears e he => decode_ok fun hfatal => ?_)
  have hfits := clears_fits hclears (d.disposition e) (List.mem_map_of_mem he)
  rw [hfatal] at hfits
  exact hfits

end
end InferenceLogger
