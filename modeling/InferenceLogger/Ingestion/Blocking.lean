import InferenceLogger.Ingestion.Contents
import InferenceLogger.Ingestion.Handling

/-! # An item whose handling raises

Nothing in the batch catches what a handler raises: the items before it have been handled, the
items after it are not, and what it leaves of its own is what its handler committed.
-/
namespace InferenceLogger
open PyText PyJson AsyncTask KeyedTable RelyGuarantee Cluster

section
variable {d : Deployment} {me : ℕ} {s t : Store} {tr : Trace ingestSignature Exc}
variable {allowed : (op : IngestOp) → Except Exc (ingestSignature.Answer op) → Prop}

/-! ## One item -/

theorem close_own {c : Choice} {r : Except Exc Unit} (h : ingestExec d.pg me s .close c = some (t,r)) :
    t.cluster.own me = [] := by
  rcases ingestExec_cases h with ⟨-,hperform⟩ | ⟨-,-,hfail⟩
  · cases hperform
    exact own_forget_self
  · rcases hfail with rfl | rfl <;> exact own_forget_self

/-- A session ends with its close. -/
theorem session_own {α : Type} {body : IngestTask α} {out : Except Exc α}
    (h : Run allowed (ingestSessionOps.session body) tr out) (hex : Executes (ingestExec d.pg) me s tr t) :
    t.cluster.own me = [] := by
  obtain ⟨tr₁,r,tr₂,rfl,-,h₂⟩ := Run.resume_iff.mp h
  obtain ⟨u,-,hex₂⟩ := Executes.append_iff.mp hex
  have hclose : ∃ q, tr₂ = [⟨.close,q⟩] := by
    rcases Run.bind_iff.mp h₂ with ⟨tr₃,a,tr₄,rfl,hc,hr⟩ | ⟨x,-,hc⟩
    · obtain ⟨rfl,-⟩ := Run.call_iff.mp hc
      obtain ⟨rfl,-⟩ := Run.ofExcept_iff.mp hr
      exact ⟨_,rfl⟩
    · obtain ⟨rfl,-⟩ := Run.call_iff.mp hc
      exact ⟨_,rfl⟩
  obtain ⟨q,rfl⟩ := hclose
  obtain ⟨c,v,hexec,hend⟩ := Executes.cons_iff.mp hex₂
  rw [Executes.nil_iff.mp hend]
  exact close_own hexec

/-- An acknowledgement that is answered takes the item out of the worker's hands. -/
theorem ack_executes {id : ℕ} {out : Except Exc Unit} (h : Run allowed (RedisEventStream.ack id) tr out)
    (hex : Executes (ingestExec d.pg) me s tr t) (hown : s.cluster.own me = []) :
    t.cluster.own me = [] ∧ (out.isOk = true → id ∉ t.hands me) := by
  obtain ⟨rfl,-⟩ := Run.call_iff.mp h
  obtain ⟨c,u,hexec,hend⟩ := Executes.cons_iff.mp hex
  rw [Executes.nil_iff.mp hend]
  rcases ingestExec_cases hexec with ⟨-,hperform⟩ | ⟨-,⟨e,rfl⟩,hfail⟩
  · cases hperform
    refine ⟨hown,fun _ hmem => ?_⟩
    have hhands : (s.acknowledge me id).hands me = (s.hands me).filter fun i => decide (i ≠ id) :=
      Function.update_self _ _ _
    rw [hhands] at hmem
    exact of_decide_eq_true (List.mem_filter.mp hmem).2 rfl
  · refine ⟨?_,fun h => by cases h⟩
    rcases hfail with rfl | rfl <;> exact hown

theorem letter_own {origin : ℕ} {payload : Json} {reason : String} {out : Except Exc Unit}
    (h : Run allowed (RedisEventStream.deadLetter d.rt origin payload reason) tr out)
    (hex : Executes (ingestExec d.pg) me s tr t) : t.cluster = s.cluster := by
  unfold RedisEventStream.deadLetter at h
  split at h
  · obtain ⟨rfl,-⟩ := Run.raise_iff.mp h
    rw [Executes.nil_iff.mp hex]
  · obtain ⟨rfl,-⟩ := Run.call_iff.mp h
    obtain ⟨c,u,hexec,hend⟩ := Executes.cons_iff.mp hex
    rw [Executes.nil_iff.mp hend]
    rcases ingestExec_cases hexec with ⟨-,hperform⟩ | ⟨-,-,hfail⟩
    · cases hperform
      rfl
    · rcases hfail with rfl | rfl <;> rfl

/-- What ends with the acknowledgement of the item. -/
theorem then_ack {α β : Type} {body : IngestTask α} {f : α → β} {id : ℕ} {out : Except Exc β}
    (h : Run allowed (body >>= fun a => RedisEventStream.ack id >>= fun _ => pure (f a)) tr out)
    (hex : Executes (ingestExec d.pg) me s tr t)
    (hbody : ∀ {tr r u}, Run allowed body tr r → Executes (ingestExec d.pg) me s tr u → u.cluster.own me = []) :
    t.cluster.own me = [] ∧ (out.isOk = true → id ∉ t.hands me) := by
  rcases Run.bind_iff.mp h with ⟨tr₁,a,tr₂,rfl,h₁,h₂⟩ | ⟨x,rfl,h₁⟩
  · obtain ⟨s₁,hex₁,hex₂⟩ := Executes.append_iff.mp hex
    have hown := hbody h₁ hex₁
    rcases Run.bind_iff.mp h₂ with ⟨tr₃,u,tr₄,rfl,h₃,h₄⟩ | ⟨x,rfl,h₃⟩
    · obtain ⟨rfl,-⟩ := Run.done_iff.mp h₄
      rw [List.append_nil] at hex₂
      obtain ⟨hend,hacked⟩ := ack_executes h₃ hex₂ hown
      exact ⟨hend,fun _ => hacked rfl⟩
    · exact ⟨(ack_executes h₃ hex₂ hown).1,fun h => by cases h⟩
  · exact ⟨hbody h₁ hex,fun h => by cases h⟩

/-- Handling an item leaves the others alone, and acknowledges it when it returns. -/
theorem handle_spares (hl : d.py.Lawful) {item : DeliveredEvent} {outcome : BatchOutcome} {out : Except Exc BatchOutcome}
    (h : Run allowed (d.handle outcome item) tr out) (hex : Executes (ingestExec d.pg) me s tr t)
    (hown : s.cluster.own me = []) :
    Store.Spares me item s t ∧ t.cluster.own me = [] ∧ (out.isOk = true → item.deliveryId ∉ t.hands me) := by
  have howns : s.Owns me item := by
    intro w hw
    rw [hown] at hw
    cases hw
  refine ⟨(Store.spares_executes hex (IngestionWorker.awaits_handle hl outcome item _ _ _ h) howns).1,?_⟩
  unfold IngestionWorker.handle at h
  split at h
  · split at h
    · refine then_ack h hex fun h₁ hex₁ => ?_
      rw [letter_own h₁ hex₁, hown]
    · exact then_ack h hex session_own
  · obtain ⟨rfl,rfl⟩ := Run.raise_iff.mp h
    rw [Executes.nil_iff.mp hex]
    exact ⟨hown,fun h => by cases h⟩

/-! ## The items before it -/

/-- Items that have been handled one after another. -/
structure Handled (me : ℕ) (items : List DeliveredEvent) (s t : Store) : Prop where
  own : t.cluster.own me = []
  acked : ∀ item ∈ items, item.deliveryId ∉ t.hands me
  kept : ∀ id ∈ s.hands me, id ∉ items.map DeliveredEvent.deliveryId → id ∈ t.hands me

theorem handled_items (hl : d.py.Lawful) {items : List DeliveredEvent} {outcome o : BatchOutcome}
    (h : Run allowed (items.foldlM d.handle outcome) tr (.ok o)) (hex : Executes (ingestExec d.pg) me s tr t)
    (hown : s.cluster.own me = []) : Handled me items s t := by
  -- the ids of the items still to come may be held, those of the items handled may not
  have hloop := hex.foldlM (fun rest (_ : BatchOutcome) u => u.cluster.own me = [] ∧ (∀ item ∈ rest, item ∈ items) ∧
    (∀ item ∈ items, item.deliveryId ∈ u.hands me → item.deliveryId ∈ rest.map DeliveredEvent.deliveryId) ∧
    ∀ id ∈ s.hands me, id ∉ items.map DeliveredEvent.deliveryId → id ∈ u.hands me) h
    ⟨hown,fun _ hi => hi,fun item hi _ => List.mem_map_of_mem hi,fun _ hid _ => hid⟩ ?_
  · exact ⟨hloop.1,fun item hi hheld => absurd (hloop.2.2.1 item hi hheld) List.not_mem_nil,hloop.2.2.2⟩
  · rintro x rest b b' u u' tr' hrun hexec ⟨hu,hrest,hacked,hkept⟩
    obtain ⟨hspares,hu',hx⟩ := handle_spares hl hrun hexec hu
    refine ⟨hu',fun item hi => hrest item (List.mem_cons_of_mem _ hi),fun item hi hheld => ?_,fun id hid hne => ?_⟩
    · have hmem := hacked item hi (hspares.held _ hheld)
      rw [List.map_cons, List.mem_cons] at hmem
      refine hmem.resolve_left fun heq => hx rfl ?_
      rw [← heq]
      exact hheld
    · refine hspares.kept id (hkept id hid hne) fun heq => hne ?_
      rw [heq]
      exact List.mem_map_of_mem (hrest x List.mem_cons_self)

/-! ## The batch -/

/-- What a poll returns is in the worker's hands, each item once. -/
structure Polled (me : ℕ) (items : List DeliveredEvent) (s : Store) : Prop where
  own : s.cluster.own me = []
  distinct : (items.map DeliveredEvent.deliveryId).Nodup
  held : ∀ item ∈ items, item.deliveryId ∈ s.hands me

/-- Part of a poll: entries still to decode, items decoded. -/
structure Decoding (me : ℕ) (rest : List Entry) (delivered : List DeliveredEvent) (s : Store) : Prop where
  own : s.cluster.own me = []
  distinct : (delivered.map DeliveredEvent.deliveryId ++ rest.map Entry.id).Nodup
  held : ∀ id ∈ delivered.map DeliveredEvent.deliveryId ++ rest.map Entry.id, id ∈ s.hands me

theorem receive_decoding {e : Entry} {rest : List Entry} {delivered delivered' : List DeliveredEvent}
    (h : Run allowed (RedisEventStream.receive d.rt delivered e) tr (.ok delivered'))
    (hex : Executes (ingestExec d.pg) me s tr t) (hs : Decoding me (e :: rest) delivered s) : Decoding me rest delivered' t := by
  have hdistinct := hs.distinct
  have hheld := hs.held
  rw [List.map_cons] at hdistinct hheld
  have howns : s.Owns me ⟨e.id,.null⟩ := by
    intro w hw
    rw [hs.own] at hw
    cases hw
  have hspares := (Store.spares_executes hex (IngestionWorker.awaits_receive _ _ _ _ _ h) howns).1
  unfold RedisEventStream.receive at h
  split at h
  · cases (Run.raise_iff.mp h).2
  · have hown : t.cluster.own me = [] := by
      have hend := then_ack h hex fun h₁ hex₁ => ?_
      · exact hend.1
      · rw [letter_own h₁ hex₁, hs.own]
    have hsame : delivered' = delivered := by
      rcases Run.bind_iff.mp h with ⟨_,_,_,-,-,h₂⟩ | ⟨x,hx,-⟩
      · rcases Run.bind_iff.mp h₂ with ⟨_,_,_,-,-,h₄⟩ | ⟨x,hx,-⟩
        · exact Except.ok.inj (Run.done_iff.mp h₄).2
        · cases hx
      · cases hx
    subst hsame
    obtain ⟨hleft,hright,hapart⟩ := List.nodup_append.mp hdistinct
    have hne : ∀ id ∈ delivered'.map DeliveredEvent.deliveryId ++ rest.map Entry.id, id ≠ e.id := by
      intro id hid
      rcases List.mem_append.mp hid with hid | hid
      · exact hapart id hid e.id List.mem_cons_self
      · rintro rfl
        exact (List.nodup_cons.mp hright).1 hid
    have hsub : (delivered'.map DeliveredEvent.deliveryId ++ rest.map Entry.id).Sublist
        (delivered'.map DeliveredEvent.deliveryId ++ e.id :: rest.map Entry.id) :=
      List.Sublist.append (List.Sublist.refl _) (List.sublist_cons_self _ _)
    exact ⟨hown,hdistinct.sublist hsub,fun id hid => hspares.kept id (hheld id (hsub.subset hid)) (hne id hid)⟩
  · obtain ⟨rfl,hout⟩ := Run.done_iff.mp h
    cases hout
    rw [Executes.nil_iff.mp hex]
    refine ⟨hs.own,?_,?_⟩
    · rw [List.map_append, List.append_assoc]
      exact hdistinct
    · rw [List.map_append, List.append_assoc]
      exact hheld

theorem readGroup_batch {r : Redis} {n : ℕ} {batch : List Entry} (h : (r.readGroup n).2 = .ok batch) :
    batch.Sublist r.entries := by
  unfold Redis.readGroup at h
  split at h
  · cases h
  · cases h
    exact (List.take_sublist _ _).trans List.filter_sublist

/-- A poll that returns items has them in the worker's hands. -/
theorem poll_polled {n : ℕ} {items : List DeliveredEvent} (h : Run allowed (RedisEventStream.poll d.rt n) tr (.ok items))
    (hex : Executes (ingestExec d.pg) me s tr t) (hne : items ≠ []) (hown : s.cluster.own me = [])
    (hids : (s.redis.entries.map Entry.id).Nodup) : Polled me items t := by
  obtain ⟨tr₁,r,tr₂,rfl,h₁,h₂⟩ := Run.resume_iff.mp h
  obtain ⟨rfl,-⟩ := Run.call_iff.mp h₁
  obtain ⟨c,u,hexec,hex₂⟩ := Executes.cons_iff.mp hex
  cases r with
  | error x =>
    change Run allowed (if respondsWith "NOGROUP" x = true then
      RedisEventStream.ensureGroup >>= fun _ => pure [] else throw x) tr₂ _ at h₂
    split at h₂
    · rcases Run.bind_iff.mp h₂ with ⟨_,_,_,-,-,h₄⟩ | ⟨y,hy,-⟩
      · exact absurd (Except.ok.inj (Run.done_iff.mp h₄).2) hne
      · cases hy
    · cases (Run.raise_iff.mp h₂).2
  | ok entries =>
    have hperform : s.perform d.pg me c.now (.xreadgroup n) = some (u,.ok entries) := performed hexec
    rw [perform_xreadgroup] at hperform
    cases hread : (s.redis.readGroup n).2 with
    | error x =>
      rw [hread] at hperform
      cases hperform
    | ok batch =>
      rw [hread] at hperform
      cases hperform
      have hstart : Decoding me entries [] (({s with redis := (s.redis.readGroup n).1} : Store).withHand me
          (entries.map Entry.id)) := by
        refine ⟨hown,hids.sublist ((readGroup_batch hread).map Entry.id),fun id hid => ?_⟩
        change id ∈ Function.update s.hands me (entries.map Entry.id) me
        rw [Function.update_self]
        exact hid
      have hend := hex₂.foldlM (Decoding me) h₂ hstart fun e rest b b' u u' tr' hrun hexec hu => receive_decoding hrun hexec hu
      refine ⟨hend.own,?_,fun item hi => hend.held _ (List.mem_append_left _ (List.mem_map_of_mem hi))⟩
      have hdistinct := hend.distinct
      rwa [List.map_nil, List.append_nil] at hdistinct

end

/-- A run of `process_batch` in which handling `bad` raises: the poll, the items before it, and its
handler, with the stores after each, and whether a COMMIT of that handler took effect. -/
structure BatchFailure (d : Deployment) (me : ℕ) (xs : List DeliveredEvent) (bad : DeliveredEvent)
    (ys : List DeliveredEvent) where
  start : Store
  own : start.cluster.own me = []
  distinct : (start.redis.entries.map Entry.id).Nodup
  polling : Trace ingestSignature Exc
  polled : Store
  polls : Run Whatever (RedisEventStream.poll d.rt d.batchSize) polling (.ok (xs ++ bad :: ys))
  polls_executes : Executes (ingestExec d.pg) me start polling polled
  handling : Trace ingestSignature Exc
  outcome : BatchOutcome
  before : Store
  handles : Run Whatever (xs.foldlM d.handle {received := (xs ++ bad :: ys).length}) handling (.ok outcome)
  handles_executes : Executes (ingestExec d.pg) me polled handling before
  failing : Trace ingestSignature Exc
  error : Exc
  after : Store
  landed : Bool
  fails : Run Whatever (d.handle outcome bad) failing (.error error)
  fails_executes : Executes (noting (ingestExec d.pg) lands) me (before,false) failing (after,landed)

/-- What the stores hold for the item is the same in both, up to the rows' time stamps. -/
structure Store.SameFor (s t : Store) (item : DeliveredEvent) : Prop where
  rows : ∀ id, item.eventId = some id → s.db.contents id = t.db.contents id
  letters : s.redis.deadLetters.filter (fun l => decide (l.origin = item.deliveryId)) =
    t.redis.deadLetters.filter fun l => decide (l.origin = item.deliveryId)

namespace BatchFailure
variable {d : Deployment} {me : ℕ} {xs ys : List DeliveredEvent} {bad : DeliveredEvent} (f : BatchFailure d me xs bad ys)

def trace : Trace ingestSignature Exc := f.polling ++ (f.handling ++ f.failing)

/-- Every other item is acknowledged, and the stores hold for it what the batch without `bad` would
have left: the same up to its turn, and then the items after it. -/
def Undisturbed : Prop :=
  (∀ item ∈ xs ++ ys, item.deliveryId ∉ f.after.hands me) ∧
  ∀ tr o t, Run Whatever (ys.foldlM d.handle f.outcome) tr (.ok o) → Executes (ingestExec d.pg) me f.before tr t →
    ∀ item ∈ xs ++ ys, f.after.SameFor t item

/-- The batch ends there. -/
theorem run : Run Whatever d.processBatch f.trace (.error f.error) := by
  refine Run.bind_iff.mpr (.inl ⟨_,_,_,rfl,f.polls,?_⟩)
  rw [List.foldlM_append]
  refine Run.bind_iff.mpr (.inl ⟨_,_,_,rfl,f.handles,?_⟩)
  rw [List.foldlM_cons]
  exact Run.bind_iff.mpr (.inr ⟨_,rfl,f.fails⟩)

theorem executes : Executes (ingestExec d.pg) me f.start f.trace f.after :=
  Executes.append_iff.mpr ⟨_,f.polls_executes,Executes.append_iff.mpr ⟨_,f.handles_executes,f.fails_executes.unnoted⟩⟩

theorem batch_polled : Polled me (xs ++ bad :: ys) f.polled :=
  poll_polled f.polls f.polls_executes (by simp) f.own f.distinct

theorem batch_handled (hl : d.py.Lawful) : Handled me xs f.polled f.before :=
  handled_items hl f.handles f.handles_executes f.batch_polled.own

theorem spares (hl : d.py.Lawful) : Store.Spares me bad f.before f.after :=
  (handle_spares hl f.fails f.fails_executes.unnoted (f.batch_handled hl).own).1

/-- An item after it stays in the worker's hands. -/
theorem still_held (hl : d.py.Lawful) {y : DeliveredEvent} (hy : y ∈ ys) : y.deliveryId ∈ f.after.hands me := by
  have hdistinct := f.batch_polled.distinct
  rw [List.map_append, List.map_cons, List.nodup_append] at hdistinct
  obtain ⟨-,hrest,hapart⟩ := hdistinct
  have hmem : y.deliveryId ∈ ys.map DeliveredEvent.deliveryId := List.mem_map_of_mem hy
  have hheld := f.batch_polled.held y (List.mem_append_right _ (List.mem_cons_of_mem _ hy))
  have hkept := (f.batch_handled hl).kept _ hheld fun hx => hapart _ hx _ (List.mem_cons_of_mem _ hmem) rfl
  refine (f.spares hl).kept _ hkept fun heq => (List.nodup_cons.mp hrest).1 ?_
  rw [← heq]
  exact hmem

/-- How the raw row of `bad` ends up marked, if its transaction is committed. -/
def mark (_ : BatchFailure d me xs bad ys) : Option (ProcessingStatus × Option Text) :=
  match bad.payload with
  | .obj payload => d.markOf payload
  | _ => none

/-- The rows of an id that an item before `bad` has. -/
theorem before_settled (hl : d.py.Lawful) {x : DeliveredEvent} (hx : x ∈ xs) {id : Uuid} (hid : x.eventId = some id) :
    (f.before.db.contents id).Settled := by
  have hloop := f.handles_executes.foldlM (fun rest (_ : BatchOutcome) u => u.cluster.own me = [] ∧
    ((u.db.contents id).Settled ∨ ∃ x ∈ rest, x.eventId = some id)) f.handles ⟨f.batch_polled.own,.inr ⟨x,hx,hid⟩⟩ ?_
  · exact hloop.2.resolve_right fun ⟨_,hmem,_⟩ => absurd hmem List.not_mem_nil
  · rintro x rest b b' u u' tr hrun hexec ⟨hown,hu⟩
    obtain ⟨hspares,hown',-⟩ := handle_spares hl hrun hexec hown
    refine ⟨hown',?_⟩
    by_cases hx : x.eventId = some id
    · exact .inl (handled_settled hl hx hrun hexec hown)
    · rcases hu with hsettled | ⟨y,hy,hyid⟩
      · exact .inl ((hspares.rows id hx).contents ▸ hsettled)
      · rcases List.mem_cons.mp hy with rfl | hy
        · exact absurd hyid hx
        · exact .inr ⟨y,hy,hyid⟩

/-- The rows of its own id, which an item before it has too. -/
theorem own_rows_iff (hl : d.py.Lawful) {id : Uuid} (hbad : bad.eventId = some id)
    (hsettled : (f.before.db.contents id).Settled) :
    f.after.db.contents id = f.before.db.contents id ↔
      (f.landed = true → f.mark = (f.before.db.contents id).marked) := by
  unfold DeliveredEvent.eventId at hbad
  split at hbad
  · rename_i payload hp
    have hmark : f.mark = d.markOf payload := by
      unfold mark
      rw [hp]
    rw [hmark]
    rcases handle_leaves hl hp hbad f.fails f.fails_executes (f.batch_handled hl).own with ⟨hlanded,hwritten⟩ | ⟨hlanded,hdb,-⟩
    · rw [hwritten.same_iff hsettled]
      exact ⟨fun h _ => h,fun h => h hlanded⟩
    · have hsame : f.after.db = f.before.db := hdb
      rw [hsame]
      refine iff_of_true rfl fun h => ?_
      cases h.symm.trans hlanded
  · cases hbad

end BatchFailure

/-- Handling `bad` raises: `process_batch` ends with that exception, and the other items are
undisturbed exactly when none comes after it and, if one before it has its id, its COMMIT took no
effect or gave the raw row the mark it had. -/
theorem failing_item_blocks_iff {d : Deployment} (hl : d.py.Lawful) {me : ℕ} {xs ys : List DeliveredEvent}
    {bad : DeliveredEvent} (f : BatchFailure d me xs bad ys) :
    (Run Whatever d.processBatch f.trace (.error f.error) ∧ Executes (ingestExec d.pg) me f.start f.trace f.after) ∧
    (f.Undisturbed ↔ ys = [] ∧ ∀ x ∈ xs, ∀ id, x.eventId = some id → bad.eventId = some id →
      f.landed = true → f.mark = (f.before.db.contents id).marked) := by
  refine ⟨⟨f.run,f.executes⟩,?_,?_⟩
  · rintro ⟨hacked,hsame⟩
    have hnone : ys = [] := List.eq_nil_iff_forall_not_mem.mpr fun y hy =>
      hacked y (List.mem_append_right _ hy) (f.still_held hl hy)
    subst hnone
    refine ⟨rfl,fun x hx id hid hbad => (f.own_rows_iff hl hbad (f.before_settled hl hx hid)).mp ?_⟩
    exact (hsame [] f.outcome f.before (.done _) (.nil _) x (List.mem_append_left _ hx)).rows id hid
  · rintro ⟨rfl,hrows⟩
    have hspares := f.spares hl
    have hhandled := f.batch_handled hl
    have hdistinct := f.batch_polled.distinct
    rw [List.map_append, List.map_cons, List.nodup_append] at hdistinct
    refine ⟨fun x hx hheld => ?_,fun tr o t hrun hex x hx => ?_⟩
    · rw [List.append_nil] at hx
      exact hhandled.acked x hx (hspares.held _ hheld)
    · rw [List.append_nil] at hx
      obtain ⟨rfl,-⟩ := Run.done_iff.mp hrun
      rw [Executes.nil_iff.mp hex]
      constructor
      · intro id hid
        by_cases hbad : bad.eventId = some id
        · exact (f.own_rows_iff hl hbad (f.before_settled hl hx hid)).mpr (hrows x hx id hid hbad)
        · exact (hspares.rows id hbad).contents
      · obtain ⟨new,hnew,horigin⟩ := hspares.letters
        have hnone : new.filter (fun l => decide (l.origin = x.deliveryId)) = [] := by
          refine List.filter_eq_nil_iff.mpr fun l hm => ?_
          have hne := hdistinct.2.2 x.deliveryId (List.mem_map_of_mem hx) bad.deliveryId List.mem_cons_self
          rw [horigin l hm]
          simpa using Ne.symm hne
        rw [hnew, List.filter_append, hnone, List.append_nil]

/-! ## An entry that is no dictionary, and one without an id -/

@[irreducible] def arrayFields : Fields := [(text "data",text "[]")]

@[irreducible] def flatFields : Fields := [(text "data",text "\x7b\"a\": \"b\"\x7d")]

def isArray : Except Exc (Option Json) → Bool
  | .ok (some (.arr [])) => true
  | _ => false

def isAnonymous : Except Exc (Option Json) → Bool
  | .ok (some (.obj [(k,.str _)])) => decide (k ≠ text "id")
  | _ => false

theorem arrayFields_decode : RedisEventStream.decode plain.rt arrayFields = .ok (some (.arr [])) := by
  have h : isArray (RedisEventStream.decode plain.rt arrayFields) = true := by
    rw [arrayFields, text_ofList, text_ofList]
    decide
  unfold isArray at h
  split at h
  · assumption
  · cases h

theorem flatFields_decode : ∃ k t, RedisEventStream.decode plain.rt flatFields = .ok (some (.obj [(k,.str t)])) ∧
    k ≠ text "id" := by
  have h : isAnonymous (RedisEventStream.decode plain.rt flatFields) = true := by
    rw [flatFields, text_ofList, text_ofList]
    decide
  unfold isAnonymous at h
  split at h
  · exact ⟨_,_,by assumption,of_decide_eq_true h⟩
  · cases h

theorem receive_payload {rt : Runtime} {e : Entry} {p : Json} (h : RedisEventStream.decode rt e.fields = .ok (some p))
    (delivered : List DeliveredEvent) : RedisEventStream.receive rt delivered e = .done (delivered ++ [⟨e.id,p⟩]) := by
  unfold RedisEventStream.receive
  rw [h]
  rfl

/-- Two entries, and a worker that has not polled them. -/
def twoEntries (a b : Fields) : Store :=
  {cluster := {db := ⟨.empty,.empty,.empty,.empty⟩}, redis := {entries := [⟨1,a⟩,⟨2,b⟩], lastId := 2, group := some ⟨0,[]⟩}}

def twoPolled (a b : Fields) : Store :=
  ({twoEntries a b with redis := ((twoEntries a b).redis.readGroup 100).1} : Store).withHand 0 [1,2]

section
variable {a b : Fields} {p q : Json}

theorem polls_two (ha : RedisEventStream.decode plain.rt a = .ok (some p))
    (hb : RedisEventStream.decode plain.rt b = .ok (some q)) :
    Run Whatever (RedisEventStream.poll plain.rt plain.batchSize) [⟨.xreadgroup 100,.ok [⟨1,a⟩,⟨2,b⟩]⟩] (.ok [⟨1,p⟩,⟨2,q⟩]) := by
  refine .await trivial ?_
  change Run Whatever ([(⟨1,a⟩ : Entry),⟨2,b⟩].foldlM (RedisEventStream.receive plain.rt) []) [] _
  have hfirst := receive_payload (e := ⟨1,a⟩) ha []
  have hsecond := receive_payload (e := ⟨2,b⟩) hb [⟨1,p⟩]
  rw [List.foldlM_cons, hfirst, Task.done_bind, List.foldlM_cons]
  change Run Whatever (RedisEventStream.receive plain.rt [⟨1,p⟩] ⟨2,b⟩ >>= _) [] _
  rw [hsecond]
  exact .done _

theorem polls_two_executes : Executes (ingestExec plain.pg) 0 (twoEntries a b)
    [⟨.xreadgroup 100,.ok [⟨1,a⟩,⟨2,b⟩]⟩] (twoPolled a b) := by
  refine .cons ⟨.none,0⟩ ?_ (.nil _)
  change (twoEntries a b).perform plain.pg 0 0 (.xreadgroup 100) = _
  rw [perform_xreadgroup]
  rfl

/-- A payload without an id is dead-lettered and acknowledged. -/
theorem flat_handled {k : Text} (hk : k ≠ text "id") (t : Text) (n : ℕ) (outcome : BatchOutcome) (s : Store) :
    ∃ tr u, Run Whatever (plain.handle outcome ⟨n,.obj [(k,.str t)]⟩) tr (.ok {outcome with rejected := outcome.rejected + 1}) ∧
      Executes (ingestExec plain.pg) 0 s tr u := by
  obtain ⟨data,hdata⟩ := Option.isSome_iff_exists.mp (plain.rt.dumps_flat k t)
  have hid : extractId [(k,.str t)] = none := by
    simp [extractId,PyJson.get,hk]
  have hhandle : plain.handle outcome ⟨n,.obj [(k,.str t)]⟩ = (do
      ingest (.xaddDead ⟨n,data,text "missing_or_invalid_id"⟩)
      RedisEventStream.ack n
      return {outcome with rejected := outcome.rejected + 1}) := by
    unfold IngestionWorker.handle
    simp only [hid]
    unfold RedisEventStream.deadLetter
    rw [hdata]
  have hrun : Run Whatever (plain.handle outcome ⟨n,.obj [(k,.str t)]⟩)
      [⟨.xaddDead ⟨n,data,text "missing_or_invalid_id"⟩,.ok ()⟩,⟨.xack n,.ok ()⟩]
      (.ok {outcome with rejected := outcome.rejected + 1}) := by
    rw [hhandle]
    exact .await trivial (.await trivial (.done _))
  exact ⟨_,_,hrun,.cons ⟨.none,0⟩ rfl (.cons ⟨.none,0⟩ rfl (.nil _))⟩

/-- The batch of the two, where the second is no dictionary. -/
theorem array_last {k t : Text} (ha : RedisEventStream.decode plain.rt a = .ok (some (.obj [(k,.str t)]))) (hk : k ≠ text "id")
    (hb : RedisEventStream.decode plain.rt b = .ok (some (.arr []))) :
    Nonempty (BatchFailure plain 0 [⟨1,.obj [(k,.str t)]⟩] ⟨2,.arr []⟩ []) := by
  obtain ⟨tr,u,hrun,hexec⟩ := flat_handled hk t 1 {received := 2} (twoPolled a b)
  exact ⟨{
    start := twoEntries a b
    own := rfl
    distinct := (by decide : [1,2].Nodup)
    polling := _
    polled := twoPolled a b
    polls := polls_two ha hb
    polls_executes := polls_two_executes
    handling := tr
    outcome := {received := 2, rejected := 1}
    before := u
    handles := by
      rw [List.foldlM_cons]
      exact Run.bind_iff.mpr (.inl ⟨tr,_,[],(List.append_nil _).symm,hrun,.done _⟩)
    handles_executes := hexec
    failing := []
    error := pythonError "AttributeError"
    after := u
    landed := false
    fails := .raise _
    fails_executes := .nil _ }⟩

/-- The batch of the two, where the first is no dictionary. -/
def arrayFailure (ha : RedisEventStream.decode plain.rt a = .ok (some (.arr [])))
    (hb : RedisEventStream.decode plain.rt b = .ok (some q)) : BatchFailure plain 0 [] ⟨1,.arr []⟩ [⟨2,q⟩] where
  start := twoEntries a b
  own := rfl
  distinct := (by decide : [1,2].Nodup)
  polling := _
  polled := twoPolled a b
  polls := polls_two ha hb
  polls_executes := polls_two_executes
  handling := []
  outcome := {received := 2}
  before := twoPolled a b
  handles := .done _
  handles_executes := .nil _
  failing := []
  error := pythonError "AttributeError"
  after := twoPolled a b
  landed := false
  fails := .raise _
  fails_executes := .nil _

end

/-- With the array behind it, the other entry has been handled. -/
theorem failing_item_blocks_array : ∃ p, ∃ f : BatchFailure plain 0 [⟨1,p⟩] ⟨2,.arr []⟩ [],
    (Run Whatever plain.processBatch f.trace (.error f.error) ∧ Executes (ingestExec plain.pg) 0 f.start f.trace f.after) ∧
    f.Undisturbed := by
  obtain ⟨k,t,hp,hk⟩ := flatFields_decode
  obtain ⟨f⟩ := array_last hp hk arrayFields_decode
  obtain ⟨hruns,hiff⟩ := failing_item_blocks_iff plainPydantic_lawful f
  exact ⟨_,f,hruns,hiff.mpr ⟨rfl,fun x _ id _ hbad => by cases hbad⟩⟩

/-- Behind the array, it would have been handled, and is not. -/
theorem array_blocks_batch : ∃ p, ∃ f : BatchFailure plain 0 [] ⟨1,.arr []⟩ [⟨2,p⟩],
    (∃ tr o t, Run Whatever ([(⟨2,p⟩ : DeliveredEvent)].foldlM plain.handle f.outcome) tr (.ok o) ∧
      Executes (ingestExec plain.pg) 0 f.before tr t) ∧ ¬ f.Undisturbed := by
  obtain ⟨k,t,hp,hk⟩ := flatFields_decode
  refine ⟨_,arrayFailure arrayFields_decode hp,?_,fun h => h.1 _ (List.mem_singleton_self _)
    ((arrayFailure arrayFields_decode hp).still_held plainPydantic_lawful (List.mem_singleton_self _))⟩
  obtain ⟨tr,u,hrun,hexec⟩ := flat_handled hk t 2 {received := 2} (twoPolled arrayFields flatFields)
  have hall : Run Whatever ([(⟨2,.obj [(k,.str t)]⟩ : DeliveredEvent)].foldlM plain.handle {received := 2}) tr
      (.ok {received := 2, rejected := 1}) := by
    rw [List.foldlM_cons]
    exact Run.bind_iff.mpr (.inl ⟨tr,_,[],(List.append_nil _).symm,hrun,.done _⟩)
  exact ⟨tr,_,u,hall,hexec⟩

end InferenceLogger
