import InferenceLogger.Streaming.InBand
import InferenceLogger.Streaming.Partial
import InferenceLogger.Streaming.Teardown

/-! # What a response has handed over

In any interleaving, with a client that may leave at any moment: the frames the response has
received are the first ones of a run of the turn, and the turn is never far ahead of them.
-/
namespace InferenceLogger.Sse
open Transition
variable {α : Type} {b b' : Bridge α}

theorem step_yields {a : α} (he : step b (.sourceYields a) = some b') :
    b.producer = .pulling ∧ b'.pulled = b.pulled ++ [a] ∧ (b'.producer = .pulling ∨ b'.producer = .putting a) := by
  simp only [step] at he
  split at he
  · rename_i hp
    split at he <;> cases he
    · exact ⟨hp,rfl,.inl hp⟩
    · exact ⟨hp,rfl,.inr rfl⟩
  · cases he

theorem step_resumes (he : step b .putResumes = some b') :
    (∃ a, b.producer = .putting a) ∧ b'.pulled = b.pulled ∧ b'.producer = .pulling := by
  simp only [step] at he
  split at he
  · rename_i a hp
    split at he <;> cases he
    exact ⟨⟨a,hp⟩,rfl,rfl⟩
  · cases he

theorem step_ends {how : End} (he : step b (.sourceEnds how) = some b') :
    b.producer = .pulling ∧ b' = finish b how := by
  simp only [step] at he
  split at he
  · rename_i hp
    cases he
    exact ⟨hp,rfl⟩
  · cases he

theorem step_dropped (he : step b .putCancelled = some b') :
    (∃ a, b.producer = .putting a) ∧ b' = finish b .cancelled := by
  simp only [step] at he
  split at he
  · rename_i a hp
    split at he <;> cases he
    exact ⟨⟨a,hp⟩,rfl⟩
  · cases he

/-- Only the source adds to what was pulled. -/
theorem step_pulled {act : Action α} (ha : act.isElsewhere = true) (he : step b act = some b') : b'.pulled = b.pulled := by
  cases act with
  | sourceYields a => cases ha
  | sourceEnds how => cases ha
  | putResumes => cases ha
  | putCancelled => cases ha
  | get =>
    simp only [step] at he
    split at he <;> cases he <;> rfl
  | consumerEnds =>
    simp only [step] at he
    split at he
    · split at he <;> cases he
      rfl
    · cases he
  | watcherChecks disconnected =>
    simp only [step] at he
    split at he
    · cases he
      rfl
    · split at he <;> cases he <;> rfl
    · cases he
  | _ =>
    simp only [step] at he
    split at he <;> cases he <;> rfl

/-! ## Back-pressure -/

/-- The frames the producer holds besides the queue; a cancelled one may have been dropped. -/
def Producer.allowance : Producer α → ℕ
  | .pulling => 0
  | .putting _ => 1
  | .finished _ => 1

/-- The queue is bounded, and what was pulled is on it or has been received, but for one frame. -/
structure Paced (b : Bridge α) : Prop where
  bounded : b.queue.length ≤ queueSize
  close : b.pulled.length ≤ b.yielded.length + (frames b.queue).length + b.producer.allowance

theorem frames_length (q : List (Slot α)) : (frames q).length ≤ q.length := List.length_filterMap_le _ _

theorem start_paced : Paced (start α) := ⟨by simp [start],by simp [start]⟩

theorem room_iff {q : List (Slot α)} : room q = true ↔ q.length < queueSize := by simp [room]

theorem finish_paced (how : End) (h : Paced b) : Paced (finish b how) := by
  refine ⟨?_,?_⟩
  · unfold finish
    dsimp only
    split
    · rename_i hroom
      have hlt := room_iff.mp hroom
      rw [List.length_append, List.length_singleton]
      omega
    · exact h.bounded
  · have hclose := h.close
    have hall : b.producer.allowance ≤ 1 := by
      cases b.producer <;> simp [Producer.allowance]
    rw [finish_pulled, finish_yielded, finish_frames, finish_producer]
    change _ ≤ _ + 1
    omega

/-- The queue and the reading side alone have moved on. -/
theorem Paced.congr (h : Paced b) (hqueue : b'.queue = b.queue) (hpulled : b'.pulled = b.pulled)
    (hyielded : b'.yielded = b.yielded) (hproducer : b'.producer = b.producer) : Paced b' := by
  refine ⟨by rw [hqueue]; exact h.bounded,?_⟩
  rw [hpulled, hyielded, hqueue, hproducer]
  exact h.close

theorem step_paced {act : Action α} (h : Paced b) (he : step b act = some b') : Paced b' := by
  have hbound := h.bounded
  have hclose := h.close
  cases act with
  | sourceYields a =>
    simp only [step] at he
    split at he
    · rename_i hp
      rw [hp] at hclose
      change _ ≤ _ + 0 at hclose
      split at he <;> cases he
      · rename_i hroom
        have hlt := room_iff.mp hroom
        refine ⟨by rw [List.length_append, List.length_singleton]; omega,?_⟩
        simp only [frames_append, frames_cons_frame, frames_nil, List.length_append, List.length_singleton]
        omega
      · refine ⟨hbound,?_⟩
        simp only [List.length_append, List.length_singleton]
        change _ ≤ _ + 1
        omega
    · cases he
  | sourceEnds how =>
    obtain ⟨-,rfl⟩ := step_ends he
    exact finish_paced how h
  | putResumes =>
    simp only [step] at he
    split at he
    · rename_i a hp
      rw [hp] at hclose
      change _ ≤ _ + 1 at hclose
      split at he <;> cases he
      rename_i hroom
      have hlt := room_iff.mp hroom
      refine ⟨by rw [List.length_append, List.length_singleton]; omega,?_⟩
      simp only [frames_append, frames_cons_frame, frames_nil, List.length_append, List.length_singleton]
      change _ ≤ _ + 0
      omega
    · cases he
  | putCancelled =>
    obtain ⟨-,rfl⟩ := step_dropped he
    exact finish_paced .cancelled h
  | get =>
    simp only [step] at he
    split at he
    · rename_i a q hc hq
      cases he
      rw [hq] at hbound hclose
      simp only [List.length_cons, frames_cons_frame] at hbound hclose
      refine ⟨by dsimp only; omega,?_⟩
      simp only [List.length_append, List.length_singleton]
      omega
    · rename_i q hc hq
      cases he
      rw [hq] at hbound hclose
      simp only [List.length_cons, frames_cons_marker] at hbound hclose
      exact ⟨by simp only [close]; omega,hclose⟩
    · cases he
  | consumerEnds =>
    simp only [step] at he
    split at he
    · split at he <;> cases he
      exact h.congr rfl rfl rfl rfl
    · cases he
  | watcherChecks disconnected =>
    simp only [step] at he
    split at he
    · cases he
      exact h.congr rfl rfl rfl rfl
    · split at he <;> cases he <;> exact h.congr rfl rfl rfl rfl
    · cases he
  | _ =>
    simp only [step] at he
    split at he <;> cases he <;> exact h.congr rfl rfl rfl rfl

end InferenceLogger.Sse

namespace InferenceLogger
open PyText PyJson AsyncTask Transition

variable {B : Signature} {Y : Type}

/-! ## The bridge behind a response -/

/-- What a step of the response does to its bridge and to its source. -/
theorem Underway.step_cases {s s' : Underway B} {m : Move B} (he : s.step m = some s') :
    (∃ reply op k, m = .answered reply ∧ s.bridge.producer = .pulling ∧ s.source = .await (.base op) k ∧
      s' = {s with source := k (reply op), heard := s.heard ++ [⟨.base op,reply op⟩]}) ∨
    (∃ y k b, s.source = .await (.yield y) k ∧ Sse.step s.bridge (.sourceYields y) = some b ∧
      s' = ({s with bridge := b} : Underway B).afterPut) ∨
    (∃ how b, Sse.step s.bridge (.sourceEnds how) = some b ∧ s' = {s with bridge := b}) ∨
    (∃ b, Sse.step s.bridge .putResumes = some b ∧ s' = ({s with bridge := b} : Underway B).ask) ∨
    (∃ b, Sse.step s.bridge .putCancelled = some b ∧ s' = {s with bridge := b}) ∨
    (∃ act b, Sse.Action.isElsewhere act = true ∧ Sse.step s.bridge act = some b ∧ s' = {s with bridge := b}) := by
  cases m with
  | answered reply =>
    simp only [Underway.step] at he
    split at he
    · rename_i op k hprod hsource
      cases he
      exact .inl ⟨reply,op,k,rfl,hprod,hsource,rfl⟩
    · cases he
  | pulled =>
    simp only [Underway.step] at he
    split at he
    · rename_i y k hsource
      obtain ⟨b,hb,rfl⟩ := Option.map_eq_some_iff.mp he
      exact .inr (.inl ⟨y,k,b,hsource,hb,rfl⟩)
    · cases he
    · obtain ⟨b,hb,rfl⟩ := Option.map_eq_some_iff.mp he
      exact .inr (.inr (.inl ⟨_,b,hb,rfl⟩))
    · obtain ⟨b,hb,rfl⟩ := Option.map_eq_some_iff.mp he
      exact .inr (.inr (.inl ⟨_,b,hb,rfl⟩))
  | bridged act =>
    cases act with
    | sourceYields y => cases he
    | sourceEnds how => cases he
    | putResumes =>
      obtain ⟨b,hb,rfl⟩ := Option.map_eq_some_iff.mp he
      exact .inr (.inr (.inr (.inl ⟨b,hb,rfl⟩)))
    | putCancelled =>
      obtain ⟨b,hb,rfl⟩ := Option.map_eq_some_iff.mp he
      exact .inr (.inr (.inr (.inr (.inl ⟨b,hb,rfl⟩))))
    | _ =>
      obtain ⟨b,hb,rfl⟩ := Option.map_eq_some_iff.mp he
      exact .inr (.inr (.inr (.inr (.inr ⟨_,b,rfl,hb,rfl⟩))))

/-- Every state of the response holds a reachable state of the bridge. -/
theorem run_bridge {guard : Underway B → Move B → Prop} {t : Turn B} {s : Underway B}
    (h : Guarded Underway.step guard (serve t) s) : Reach Sse.step (Sse.start Text) s.bridge := by
  refine h.invariant (I := fun s => Reach Sse.step (Sse.start Text) s.bridge) (.refl _) ?_
  intro s m s' hs _ he
  rcases Underway.step_cases he with ⟨reply,op,k,-,-,-,rfl⟩ | ⟨y,k,b,-,hb,rfl⟩ | ⟨how,b,hb,rfl⟩ | ⟨b,hb,rfl⟩ | ⟨b,hb,rfl⟩ |
    ⟨act,b,-,hb,rfl⟩
  · exact hs
  · rw [afterPut_bridge]
    exact hs.step trivial hb
  · exact hs.step trivial hb
  · rw [ask_bridge]
    exact hs.step trivial hb
  · exact hs.step trivial hb
  · exact hs.step trivial hb

/-- What is left of the source carries on, whatever is cancelled. -/
theorem step_carriesOn {t : Turn B} {s s' : Underway B} {m : Move B} (hs : CarriesOn t s) (hp : m.Possible)
    (he : s.step m = some s') : CarriesOn t s' := by
  rcases Underway.step_cases he with ⟨reply,op,k,rfl,-,hsource,rfl⟩ | ⟨y,k,b,-,hb,rfl⟩ | ⟨how,b,hb,
    rfl⟩ | ⟨b,hb,rfl⟩ | ⟨b,hb,rfl⟩ |
    ⟨act,b,-,hb,rfl⟩
  · intro tr out hr
    rw [List.append_assoc]
    apply hs
    rw [hsource]
    exact .await (hp op) hr
  · exact CarriesOn.afterPut hs
  · exact hs
  · exact CarriesOn.ask hs
  · exact hs
  · exact hs

/-! ## The frames it was given -/

/-- The source is at the `yield` of the last frame that was pulled, or past it. -/
def Handed (s : Underway B) : Prop :=
  (s.bridge.pulled = yielded s.heard ∧ ∀ y, s.bridge.producer ≠ .putting y) ∨
    ∃ y k, s.source = .await (.yield y) k ∧ s.bridge.pulled = yielded s.heard ++ [y] ∧ s.bridge.producer ≠ .pulling

theorem Handed.pulling {s : Underway B} (h : Handed s) (hp : s.bridge.producer = .pulling) :
    s.bridge.pulled = yielded s.heard := by
  rcases h with ⟨hpulled,-⟩ | ⟨-,-,-,-,hnot⟩
  · exact hpulled
  · exact absurd hp hnot

theorem Handed.putting {s : Underway B} (h : Handed s) {a : Text} (hp : s.bridge.producer = .putting a) :
    ∃ y k, s.source = .await (.yield y) k ∧ s.bridge.pulled = yielded s.heard ++ [y] := by
  rcases h with ⟨-,hnot⟩ | ⟨y,k,hsource,hpulled,-⟩
  · exact absurd hp (hnot a)
  · exact ⟨y,k,hsource,hpulled⟩

/-- The frame at whose `yield` the source stands is heard once it is asked for the next one. -/
theorem yielded_ask {s : Underway B} {y : Text} {k} (hsource : s.source = .await (.yield y) k) :
    yielded s.ask.heard = yielded s.heard ++ [y] := by
  unfold Underway.ask
  rw [hsource]
  dsimp only
  rw [yielded_append]
  rfl

theorem step_handed {s s' : Underway B} {m : Move B} (hs : Handed s) (he : s.step m = some s') : Handed s' := by
  rcases Underway.step_cases he with ⟨reply,op,k,-,hp,-,rfl⟩ | ⟨y,k,b,hsource,hb,rfl⟩ | ⟨how,b,hb,
    rfl⟩ | ⟨b,hb,rfl⟩ | ⟨b,hb,rfl⟩ |
    ⟨act,b,ha,hb,rfl⟩
  · refine .inl ⟨?_,by simp [hp]⟩
    rw [hs.pulling hp, yielded_append]
    simp [yielded,yieldOf]
  · obtain ⟨hp,hpulled,hnext⟩ := Sse.step_yields hb
    rw [hs.pulling hp] at hpulled
    rcases hnext with hnext | hnext
    · refine .inl ⟨?_,by simp [hnext]⟩
      rw [afterPut_bridge]
      unfold Underway.afterPut
      simp only [hnext]
      rw [yielded_ask (s := {s with bridge := b}) hsource]
      exact hpulled
    · refine .inr ⟨y,k,?_,?_,by simp [hnext]⟩
      · unfold Underway.afterPut
        simp only [hnext]
        exact hsource
      · rw [afterPut_bridge]
        unfold Underway.afterPut
        simp only [hnext]
        exact hpulled
  · obtain ⟨hp,rfl⟩ := Sse.step_ends hb
    exact .inl ⟨hs.pulling hp,by simp⟩
  · obtain ⟨⟨a,hp⟩,hpulled,hnext⟩ := Sse.step_resumes hb
    obtain ⟨y,k,hsource,hy⟩ := hs.putting hp
    refine .inl ⟨?_,by simp [hnext]⟩
    rw [ask_bridge, yielded_ask (s := {s with bridge := b}) hsource]
    exact hpulled.trans hy
  · obtain ⟨⟨a,hp⟩,rfl⟩ := Sse.step_dropped hb
    obtain ⟨y,k,hsource,hy⟩ := hs.putting hp
    exact .inr ⟨y,k,hsource,hy,by simp⟩
  · have hproducer := Sse.step_elsewhere ha hb
    have hpulled := Sse.step_pulled ha hb
    unfold Handed
    dsimp only
    rw [hproducer, hpulled]
    exact hs

theorem run_handed {guard : Underway B → Move B → Prop} {t : Turn B} {s : Underway B}
    (h : Guarded Underway.step guard (serve t) s) : Handed s :=
  h.invariant (.inl ⟨rfl,by simp [serve,Sse.start]⟩) fun _ _ _ hs _ he => step_handed hs he

/-- A source that goes on hands over what was pulled, and more. -/
theorem Handed.continued {s : Underway B} (h : Handed s) {tr : FrameTrace (markedSignature B)} {out : Except Exc Unit}
    (hr : Run (Drained PossibleAnswer) s.source tr out) : s.bridge.pulled <+: yielded (s.heard ++ tr) := by
  rw [yielded_append]
  rcases h with ⟨hpulled,-⟩ | ⟨y,k,hsource,hpulled,-⟩
  · rw [hpulled]
    exact List.prefix_append _ _
  · rw [hsource] at hr
    obtain ⟨r,rest,rfl,-,-⟩ := Run.await_iff.mp hr
    rw [hpulled]
    apply (List.prefix_append_right_inj _).mpr
    exact ⟨yielded rest,rfl⟩

/-- What comes back at every `await` from now on. -/
def lastReply : (op : ChatOp (markedSignature B)) → Except Exc ((chatSignature (markedSignature B)).Answer op)
  | .call (.inner (.own _)) => .error cancelled
  | .call (.inner (.enter _)) => .ok ()
  | .call (.inner (.leave _)) => .ok ()
  | .call .uuid4 => .ok (0 : Uuid)
  | .call .now => .ok (0 : ℤ)
  | .call .monotonic => .ok (0 : ℕ)
  | .call (.createPublish _) => .ok ()
  | .call (.awaitPublish _) => .ok ()
  | .sql _ _ => .error cancelled
  | .awaitShield => .error cancelled
  | .monotonic => .ok (0 : ℕ)

theorem lastReply_possible (op : ChatOp (markedSignature B)) : PossibleAnswer op (lastReply op) := by
  have hforeign : ∀ e, (.error cancelled : Except Exc Unit) = .error e → e.isForeign = true ∧ e.isCancelled = true := by
    intro e he
    cases he
    exact ⟨rfl,rfl⟩
  constructor
  · rcases op with (op | _ | _ | _ | _ | _) | ⟨d,stmt⟩ | _ | _
    · rcases op with op | l | l
      · intro e he
        cases he
        rfl
      · intro e he
        cases he
      · intro e he
        cases he
    · exact ⟨_,rfl⟩
    · exact ⟨_,rfl⟩
    · exact ⟨_,rfl⟩
    · exact ⟨_,rfl⟩
    · intro e he
      cases he
    · intro e he
      cases he
      rfl
    · exact hforeign
    · exact ⟨_,rfl⟩
  · intro hmark
    rcases op with ((op | l | l) | _ | _ | _ | _ | _) | ⟨d,stmt⟩ | _ | _ <;>
      first | exact ⟨(),rfl⟩ | exact hmark.elim

def lastAnswer : (op : GenOp (chatSignature (markedSignature B)) Y) →
    Except Exc ((genSignature (chatSignature (markedSignature B)) Y).Answer op)
  | .base op => lastReply op
  | .yield _ => .ok ()

/-- Whatever is left of a generator can still be run to its end. -/
theorem run_on {α : Type} (gen : Gen (chatSignature (markedSignature B)) Y Exc α) :
    ∃ tr out, Run (Drained PossibleAnswer) gen tr out := by
  have hanswer : ∀ (_ : ℕ) (op : GenOp (chatSignature (markedSignature B)) Y), Drained PossibleAnswer op (lastAnswer op) := by
    intro _ op
    cases op with
    | base op => exact lastReply_possible op
    | «yield» y => exact rfl
  exact ⟨_,_,drive_run hanswer 0 gen⟩

/-! ## The turn behind the frames -/

def withoutMark : Event (chatSignature (markedSignature B)) Exc → Option (Event (chatSignature (markedSignature B)) Exc)
  | ⟨.call (.inner (.enter _)),_⟩ => none
  | ⟨.call (.inner (.leave _)),_⟩ => none
  | e => some e

/-- What was awaited, without the marks. -/
def awaited (tr : Trace (genSignature (chatSignature (markedSignature B)) Y) Exc) :
    Trace (chatSignature (markedSignature B)) Exc :=
  (bases tr).filterMap withoutMark

theorem awaited_append (tr₁ tr₂ : Trace (genSignature (chatSignature (markedSignature B)) Y) Exc) :
    awaited (tr₁ ++ tr₂) = awaited tr₁ ++ awaited tr₂ := by
  unfold awaited
  rw [bases_append, List.filterMap_append]

/-- A run of the chain is a run of the turn, whose events are the frames. -/
theorem chain_run {t : Turn B} {tr : FrameTrace (markedSignature B)} {out : Except Exc Unit}
    (h : Run (Drained PossibleAnswer) t.chain tr out) :
    ∃ events ended, Run (Drained PossibleAnswer) (t.withAdapter t.adapter.unmarked).stream events ended ∧
      awaited events = awaited tr ∧ (yielded events).map toSse = yielded tr := by
  obtain ⟨plain,hplain,hsame⟩ := (erases_chain t).run h
  have hyields : yielded plain = yielded tr := by
    apply hsame
    rintro ⟨op | y,r⟩ hmark
    · rfl
    · exact hmark.elim
  have hawaited : awaited plain = awaited tr := by
    unfold awaited bases
    rw [List.filterMap_filterMap, List.filterMap_filterMap]
    apply hsame
    rintro ⟨op | y,r⟩ hmark
    · rcases op with (op | _ | _ | _ | _ | _) | _ | _ | _
      · rcases op with op | l | l
        · exact hmark.elim
        · rfl
        · rfl
      all_goals exact hmark.elim
    · rfl
  have hchain : Run (Drained PossibleAnswer) (framesOf (t.withAdapter t.adapter.unmarked).stream) plain out := hplain
  unfold framesOf at hchain
  rcases Run.bind_iff.mp hchain with ⟨tr₁,a,tr₂,rfl,h₁,h₂⟩ | ⟨e,-,h₁⟩
  · obtain ⟨source,ended,hs,ho,hb,hy⟩ := asyncFor_relay_drained h₁
    cases ho
    obtain ⟨rfl,-⟩ := Run.ofExcept_iff.mp h₂
    rw [List.append_nil] at hyields hawaited
    refine ⟨source,ended,hs,?_,?_⟩
    · rw [← hawaited]
      unfold awaited
      rw [hb]
    · rw [← hyields, hy]
      exact (List.filterMap_eq_map).symm ▸ rfl
  · obtain ⟨source,ended,-,ho,-⟩ := asyncFor_relay_drained h₁
    cases ho

/-- At every moment, the frames the response has received are the first ones of a run of the turn
that goes on from what the turn has been answered so far. -/
theorem response_follows {t : Turn B} {s : Underway B} (h : Guarded Underway.step (fun _ m => m.Possible) (serve t) s) :
    ∃ events ended, Run (Drained PossibleAnswer) (t.withAdapter t.adapter.unmarked).stream events ended ∧
      awaited s.heard <+: awaited events ∧ s.bridge.yielded <+: (yielded events).map toSse := by
  have hcarries : CarriesOn t s := h.invariant (serve_sound t).carriesOn fun _ _ _ hs hg he => step_carriesOn hs hg he
  obtain ⟨tr,out,hr⟩ := run_on s.source
  obtain ⟨events,ended,hrun,hawaited,hyields⟩ := chain_run (hcarries tr out hr)
  refine ⟨events,ended,hrun,?_,?_⟩
  · rw [hawaited, awaited_append]
    exact List.prefix_append _ _
  · rw [hyields]
    obtain ⟨dropped,hp,-⟩ := Sse.reach_accounted (run_bridge h)
    have hreceived : s.bridge.yielded <+: s.bridge.pulled := by
      rw [hp, List.append_assoc, List.append_assoc]
      exact List.prefix_append _ _
    exact hreceived.trans ((run_handed h).continued hr)

/-! ## How far the turn is ahead -/

/-- However fast the provider and however slow the client, the queue is bounded, and the chain
has been resumed for one frame more than fit on it beyond those the response has received. -/
theorem never_far_ahead {guard : Underway B → Move B → Prop} {t : Turn B} {s : Underway B}
    (h : Guarded Underway.step guard (serve t) s) :
    s.bridge.queue.length ≤ Sse.queueSize ∧ (yielded s.heard).length ≤ s.bridge.yielded.length + Sse.queueSize + 1 := by
  have hpaced : Sse.Paced s.bridge :=
    (run_bridge h).invariant Sse.start_paced fun _ _ _ hs _ he => Sse.step_paced hs he
  have hclose := hpaced.close
  have hbounded := hpaced.bounded
  have hframes := Sse.frames_length s.bridge.queue
  have hallowance : s.bridge.producer.allowance ≤ 1 := by
    cases s.bridge.producer <;> simp [Sse.Producer.allowance]
  have hheard : (yielded s.heard).length ≤ s.bridge.pulled.length := by
    rcases run_handed h with ⟨hpulled,-⟩ | ⟨y,k,-,hpulled,-⟩
    · rw [hpulled]
    · rw [hpulled, List.length_append]
      omega
  exact ⟨hbounded,by omega⟩

/-- A provider that sends eighty chunks to a client that takes one. -/
theorem never_far_ahead_stalled :
    (((serve (quietTurn (chatter 80))).fed 200).bridge.queue.length ≤ Sse.queueSize ∧
      (yielded ((serve (quietTurn (chatter 80))).fed 200).heard).length ≤
        ((serve (quietTurn (chatter 80))).fed 200).bridge.yielded.length + Sse.queueSize + 1) :=
  never_far_ahead (fed_run 200 _)

/-! ## What is shown is kept -/

theorem shownText_yielded (tr : ChatTrace B) : shownText (yielded tr) = ((deliveries tr).map Prod.fst).flatten := by
  unfold shownText yielded deliveries
  rw [List.filterMap_filterMap, List.map_filterMap]
  congr 1
  apply List.filterMap_congr
  rintro ⟨op,r⟩ -
  rcases op with op | (_ | _ | _ | _ | _) <;> rfl

theorem shownText_mono {events events' : List ChatStreamEvent} (h : events <+: events') :
    shownText events <+: shownText events' := by
  obtain ⟨rest,rfl⟩ := h
  unfold shownText
  rw [List.filterMap_append, List.flatten_append]
  exact List.prefix_append _ _

/-- The call ended with the reply, whose transaction nothing cut short, or with an exception
that keeps what came before it. -/
def KeepsText (tr : ChatTrace B) (exit : Except Exc Unit) : Prop :=
  (exit = .ok () ∧ Landed (statements false tr)) ∨ ∃ e, exit = .error e ∧ savesPartial e = true

theorem Unanswered.shows_nothing {t : Turn B} {tr : ChatTrace B} {out : Except Exc Unit} (h : Unanswered t tr out) :
    deliveries tr = [] := by
  cases h with
  | refused _ _ htr =>
    subst htr
    rw [deliveries_append, deliveries_map]
    rfl
  | crashed _ _ htr =>
    subst htr
    exact deliveries_map _ _
  | unstarted _ htr =>
    subst htr
    rw [deliveries_append, deliveries_map]
    rfl

/-- A turn whose events were all received shows all its provider sent, and keeps what it shows
by the way its call ended. -/
theorem drained_kept {t : Turn B} {tr : ChatTrace B} {out : Except Exc Unit} (h : Run AvailableChat t.stream tr out)
    (hd : ∀ y e, ⟨.yield y,.error e⟩ ∉ tr) :
    (calls tr = [] ∧ shownText (yielded tr) = []) ∨ ∃ c request call got exit, Answering t tr c request call got exit ∧
      shownText (yielded tr) = (texts got).flatten ∧
      (isBlank (shownText (yielded tr)) = false → (SavedOnce tr c.id (shownText (yielded tr)) ↔ KeepsText tr exit)) := by
  have ha := h.answers
  rcases responded_of_run (h.mono fun _ _ => AvailableChat.possible) with hu | ⟨c,request,call,got,exit,body,rest,parts,hr⟩
  · refine .inl ⟨hu.calls_eq,?_⟩
    rw [shownText_yielded, hu.shows_nothing]
    rfl
  · have hoffers : offers call = deliveries tr := by
      rcases hr.answering.offers with ho | ⟨ms,e,shown,hmem,-⟩
      · exact ho
      · exact absurd hmem (hd _ _)
    have hshown : shownText (yielded tr) = (texts got).flatten := by
      rw [shownText_yielded, ← hoffers]
      exact (received_text hr.answering.received).symm
    have hparts : parts = texts got := by
      obtain ⟨d,hleft,rfl⟩ := hr.left
      cases hleft with
      | ended _ hp _ _ _ => simpa using hp
      | atDelta shown e _ hmem _ _ _ => exact absurd (hr.body_sub _ hmem) (hd _ _)
      | atFirstToken ms shown e _ hmem _ _ _ _ _ => exact absurd (hr.body_sub _ hmem) (hd _ _)
    refine .inr ⟨c,request,call,got,exit,hr.answering,hshown,fun hb => ?_⟩
    rw [hshown] at hb ⊢
    have hne : strip (texts got).flatten ≠ [] := by
      intro hs
      rw [(isBlank_iff_strip _).mpr hs] at hb
      cases hb
    cases exit with
    | ok u =>
      rw [← hparts, hr.savedOnce_ok]
      constructor
      · intro hl
        exact .inl ⟨rfl,hl⟩
      · rintro (⟨-,hl⟩ | ⟨e,he,-⟩)
        · exact hl
        · cases he
    | error e =>
      rw [hr.savedOnce_error ha (by rw [hparts]) hne]
      constructor
      · intro hs
        exact .inr ⟨e,rfl,hs⟩
      · rintro (⟨hok,-⟩ | ⟨e',he,hs⟩)
        · cases hok
        · cases he
          exact hs

/-- No statement of the chain fails but by a cancellation, and none of the detached task's. -/
def StatementsAvailable (tr : FrameTrace (markedSignature B)) : Prop :=
  ∀ d stmt e, ⟨.base (.sql d stmt),.error e⟩ ∈ tr → e.isForeign = true ∧ e.isCancelled = true ∧ d = false

theorem available_of_awaited {events : ChatTrace (markedSignature B)} {heard : FrameTrace (markedSignature B)}
    (ha : awaited events = awaited heard) (hdb : StatementsAvailable heard)
    {e : Event (genSignature (chatSignature (markedSignature B)) ChatStreamEvent) Exc} (he : e ∈ events)
    (hp : Drained PossibleAnswer e.op e.answer) : AvailableChat e.op e.answer := by
  have hpossible := drained_possibleChat hp
  rcases e with ⟨(op | ⟨d,stmt⟩ | _ | _) | y,r⟩
  · exact hpossible
  · intro x hx
    apply hdb d stmt x
    have hbase : ⟨.sql d stmt,r⟩ ∈ awaited events :=
      List.mem_filterMap.mpr ⟨_,List.mem_filterMap.mpr ⟨_,he,rfl⟩,rfl⟩
    rw [ha] at hbase
    obtain ⟨⟨op,r'⟩,hmem,hop⟩ := List.mem_filterMap.mp hbase
    obtain ⟨⟨op',r''⟩,hheard,hop'⟩ := List.mem_filterMap.mp hmem
    rcases op' with op' | y
    · cases hop'
      rcases op with (op | _ | _ | _ | _ | _) | ⟨d',stmt'⟩ | _ | _
      · rcases op with op | l | l <;> cases hop
      all_goals cases hop
      dsimp only at hx
      rw [hx] at hheard
      exact hheard
    · cases hop'
  · exact hpossible
  · exact hpossible
  · exact hpossible

/-- When the response is over, its frames are the first ones of the turn's own events, and the
text of all of them is what the conversation keeps, unless the call ended in a way that keeps
nothing. -/
theorem response_kept {t : Turn B} {s : Underway B} (h : Guarded Underway.step CancelsNoPut (serve t) s)
    (hover : s.bridge.consumer = .over) (hdb : StatementsAvailable s.heard) :
    ∃ events ended, Run (Drained PossibleAnswer) (t.withAdapter t.adapter.unmarked).stream events ended ∧
      awaited events = awaited s.heard ∧ s.bridge.yielded <+: (yielded events).map toSse ∧
      ((calls events = [] ∧ shownText (yielded events) = []) ∨
        ∃ c request call got exit, Answering (t.withAdapter t.adapter.unmarked) events c request call got exit ∧
          shownText (yielded events) = (texts got).flatten ∧
          (isBlank (shownText (yielded events)) = false →
            (SavedOnce events c.id (shownText (yielded events)) ↔ KeepsText events exit))) := by
  obtain ⟨out,hrun⟩ := run_complete h hover
  obtain ⟨events,ended,hevents,hawaited,hyields⟩ := chain_run hrun
  refine ⟨events,ended,hevents,hawaited,?_,?_⟩
  · rw [hyields]
    obtain ⟨dropped,hp,-⟩ := Sse.reach_accounted (run_bridge h)
    obtain ⟨out',hr⟩ := (run_sound h).drained ((run_sound h).returned hover)
    have hreceived : s.bridge.yielded <+: s.bridge.pulled := by
      rw [hp, List.append_assoc, List.append_assoc]
      exact List.prefix_append _ _
    have hpulled := (run_handed h).continued hr
    rw [List.append_nil] at hpulled
    exact hreceived.trans hpulled
  · apply drained_kept (hevents.restrict fun e he => available_of_awaited hawaited hdb he (hevents.answers e he))
    intro y e hmem
    have hok : (.error e : Except Exc Unit) = .ok () := hevents.answers _ hmem
    cases hok

end InferenceLogger
