import InferenceLogger.Streaming.Bridge
import InferenceLogger.Streaming.Chain

/-! # The end of a response

The bridge with its source put in: the producer asks the chain for frames, what the chain awaits
comes back, and the queue, the response and the watcher move in between, in any order. A source
that is left suspended in a full `put` stays where it is.
-/
namespace InferenceLogger.Sse
variable {α : Type} {b b' : Bridge α}

/-- The actions that are not the producer's. -/
def Action.isElsewhere : Action α → Bool
  | .sourceYields _ => false
  | .sourceEnds _ => false
  | .putResumes => false
  | .putCancelled => false
  | _ => true

theorem step_elsewhere {act : Action α} (ha : act.isElsewhere = true) (he : step b act = some b') :
    b'.producer = b.producer := by
  cases act with
  | sourceYields a => cases ha
  | sourceEnds how => cases ha
  | putResumes => cases ha
  | putCancelled => cases ha
  | consumerEnds =>
    simp only [step] at he
    split at he
    · split at he <;> cases he
      rfl
    · cases he
  | watcherChecks disconnected =>
    simp only [step] at he
    split at he
    · cases he
      rfl
    · split at he <;> cases he <;> rfl
    · cases he
  | _ =>
    simp only [step] at he
    split at he <;> cases he <;> rfl

theorem step_sourceYields {a : α} (he : step b (.sourceYields a) = some b') : b'.producer.isFinished = false := by
  simp only [step] at he
  split at he
  · split at he <;> cases he
    · rename_i hp _
      exact congrArg Producer.isFinished hp
    · rfl
  · cases he

theorem step_putResumes (he : step b .putResumes = some b') : b'.producer.isFinished = false := by
  simp only [step] at he
  split at he
  · split at he <;> cases he
    rfl
  · cases he

/-- The response is over only once the producer has been awaited. -/
theorem step_over {act : Action α} (he : step b act = some b') (ho : b'.consumer = .over) :
    b'.producer.isFinished = true ∨ b.consumer = .over := by
  by_cases hends : act = .consumerEnds
  · subst hends
    simp only [step] at he
    split at he
    · rename_i hp
      split at he <;> cases he
      exact .inl (congrArg Producer.isFinished hp)
    · cases he
  · refine .inr ?_
    cases act with
    | consumerEnds => exact absurd rfl hends
    | sourceYields a =>
      simp only [step] at he
      split at he
      · split at he <;> cases he <;> exact ho
      · cases he
    | putResumes =>
      simp only [step] at he
      split at he
      · split at he <;> cases he
        exact ho
      · cases he
    | putCancelled =>
      simp only [step] at he
      split at he
      · split at he <;> cases he
        exact ho
      · cases he
    | watcherChecks disconnected =>
      simp only [step] at he
      split at he
      · cases he
        exact ho
      · split at he <;> cases he <;> exact ho
      · cases he
    | _ =>
      simp only [step] at he
      split at he <;> cases he <;> first | exact ho | cases ho

/-- A producer that has ended stays so. -/
theorem step_finished {act : Action α} (he : step b act = some b') (hf : b.producer.isFinished = true) :
    act.isElsewhere = true := by
  cases hp : b.producer with
  | finished how => cases act <;> first | rfl | simp [step,hp] at he
  | pulling =>
    rw [hp] at hf
    cases hf
  | putting a =>
    rw [hp] at hf
    cases hf

end InferenceLogger.Sse

namespace InferenceLogger
open PyText PyJson AsyncTask Transition

/-- The bridge, what is left of its source, and what the source has awaited and handed over. -/
structure Underway (B : Signature) where
  bridge : Sse.Bridge Text
  source : FrameGen (markedSignature B) Unit
  heard : FrameTrace (markedSignature B)

variable {B : Signature}

def serve (t : Turn B) : Underway B := ⟨Sse.start Text,t.chain,[]⟩

inductive Move (B : Signature) where
  /-- An await inside the source comes back. -/
  | answered (reply : (op : ChatOp (markedSignature B)) → Except Exc ((chatSignature (markedSignature B)).Answer op))
  /-- The source hands a frame over, or ends. -/
  | pulled
  /-- A suspended `put` ends, the response reads or is closed, the watcher looks. -/
  | bridged (act : Sse.Action Text)

/-- How the producer ends when its source raises. -/
def endOf (e : Exc) : Sse.End := if e.isCancelled then .cancelled else .raised

namespace Underway

/-- `async for` asks for the next frame: the source goes on behind its `yield`. -/
def ask (s : Underway B) : Underway B :=
  match s.source with
  | .await (.yield y) k => {s with source := k (.ok ()), heard := s.heard ++ [⟨.yield y,.ok ()⟩]}
  | _ => s

/-- After `put` the loop asks again, unless the queue was full. -/
def afterPut (s : Underway B) : Underway B :=
  match s.bridge.producer with
  | .pulling => s.ask
  | _ => s

def step (s : Underway B) : Move B → Option (Underway B)
  | .answered reply =>
    match s.bridge.producer, s.source with
    | .pulling, .await (.base op) k => some {s with source := k (reply op), heard := s.heard ++ [⟨.base op,reply op⟩]}
    | _, _ => none
  | .pulled =>
    match s.source with
    | .await (.yield y) _ => (Sse.step s.bridge (.sourceYields y)).map fun b => ({s with bridge := b} : Underway B).afterPut
    | .await (.base _) _ => none
    | .done _ => (Sse.step s.bridge (.sourceEnds .returned)).map fun b => {s with bridge := b}
    | .raise e => (Sse.step s.bridge (.sourceEnds (endOf e))).map fun b => {s with bridge := b}
  | .bridged act =>
    match act with
    | .sourceYields _ => none
    | .sourceEnds _ => none
    | .putResumes => (Sse.step s.bridge .putResumes).map fun b => ({s with bridge := b} : Underway B).ask
    | act => (Sse.step s.bridge act).map fun b => {s with bridge := b}

end Underway

def Move.Possible : Move B → Prop
  | .answered reply => ∀ op, PossibleAnswer op (reply op)
  | _ => True

/-- The cancellation that arrives in a `put` on a full queue. -/
def Move.cancelsPut : Move B → Bool
  | .bridged .putCancelled => true
  | _ => false

/-! ## What the chain has been through -/

/-- One for a generator that is entered, less one for a generator that is left. -/
def Layer.tally (l : Layer) : CallOp (markedSignature B) → ℤ
  | .inner (.enter l') => if l' = l then 1 else 0
  | .inner (.leave l') => if l' = l then -1 else 0
  | _ => 0

/-- The generators of the layer that have started and whose body has not been left. -/
def unfinished (l : Layer) (tr : FrameTrace (markedSignature B)) : ℤ := weight (GenOp.weighed (ChatOp.weighed l.tally)) tr

/-- A generator of the layer has started. -/
def Entered (l : Layer) (tr : FrameTrace (markedSignature B)) : Prop := ∃ r, ⟨.base (.call (.inner (.enter l))),r⟩ ∈ tr

def unmarkCall : Event (callSignature (markedSignature B)) Exc → Option (Event (callSignature B) Exc)
  | ⟨.inner (.own op),r⟩ => some ⟨.inner op,r⟩
  | ⟨.inner (.enter _),_⟩ => none
  | ⟨.inner (.leave _),_⟩ => none
  | ⟨.uuid4,r⟩ => some ⟨.uuid4,r⟩
  | ⟨.now,r⟩ => some ⟨.now,r⟩
  | ⟨.monotonic,r⟩ => some ⟨.monotonic,r⟩
  | ⟨.createPublish event,r⟩ => some ⟨.createPublish event,r⟩
  | ⟨.awaitPublish how,r⟩ => some ⟨.awaitPublish how,r⟩

def frameCallOf : Event (genSignature (chatSignature (markedSignature B)) Text) Exc → Option (Event (callSignature B) Exc)
  | ⟨.base (.call op),r⟩ => unmarkCall ⟨op,r⟩
  | _ => none

/-- What the instrumented call awaited, without the marks. -/
def frameCalls (tr : FrameTrace (markedSignature B)) : CallEvents B := tr.filterMap frameCallOf

/-- The teardown has reached the provider: whatever has started is finished, and a call that
reached its provider has handed its event over. -/
structure TornDown (s : Underway B) : Prop where
  finished : ∀ l, unfinished l s.heard = 0
  logged : Entered .provider s.heard → PublishedOnce (frameCalls s.heard)

/-! ## What a run keeps -/

/-- What is left of the source carries on from what it has been through. -/
def CarriesOn (t : Turn B) (s : Underway B) : Prop :=
  ∀ tr out, Run (Drained PossibleAnswer) s.source tr out → Run (Drained PossibleAnswer) t.chain (s.heard ++ tr) out

/-- A producer that has ended has run its source to the end. -/
structure Sound (t : Turn B) (s : Underway B) : Prop where
  carriesOn : CarriesOn t s
  drained : s.bridge.producer.isFinished = true → ∃ out, Run (Drained PossibleAnswer) s.source [] out
  returned : s.bridge.consumer = .over → s.bridge.producer.isFinished = true

theorem serve_sound (t : Turn B) : Sound t (serve t) where
  carriesOn _ _ h := h
  drained h := by cases h
  returned h := by cases h

theorem CarriesOn.ask {t : Turn B} {s : Underway B} (h : CarriesOn t s) : CarriesOn t s.ask := by
  intro tr out hr
  unfold Underway.ask at hr ⊢
  split at hr
  · rename_i y k hs
    rw [List.append_assoc]
    apply h
    rw [hs]
    exact .await rfl hr
  · exact h tr out hr

theorem CarriesOn.afterPut {t : Turn B} {s : Underway B} (h : CarriesOn t s) : CarriesOn t s.afterPut := by
  unfold Underway.afterPut
  split
  · exact h.ask
  · exact h

@[simp] theorem ask_bridge (s : Underway B) : s.ask.bridge = s.bridge := by
  unfold Underway.ask
  split <;> rfl

@[simp] theorem afterPut_bridge (s : Underway B) : s.afterPut.bridge = s.bridge := by
  unfold Underway.afterPut
  split
  · exact ask_bridge s
  · rfl

/-- A step of the bridge keeps the response waiting for its producer. -/
theorem Sound.over {t : Turn B} {s : Underway B} (h : Sound t s) {act : Sse.Action Text} {b : Sse.Bridge Text}
    (he : Sse.step s.bridge act = some b) (ho : b.consumer = .over) : b.producer.isFinished = true := by
  rcases Sse.step_over he ho with hf | hover
  · exact hf
  · have hfin := h.returned hover
    rw [Sse.step_elsewhere (Sse.step_finished he hfin) he]
    exact hfin

theorem step_sound {t : Turn B} {s s' : Underway B} {m : Move B} (hs : Sound t s) (hp : m.Possible) (hc : m.cancelsPut = false)
    (he : s.step m = some s') : Sound t s' := by
  cases m with
  | answered reply =>
    simp only [Underway.step] at he
    split at he
    · rename_i op k hprod hsource
      cases he
      refine ⟨?_,?_,hs.returned⟩
      · intro tr out hr
        rw [List.append_assoc]
        apply hs.carriesOn
        rw [hsource]
        exact .await (hp op) hr
      · intro hf
        simp only [hprod] at hf
        cases hf
    · cases he
  | pulled =>
    simp only [Underway.step] at he
    split at he
    · rename_i y k hsource
      obtain ⟨b,hb,rfl⟩ := Option.map_eq_some_iff.mp he
      refine ⟨CarriesOn.afterPut hs.carriesOn,?_,?_⟩
      · rw [afterPut_bridge]
        intro hf
        rw [Sse.step_sourceYields hb] at hf
        cases hf
      · rw [afterPut_bridge]
        exact hs.over hb
    · cases he
    · rename_i a hsource
      obtain ⟨b,hb,rfl⟩ := Option.map_eq_some_iff.mp he
      refine ⟨hs.carriesOn,fun _ => ⟨.ok a,?_⟩,hs.over hb⟩
      rw [hsource]
      exact .done a
    · rename_i e hsource
      obtain ⟨b,hb,rfl⟩ := Option.map_eq_some_iff.mp he
      refine ⟨hs.carriesOn,fun _ => ⟨.error e,?_⟩,hs.over hb⟩
      rw [hsource]
      exact .raise e
  | bridged act =>
    by_cases hact : act.isElsewhere = true
    · have hmap : (Sse.step s.bridge act).map (fun b => ({s with bridge := b} : Underway B)) = some s' := by
        cases act <;> first | exact he | cases hact
      obtain ⟨b,hb,rfl⟩ := Option.map_eq_some_iff.mp hmap
      refine ⟨hs.carriesOn,?_,hs.over hb⟩
      intro hf
      apply hs.drained
      rw [← Sse.step_elsewhere hact hb]
      exact hf
    · cases act with
      | putResumes =>
        obtain ⟨b,hb,rfl⟩ := Option.map_eq_some_iff.mp he
        refine ⟨CarriesOn.ask hs.carriesOn,?_,?_⟩
        · rw [ask_bridge]
          intro hf
          rw [Sse.step_putResumes hb] at hf
          cases hf
        · rw [ask_bridge]
          exact hs.over hb
      | sourceYields y => cases he
      | sourceEnds how => cases he
      | putCancelled => cases hc
      | _ => exact absurd rfl hact

/-- The condition on the steps: the environment keeps its promises, and no cancellation arrives
in a `put` on a full queue. -/
def CancelsNoPut (_ : Underway B) (m : Move B) : Prop := m.Possible ∧ m.cancelsPut = false

theorem run_sound {t : Turn B} {s : Underway B} (h : Guarded Underway.step CancelsNoPut (serve t) s) : Sound t s :=
  h.invariant (serve_sound t) fun _ _ _ hs hg he => step_sound hs hg.1 hg.2 he

/-- A response that is over has run the whole chain. -/
theorem run_complete {t : Turn B} {s : Underway B} (h : Guarded Underway.step CancelsNoPut (serve t) s)
    (hover : s.bridge.consumer = .over) : ∃ out, Run (Drained PossibleAnswer) t.chain s.heard out := by
  have hs := run_sound h
  obtain ⟨out,hr⟩ := hs.drained (hs.returned hover)
  have hrun := hs.carriesOn [] out hr
  rw [List.append_nil] at hrun
  exact ⟨out,hrun⟩

/-! ## Every generator is finished -/

theorem tally_onlyMarks (l : Layer) : OnlyMarks (B := B) l.tally := ⟨fun _ => rfl,rfl,rfl,fun _ => rfl,fun _ => rfl⟩

theorem chain_finished {t : Turn B} {tr : FrameTrace (markedSignature B)} {out : Except Exc Unit}
    (h : Run (Drained PossibleAnswer) t.chain tr out) (l : Layer) : unfinished l tr = 0 := by
  have hopposite : ∀ l', l.tally (B := B) (.inner (.enter l')) + l.tally (B := B) (.inner (.leave l')) = 0 := by
    intro l'
    unfold Layer.tally
    by_cases hl : l' = l
    · simp [hl]
    · simp [hl]
  apply weighs_chain (tally_onlyMarks l) (hopposite _) (hopposite _) _ t _ _ h
  have hprovider := hopposite .provider
  have hinstrumented := hopposite .instrumented
  have hid : l.tally (B := B) .uuid4 = 0 := rfl
  omega

/-! ## The event of the call -/

/-- One for a provider that starts, less one for an id that is minted. -/
def reachedProvider : CallOp (markedSignature B) → ℤ
  | .inner (.enter .provider) => 1
  | .uuid4 => -1
  | _ => 0

theorem reachedProvider_onlyMarks : OnlyMarks (B := B) reachedProvider := ⟨fun _ => rfl,rfl,rfl,fun _ => rfl,fun _ => rfl⟩

/-- A chain that reached its provider has called it through the wrapper. -/
theorem entered_calls {t : Turn B} {tr : FrameTrace (markedSignature B)} {out : Except Exc Unit}
    (h : Run (Drained PossibleAnswer) t.chain tr out) (he : Entered .provider tr) : frameCalls tr ≠ [] := by
  intro hnone
  have hone : (0 : ℤ) < 1 := by decide
  have hzero : weight (GenOp.weighed (ChatOp.weighed reachedProvider)) tr =
      0 := weighs_chain reachedProvider_onlyMarks rfl rfl rfl t _ _ h
  have hnonneg : ∀ e ∈ tr, 0 ≤ GenOp.weighed (ChatOp.weighed reachedProvider) e.op := by
    rintro ⟨op,r⟩ hmem
    rcases op with (op | _ | _ | _) | y
    · rcases op with (op | l | l) | _ | _ | _ | _ | _
      · exact le_rfl
      · cases l with
        | provider => exact hone.le
        | _ => exact le_rfl
      · exact le_rfl
      · -- An id that was minted is an operation of the call.
        have hcall : ⟨.uuid4,r⟩ ∈ frameCalls tr := List.mem_filterMap.mpr ⟨_,hmem,rfl⟩
        rw [hnone] at hcall
        cases hcall
      · exact le_rfl
      · exact le_rfl
      · exact le_rfl
      · exact le_rfl
    · exact le_rfl
    · exact le_rfl
    · exact le_rfl
    · exact le_rfl
  obtain ⟨r,hr⟩ := he
  have hpos := weight_pos hnonneg hr hone
  omega

def ownOf : Event (markedSignature B) Exc → Option (Event B Exc)
  | ⟨.own op,r⟩ => some ⟨op,r⟩
  | _ => none

section Unmarked
variable (tr : CallEvents (markedSignature B))

@[simp] theorem started_unmark : started (tr.filterMap unmarkCall) = started tr := by
  unfold started
  rw [List.filterMap_filterMap]
  apply List.filterMap_congr
  rintro ⟨op,r⟩ -
  rcases op with (op | l | l) | _ | _ | _ | _ | _ <;> rfl

@[simp] theorem minted_unmark : minted (tr.filterMap unmarkCall) = minted tr := by
  unfold minted
  rw [List.filterMap_filterMap]
  apply List.filterMap_congr
  rintro ⟨op,r⟩ -
  rcases op with (op | l | l) | _ | _ | _ | _ | _ <;> cases r <;> rfl

@[simp] theorem wallReadings_unmark : wallReadings (tr.filterMap unmarkCall) = wallReadings tr := by
  unfold wallReadings
  rw [List.filterMap_filterMap]
  apply List.filterMap_congr
  rintro ⟨op,r⟩ -
  rcases op with (op | l | l) | _ | _ | _ | _ | _ <;> cases r <;> rfl

@[simp] theorem monotonicReadings_unmark : monotonicReadings (tr.filterMap unmarkCall) = monotonicReadings tr := by
  unfold monotonicReadings
  rw [List.filterMap_filterMap]
  apply List.filterMap_congr
  rintro ⟨op,r⟩ -
  rcases op with (op | l | l) | _ | _ | _ | _ | _ <;> cases r <;> rfl

@[simp] theorem cancelsPublish_unmark : cancelsPublish (tr.filterMap unmarkCall) = cancelsPublish tr := by
  unfold cancelsPublish
  rw [List.any_filterMap]
  congr 1
  funext ⟨op,r⟩
  rcases op with (op | l | l) | _ | _ | _ | _ | how
  · rfl
  · rfl
  · rfl
  · rfl
  · rfl
  · rfl
  · rfl
  · cases how <;> cases r <;> rfl

theorem innerCalls_unmark : innerCalls (tr.filterMap unmarkCall) = (innerCalls tr).filterMap ownOf := by
  unfold innerCalls
  rw [List.filterMap_filterMap, List.filterMap_filterMap]
  apply List.filterMap_congr
  rintro ⟨op,r⟩ -
  rcases op with (op | l | l) | _ | _ | _ | _ | _ <;> rfl

theorem publishedOnce_unmark : PublishedOnce (tr.filterMap unmarkCall) ↔ PublishedOnce tr := by
  unfold PublishedOnce
  rw [started_unmark, minted_unmark, cancelsPublish_unmark]

end Unmarked

theorem innerCalls_bases (call : CallTrace B) : innerCalls (bases call) = bases (visible call) := by
  unfold innerCalls bases visible
  rw [List.filterMap_filterMap, List.filterMap_filterMap]
  apply List.filterMap_congr
  rintro ⟨op,r⟩ -
  rcases op with (op | _ | _ | _ | _ | _) | y <;> rfl

/-- What is received from the provider among its marks is received from the provider itself. -/
theorem reception_own {gen : Gen B StreamChunk Exc Unit} {tr : Trace (genSignature (markedSignature B) StreamChunk) Exc}
    {got : List StreamChunk} {exit : Except Exc Unit} (h : Reception (gen.interp ownOp) tr got exit) :
    ∃ own, Reception gen own got exit ∧ (bases tr).filterMap ownOf = bases own := by
  induction gen generalizing tr got with
  | done a =>
    cases h
    exact ⟨[],.exhausted,rfl⟩
  | raise e =>
    cases h
    exact ⟨[],.raised e,rfl⟩
  | await op k ih =>
    cases op with
    | base op =>
      change Reception (Task.await (S := genSignature (markedSignature B) StreamChunk) (.base (.own op)) fun r =>
        (Task.ofExcept r).resume fun r => (k r).interp ownOp) tr got exit at h
      cases h with
      | @base _ _ r tr _ _ h =>
        have hk : Reception ((k r).interp ownOp) tr got exit := by
          cases r <;> exact h
        obtain ⟨own,hown,hb⟩ := ih r hk
        exact ⟨⟨.base op,r⟩ :: own,hown.base,congrArg (List.cons (⟨op,r⟩ : Event B Exc)) hb⟩
    | «yield» chunk =>
      change Reception (Task.await (S := genSignature (markedSignature B) StreamChunk) (.yield chunk) fun r =>
        (Task.ofExcept r).resume fun r => (k r).interp ownOp) tr got exit at h
      cases h with
      | resumed h =>
        obtain ⟨own,hown,hb⟩ := ih (.ok ()) h
        exact ⟨⟨.yield chunk,.ok ()⟩ :: own,hown.resumed,hb⟩
      | interrupted e => exact ⟨[⟨.yield chunk,.error e⟩],.interrupted e,rfl⟩

/-- The chain without marks is the turn behind `frames()`. -/
theorem unmarkedChain_run {t : Turn B} {tr : FrameTrace (markedSignature B)} {out : Except Exc Unit}
    (h : Run (Drained PossibleAnswer) t.unmarkedChain tr out) :
    ∃ source ended, Run (Drained PossibleAnswer) (t.withAdapter t.adapter.unmarked).stream source ended ∧
      bases source = bases tr := by
  unfold Turn.unmarkedChain framesOf at h
  rcases Run.bind_iff.mp h with ⟨tr₁,a,tr₂,rfl,h₁,h₂⟩ | ⟨e,-,h₁⟩
  · obtain ⟨source,ended,hs,ho,hb,-⟩ := asyncFor_relay_drained h₁
    cases ho
    obtain ⟨rfl,-⟩ := Run.ofExcept_iff.mp h₂
    rw [List.append_nil]
    exact ⟨source,ended,hs,hb⟩
  · obtain ⟨source,ended,-,ho,-⟩ := asyncFor_relay_drained h₁
    cases ho

def chatCallOf : Event (chatSignature (markedSignature B)) Exc → Option (Event (callSignature B) Exc)
  | ⟨.call op,r⟩ => unmarkCall ⟨op,r⟩
  | _ => none

theorem frameCalls_bases (tr : FrameTrace (markedSignature B)) : frameCalls tr = (bases tr).filterMap chatCallOf := by
  unfold frameCalls bases
  rw [List.filterMap_filterMap]
  apply List.filterMap_congr
  rintro ⟨op,r⟩ -
  rcases op with (op | _ | _ | _) | y <;> rfl

theorem calls_unmark (tr : ChatTrace (markedSignature B)) : (calls tr).filterMap unmarkCall =
    (bases tr).filterMap chatCallOf := by
  unfold calls bases
  rw [List.filterMap_filterMap, List.filterMap_filterMap]
  apply List.filterMap_congr
  rintro ⟨op,r⟩ -
  rcases op with (op | _ | _ | _) | y <;> rfl

theorem frameCallOf_mark {e : Event (genSignature (chatSignature (markedSignature B)) Text) Exc}
    (h : GenOp.onBase ChatOp.isMark e.op) :
    frameCallOf e = none := by
  rcases e with ⟨op,r⟩
  rcases op with (op | _ | _ | _) | y
  · rcases op with (op | l | l) | _ | _ | _ | _ | _ <;> first | rfl | exact h.elim
  · exact h.elim
  · exact h.elim
  · exact h.elim
  · exact h.elim

/-- The call of a turn that answered, with what it received and the event it handed over. -/
theorem answered_call {t : Turn (markedSignature B)} {tr : ChatTrace (markedSignature B)} {out : Except Exc Unit}
    (h : Run (Drained PossibleAnswer) t.stream tr out) (hcalls : calls tr ≠ [])
    (hm : (monotonicReadings (calls tr)).Pairwise (· ≤ ·)) :
    ∃ history call got exit, Reception (t.adapter.streamChat (t.request history)) call got exit ∧
      innerCalls (calls tr) = bases call ∧
      (PublishedOnce (calls tr) ↔ Loggable t.adapter.name t.model got exit (wallReadings (calls tr))) := by
  have hrun := h.mono fun _ _ => drained_possibleChat
  have hyields : ∀ y e, ⟨.yield y,.error e⟩ ∉ tr := by
    intro y e hmem
    have hok : (.error e : Except Exc Unit) = .ok () := h.answers _ hmem
    cases hok
  rcases responded_of_run hrun with hu | ⟨c,request,call,got,exit,body,rest,parts,hr⟩
  · exact absurd hu.calls_eq hcalls
  · obtain ⟨history,-,hrequest⟩ := hr.answering.transcript
    obtain ⟨d,hleft,-⟩ := hr.left
    have hdrained : ∀ e ∈ call, Drained (B := callSignature (markedSignature B)) (Y := StreamChunk)
        (fun _ _ => True) e.op e.answer := by
      cases hleft with
      | ended hcall _ _ _ _ => exact hcall
      | atDelta shown e _ hmem _ _ _ => exact absurd (hr.body_sub _ hmem) (hyields _ _)
      | atFirstToken ms shown e _ hmem _ _ _ _ _ => exact absurd (hr.body_sub _ hmem) (hyields _ _)
    have hrec := hr.answering.received
    have hbases := hr.answering.calls
    have hcall := run_of_reception hrec hbases hdrained hrun.answers
    rw [← hbases] at hm
    obtain ⟨got',exit',hgot,hiff⟩ := Instrumentation.published_once_iff hcall hm
    rw [hbases] at hiff
    have hmodel : request.model = t.model := by
      rw [hrequest]
      rfl
    rw [hmodel] at hiff
    refine ⟨_,visible call,got',exit',hrequest ▸ hgot,?_,hiff⟩
    rw [← hbases]
    exact innerCalls_bases call

/-- In a run in which no cancellation arrives in a full `put`, every generator of the chain that
has started is finished when the response is over; and a call that reached its provider has
handed its event over exactly when what it received and read makes a valid event. -/
theorem torn_down_iff {t : Turn B} {s : Underway B} (h : Guarded Underway.step CancelsNoPut (serve t) s)
    (hover : s.bridge.consumer = .over) (hm : (monotonicReadings (frameCalls s.heard)).Pairwise (· ≤ ·)) :
    ∃ history call got exit, (Entered .provider s.heard → Reception (t.adapter.streamChat (t.request history)) call got exit ∧
        innerCalls (frameCalls s.heard) = bases call) ∧
      (TornDown s ↔ (Entered .provider s.heard →
        Loggable t.adapter.name t.model got exit (wallReadings (frameCalls s.heard)))) := by
  obtain ⟨out,hrun⟩ := run_complete h hover
  have hfinished := chain_finished hrun
  by_cases hentered : Entered .provider s.heard
  · obtain ⟨tr,htr,hsame⟩ := (erases_chain t).run hrun
    obtain ⟨source,ended,hsource,hbases⟩ := unmarkedChain_run htr
    have hcalls : (calls source).filterMap unmarkCall = frameCalls s.heard := by
      rw [calls_unmark, hbases, ← frameCalls_bases]
      exact hsame frameCallOf fun e he => frameCallOf_mark he
    have hsome : calls source ≠ [] := by
      intro hnone
      rw [hnone] at hcalls
      exact entered_calls hrun hentered hcalls.symm
    rw [← hcalls, monotonicReadings_unmark] at hm
    obtain ⟨history,call,got,exit,hrec,hinner,hiff⟩ := answered_call hsource hsome hm
    obtain ⟨own,hown,hb⟩ := reception_own hrec
    refine ⟨history,own,got,exit,fun _ => ⟨hown,?_⟩,?_⟩
    · rw [← hcalls, innerCalls_unmark, hinner]
      exact hb
    · have hevent : PublishedOnce (frameCalls s.heard) ↔
          Loggable t.adapter.name t.model got exit (wallReadings (frameCalls s.heard)) := by
        rw [← hcalls, publishedOnce_unmark, wallReadings_unmark]
        exact hiff
      constructor
      · intro ht he
        exact hevent.mp (ht.logged he)
      · intro hl
        exact ⟨hfinished,fun he => hevent.mpr (hl he)⟩
  · refine ⟨[],[],[],.ok (),fun he => absurd he hentered,?_⟩
    constructor
    · intro _ he
      exact absurd he hentered
    · intro _
      exact ⟨hfinished,fun he => absurd he hentered⟩

/-! ## A reader that is slower than its provider -/

section
open Instrumentation

/-- Nothing fails, and the marks pass. -/
def quietReply : (op : ChatOp (markedSignature quietSignature)) →
    Except Exc ((chatSignature (markedSignature quietSignature)).Answer op)
  | .call (.inner (.own op)) => op.elim
  | .call (.inner (.enter _)) => .ok ()
  | .call (.inner (.leave _)) => .ok ()
  | .call .uuid4 => .ok (7 : Uuid)
  | .call .now => .ok (0 : ℤ)
  | .call .monotonic => .ok (0 : ℕ)
  | .call (.createPublish _) => .ok ()
  | .call (.awaitPublish _) => .ok ()
  | .sql d stmt => quietChat (fun _ => .ok ()) (.base (.sql d stmt))
  | .awaitShield => .ok ()
  | .monotonic => .ok (0 : ℕ)

theorem quietReply_possible (op : ChatOp (markedSignature quietSignature)) : PossibleAnswer op (quietReply op) := by
  constructor
  · rcases op with (op | _ | _ | _ | _ | _) | ⟨d,stmt⟩ | _ | _
    · rcases op with op | l | l
      · exact op.elim
      · intro e he
        cases he
      · intro e he
        cases he
    · exact ⟨_,rfl⟩
    · exact ⟨_,rfl⟩
    · exact ⟨_,rfl⟩
    · exact ⟨_,rfl⟩
    · intro e he
      cases he
    · intro e he
      cases stmt <;> cases he
    · intro e he
      cases he
    · exact ⟨_,rfl⟩
  · intro hmark
    rcases op with ((op | l | l) | _ | _ | _ | _ | _) | ⟨d,stmt⟩ | _ | _
    · exact op.elim
    · exact ⟨(),rfl⟩
    · exact ⟨(),rfl⟩
    · exact hmark.elim
    · exact hmark.elim
    · exact hmark.elim
    · exact hmark.elim
    · exact hmark.elim
    · exact hmark.elim
    · exact hmark.elim
    · exact hmark.elim

/-- The producer goes on for as long as it can, at most so many steps. -/
def Underway.fed : ℕ → Underway quietSignature → Underway quietSignature
  | 0, s => s
  | n + 1, s =>
    match s.source with
    | .await (.base _) _ => ((s.step (.answered quietReply)).map (fed n)).getD s
    | _ => ((s.step .pulled).map (fed n)).getD s

theorem fed_run (n : ℕ) (s : Underway quietSignature) : Guarded Underway.step CancelsNoPut s (s.fed n) := by
  induction n generalizing s with
  | zero => exact .refl s
  | succ n ih =>
    have hnext : ∀ m : Move quietSignature, m.Possible → m.cancelsPut = false →
        Guarded Underway.step CancelsNoPut s (((s.step m).map (Underway.fed n)).getD s) := by
      intro m hp hc
      cases hm : s.step m with
      | none => exact .refl s
      | some s' => exact (Guarded.single ⟨hp,hc⟩ hm).trans (ih s')
    unfold Underway.fed
    split
    · exact hnext _ quietReply_possible rfl
    · exact hnext _ trivial rfl

/-- A provider that sends so many chunks without waiting for anything. -/
def chatter : ℕ → Gen quietSignature StreamChunk Exc Unit
  | 0 => .done ()
  | n + 1 => (Gen.yield {deltaText := [0x68]}).resume fun _ => chatter n

/-- The response takes one frame, and its client then takes no more until it is gone: the
queue is full, and the cancellation finds the producer in its `put`. -/
def stalled : Option (Underway quietSignature) :=
  (play Underway.step ((serve (quietTurn (chatter 80))).fed 30) [.bridged .get]).bind fun s =>
    play Underway.step (s.fed 200) [.bridged (.watcherChecks true),.bridged .putCancelled,
      .bridged .consumerClosed,.bridged .consumerEnds]

def Sse.Consumer.isOver {α : Type} : Sse.Consumer α → Bool
  | .over => true
  | _ => false

/-- The response is over, and what is still open of its chain. -/
def Underway.overWith (n : ℤ) (s : Underway quietSignature) : Bool :=
  s.bridge.consumer.isOver && decide (unfinished .frames s.heard = n ∧ (monotonicReadings (frameCalls s.heard)).Pairwise (· ≤ ·))

theorem overWith_iff {n : ℤ} {s : Underway quietSignature} : s.overWith n = true →
    s.bridge.consumer = .over ∧ unfinished .frames s.heard = n ∧ (monotonicReadings (frameCalls s.heard)).Pairwise (· ≤ ·) := by
  intro h
  obtain ⟨hover,hrest⟩ := Bool.and_eq_true_iff.mp h
  refine ⟨?_,of_decide_eq_true hrest⟩
  cases hc : s.bridge.consumer with
  | «over» => rfl
  | _ =>
    rw [hc] at hover
    cases hover

/-- A response is over with its chain suspended behind it. -/
theorem stalled_not_torn_down : ∃ (t : Turn quietSignature) (s : Underway quietSignature),
    Guarded Underway.step (fun _ m => m.Possible) (serve t) s ∧ s.bridge.consumer = .over ∧
      (monotonicReadings (frameCalls s.heard)).Pairwise (· ≤ ·) ∧ ¬ TornDown s := by
  have hany : stalled.any (Underway.overWith 1) = true := by decide +kernel
  cases hs : stalled with
  | none =>
    rw [hs] at hany
    cases hany
  | some s =>
    rw [hs] at hany
    obtain ⟨hover,hopen,hclock⟩ := overWith_iff hany
    obtain ⟨s₁,h₁,h₂⟩ := Option.bind_eq_some_iff.mp hs
    have hfed : ∀ n (s : Underway quietSignature), Guarded Underway.step (fun _ m => m.Possible) s (s.fed n) := fun n s =>
      (fed_run n s).weaken fun _ _ h => h.1
    have hreach : Guarded Underway.step (fun _ m => m.Possible) (serve (quietTurn (chatter 80))) s := by
      apply (hfed 30 _).trans
      apply (play_guarded h₁ fun m hm _ => ?_).trans
      · apply (hfed 200 _).trans
        apply play_guarded h₂
        intro m hm _
        simp only [List.mem_cons, List.not_mem_nil, or_false] at hm
        rcases hm with rfl | rfl | rfl | rfl <;> trivial
      · cases List.mem_singleton.mp hm
        trivial
    refine ⟨_,s,hreach,hover,hclock,fun ht => ?_⟩
    have hzero := ht.finished .frames
    omega

/-- A turn that is read to its end by its provider and closed by its client. -/
def closedEarly : Option (Underway quietSignature) :=
  play Underway.step ((serve (quietTurn (chatter 1))).fed 60)
    [.bridged .consumerClosed,.bridged .watcherStopped,.bridged .consumerEnds]

def Underway.reachesProvider (s : Underway quietSignature) : Bool :=
  s.heard.any fun e => match e.op with
    | .base (.call (.inner (.enter .provider))) => true
    | _ => false

theorem reachesProvider_entered {s : Underway quietSignature} (h : s.reachesProvider = true) : Entered .provider s.heard := by
  obtain ⟨⟨op,r⟩,hmem,hop⟩ := List.any_eq_true.mp h
  split at hop
  · rename_i heq
    cases heq
    exact ⟨r,hmem⟩
  · cases hop

/-- Nothing is left open, and the one event has been handed over. -/
def Underway.tornDown (s : Underway quietSignature) : Bool :=
  [Layer.frames,.service,.instrumented,.provider].all (fun l => decide (unfinished l s.heard = 0)) &&
    (decide ((started (frameCalls s.heard)).map (fun e => e.fields.id) = minted (frameCalls s.heard)) &&
      decide ((started (frameCalls s.heard)).length = 1) && !cancelsPublish (frameCalls s.heard))

theorem tornDown_sound {s : Underway quietSignature} (h : s.tornDown = true) : TornDown s := by
  obtain ⟨hfinished,hlogged⟩ := Bool.and_eq_true_iff.mp h
  obtain ⟨hlogged,hcancels⟩ := Bool.and_eq_true_iff.mp hlogged
  obtain ⟨hminted,hone⟩ := Bool.and_eq_true_iff.mp hlogged
  refine ⟨fun l => ?_,fun _ => ?_⟩
  · exact of_decide_eq_true (List.all_eq_true.mp hfinished l (by cases l <;> decide))
  · obtain ⟨event,hevent⟩ := List.length_eq_one_iff.mp (of_decide_eq_true hone)
    have hid := of_decide_eq_true hminted
    rw [hevent] at hid
    exact ⟨event,hevent,hid.symm,by simpa using hcancels⟩

/-- Everything is finished behind a response whose queue had room. -/
theorem closed_torn_down : ∃ s history call got exit, s.bridge.consumer = .over ∧ Entered .provider s.heard ∧
    Reception ((quietTurn (chatter 1)).adapter.streamChat ((quietTurn (chatter 1)).request history)) call got exit ∧
    innerCalls (frameCalls s.heard) = bases call ∧
    Loggable (quietTurn (chatter 1)).adapter.name (quietTurn (chatter 1)).model got exit (wallReadings (frameCalls s.heard)) ∧
    TornDown s := by
  have hany : closedEarly.any (fun s => s.overWith 0 && (s.reachesProvider && s.tornDown)) = true := by decide +kernel
  obtain ⟨s,hs,hend⟩ := play_any hany
  obtain ⟨hend,hreaches⟩ := Bool.and_eq_true_iff.mp hend
  obtain ⟨hreaches,hdown⟩ := Bool.and_eq_true_iff.mp hreaches
  obtain ⟨hover,-,hclock⟩ := overWith_iff hend
  have hrun : Guarded Underway.step CancelsNoPut (serve (quietTurn (chatter 1))) s := by
    apply (fed_run 60 _).trans
    apply play_guarded hs
    intro m hm _
    simp only [List.mem_cons, List.not_mem_nil, or_false] at hm
    rcases hm with rfl | rfl | rfl <;> exact ⟨trivial,rfl⟩
  have hentered := reachesProvider_entered hreaches
  obtain ⟨history,call,got,exit,hreceived,hiff⟩ := torn_down_iff hrun hover hclock
  obtain ⟨hreception,hbases⟩ := hreceived hentered
  have hdown := tornDown_sound hdown
  exact ⟨s,history,call,got,exit,hover,hentered,hreception,hbases,hiff.mp hdown hentered,hdown⟩

end

end InferenceLogger
