import InferenceLogger.Conversations.Prompts
import InferenceLogger.Conversations.Streams
import InferenceLogger.Foundation.Receiving
import InferenceLogger.Observation.Summary

/-! # The record of a turn

A turn leaves a transcript, and the event of its call leaves a log row. However the turn is cut
short, the two tell the same conversation and the same text, and neither says of the reply what
the other denies.
-/
namespace InferenceLogger
open PyText PyJson AsyncTask KeyedTable RelyGuarantee

variable {B : Signature}

/-! ## A call that is left at a chunk -/

namespace Instrumentation

/-- No event has been published where the consumer throws. -/
def Unpublished (gen : CallGen B Unit) : Prop := ∀ {call got exit}, Reception gen call got exit →
  ∀ y e, ⟨.yield y,.error e⟩ ∈ call → started (bases call) = []

/-- What hands nothing out is never left there. -/
theorem unpublished_ofBase (t : CallTask B Unit) (exit : Except Exc Unit) :
    Unpublished (Gen.ofBase t >>= fun _ => Task.ofExcept exit : CallGen B Unit) := by
  intro call got ending h y e hmem
  exfalso
  have hnone : ∀ (base : CallEvents B), ⟨.yield y,.error e⟩ ∉ (base.map Gen.baseEvent : CallTrace B) := by
    intro base hmem
    obtain ⟨b,-,hb⟩ := List.mem_map.mp hmem
    cases hb
  obtain ⟨base,⟨a,rest,-,rfl,hrest⟩ | ⟨x,-,rfl,-⟩⟩ := h.ofBase_bind
  · rcases List.mem_append.mp hmem with hmem | hmem
    · exact hnone base hmem
    · cases exit <;> cases hrest <;> cases hmem
  · exact hnone base hmem

/-- A step that publishes nothing goes before. -/
theorem Unpublished.step {op : CallOp B} {k : Except Exc ((callSignature B).Answer op) → CallGen B Unit}
    (hop : ∀ event, op ≠ .createPublish event) (hk : ∀ r, Unpublished (k r)) :
    Unpublished (.await (.base op) k : CallGen B Unit) := by
  intro call got ending h y e hmem
  cases h with
  | @base _ _ r rest _ _ h =>
    have hrest := hk r h y e (by simpa using hmem)
    unfold started at hrest ⊢
    change (⟨op,r⟩ :: bases rest).filterMap startedEvent = []
    rw [List.filterMap_cons_none ?_]
    · exact hrest
    · cases op with
      | createPublish event => exact absurd rfl (hop event)
      | _ => rfl

/-- Left at a chunk, the loop has published nothing. -/
theorem Unpublished.yield {y : StreamChunk} {k : Except Exc Unit → CallGen B Unit} (hk : Unpublished (k (.ok ()))) :
    Unpublished (.await (.yield y) k : CallGen B Unit) := by
  intro call got ending h z e hmem
  cases h with
  | resumed h =>
    have hrest := hk h z e (by simpa using hmem)
    exact hrest
  | interrupted x => rfl

theorem loop_unpublished {start : ℕ} {chunks : Gen B StreamChunk Exc Unit} {o : Observed}
    {k : Except Exc (Observed × Except Exc Unit) → CallGen B Unit} (hk : ∀ r, Unpublished (k r)) :
    Unpublished ((loop start chunks o).resume k) := by
  induction chunks generalizing o with
  | done a => exact hk _
  | raise e => exact hk _
  | await op next ih =>
    cases op with
    | base op => exact Unpublished.step (fun _ h => by cases h) fun r => by cases r <;> exact ih _
    | «yield» chunk =>
      unfold loop asyncFor observe
      by_cases hfirst : o.ttftMs = none ∧ chunk.deltaText ≠ []
      · have htimed : timed (B := B) start o chunk = (do
            let stop ← monotonic
            return {o with ttftMs := some (elapsedMs start stop)}) := if_pos hfirst
        rw [htimed]
        refine Unpublished.step (fun _ h => by cases h) fun r => ?_
        cases r with
        | ok stop => exact Unpublished.yield (ih _)
        | error e => exact hk (.error e)
      · have htimed : timed (B := B) start o chunk = .done o := if_neg hfirst
        rw [htimed]
        exact Unpublished.yield (ih _)

/-- A call that the consumer leaves at a chunk has not published its event. -/
theorem streamChat_unpublished (w : Instrumentation) (inner : BaseProvider B) (request : ChatRequest) :
    Unpublished (w.streamChat inner request) := by
  have hsync : ∀ {op : CallOp B} {f : (callSignature B).Answer op → CallGen B Unit}, (∀ event, op ≠ .createPublish event) →
      (∀ a, Unpublished (f a)) → Unpublished (Gen.ofBase (Task.call (S := callSignature B) op) >>= f) := by
    intro op f hop hf
    refine Unpublished.step hop fun r => ?_
    cases r with
    | ok a => exact hf a
    | error e => exact unpublished_ofBase (.raise e) (.ok ())
  refine @hsync .uuid4 _ (fun _ h => by cases h) fun eventId => @hsync .now _ (fun _ h => by cases h) fun startedAt =>
    @hsync .monotonic _ (fun _ h => by cases h) fun start => loop_unpublished fun r => ?_
  rcases r with e | ⟨o,exit⟩
  · exact unpublished_ofBase (.raise e) (.ok ())
  · exact unpublished_ofBase _ exit

/-- What the event of a call says that was not left at a chunk. -/
theorem ended_published {w : Instrumentation} {inner : BaseProvider B} {request : ChatRequest} {call : CallTrace B}
    {got : List StreamChunk} {out : Except Exc Unit} {event : InferenceEvent}
    (h : Run Possible (w.streamChat inner request) call out)
    (hgot : yielded call = got) (he : event ∈ started (bases call)) :
    event.fields.conversationId = w.conversationId ∧ event.fields.provider = inner.name ∧ event.fields.model = request.model ∧
    event.fields.inputPreview = w.redactor.preview (lastUserText request) ∧
    event.fields.outputPreview = w.redactor.preview (some (texts got).flatten) ∧
    (out = .ok () → event.fields.status = .success) ∧
    (event.fields.status = .success → out = .ok () ∨ ∃ x, .error x ∈ publishAnswers (bases call)) := by
  obtain ⟨c⟩ := streamChat_run h
  obtain ⟨read,hread,-⟩ := c.loop.received
  rw [← c.visible_eq] at hread
  obtain ⟨hinput,houtput,-⟩ := published_texts h he hread
  have hsame : read = got := by
    rw [← hgot, ← yielded_visible]
    exact hread.yielded_eq.symm
  have hconstruct := c.constructed he
  have hfields := (InferenceEvent.construct_ok_iff.mp hconstruct).2
  have hstatus : event.fields.status = .success ↔ c.exit = .ok () := by
    rw [hfields]
    exact (terminal_status c.exit).1
  have hanswer : publishAnswers (bases call) = [c.finished] := by
    rw [c.publishAnswers_eq, c.finish.of_valid hconstruct]
    rfl
  have hout := c.out_eq
  refine ⟨by rw [hfields]; rfl,by rw [hfields]; rfl,by rw [hfields]; rfl,hinput,?_,fun hok => hstatus.mpr ?_,fun hs => ?_⟩
  · rw [texts_flatten, ← hsame]
    exact houtput
  · have hend := hok.symm.trans hout
    cases hf : c.finished with
    | ok u =>
      rw [hf] at hend
      exact hend.symm
    | error x =>
      rw [hf] at hend
      cases hend
  · cases hf : c.finished with
    | ok u =>
      rw [hf, hstatus.mp hs] at hout
      exact .inl hout
    | error x =>
      refine .inr ⟨x,?_⟩
      rw [hanswer, hf]
      exact List.mem_singleton.mpr rfl

/-- A call that ends normally has published one event. -/
theorem success_published {w : Instrumentation} {inner : BaseProvider B} {request : ChatRequest} {call : CallTrace B}
    (h : Run Possible (w.streamChat inner request) call (.ok ())) : ∃ event, started (bases call) = [event] := by
  obtain ⟨c⟩ := streamChat_run h
  cases hc : InferenceEvent.construct (w.eventFields inner request c.eventId c.startedAt c.completedAt
      (elapsedMs c.start c.stop) c.o c.exit) with
  | error e =>
    have hout := c.out_eq
    rw [(c.finish.of_invalid hc).2] at hout
    cases hout
  | ok event =>
    refine ⟨event,?_⟩
    rw [c.started_eq, c.finish.of_valid hc]
    rfl

end Instrumentation

/-! ## The turn of the call -/

/-- What the event of a turn's call and the transcript that the turn leaves say of each other. -/
structure Turn.Recorded (t : Turn B) (asked after : Db) (c : Conversation) (frames : List ChatStreamEvent)
    (publishing : List (Except Exc Unit)) (e : EventFields) : Prop where
  conversation : e.conversationId = some c.id
  provider : e.provider = t.adapter.name
  model : e.model = t.model
  question : e.inputPreview = t.settings.redactor.preview (some t.content)
  shown : e.outputPreview = t.settings.redactor.preview (some (shownText frames))
  completed : ∀ id ms, .completed id ms ∈ frames → e.status = .success
  reply : after = asked ∨
    e.status = .success ∧ (∃ reply, asked.Answered after c (shownText frames) reply) ∨
    (e.status = .success → ∃ x, .error x ∈ publishing) ∧ strip (shownText frames) ≠ [] ∧
      ∃ reply, asked.Answered after c (strip (shownText frames)) reply

/-- A call with an event was not left at a chunk, and all that it handed over is kept. -/
theorem LeftBy.of_published {w : Instrumentation} {inner : BaseProvider B} {request : ChatRequest} {d d' : Delivery}
    {call : CallTrace B} {got : List StreamChunk} {exit : Except Exc Unit} {tr : ChatTrace B} (h : LeftBy d call got exit tr d')
    (hrec : Reception (w.streamChat inner request) call got exit) {event : InferenceEvent} (he : event ∈ started (bases call)) :
    (∀ e ∈ call, Drained (B := callSignature B) (Y := StreamChunk) (fun _ _ => True) e.op e.answer) ∧
      d'.parts = d.parts ++ texts got := by
  have hnot : ∀ shown x, (shown,.error x) ∉ offers call := by
    intro shown x hmem
    obtain ⟨⟨op,r⟩,hop,hoffer⟩ := List.mem_filterMap.mp hmem
    rcases op with op | chunk
    · cases hoffer
    · obtain rfl : r = .error x := by
        cases r with
        | ok u =>
          change (if chunk.deltaText = [] then none else some (chunk.deltaText,Except.ok ())) = _ at hoffer
          split at hoffer <;> cases hoffer
        | error e =>
          cases hoffer
          rfl
      rw [Instrumentation.streamChat_unpublished w inner request hrec chunk x hop] at he
      cases he
  cases h with
  | ended hd hparts _ _ _ => exact ⟨hd,hparts⟩
  | atDelta shown x _ hthrown _ _ ho =>
    refine absurd ?_ (hnot shown x)
    rw [ho]
    exact List.mem_filterMap.mpr ⟨_,hthrown,rfl⟩
  | atFirstToken ms shown x _ _ _ _ _ _ ho =>
    refine absurd ?_ (hnot shown x)
    rw [ho]
    exact List.mem_singleton.mpr rfl

section
variable {pg : Postgres} {i : ℕ} {s s' : ChatStore} {t : Turn B} {tr : ChatTrace B} {out : Except Exc Unit}

/-- A turn that does not reach its provider makes no call, and has no final frame. -/
theorem Unanswered.calls_nothing (h : Unanswered t tr out) : calls tr = [] ∧ ∀ id ms, .completed id ms ∉ yielded tr := by
  cases h with
  | refused _ _ htr =>
    rw [htr, calls_append, calls_map, yielded_append, yielded_map]
    exact ⟨rfl,fun id ms hy => by cases List.mem_singleton.mp hy⟩
  | crashed _ _ htr =>
    rw [htr, calls_map, yielded_map]
    exact ⟨rfl,fun id ms hy => by cases hy⟩
  | unstarted _ htr =>
    rw [htr, calls_append, calls_map, yielded_append, yielded_map]
    exact ⟨rfl,fun id ms hy => by cases List.mem_singleton.mp hy⟩

section
variable {st : SqlTrace} {c : Conversation} {m : Message} {history : List Message} {start : ℕ} {body rest : ChatTrace B}
  {d : Delivery} {exit : Except Exc Unit}

/-- The record of a turn whose loop over the provider has begun. -/
theorem responded_recorded (hrest : s.AtRest i) (hn : 1 ≤ t.settings.maxHistoryMessages)
    (hanswers : ∀ e ∈ respondedTrace t c start st body rest, PossibleChat e.op e.answer)
    (hst : Run (PossibleSql B false) (recordUserTurn t.settings t.conversationId t.content) st (.ok (c,m,history)))
    (hloop : Run PossibleChat (Turn.providerLoop start ((t.instrumentation c.id).streamChat t.adapter (t.request history)))
      body (.ok (d,exit)))
    (hconclude : Run PossibleChat (Turn.conclude c.id start d.parts exit) rest out)
    (hex : Executes (streamExec pg) i s (respondedTrace t c start st body rest) s') {event : InferenceEvent}
    (he : event ∈ started (calls (respondedTrace t c start st body rest))) :
    ∃ mid c' m', s.db.Asked mid t.conversationId t.content c' m' ∧
      t.Recorded mid s'.db c' (yielded (respondedTrace t c start st body rest))
        (publishAnswers (calls (respondedTrace t c start st body rest))) event.fields := by
  obtain ⟨d',exit',call,got,ho,hrec,hcalls,hquiet,hleft⟩ := providerLoop_run hloop
  cases ho
  obtain ⟨s₁,now,hasked,rfl,hown,hknown,hafter⟩ := responded_executes hrest hst hquiet hex
  have hsame : bases call = calls (respondedTrace t c start st body rest) := hcalls.trans (responded_calls hconclude).symm
  have hshown : shownText (yielded (respondedTrace t c start st body rest)) = d.parts.flatten :=
    (responded_text hconclude).trans (hleft.shown hrec).symm
  rw [← hsame] at he ⊢
  obtain ⟨hdrained,hparts⟩ := hleft.of_published hrec he
  rw [List.nil_append] at hparts
  obtain ⟨hconversation,hprovider,hmodel,hinput,houtput,hok,hsuccess⟩ :=
    Instrumentation.ended_published (run_of_reception hrec hsame hdrained hanswers) hrec.yielded_eq he
  have hlast : (recentWindow (s₁.db.transcript (ChatStore.headed c t.content now).id) t.settings.maxHistoryMessages
      t.settings.maxHistoryChars).getLast? = some m := by
    rw [recentWindow_last _ hn, hasked.spoken.transcript, if_pos rfl]
    exact List.getLast?_concat
  have hquestion := lastUserText_window hlast hasked.role (r := t.request _) rfl
  have hend := conclude_effect (c := ChatStore.headed c t.content now) hasked hown hknown hconclude hafter
  refine ⟨s₁.db,_,m,hasked,⟨hconversation,hprovider,hmodel,?_,?_,fun id ms hy => hok ?_,?_⟩⟩
  · rw [hinput, ← hasked.content]
    exact congrArg _ hquestion
  · rw [houtput, hshown, hparts]
    rfl
  · have hframe := responded_terminal hloop hy (.inl ⟨id,ms,rfl⟩)
    rcases hend with ⟨-,hnone⟩ | ⟨-,-,hnone,-⟩ | ⟨hexit,-⟩
    · exact absurd hframe (hnone id ms)
    · exact absurd hframe (hnone id ms)
    · exact hexit
  · rw [hshown]
    rcases hend with ⟨hdb,-⟩ | ⟨⟨x,rfl⟩,hne,-,reply,hanswered⟩ | ⟨rfl,-,reply,hanswered,-⟩
    · exact .inl hdb
    · refine .inr (.inr ⟨fun hs => ?_,hne,reply,hanswered⟩)
      rcases hsuccess hs with hexit | hinterrupted
      · cases hexit
      · exact hinterrupted
    · exact .inr (.inl ⟨hok rfl,reply,hanswered⟩)

/-- A turn that hands out its final frame has published the event of its call. -/
theorem responded_completed (hanswers : ∀ e ∈ respondedTrace t c start st body rest, PossibleChat e.op e.answer)
    (hloop : Run PossibleChat (Turn.providerLoop start ((t.instrumentation c.id).streamChat t.adapter (t.request history)))
      body (.ok (d,exit)))
    (hconclude : Run PossibleChat (Turn.conclude c.id start d.parts exit) rest out) {id : Uuid} {ms : ℤ}
    (hy : .completed id ms ∈ yielded (respondedTrace t c start st body rest)) :
    ∃ event, started (calls (respondedTrace t c start st body rest)) = [event] := by
  obtain ⟨d',exit',call,got,ho,hrec,hcalls,-,hleft⟩ := providerLoop_run hloop
  cases ho
  have hsame : bases call = calls (respondedTrace t c start st body rest) := hcalls.trans (responded_calls hconclude).symm
  have hframe := responded_terminal hloop hy (.inl ⟨id,ms,rfl⟩)
  cases exit with
  | ok u =>
    cases hleft with
    | ended hd _ _ _ _ =>
      rw [← hsame]
      exact Instrumentation.success_published (run_of_reception hrec hsame hd hanswers)
    | atDelta _ _ hexit => cases hexit
    | atFirstToken _ _ _ hexit => cases hexit
  | error e => exact absurd hframe (conclude_unfinished hconclude id ms)

end

/-- The event of a streamed turn, however the turn is cut short, tells what its transcript tells:
the same conversation and question, and of the reply the text that was shown. One that says the call
succeeded stands beside the whole reply, unless its publish was interrupted. A turn that hands out
its final frame has one. -/
theorem Turn.record_agrees (hrest : s.AtRest i) (hn : 1 ≤ t.settings.maxHistoryMessages) (h : Run PossibleChat t.stream tr out)
    (hex : Executes (streamExec pg) i s tr s') :
    (∀ event ∈ started (calls tr), ∃ mid c m, s.db.Asked mid t.conversationId t.content c m ∧
      t.Recorded mid s'.db c (yielded tr) (publishAnswers (calls tr)) event.fields) ∧
    ∀ id ms, .completed id ms ∈ yielded tr → ∃ event, started (calls tr) = [event] := by
  rcases stream_loop h with hun | ⟨st,c,m,history,start,body,d,exit,rest,hst,hloop,hconclude,htr⟩
  · obtain ⟨hcalls,hunfinished⟩ := hun.calls_nothing
    refine ⟨fun event he => ?_,fun id ms hy => absurd hy (hunfinished id ms)⟩
    rw [hcalls] at he
    cases he
  · subst htr
    exact ⟨fun event he => responded_recorded hrest hn h.answers hst hloop hconclude hex he,
      fun id ms hy => responded_completed h.answers hloop hconclude hy⟩

end

/-! ## The record of a first turn -/

section
open Instrumentation

def records (run : ChatTrace quietSignature × ChatStore × Except Exc Unit) : Bool :=
  run.1.all unhurt && decide ((started (calls run.1)).length = 1 ∧ run.2.1.db.messages.rows.length = 2)

theorem smoothly_records : (streamedAlone (mockTurn none) smoothly).any records = true := by decide +kernel

theorem Turn.record_agrees_smooth : ∃ (tr : ChatTrace quietSignature) (s' : ChatStore) (event : InferenceEvent) (mid : Db)
    (c : Conversation) (m : Message), event ∈ started (calls tr) ∧ s'.db.messages.rows.length = 2 ∧
    emptyTables.db.Asked mid none (text "hi") c m ∧
    (mockTurn none).Recorded mid s'.db c (yielded tr) (publishAnswers (calls tr)) event.fields := by
  obtain ⟨run,hmem,hrecords⟩ := (Option.any_eq_true _ _).mp smoothly_records
  obtain ⟨hall,hkept⟩ := Bool.and_eq_true_iff.mp hrecords
  obtain ⟨hone,hrows⟩ := of_decide_eq_true hkept
  obtain ⟨hrun,hex⟩ := streamedAlone_runs hmem hall
  obtain ⟨event,hevent⟩ := List.length_eq_one_iff.mp hone
  have he : event ∈ started (calls run.1) := by
    rw [hevent]
    exact List.mem_singleton.mpr rfl
  obtain ⟨mid,c,m,hasked,hrecorded⟩ := (Turn.record_agrees (emptyStore_atRest 0) (by decide) hrun hex).1 event he
  exact ⟨run.1,run.2.1,event,mid,c,m,he,hrows,hasked,hrecorded⟩

end
end InferenceLogger
