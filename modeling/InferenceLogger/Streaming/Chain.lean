import InferenceLogger.Api.Frames
import InferenceLogger.Foundation.Marks
import InferenceLogger.Streaming.Responses

/-! # The chain of generators behind a response

`frames()` reads the service's stream, which reads the instrumented call, which reads the
provider. Marks tell when the body of each is entered and when it is left, and change nothing
else.
-/
namespace InferenceLogger
open PyText PyJson AsyncTask

variable {B : Signature} {Y : Type}

inductive Layer where
  | frames
  | service
  | instrumented
  | provider
  deriving DecidableEq

/-- The vendor's own operations, and the marks. -/
inductive MarkedOp (B : Signature) where
  | own (op : B.Op)
  | enter (l : Layer)
  | leave (l : Layer)

@[reducible] def markedSignature (B : Signature) : Signature where
  Op := MarkedOp B
  Answer
    | .own op => B.Answer op
    | .enter _ => Unit
    | .leave _ => Unit

abbrev FrameGen (B : Signature) := Gen (chatSignature B) Text Exc

abbrev FrameTrace (B : Signature) := Trace (genSignature (chatSignature B) Text) Exc

/-- `frames()`. -/
def framesOf (events : ChatGen B Unit) : FrameGen B Unit := do
  let (_,ended) ← asyncFor (S := genSignature (chatSignature B) Text) Gen.baseCall events () fun _ event =>
    relay (some (toSse event))
  Task.ofExcept ended

/-- A mark, as each level of the chain makes it. -/
def providerMark (op : MarkedOp B) : Gen (markedSignature B) StreamChunk Exc ((markedSignature B).Answer op) :=
  Gen.baseCall (B := markedSignature B) op

def callMark (op : MarkedOp B) : CallGen (markedSignature B) ((markedSignature B).Answer op) :=
  Gen.baseCall (B := callSignature (markedSignature B)) (.inner op)

def chatMark (op : MarkedOp B) : Gen (chatSignature (markedSignature B)) Y Exc ((markedSignature B).Answer op) :=
  Gen.baseCall (B := chatSignature (markedSignature B)) (.call (.inner op))

/-- The provider's own operations, among which there are marks now. -/
def ownOp : (op : GenOp B StreamChunk) → Gen (markedSignature B) StreamChunk Exc ((genSignature B StreamChunk).Answer op)
  | .base op => Gen.baseCall (B := markedSignature B) (.own op)
  | .yield chunk => Gen.yield (B := markedSignature B) chunk

namespace BaseProvider

def unmarked (p : BaseProvider B) : BaseProvider (markedSignature B) where
  name := p.name
  defaultModel := p.defaultModel
  isConfigured := p.isConfigured
  maxOutputTokensCap := p.maxOutputTokensCap
  streamChat request := (p.streamChat request).interp ownOp

def markedChat (p : BaseProvider B) (request : ChatRequest) : Gen (markedSignature B) StreamChunk Exc Unit :=
  bracket (providerMark (.enter .provider)) (providerMark (.leave .provider)) (p.unmarked.streamChat request)

def marked (p : BaseProvider B) : BaseProvider (markedSignature B) := {p.unmarked with streamChat := p.markedChat}

end BaseProvider

namespace Turn

def withAdapter {B' : Signature} (t : Turn B) (adapter : BaseProvider B') : Turn B' where
  settings := t.settings
  adapter := adapter
  provider := t.provider
  model := t.model
  conversationId := t.conversationId
  content := t.content

/-- `respond`, over what is made of the instrumented call. -/
def respondThrough (t : Turn B) (wrap : CallGen B Unit → CallGen B Unit) (conversation : Conversation)
    (history : List Message) : ChatGen B Unit := do
  Gen.yield (B := chatSignature B) (.started conversation.id t.provider t.model)
  let start ← (chatMonotonic : ChatTask B ℕ)
  let (d,ended) ← providerLoop start
    (wrap ((t.instrumentation conversation.id).streamChat t.adapter (t.request history)))
  conclude conversation.id start d.parts ended

/-- `stream`, over what is made of the instrumented call. -/
def streamThrough (t : Turn B) (wrap : CallGen B Unit → CallGen B Unit) : ChatGen B Unit := do
  let recorded ← (sqlIn false (recordUserTurn t.settings t.conversationId t.content) :
    ChatTask B (Conversation × Message × List Message)).attempt
  match recorded with
  | .error e => match e.cls with
    | .appError err => Gen.yield (B := chatSignature B) (.failed err.code err.message)
    | _ => throw e
  | .ok (conversation,_,history) => t.respondThrough wrap conversation history

theorem streamThrough_id (t : Turn B) : t.streamThrough id = t.stream := rfl

/-- The instrumented call between its marks. -/
def markedCall (call : CallGen (markedSignature B) Unit) : CallGen (markedSignature B) Unit :=
  bracket (callMark (.enter .instrumented)) (callMark (.leave .instrumented)) call

/-- The service's stream between its marks. -/
def markedStream (t : Turn B) : ChatGen (markedSignature B) Unit :=
  bracket (chatMark (.enter .service)) (chatMark (.leave .service)) ((t.withAdapter t.adapter.marked).streamThrough markedCall)

/-- The chain, every generator between its marks. -/
def chain (t : Turn B) : FrameGen (markedSignature B) Unit :=
  bracket (chatMark (.enter .frames)) (chatMark (.leave .frames)) (framesOf t.markedStream)

/-- The chain without any mark. -/
def unmarkedChain (t : Turn B) : FrameGen (markedSignature B) Unit :=
  framesOf (t.withAdapter t.adapter.unmarked).stream

end Turn

/-! ## The marks change nothing -/

def MarkedOp.isMark : MarkedOp B → Prop
  | .own _ => False
  | _ => True

/-- The marks among the operations of a call, of a turn, and of a generator over them. -/
def CallOp.isMark : CallOp (markedSignature B) → Prop
  | .inner op => MarkedOp.isMark op
  | _ => False

def ChatOp.isMark : ChatOp (markedSignature B) → Prop
  | .call op => CallOp.isMark op
  | _ => False

theorem erases_marked (p : BaseProvider B) (request : ChatRequest) :
    Erases (GenOp.onBase MarkedOp.isMark) (p.marked.streamChat request) (p.unmarked.streamChat request) :=
  erases_bracket (S := genSignature (markedSignature B) StreamChunk) (.base (.enter .provider)) (.base (.leave .provider))
    trivial trivial (.refl _)

/-- The instrumented call reads a provider with marks as it reads one without. -/
theorem erases_streamChat (w : Instrumentation) {p q : BaseProvider (markedSignature B)} (hname : p.name = q.name)
    {request : ChatRequest} (h : Erases (GenOp.onBase MarkedOp.isMark) (p.streamChat request) (q.streamChat request)) :
    Erases (GenOp.onBase CallOp.isMark) (w.streamChat p request) (w.streamChat q request) := by
  have hfinish : w.finish p = w.finish q := by
    funext request eventId startedAt start o exit
    unfold Instrumentation.finish Instrumentation.eventFields
    rw [hname]
  unfold Instrumentation.streamChat
  rw [hfinish]
  apply Erases.bind (.refl _)
  intro eventId
  apply Erases.bind (.refl _)
  intro startedAt
  apply Erases.bind (.refl _)
  intro start
  apply Erases.bind
  · apply erases_asyncFor _ _ h
    · intro op hs k t hk
      exact erases_call (S := genSignature (callSignature (markedSignature B)) StreamChunk) (.base (.inner op)) hs hk
    · intro chunk hs
      exact hs
  · rintro ⟨o,exit⟩
    exact .refl _

theorem erases_markedCall {call call' : CallGen (markedSignature B) Unit} (h : Erases (GenOp.onBase CallOp.isMark) call call') :
    Erases (GenOp.onBase CallOp.isMark) (Turn.markedCall call) call' :=
  erases_bracket (S := genSignature (callSignature (markedSignature B)) StreamChunk) (.base (.inner (.enter .instrumented)))
    (.base (.inner (.leave .instrumented))) trivial trivial h

/-- The turn over the marked provider and the marked call, and the turn without them. -/
theorem erases_streamThrough (t : Turn B) :
    Erases (GenOp.onBase ChatOp.isMark) ((t.withAdapter t.adapter.marked).streamThrough Turn.markedCall)
      (t.withAdapter t.adapter.unmarked).stream := by
  unfold Turn.streamThrough Turn.stream
  apply Erases.bind (.refl _)
  intro recorded
  cases recorded with
  | error e => exact .refl _
  | ok recorded =>
    obtain ⟨conversation,m,history⟩ := recorded
    show Erases _ (Turn.respondThrough _ _ conversation history) (Turn.respond _ conversation history)
    unfold Turn.respondThrough Turn.respond
    apply Erases.bind (.refl _)
    intro u
    apply Erases.bind (.refl _)
    intro start
    have hcall := erases_markedCall (erases_streamChat (t.instrumentation conversation.id) (p := t.adapter.marked)
      (q := t.adapter.unmarked) rfl (erases_marked t.adapter (t.request history)))
    apply Erases.bind
    · apply erases_asyncFor _ _ hcall
      · intro op hs k t hk
        exact erases_call (S := genSignature (chatSignature (markedSignature B)) ChatStreamEvent) (.base (.call op)) hs hk
      · intro chunk hs
        exact hs
    · rintro ⟨d,ended⟩
      exact .refl _

/-- What reaches the response is what reaches it without the marks. -/
theorem erases_chain (t : Turn B) : Erases (GenOp.onBase ChatOp.isMark) t.chain t.unmarkedChain := by
  have hstream : Erases (GenOp.onBase ChatOp.isMark) t.markedStream (t.withAdapter t.adapter.unmarked).stream :=
    erases_bracket (S := genSignature (chatSignature (markedSignature B)) ChatStreamEvent)
      (.base (.call (.inner (.enter .service))))
        (.base (.call (.inner (.leave .service)))) trivial trivial (erases_streamThrough t)
  apply erases_bracket (S := genSignature (chatSignature (markedSignature B)) Text) (.base (.call (.inner (.enter .frames))))
    (.base (.call (.inner (.leave .frames)))) trivial trivial
  unfold framesOf
  apply Erases.bind
  · apply erases_asyncFor _ _ hstream
    · intro op hs k t hk
      exact erases_call (S := genSignature (chatSignature (markedSignature B)) Text) (.base op) hs hk
    · intro event hs
      exact hs
  · rintro ⟨u,ended⟩
    exact .refl _

/-! ## The marks of a run -/

/-- What the environment of the chain can answer. A mark only passes. -/
def PossibleAnswer (op : ChatOp (markedSignature B)) (r : Except Exc ((chatSignature (markedSignature B)).Answer op)) : Prop :=
  PossibleChat (.base op) r ∧ (op.isMark → ∃ a, r = .ok a)

def ChatOp.weighed (w : CallOp B → ℤ) : ChatOp B → ℤ
  | .call op => w op
  | _ => 0

abbrev PossibleReply (op : CallOp (markedSignature B)) (r : Except Exc ((callSignature (markedSignature B)).Answer op)) : Prop :=
  PossibleAnswer (.call op) r

theorem drained_possible {op : GenOp (callSignature (markedSignature B)) StreamChunk}
    {r : Except Exc ((genSignature (callSignature (markedSignature B)) StreamChunk).Answer op)}
    (h : Drained PossibleReply op r) : Possible op r := by
  cases op with
  | base op => exact h.1
  | «yield» chunk =>
    intro e he
    have hok : r = .ok () := h
    rw [hok] at he
    cases he

theorem drained_possibleChat {op : GenOp (chatSignature (markedSignature B)) ChatStreamEvent}
    {r : Except Exc ((genSignature (chatSignature (markedSignature B)) ChatStreamEvent).Answer op)}
    (h : Drained PossibleAnswer op r) : PossibleChat op r := by
  cases op with
  | base op => exact h.1
  | «yield» event =>
    intro e he
    have hok : r = .ok () := h
    rw [hok] at he
    cases he

section Weights
variable {v : CallOp (markedSignature B) → ℤ}

/-- The operations of the wrapper that are no marks and mint nothing. -/
structure OnlyMarks (v : CallOp (markedSignature B) → ℤ) : Prop where
  own : ∀ op, v (.inner (.own op)) = 0
  now : v .now = 0
  monotonic : v .monotonic = 0
  createPublish : ∀ event, v (.createPublish event) = 0
  awaitPublish : ∀ how, v (.awaitPublish how) = 0

theorem weighs_own (hv : OnlyMarks v) (p : BaseProvider B) (request : ChatRequest) :
    Weighs (Drained fun op r => PossibleReply (.inner op) r)
    (GenOp.weighed fun op => v (.inner op)) 0 (p.unmarked.streamChat request) := by
  show Weighs _ _ 0 ((p.streamChat request).interp ownOp)
  generalize p.streamChat request = gen
  induction gen with
  | done a => exact weighs_ofExcept (.ok a)
  | raise e => exact weighs_raise e
  | await op k ih =>
    have hop : Weighs (Drained fun op r => PossibleReply (.inner op) r)
        (GenOp.weighed fun op => v (.inner op)) 0 (ownOp op) := by
      cases op with
      | base op =>
        have h : Weighs (Drained fun op r => PossibleReply (.inner op) r) (GenOp.weighed fun op => v (.inner op)) _
            (Task.call (S := genSignature (markedSignature B) StreamChunk) (ε := Exc) (.base (.own op))) := weighs_call _
        have hzero : GenOp.weighed (Y := StreamChunk) (fun op => v (.inner op)) (.base (.own op)) = 0 := hv.own op
        rw [hzero] at h
        exact h
      | «yield» chunk => exact weighs_yield chunk
    exact hop.resume ih

theorem weighs_marked (hv : OnlyMarks v) (p : BaseProvider B) (request : ChatRequest) :
    Weighs (Drained fun op r => PossibleReply (.inner op) r) (GenOp.weighed fun op => v (.inner op))
      (v (.inner (.enter .provider)) + 0 + v (.inner (.leave .provider))) (p.marked.streamChat request) :=
  Weighs.bracket (weighs_call (S := genSignature (markedSignature B) StreamChunk) (.base (.enter .provider)))
    (weighs_own hv p request) (weighs_call (S := genSignature (markedSignature B) StreamChunk) (.base (.leave .provider)))

/-- One chunk passes through the wrapper without a mark. -/
theorem observe_drained (hv : OnlyMarks v) {start : ℕ} {o : Observed} {chunk : StreamChunk}
    {tr : CallTrace (markedSignature B)} {out} (h : Run (Drained PossibleReply) (Instrumentation.observe start o chunk) tr out) :
    weight (GenOp.weighed v) tr = 0 ∧ ∃ o', out = .ok (o',.ok ()) := by
  obtain ⟨t,resumed,before,rfl,rfl,hbefore,-⟩ := Instrumentation.observe_run (h.mono fun _ _ => drained_possible)
  have hresumed : resumed = .ok () := h.answers _ (List.mem_append_right _ List.mem_cons_self)
  have hweight : weight (GenOp.weighed v) before = 0 := by
    rcases hbefore with ⟨rfl,-⟩ | ⟨stop,rfl,-⟩
    · rfl
    · exact congrArg (· + 0) hv.monotonic
  refine ⟨?_,_,by rw [hresumed]⟩
  rw [weight_append, hweight]
  rfl

/-- What a call weighs: the id it mints and what its provider weighs. -/
theorem weighs_streamChat (hv : OnlyMarks v) (w : Instrumentation) {p : BaseProvider (markedSignature B)} {request : ChatRequest}
    {d : ℤ} (hp : Weighs (Drained fun op r => PossibleReply (.inner op) r)
    (GenOp.weighed fun op => v (.inner op)) d (p.streamChat request)) :
    Weighs (Drained PossibleReply) (GenOp.weighed v) (v .uuid4 + d) (w.streamChat p request) := by
  have hsync : ∀ op : CallOp (markedSignature B), (∀ r, PossibleReply op r → ∃ a, r = .ok a) → ∀ tr out,
      Run (Drained PossibleReply) (Gen.ofBase (Task.call (S := callSignature (markedSignature B)) op) : CallGen
        (markedSignature B) _) tr out →
      ∃ a, out = .ok a := by
    intro op hok tr out hr
    obtain ⟨base,-,hb⟩ := Run.ofBase_iff.mp hr
    exact hok _ (Run.call_iff.mp hb).2
  have hloop : ∀ start, Weighs (Drained PossibleReply)
      (GenOp.weighed v) d (Instrumentation.loop start (p.streamChat request) {}) := by
    intro start
    apply weighs_asyncFor _ _ _ hp
    · intro op tr r hr
      obtain ⟨rfl,ha⟩ := Run.call_iff.mp hr
      exact ⟨add_zero _,ha⟩
    · intro chunk
      exact ⟨rfl,rfl⟩
    · intro o chunk tr out hr
      exact observe_drained hv hr
  have hend : ∀ (eventId : Uuid) (startedAt : ℤ) (start : ℕ) (o : Observed) (exit : Except Exc Unit),
      Weighs (Drained PossibleReply) (GenOp.weighed v) 0
        ((Gen.ofBase (w.finish p request eventId startedAt start o exit) : CallGen (markedSignature B) Unit) >>= fun _ =>
          Task.ofExcept exit) := by
    intro eventId startedAt start o exit
    apply Weighs.bind
    · intro tr out hr
      obtain ⟨completedAt,stop,rest,rfl,hfinish⟩ := Instrumentation.finish_run (hr.mono fun _ _ => drained_possible)
      have hrest : weight (GenOp.weighed v) rest = 0 := by
        cases hfinish with
        | invalid => rfl
        | published r he =>
          rw [weight_cons, weight_cons, weight_nil]
          show v (.createPublish _) + (v (.awaitPublish _) + 0) = 0
          rw [hv.createPublish, hv.awaitPublish]
          rfl
      rw [weight_cons, weight_cons, hrest]
      show v .now + (v .monotonic + 0) = 0
      rw [hv.now, hv.monotonic]
      rfl
    · intro u
      exact weighs_ofExcept exit
  have hnow : Weighs (Drained PossibleReply) (GenOp.weighed v) 0
      (Gen.ofBase (now (B := markedSignature B)) : CallGen (markedSignature B) ℤ) := by
    rw [← hv.now]
    exact weighs_ofBase (weighs_call (S := callSignature (markedSignature B)) .now)
  have hclock : Weighs (Drained PossibleReply)
      (GenOp.weighed v) 0 (Gen.ofBase (monotonic (B := markedSignature B)) : CallGen (markedSignature B) ℕ) := by
    rw [← hv.monotonic]
    exact weighs_ofBase (weighs_call (S := callSignature (markedSignature B)) .monotonic)
  have hsum : d = 0 + (0 + (d + 0)) := by omega
  unfold Instrumentation.streamChat
  apply Weighs.bind_ok (weighs_ofBase (weighs_call (S := callSignature (markedSignature B)) .uuid4))
    (hsync .uuid4 fun r h => h.1)
  intro eventId
  rw [hsum]
  apply Weighs.bind_ok hnow (hsync .now fun r h => h.1)
  intro startedAt
  apply Weighs.bind_ok hclock (hsync .monotonic fun r h => h.1)
  intro start
  apply Weighs.bind_ok (hloop start)
  · intro tr out hr
    obtain ⟨o,exit,rfl,-⟩ := Instrumentation.loop_run (hr.mono fun _ _ => drained_possible)
    exact ⟨_,rfl⟩
  · rintro ⟨o,exit⟩
    exact hend eventId startedAt start o exit

theorem weighs_sqlIn {detached : Bool} {α : Type} (t : SqlTask α) :
    Weighs (PossibleAnswer (B := B)) (ChatOp.weighed v) 0 (sqlIn detached t) := by
  intro tr out h
  obtain ⟨st,rfl,-⟩ := sqlIn_iff.mp h
  apply weight_zero
  intro e he
  obtain ⟨e',-,rfl⟩ := List.mem_map.mp he
  rfl

theorem weighs_chatMonotonic : Weighs (PossibleAnswer (B := B)) (ChatOp.weighed v) 0 chatMonotonic :=
  weighs_call (S := chatSignature (markedSignature B)) .monotonic

theorem weighs_conclude (id : Uuid) (start : ℕ) (parts : List Text) (exit : Except Exc Unit) :
    Weighs (Drained (PossibleAnswer (B := B))) (GenOp.weighed (ChatOp.weighed v)) 0 (Turn.conclude id start parts exit) := by
  intro tr out h
  have hcalls := (conclude_yields (h.mono fun _ _ => drained_possibleChat)).2.1
  apply weight_zero
  rintro ⟨op,r⟩ he
  rcases op with (op | _ | _ | _) | y
  · have hmem : ⟨op,r⟩ ∈ calls tr := List.mem_filterMap.mpr ⟨_,he,rfl⟩
    rw [hcalls] at hmem
    cases hmem
  · rfl
  · rfl
  · rfl
  · rfl

/-- One chunk passes through the service without a mark. -/
theorem deliver_drained {start : ℕ} {d : Delivery} {chunk : StreamChunk} {tr : ChatTrace (markedSignature B)} {out}
    (h : Run (Drained PossibleAnswer) (deliver start d chunk) tr out) :
    weight (GenOp.weighed (ChatOp.weighed v)) tr = 0 ∧ ∃ d', out = .ok (d',.ok ()) := by
  rcases deliver_run (h.mono fun _ _ => drained_possibleChat) with ⟨-,rfl,rfl⟩ | ⟨-,before,resumed,rfl,rfl,hbefore⟩ |
    ⟨-,-,stop,ms,e,rfl,rfl⟩
  · exact ⟨rfl,d,rfl⟩
  · have hresumed : resumed = .ok () := h.answers _ (List.mem_append_right _ List.mem_cons_self)
    refine ⟨?_,_,by rw [hresumed]⟩
    rcases hbefore with ⟨-,rfl⟩ | ⟨-,stop,ms,rfl⟩ <;> rfl
  · have hresumed : (.error e : Except Exc Unit) = .ok () := h.answers _ (List.mem_cons_of_mem _ List.mem_cons_self)
    cases hresumed

theorem weighs_respondThrough {t : Turn (markedSignature B)}
    {wrap : CallGen (markedSignature B) Unit → CallGen (markedSignature B) Unit}
    (hcall : ∀ (w : Instrumentation) request, Weighs (Drained PossibleReply)
    (GenOp.weighed v) 0 (wrap (w.streamChat t.adapter request)))
    (conversation : Conversation) (history : List Message) :
    Weighs (Drained PossibleAnswer) (GenOp.weighed (ChatOp.weighed v)) 0 (t.respondThrough wrap conversation history) := by
  unfold Turn.respondThrough
  apply Weighs.bind (weighs_yield _)
  intro u
  apply Weighs.bind (weighs_ofBase weighs_chatMonotonic)
  intro start
  apply Weighs.bind
  · apply weighs_asyncFor _ _ _ (hcall _ _)
    · intro op tr r hr
      obtain ⟨rfl,ha⟩ := Run.call_iff.mp hr
      exact ⟨add_zero _,ha⟩
    · intro chunk
      exact ⟨rfl,rfl⟩
    · intro d chunk tr out hr
      exact deliver_drained hr
  · rintro ⟨d,ended⟩
    exact weighs_conclude conversation.id start d.parts ended

/-- A turn weighs nothing when its call weighs nothing. -/
theorem weighs_streamThrough {t : Turn (markedSignature B)}
    {wrap : CallGen (markedSignature B) Unit → CallGen (markedSignature B) Unit}
    (hcall : ∀ (w : Instrumentation) request, Weighs (Drained PossibleReply)
    (GenOp.weighed v) 0 (wrap (w.streamChat t.adapter request))) :
    Weighs (Drained PossibleAnswer) (GenOp.weighed (ChatOp.weighed v)) 0 (t.streamThrough wrap) := by
  unfold Turn.streamThrough
  apply Weighs.bind (weighs_ofBase (weighs_sqlIn _).attempt)
  intro recorded
  cases recorded with
  | error e =>
    dsimp only
    split
    · exact weighs_yield _
    · exact weighs_raise e
  | ok recorded =>
    obtain ⟨conversation,m,history⟩ := recorded
    exact weighs_respondThrough hcall conversation history

/-- The marks of a chain that has run to its end cancel out, and a call that reached its provider has minted an id. -/
theorem weighs_chain (hv : OnlyMarks v) (hframes : v (.inner (.enter .frames)) + v (.inner (.leave .frames)) = 0)
    (hservice : v (.inner (.enter .service)) + v (.inner (.leave .service)) = 0)
    (hcall : v (.inner (.enter .instrumented)) + (v .uuid4 + (v (.inner (.enter .provider)) + v (.inner (.leave .provider)))) +
      v (.inner (.leave .instrumented)) = 0) (t : Turn B) :
    Weighs (Drained PossibleAnswer) (GenOp.weighed (ChatOp.weighed v)) 0 t.chain := by
  have hinstrumented : ∀ (w : Instrumentation) request,
      Weighs (Drained PossibleReply) (GenOp.weighed v) 0 (Turn.markedCall (w.streamChat t.adapter.marked request)) := by
    intro w request
    have h := Weighs.bracket (weighs_call (S := genSignature (callSignature (markedSignature B)) StreamChunk)
        (.base (.inner (.enter .instrumented))))
      (weighs_streamChat hv w (weighs_marked hv t.adapter request))
      (weighs_call (S := genSignature (callSignature (markedSignature B)) StreamChunk) (.base (.inner (.leave .instrumented))))
    have hsum : v (.inner (.enter .instrumented)) +
        (v .uuid4 + (v (.inner (.enter .provider)) + 0 + v (.inner (.leave .provider)))) +
        v (.inner (.leave .instrumented)) = 0 := by omega
    exact hsum ▸ h
  have hstream : Weighs (Drained PossibleAnswer) (GenOp.weighed (ChatOp.weighed v)) 0 t.markedStream := by
    have h := Weighs.bracket (weighs_call (S := genSignature (chatSignature (markedSignature B)) ChatStreamEvent)
        (.base (.call (.inner (.enter .service)))))
      (weighs_streamThrough (t := t.withAdapter t.adapter.marked) hinstrumented)
      (weighs_call (S := genSignature (chatSignature (markedSignature B)) ChatStreamEvent)
        (.base (.call (.inner (.leave .service)))))
    have hsum : v (.inner (.enter .service)) + 0 + v (.inner (.leave .service)) = 0 := by omega
    exact hsum ▸ h
  have hloop : Weighs (Drained PossibleAnswer) (GenOp.weighed (ChatOp.weighed v)) 0 (framesOf t.markedStream) := by
    unfold framesOf
    apply Weighs.bind
    · apply weighs_asyncFor _ _ _ hstream
      · intro op tr r hr
        obtain ⟨rfl,ha⟩ := Run.call_iff.mp hr
        exact ⟨add_zero _,ha⟩
      · intro event
        exact ⟨rfl,rfl⟩
      · intro u event tr out hr
        obtain ⟨rfl,rfl⟩ := relay_drained hr
        exact ⟨rfl,(),rfl⟩
    · rintro ⟨u,ended⟩
      exact weighs_ofExcept ended
  have h := Weighs.bracket (weighs_call (S := genSignature (chatSignature (markedSignature B)) Text)
      (.base (.call (.inner (.enter .frames))))) hloop
    (weighs_call (S := genSignature (chatSignature (markedSignature B)) Text) (.base (.call (.inner (.leave .frames)))))
  have hsum : v (.inner (.enter .frames)) + 0 + v (.inner (.leave .frames)) = 0 := by omega
  exact hsum ▸ h

end Weights

end InferenceLogger
