import InferenceLogger.Services.Transactions
import InferenceLogger.Observation.OneEvent

/-! # What a run of a streamed turn shows

The run of a turn is taken apart once: the first transaction, the loop over the provider's
chunks, and what follows the loop by the way it was left.
-/
namespace InferenceLogger
open PyText PyJson AsyncTask

variable {B : Signature}

abbrev ChatTrace (B : Signature) := Trace (genSignature (chatSignature B) ChatStreamEvent) Exc

/-- What the environment of a turn can answer. Anything may be thrown in at an await or a
`yield`; the await of the detached task raises only what cancels it. -/
def PossibleChat : (op : GenOp (chatSignature B) ChatStreamEvent) →
    Except Exc ((genSignature (chatSignature B) ChatStreamEvent).Answer op) → Prop
  | .yield _, r => ∀ e, r = .error e → e.isForeign = true
  | .base (.call op), r => PossibleCall op r
  | .base (.sql _ _), r => ∀ e, r = .error e → e.isForeign = true
  | .base .awaitShield, r => ∀ e, r = .error e → e.isForeign = true ∧ e.isCancelled = true
  | .base .monotonic, r => ∃ a, r = .ok a

def callOf : Event (genSignature (chatSignature B) ChatStreamEvent) Exc → Option (Event (callSignature B) Exc)
  | ⟨.base (.call op),r⟩ => some ⟨op,r⟩
  | _ => none

/-- What the instrumented call awaited. -/
def calls (tr : ChatTrace B) : CallEvents B := tr.filterMap callOf

def statementOf (detached : Bool) :
    Event (genSignature (chatSignature B) ChatStreamEvent) Exc → Option (Event chatSqlSignature Exc)
  | ⟨.base (.sql d stmt),r⟩ => if d = detached then some ⟨stmt,r⟩ else none
  | _ => none

/-- The statements of the turn's own sessions, or of the detached task's. -/
def statements (detached : Bool) (tr : ChatTrace B) : SqlTrace := tr.filterMap (statementOf detached)

@[simp] theorem calls_append (tr₁ tr₂ : ChatTrace B) : calls (tr₁ ++ tr₂) = calls tr₁ ++ calls tr₂ :=
  List.filterMap_append

@[simp] theorem statements_append (d : Bool) (tr₁ tr₂ : ChatTrace B) :
    statements d (tr₁ ++ tr₂) = statements d tr₁ ++ statements d tr₂ := List.filterMap_append

def statementEvent (detached : Bool) (e : Event chatSqlSignature Exc) :
    Event (genSignature (chatSignature B) ChatStreamEvent) Exc := ⟨.base (.sql detached e.op),e.answer⟩

/-- A transaction of the turn runs as it runs alone. -/
theorem sqlIn_run {α : Type} {detached : Bool} {t : SqlTask α} {tr : ChatTrace B} {out : Except Exc α}
    {allowed : (op : GenOp (chatSignature B) ChatStreamEvent) →
      Except Exc ((genSignature (chatSignature B) ChatStreamEvent).Answer op) → Prop}
    (h : Run allowed (Gen.ofBase (sqlIn detached t) : Gen (chatSignature B) ChatStreamEvent Exc α) tr out) :
    ∃ st : SqlTrace, tr = st.map (statementEvent detached) ∧
      Run (fun op r => allowed (.base (.sql detached op)) r) t st out := by
  obtain ⟨base,rfl,hb⟩ := Run.ofBase_iff.mp h
  obtain ⟨st,rfl,hr⟩ := sqlIn_iff.mp hb
  exact ⟨st,by simp [statementEvent,Gen.baseEvent,chatSqlEvent],hr⟩

@[simp] theorem statements_map (d d' : Bool) (st : SqlTrace) :
    statements (B := B) d (st.map (statementEvent d')) = if d' = d then st else [] := by
  induction st with
  | nil => simp [statements]
  | cons e st ih =>
    unfold statements at ih ⊢
    rw [List.map_cons, List.filterMap_cons]
    by_cases hd : d' = d
    · subst hd
      simpa [statementOf,statementEvent] using ih
    · simp [statementOf,statementEvent,hd]

@[simp] theorem calls_map (d : Bool) (st : SqlTrace) : calls (B := B) (st.map (statementEvent d)) = [] := by
  induction st with
  | nil => rfl
  | cons e st ih => exact ih

@[simp] theorem yielded_map (d : Bool) (st : SqlTrace) :
    yielded (st.map (statementEvent d) : ChatTrace B) = [] := by
  induction st with
  | nil => rfl
  | cons e st ih => exact ih

/-! ## The loop -/

/-- The texts a list of chunks shows. -/
def texts (got : List StreamChunk) : List Text := (got.map StreamChunk.deltaText).filter (· ≠ [])

theorem texts_flatten (got : List StreamChunk) :
    (texts got).flatten = (got.map StreamChunk.deltaText).flatten := by
  induction got with
  | nil => rfl
  | cons c got ih =>
    unfold texts at ih ⊢
    by_cases hc : c.deltaText = []
    · simpa [hc] using ih
    · simpa [hc] using ih

/-- The frames of a loop that showed these texts: the first token is announced once. -/
def Frames (seen : Bool) (shown : List Text) (frames : List ChatStreamEvent) : Prop :=
  if seen = true ∨ shown = [] then frames = shown.map .delta
  else ∃ ttft, frames = .firstToken ttft :: shown.map .delta

def offerOf : Event (genSignature (callSignature B) StreamChunk) Exc → Option (Text × Except Exc Unit)
  | ⟨.yield chunk,.ok _⟩ => if chunk.deltaText = [] then none else some (chunk.deltaText,.ok ())
  | ⟨.yield chunk,.error e⟩ => some (chunk.deltaText,.error e)
  | _ => none

/-- The texts the instrumented call handed over, each with how it was resumed. -/
def offers (call : CallTrace B) : List (Text × Except Exc Unit) := call.filterMap offerOf

def deliveryOf : Event (genSignature (chatSignature B) ChatStreamEvent) Exc → Option (Text × Except Exc Unit)
  | ⟨.yield (.delta shown),r⟩ => some (shown,r)
  | _ => none

/-- The texts the turn showed, each with how it was resumed. -/
def deliveries (tr : ChatTrace B) : List (Text × Except Exc Unit) := tr.filterMap deliveryOf

@[simp] theorem deliveries_append (tr₁ tr₂ : ChatTrace B) :
    deliveries (tr₁ ++ tr₂) = deliveries tr₁ ++ deliveries tr₂ := List.filterMap_append

@[simp] theorem deliveries_map (d : Bool) (st : SqlTrace) :
    deliveries (st.map (statementEvent d) : ChatTrace B) = [] := by
  induction st with
  | nil => rfl
  | cons e st ih => exact ih

/-- How the loop was left. Thrown out at a first token, the text behind it is not kept. -/
inductive LeftBy (d : Delivery) (call : CallTrace B) (got : List StreamChunk) (exit : Except Exc Unit)
    (tr : ChatTrace B) (d' : Delivery) : Prop where
  | ended : (∀ e ∈ call, Drained (B := callSignature B) (Y := StreamChunk) (fun _ _ => True) e.op e.answer) →
      d'.parts = d.parts ++ texts got → Frames d.firstTokenSeen (texts got) (yielded tr) →
      (∀ y e, ⟨.yield y,.error e⟩ ∉ tr) → offers call = deliveries tr → LeftBy d call got exit tr d'
  | atDelta (shown : Text) (e : Exc) : exit = .error e → ⟨.yield (.delta shown),.error e⟩ ∈ tr →
      d'.parts = d.parts ++ texts got → (∀ ms e, ⟨.yield (.firstToken ms),.error e⟩ ∉ tr) →
      offers call = deliveries tr → LeftBy d call got exit tr d'
  | atFirstToken (ms : ℤ) (shown : Text) (e : Exc) : exit = .error e →
      ⟨.yield (.firstToken ms),.error e⟩ ∈ tr → d.firstTokenSeen = false → d'.parts = d.parts →
      texts got = [shown] → deliveries tr = [] → offers call = [(shown,.error e)] → LeftBy d call got exit tr d'

theorem announce_run {start : ℕ} {d : Delivery} {tr : ChatTrace B} {out}
    (h : Run PossibleChat (announce start d) tr out) :
    (d.firstTokenSeen = true ∧ tr = [] ∧ out = .ok (.ok ())) ∨
      (d.firstTokenSeen = false ∧ ∃ stop ms r,
        tr = [⟨.base .monotonic,.ok stop⟩,⟨.yield (.firstToken ms),r⟩] ∧ out = .ok r) := by
  unfold announce at h
  split at h
  · rename_i hseen
    obtain ⟨rfl,rfl⟩ := Run.done_iff.mp h
    exact .inl ⟨hseen,rfl,rfl⟩
  · rename_i hseen
    rcases Run.bind_iff.mp h with ⟨tr₁,stop,tr₂,rfl,h₁,h₂⟩ | ⟨e,-,h₁⟩
    · obtain ⟨base,rfl,hb⟩ := Run.ofBase_iff.mp h₁
      obtain ⟨rfl,-⟩ := Run.call_iff.mp hb
      obtain ⟨r,rfl,hy⟩ := Run.attempt_iff.mp h₂
      obtain ⟨rfl,-⟩ := Run.call_iff.mp hy
      exact .inr ⟨by simpa using hseen,stop,_,r,rfl,rfl⟩
    · obtain ⟨base,rfl,hb⟩ := Run.ofBase_iff.mp h₁
      obtain ⟨-,a,ha⟩ := Run.call_iff.mp hb
      cases ha

/-- One round of the loop body: nothing to show, the text shown, or thrown out before it. -/
theorem deliver_run {start : ℕ} {d : Delivery} {chunk : StreamChunk} {tr : ChatTrace B} {out}
    (h : Run PossibleChat (deliver start d chunk) tr out) :
    (chunk.deltaText = [] ∧ tr = [] ∧ out = .ok (d,.ok ())) ∨
    (chunk.deltaText ≠ [] ∧ ∃ before resumed, tr = before ++ [⟨.yield (.delta chunk.deltaText),resumed⟩] ∧
      out = .ok ({firstTokenSeen := true, parts := d.parts ++ [chunk.deltaText]},resumed) ∧
      ((d.firstTokenSeen = true ∧ before = []) ∨ (d.firstTokenSeen = false ∧ ∃ stop ms,
        before = [⟨.base .monotonic,.ok stop⟩,⟨.yield (.firstToken ms),.ok ()⟩]))) ∨
    (chunk.deltaText ≠ [] ∧ d.firstTokenSeen = false ∧ ∃ stop ms e,
      tr = [⟨.base .monotonic,.ok stop⟩,⟨.yield (.firstToken ms),.error e⟩] ∧
      out = .ok ({d with firstTokenSeen := true},.error e)) := by
  unfold deliver at h
  split at h
  · rename_i hempty
    obtain ⟨rfl,rfl⟩ := Run.done_iff.mp h
    exact .inl ⟨hempty,rfl,rfl⟩
  · rename_i hempty
    rcases Run.bind_iff.mp h with ⟨tr₁,announced,tr₂,rfl,h₁,h₂⟩ | ⟨e,-,h₁⟩
    · have hshow : announced = .ok () → ∃ resumed, tr₂ = [⟨.yield (.delta chunk.deltaText),resumed⟩] ∧
          out = .ok ({firstTokenSeen := true, parts := d.parts ++ [chunk.deltaText]},resumed) := by
        rintro rfl
        rcases Run.bind_iff.mp h₂ with ⟨tr₃,resumed,tr₄,rfl,h₃,h₄⟩ | ⟨e,-,h₃⟩
        · obtain ⟨r,hr,hy⟩ := Run.attempt_iff.mp h₃
          cases hr
          obtain ⟨rfl,-⟩ := Run.call_iff.mp hy
          obtain ⟨rfl,rfl⟩ := Run.done_iff.mp h₄
          exact ⟨resumed,rfl,rfl⟩
        · obtain ⟨r,hr,-⟩ := Run.attempt_iff.mp h₃
          cases hr
      rcases announce_run h₁ with ⟨hseen,rfl,hr⟩ | ⟨hseen,stop,ms,r,rfl,hr⟩
      · cases hr
        obtain ⟨resumed,rfl,rfl⟩ := hshow rfl
        exact .inr (.inl ⟨hempty,[],resumed,rfl,rfl,.inl ⟨hseen,rfl⟩⟩)
      · cases hr
        cases announced with
        | ok u =>
          obtain ⟨resumed,rfl,rfl⟩ := hshow rfl
          exact .inr (.inl ⟨hempty,_,resumed,rfl,rfl,.inr ⟨hseen,stop,ms,rfl⟩⟩)
        | error e =>
          obtain ⟨rfl,rfl⟩ := Run.done_iff.mp h₂
          exact .inr (.inr ⟨hempty,hseen,stop,ms,e,rfl,rfl⟩)
    · rcases announce_run h₁ with ⟨-,-,hr⟩ | ⟨-,stop,ms,r,-,hr⟩
      · cases hr
      · cases hr

theorem texts_cons_empty {c : StreamChunk} (h : c.deltaText = []) (got : List StreamChunk) :
    texts (c :: got) = texts got := by
  simp [texts,h]

theorem texts_cons {c : StreamChunk} (h : c.deltaText ≠ []) (got : List StreamChunk) :
    texts (c :: got) = c.deltaText :: texts got := by
  simp [texts,h]

/-- A text that was shown, in front of a loop that has seen its first token. -/
theorem LeftBy.cons {d d' : Delivery} {call : CallTrace B} {got : List StreamChunk} {exit : Except Exc Unit}
    {before tr : ChatTrace B} {chunk : StreamChunk} (hne : chunk.deltaText ≠ [])
    (hbefore : (d.firstTokenSeen = true ∧ before = []) ∨ (d.firstTokenSeen = false ∧ ∃ stop ms,
      before = [⟨.base .monotonic,.ok stop⟩,⟨.yield (.firstToken ms),.ok ()⟩]))
    (h : LeftBy {firstTokenSeen := true, parts := d.parts ++ [chunk.deltaText]} call got exit tr d') :
    LeftBy d (⟨.yield chunk,.ok ()⟩ :: call) (chunk :: got) exit
      (before ++ [⟨.yield (.delta chunk.deltaText),.ok ()⟩] ++ tr) d' := by
  have hthrown : ∀ {y e}, ⟨.yield y,.error e⟩ ∈ before ++ [⟨.yield (.delta chunk.deltaText),.ok ()⟩] ++ tr →
      (⟨.yield y,.error e⟩ : Event (genSignature (chatSignature B) ChatStreamEvent) Exc) ∈ tr := by
    intro y e he
    rcases List.mem_append.mp he with he | he
    · rcases hbefore with ⟨-,rfl⟩ | ⟨-,stop,ms,rfl⟩ <;> simp at he
    · exact he
  have hoffers : ∀ {rest : ChatTrace B}, offers call = deliveries rest →
      offers (⟨.yield chunk,.ok ()⟩ :: call) =
        deliveries (before ++ [⟨.yield (.delta chunk.deltaText),.ok ()⟩] ++ rest) := by
    intro rest hrest
    have hcons : offers (⟨.yield chunk,.ok ()⟩ :: call) = (chunk.deltaText,.ok ()) :: offers call := by
      simp [offers,offerOf,hne]
    rw [hcons, hrest]
    rcases hbefore with ⟨-,rfl⟩ | ⟨-,stop,ms,rfl⟩ <;> rfl
  cases h with
  | ended hcall hparts hframes hresumed hdeliveries =>
    refine .ended ?_ ?_ ?_ ?_ (hoffers hdeliveries)
    · intro e he
      rcases List.mem_cons.mp he with rfl | he
      · rfl
      · exact hcall e he
    · rw [hparts, texts_cons hne]
      simp
    · rw [texts_cons hne]
      have hrest : yielded tr = (texts got).map .delta := by simpa [Frames] using hframes
      unfold Frames
      rcases hbefore with ⟨hseen,rfl⟩ | ⟨hseen,stop,ms,rfl⟩
      · rw [if_pos (.inl hseen), yielded_append, hrest]
        rfl
      · rw [if_neg (by simp [hseen]), yielded_append, hrest]
        exact ⟨ms,rfl⟩
    · intro y e he
      exact hresumed y e (hthrown he)
  | atDelta shown e hexit hmem hparts hfirst hdeliveries =>
    refine .atDelta shown e hexit (List.mem_append_right _ hmem) ?_ ?_ (hoffers hdeliveries)
    · rw [hparts, texts_cons hne]
      simp
    · intro ms e he
      exact hfirst ms e (hthrown he)
  | atFirstToken ms shown e _ _ hseen => cases hseen

theorem providerLoop_run {start : ℕ} {chunks : CallGen B Unit} {d : Delivery} {tr : ChatTrace B} {out}
    (h : Run PossibleChat (asyncFor (S := genSignature (chatSignature B) ChatStreamEvent)
      (fun op => Gen.baseCall (B := chatSignature B) (.call op)) chunks d (deliver start)) tr out) :
    ∃ d' exit call got, out = .ok (d',exit) ∧ Reception chunks call got exit ∧ bases call = calls tr ∧
      (∀ b, statements b tr = []) ∧ LeftBy d call got exit tr d' := by
  induction chunks generalizing d tr with
  | done a =>
    obtain ⟨rfl,rfl⟩ := Run.done_iff.mp h
    exact ⟨d,_,[],[],rfl,.exhausted,rfl,fun _ => rfl,
      .ended (by simp) (by simp [texts]) (by simp [Frames,texts,yielded]) (by simp) rfl⟩
  | raise e =>
    obtain ⟨rfl,rfl⟩ := Run.done_iff.mp h
    exact ⟨d,_,[],[],rfl,.raised e,rfl,fun _ => rfl,
      .ended (by simp) (by simp [texts]) (by simp [Frames,texts,yielded]) (by simp) rfl⟩
  | await op k ih =>
    cases op with
    | base op =>
      obtain ⟨tr₁,r,tr₂,rfl,h₁,h₂⟩ := Run.resume_iff.mp h
      obtain ⟨rfl,-⟩ := Run.call_iff.mp h₁
      obtain ⟨d',exit,call,got,rfl,hrec,hcalls,hstat,hleft⟩ := ih r h₂
      have hcons : bases (⟨.base op,r⟩ :: call) = ⟨op,r⟩ :: calls tr₂ := congrArg (List.cons _) hcalls
      refine ⟨d',exit,⟨.base op,r⟩ :: call,got,rfl,hrec.base,hcons,hstat,?_⟩
      cases hleft with
      | ended hcall hparts hframes hresumed hdeliveries =>
        refine .ended ?_ hparts hframes (by simpa using hresumed) hdeliveries
        intro e he
        rcases List.mem_cons.mp he with rfl | he
        · trivial
        · exact hcall e he
      | atDelta shown e hexit hmem hparts hfirst hdeliveries =>
        exact .atDelta shown e hexit (List.mem_cons_of_mem _ hmem) hparts (by simpa using hfirst) hdeliveries
      | atFirstToken ms shown e hexit hmem hseen hparts htexts hnone hoffer =>
        exact .atFirstToken ms shown e hexit (List.mem_cons_of_mem _ hmem) hseen hparts htexts hnone hoffer
    | «yield» chunk =>
      obtain ⟨tr₁,r,tr₂,rfl,h₁,h₂⟩ := Run.resume_iff.mp h
      rcases deliver_run h₁ with ⟨hempty,rfl,rfl⟩ | ⟨hne,before,resumed,rfl,rfl,hbefore⟩ |
        ⟨hne,hseen,stop,ms,e,rfl,rfl⟩
      · obtain ⟨d',exit,call,got,rfl,hrec,hcalls,hstat,hleft⟩ := ih (.ok ()) h₂
        refine ⟨d',exit,⟨.yield chunk,.ok ()⟩ :: call,chunk :: got,rfl,hrec.resumed,hcalls,hstat,?_⟩
        have hskip : offers (⟨.yield chunk,.ok ()⟩ :: call) = offers call := by
          simp [offers,offerOf,hempty]
        cases hleft with
        | ended hcall hparts hframes hresumed hdeliveries =>
          refine .ended ?_ (by rw [texts_cons_empty hempty]; exact hparts)
            (by rw [texts_cons_empty hempty]; exact hframes) hresumed (hskip.trans hdeliveries)
          intro e he
          rcases List.mem_cons.mp he with rfl | he
          · rfl
          · exact hcall e he
        | atDelta shown e hexit hmem hparts hfirst hdeliveries =>
          exact .atDelta shown e hexit hmem (by rw [texts_cons_empty hempty]; exact hparts) hfirst
            (hskip.trans hdeliveries)
        | atFirstToken ms shown e hexit hmem hseen hparts htexts hnone hoffer =>
          exact .atFirstToken ms shown e hexit hmem hseen hparts (by rw [texts_cons_empty hempty]; exact htexts)
            hnone (hskip.trans hoffer)
      · have hcalls₀ : calls (before ++ [⟨.yield (.delta chunk.deltaText),resumed⟩]) = [] := by
          rcases hbefore with ⟨-,rfl⟩ | ⟨-,stop,ms,rfl⟩ <;> rfl
        have hstat₀ : ∀ b, statements b (before ++ [⟨.yield (.delta chunk.deltaText),resumed⟩]) = [] := by
          intro b
          rcases hbefore with ⟨-,rfl⟩ | ⟨-,stop,ms,rfl⟩ <;> rfl
        cases resumed with
        | ok u =>
          obtain ⟨d',exit,call,got,rfl,hrec,hcalls,hstat,hleft⟩ := ih (.ok ()) h₂
          refine ⟨d',exit,⟨.yield chunk,.ok ()⟩ :: call,chunk :: got,rfl,hrec.resumed,?_,?_,hleft.cons hne hbefore⟩
          · rw [calls_append, hcalls₀]
            exact hcalls
          · intro b
            rw [statements_append, hstat₀, hstat b]
            rfl
        | error e =>
          obtain ⟨rfl,rfl⟩ := Run.done_iff.mp h₂
          refine ⟨_,_,[⟨.yield chunk,.error e⟩],[chunk],rfl,.interrupted e,?_,?_,?_⟩
          · rw [calls_append, hcalls₀]
            rfl
          · intro b
            rw [statements_append, hstat₀]
            rfl
          · refine .atDelta chunk.deltaText e rfl (by simp) (by simp [texts,hne]) ?_ ?_
            · intro ms e' he
              rcases hbefore with ⟨-,rfl⟩ | ⟨-,stop,ms,rfl⟩ <;> simp at he
            · rcases hbefore with ⟨-,rfl⟩ | ⟨-,stop,ms,rfl⟩ <;> rfl
      · obtain ⟨rfl,rfl⟩ := Run.done_iff.mp h₂
        exact ⟨_,_,[⟨.yield chunk,.error e⟩],[chunk],rfl,.interrupted e,rfl,fun _ => rfl,
          .atFirstToken ms chunk.deltaText e rfl (by simp) hseen rfl (by simp [texts,hne]) rfl rfl⟩

/-! ## The whole turn -/

abbrev PossibleSql (B : Signature) (detached : Bool) :
    (op : ChatSql) → Except Exc (chatSqlSignature.Answer op) → Prop :=
  fun op r => PossibleChat (B := B) (.base (.sql detached op)) r

/-- A turn that ended before it called its provider. -/
inductive Unanswered (t : Turn B) (tr : ChatTrace B) (out : Except Exc Unit) : Prop where
  | refused {st : SqlTrace} {e : Exc} {err : AppError} {r : Except Exc Unit} :
      Run (PossibleSql B false) (recordUserTurn t.settings t.conversationId t.content) st (.error e) →
      e.cls = .appError err →
      tr = st.map (statementEvent false) ++ [⟨.yield (.failed err.code err.message),r⟩] → out = r →
      Unanswered t tr out
  | crashed {st : SqlTrace} {e : Exc} :
      Run (PossibleSql B false) (recordUserTurn t.settings t.conversationId t.content) st (.error e) →
      (∀ err, e.cls ≠ .appError err) → tr = st.map (statementEvent false) → out = .error e → Unanswered t tr out
  | unstarted {st : SqlTrace} {c : Conversation} {m : Message} {history : List Message} {e : Exc} :
      Run (PossibleSql B false) (recordUserTurn t.settings t.conversationId t.content) st (.ok (c,m,history)) →
      tr = st.map (statementEvent false) ++ [⟨.yield (.started c.id t.provider t.model),.error e⟩] →
      out = .error e → Unanswered t tr out

/-- Everything a complete run of a turn does up to the loop's end. -/
inductive TurnRun (t : Turn B) (tr : ChatTrace B) (out : Except Exc Unit) : Prop where
  | unanswered : Unanswered t tr out → TurnRun t tr out
  | responded {st : SqlTrace} {c : Conversation} {m : Message} {history : List Message} {start : ℕ}
      {body rest : ChatTrace B} {d : Delivery} {call : CallTrace B} {got : List StreamChunk}
      {exit : Except Exc Unit} :
      Run (PossibleSql B false) (recordUserTurn t.settings t.conversationId t.content) st (.ok (c,m,history)) →
      Reception ((t.instrumentation c.id).streamChat t.adapter (t.request history)) call got exit →
      bases call = calls body → (∀ b, statements b body = []) → LeftBy {} call got exit body d →
      Run PossibleChat (Turn.conclude c.id start d.parts exit) rest out →
      tr = st.map (statementEvent false) ++ ⟨.yield (.started c.id t.provider t.model),.ok ()⟩ ::
        ⟨.base .monotonic,.ok start⟩ :: (body ++ rest) → TurnRun t tr out

theorem chatMonotonic_run {tr : ChatTrace B} {out : Except Exc ℕ}
    (h : Run PossibleChat (Gen.ofBase chatMonotonic : ChatGen B ℕ) tr out) :
    ∃ n, out = .ok n ∧ tr = [⟨.base .monotonic,.ok n⟩] := by
  obtain ⟨base,rfl,hb⟩ := Run.ofBase_iff.mp h
  obtain ⟨rfl,n,rfl⟩ := Run.call_iff.mp hb
  exact ⟨n,rfl,rfl⟩

/-- A turn that called its provider: its question is committed, its loop was left, and what
follows the loop has run. -/
theorem stream_loop {t : Turn B} {tr : ChatTrace B} {out : Except Exc Unit} (h : Run PossibleChat t.stream tr out) :
    Unanswered t tr out ∨ ∃ st c m history start body d exit rest,
      Run (PossibleSql B false) (recordUserTurn t.settings t.conversationId t.content) st (.ok (c,m,history)) ∧
      Run PossibleChat (Turn.providerLoop start ((t.instrumentation c.id).streamChat t.adapter (t.request history)))
        body (.ok (d,exit)) ∧
      Run PossibleChat (Turn.conclude c.id start d.parts exit) rest out ∧
      tr = st.map (statementEvent false) ++ ⟨.yield (.started c.id t.provider t.model),.ok ()⟩ ::
        ⟨.base .monotonic,.ok start⟩ :: (body ++ rest) := by
  unfold Turn.stream at h
  rcases Run.bind_iff.mp h with ⟨tr₁,recorded,tr₂,rfl,h₁,h₂⟩ | ⟨e,-,h₁⟩
  swap
  · obtain ⟨base,-,hb⟩ := Run.ofBase_iff.mp h₁
    obtain ⟨r,hr,-⟩ := Run.attempt_iff.mp hb
    cases hr
  have hrecorded : Run PossibleChat (Gen.ofBase (sqlIn false (recordUserTurn t.settings t.conversationId t.content)) :
      ChatGen B _) tr₁ recorded := by
    obtain ⟨base,rfl,hb⟩ := Run.ofBase_iff.mp h₁
    obtain ⟨r,hr,hb⟩ := Run.attempt_iff.mp hb
    cases hr
    exact Run.ofBase_iff.mpr ⟨base,rfl,hb⟩
  obtain ⟨st,rfl,hst⟩ := sqlIn_run hrecorded
  cases recorded with
  | error e =>
    cases hcls : e.cls with
    | appError err =>
      simp only [hcls] at h₂
      obtain ⟨rfl,-⟩ := Run.call_iff.mp h₂
      exact .inl (.refused hst hcls rfl rfl)
    | _ =>
      simp only [hcls] at h₂
      obtain ⟨rfl,rfl⟩ := Run.raise_iff.mp h₂
      exact .inl (.crashed hst (by simp [hcls]) (by simp) rfl)
  | ok recorded =>
    obtain ⟨c,m,history⟩ := recorded
    simp only at h₂
    unfold Turn.respond at h₂
    rcases Run.bind_iff.mp h₂ with ⟨tr₃,u,tr₄,rfl,h₃,h₄⟩ | ⟨e,rfl,h₃⟩
    swap
    · obtain ⟨rfl,-⟩ := Run.call_iff.mp h₃
      exact .inl (.unstarted hst rfl rfl)
    obtain ⟨rfl,-⟩ := Run.call_iff.mp h₃
    rcases Run.bind_iff.mp h₄ with ⟨tr₅,start,tr₆,rfl,h₅,h₆⟩ | ⟨e,-,h₅⟩
    swap
    · obtain ⟨n,hn,-⟩ := chatMonotonic_run h₅
      cases hn
    obtain ⟨n,hn,rfl⟩ := chatMonotonic_run h₅
    cases hn
    rcases Run.bind_iff.mp h₆ with ⟨body,⟨d,exit⟩,rest,rfl,h₇,h₈⟩ | ⟨e,-,h₇⟩
    swap
    · obtain ⟨d,exit,call,got,ho,-⟩ := providerLoop_run h₇
      cases ho
    exact .inr ⟨st,c,m,history,start,body,d,exit,rest,hst,h₇,h₈,rfl⟩

theorem stream_run {t : Turn B} {tr : ChatTrace B} {out : Except Exc Unit}
    (h : Run PossibleChat t.stream tr out) : TurnRun t tr out := by
  rcases stream_loop h with hun | ⟨st,c,m,history,start,body,d,exit,rest,hst,hloop,hrest,htr⟩
  · exact .unanswered hun
  · obtain ⟨d',exit',call,got,ho,hrec,hcalls,hstat,hleft⟩ := providerLoop_run hloop
    cases ho
    exact .responded hst hrec hcalls hstat hleft hrest htr

/-! ## After the loop -/

/-- The detached task commits on its own; a cancellation of its await, or of the task, is
suppressed. -/
theorem persistPartial_run {id : Uuid} {parts : List Text} {tr : ChatTrace B} {out : Except Exc Unit}
    (h : Run PossibleChat (Gen.ofBase (persistPartial id parts) : ChatGen B Unit) tr out) :
    (strip parts.flatten = [] ∧ tr = [] ∧ out = .ok ()) ∨
    (strip parts.flatten ≠ [] ∧ ∃ st saved waited,
      Run (PossibleSql B true) (recordAssistantTurn id (strip parts.flatten)) st saved ∧
      tr = st.map (statementEvent true) ++ [⟨.base .awaitShield,waited⟩] ∧
      out = suppressCancelled (waited >>= fun () => saved)) := by
  obtain ⟨base,rfl,hb⟩ := Run.ofBase_iff.mp h
  unfold persistPartial at hb
  simp only at hb
  split at hb
  · rename_i hblank
    obtain ⟨rfl,rfl⟩ := Run.done_iff.mp hb
    exact .inl ⟨hblank,rfl,rfl⟩
  · rename_i hblank
    refine .inr ⟨hblank,?_⟩
    rcases Run.bind_iff.mp hb with ⟨tr₁,saved,tr₂,rfl,h₁,h₂⟩ | ⟨e,-,h₁⟩
    swap
    · obtain ⟨r,hr,-⟩ := Run.attempt_iff.mp h₁
      cases hr
    obtain ⟨r,hr,hsaved⟩ := Run.attempt_iff.mp h₁
    cases hr
    obtain ⟨st,hst,hrun⟩ := sqlIn_run (Run.ofBase_iff.mpr ⟨tr₁,rfl,hsaved⟩)
    rcases Run.bind_iff.mp h₂ with ⟨tr₃,waited,tr₄,rfl,h₃,h₄⟩ | ⟨e,-,h₃⟩
    swap
    · obtain ⟨r,hr,-⟩ := Run.attempt_iff.mp h₃
      cases hr
    obtain ⟨r,hr,hw⟩ := Run.attempt_iff.mp h₃
    cases hr
    obtain ⟨rfl,-⟩ := Run.call_iff.mp hw
    obtain ⟨rfl,rfl⟩ := Run.ofExcept_iff.mp h₄
    exact ⟨st,saved,waited,hrun,by simpa [Gen.baseEvent] using hst,rfl⟩

/-- The end of a turn whose provider ended normally. -/
theorem conclude_ok_run {id : Uuid} {start : ℕ} {parts : List Text} {tr : ChatTrace B} {out : Except Exc Unit}
    (h : Run PossibleChat (Turn.conclude id start parts (.ok ())) tr out) :
    ∃ st recorded, Run (PossibleSql B false) (recordAssistantTurn id parts.flatten) st recorded ∧
      ((∃ e, recorded = .error e ∧ tr = st.map (statementEvent false) ∧ out = .error e) ∨
        ∃ m stop ms r, recorded = .ok m ∧ tr = st.map (statementEvent false) ++
          [⟨.base .monotonic,.ok stop⟩,⟨.yield (.completed m.id ms),r⟩] ∧ out = r) := by
  unfold Turn.conclude at h
  rcases Run.bind_iff.mp h with ⟨tr₁,m,tr₂,rfl,h₁,h₂⟩ | ⟨e,rfl,h₁⟩
  · obtain ⟨st,rfl,hst⟩ := sqlIn_run h₁
    rcases Run.bind_iff.mp h₂ with ⟨tr₃,stop,tr₄,rfl,h₃,h₄⟩ | ⟨e,-,h₃⟩
    · obtain ⟨n,hn,rfl⟩ := chatMonotonic_run h₃
      cases hn
      obtain ⟨rfl,-⟩ := Run.call_iff.mp h₄
      exact ⟨st,.ok m,hst,.inr ⟨m,stop,_,out,rfl,rfl,rfl⟩⟩
    · obtain ⟨n,hn,-⟩ := chatMonotonic_run h₃
      cases hn
  · obtain ⟨st,rfl,hst⟩ := sqlIn_run h₁
    exact ⟨st,.error e,hst,.inl ⟨e,rfl,rfl,rfl⟩⟩

/-- The exceptions on which the partial reply is saved. -/
def savesPartial (e : Exc) : Bool :=
  match e.cls with
  | .cancelledError => true
  | .appError err => decide (err.kind = .provider)
  | _ => false

/-- Those that are reported to the client and not raised. -/
def reported (e : Exc) : Bool :=
  match e.cls with
  | .appError _ => true
  | _ => false

/-- The end of a turn whose loop was left with an exception. -/
theorem conclude_error_run {id : Uuid} {start : ℕ} {parts : List Text} {e : Exc} {tr : ChatTrace B}
    {out : Except Exc Unit} (h : Run PossibleChat (Turn.conclude id start parts (.error e)) tr out) :
    (savesPartial e = true ∧ ∃ saving rest persisted, tr = saving ++ rest ∧
      Run PossibleChat (Gen.ofBase (persistPartial id parts) : ChatGen B Unit) saving persisted ∧
      ((∃ x, persisted = .error x ∧ rest = [] ∧ out = .error x) ∨
        (persisted = .ok () ∧ reported e = false ∧ rest = [] ∧ out = .error e) ∨
        (persisted = .ok () ∧ reported e = true ∧ ∃ code message r,
          rest = [⟨.yield (.failed code message),r⟩] ∧ out = r))) ∨
    (savesPartial e = false ∧ reported e = true ∧ ∃ code message r,
      tr = [⟨.yield (.failed code message),r⟩] ∧ out = r) ∨
    (savesPartial e = false ∧ reported e = false ∧ tr = [] ∧ out = .error e) := by
  unfold Turn.conclude at h
  unfold savesPartial reported
  cases hcls : e.cls with
  | cancelledError =>
    simp only [hcls] at h
    refine .inl ⟨rfl,?_⟩
    rcases Run.bind_iff.mp h with ⟨tr₁,u,tr₂,rfl,h₁,h₂⟩ | ⟨x,rfl,h₁⟩
    · obtain ⟨rfl,rfl⟩ := Run.raise_iff.mp h₂
      exact ⟨tr₁,[],_,rfl,h₁,.inr (.inl ⟨rfl,rfl,rfl,rfl⟩)⟩
    · exact ⟨tr,[],_,by simp,h₁,.inl ⟨x,rfl,rfl,rfl⟩⟩
  | appError err =>
    simp only [hcls] at h
    by_cases hk : err.kind = .provider
    · simp only [hk, if_true] at h
      refine .inl ⟨by simp [hk],?_⟩
      rcases Run.bind_iff.mp h with ⟨tr₁,u,tr₂,rfl,h₁,h₂⟩ | ⟨x,rfl,h₁⟩
      · obtain ⟨rfl,-⟩ := Run.call_iff.mp h₂
        exact ⟨tr₁,_,_,rfl,h₁,.inr (.inr ⟨rfl,rfl,_,_,_,rfl,rfl⟩)⟩
      · exact ⟨tr,[],_,by simp,h₁,.inl ⟨x,rfl,rfl,rfl⟩⟩
    · simp only [hk, if_false] at h
      obtain ⟨rfl,-⟩ := Run.call_iff.mp h
      exact .inr (.inl ⟨by simp [hk],rfl,_,_,_,rfl,rfl⟩)
  | _ =>
    simp only [hcls] at h
    obtain ⟨rfl,rfl⟩ := Run.raise_iff.mp h
    exact .inr (.inr ⟨rfl,rfl,rfl,rfl⟩)

end InferenceLogger
