import InferenceLogger.Conversations.Phases

/-! # Every request follows the phases

The transactions inside the programs of the requests, between provider calls, clock readings,
deliveries and the task that saves a partial reply. `may` says which calls a turn may make
where it is at home.
-/
namespace InferenceLogger
open PyText PyJson AsyncTask

instance : Nonempty Exc := ⟨.own .cancelledError⟩

section Wrapper
variable {B : Signature} {p : CallOp B → Prop}

theorem publishResiliently_issues (event : InferenceEvent) (h : ∀ op : CallOp B, (∀ b, op ≠ .inner b) → p op) :
    Issues p (publishResiliently event : CallTask B Unit) :=
  (Issues.call (h (.createPublish event) (by simp))).bind fun _ => Issues.call (h (.awaitPublish .shielded) (by simp))

theorem finish_issues (w : Instrumentation) (inner : BaseProvider B) (request : ChatRequest) (eventId : Uuid) (startedAt : ℤ)
    (start : ℕ) (o : Observed) (exit : Except Exc Unit) (h : ∀ op : CallOp B, (∀ b, op ≠ .inner b) → p op) :
    Issues p (w.finish inner request eventId startedAt start o exit) := by
  unfold Instrumentation.finish
  apply (Issues.call (h .now (by simp))).bind
  intro completedAt
  apply (Issues.call (h .monotonic (by simp))).bind
  intro stop
  split
  · exact trivial
  · exact publishResiliently_issues _ h

theorem observe_issues (start : ℕ) (o : Observed) (chunk : StreamChunk)
    (h : ∀ op : CallOp B, (∀ b, op ≠ .inner b) → p op) : GenIssues p (Instrumentation.observe (B := B) start o chunk) := by
  unfold Instrumentation.observe
  apply Issues.bind
  · apply Issues.ofBase
    unfold Instrumentation.timed
    split
    · exact (Issues.call (h .monotonic (by simp))).bind fun _ => trivial
    · exact trivial
  · intro o'
    apply Issues.bind
    · apply Issues.resume
      · exact Issues.call (fun b hb => by cases hb)
      · exact fun _ => trivial
    · exact fun _ => trivial

/-- The wrapper adds no call of the provider's own. -/
theorem streamChat_issues (w : Instrumentation) (inner : BaseProvider B) (request : ChatRequest)
    (h : ∀ op : CallOp B, (∀ b, op ≠ .inner b) → p op)
    (hi : GenIssues (fun op => p (.inner op)) (inner.streamChat request)) :
    GenIssues p (w.streamChat inner request) := by
  unfold Instrumentation.streamChat
  apply (Issues.ofBase (Issues.call (h .uuid4 (by simp)))).bind
  intro eventId
  apply (Issues.ofBase (Issues.call (h .now (by simp)))).bind
  intro startedAt
  apply (Issues.ofBase (Issues.call (h .monotonic (by simp)))).bind
  intro start
  apply Issues.bind
  · refine (Follows.asyncFor (p := fun op => p (.inner op)) hi ?_ ?_).mono fun _ _ _ => trivial
    · intro op hop
      have hissues : GenIssues p (Gen.baseCall (CallOp.inner op) : Gen (callSignature B) StreamChunk Exc _) := by
        apply Issues.call
        intro b hb
        cases hb
        exact hop
      exact hissues.mono fun _ _ _ => rfl
    · exact fun o chunk => (observe_issues start o chunk h).mono fun _ _ _ => rfl
  · rintro ⟨o,exit⟩
    apply (Issues.ofBase (finish_issues w inner request eventId startedAt start o exit h)).bind
    intro _
    cases exit with
    | ok u => exact trivial
    | error e => exact trivial

end Wrapper

section Server
variable {B : Signature}

inductive ChatAllows (may : Option Home → CallOp B → Prop) : Typestate (chatSignature B) Exc ChatPhase where
  | sql {φ φ' : ChatPhase} {stmt : ChatSql} {r} (detached : Bool) : SqlAllows φ stmt r φ' →
      ChatAllows may φ (.sql detached stmt) r φ'
  | call {home : Option Home} {op : CallOp B} (r) : may home op →
      ChatAllows may (.idle home) (.call op) r (.idle home)
  | awaitShield (home : Option Home) (r) : ChatAllows may (.idle home) .awaitShield r (.idle home)
  | monotonic (home : Option Home) (r) : ChatAllows may (.idle home) .monotonic r (.idle home)

def ServerAllows (may : Option Home → CallOp B → Prop) : Typestate (genSignature (chatSignature B) ChatStreamEvent) Exc ChatPhase
  | φ, .base op, r, φ' => ChatAllows may φ op r φ'
  | φ, .yield _, _, φ' => φ' = φ ∧ ∃ home, φ = .idle home

/-- No transaction is open. -/
def AtRest {α : Type} (_ : Except Exc α) (φ : ChatPhase) : Prop := ∃ home, φ = .idle home

theorem Resting.atRest {α : Type} {Q : α → Option Home → Prop} {r : Except Exc α} {φ : ChatPhase}
    (h : Resting Q r φ) : AtRest r φ := by
  cases r with
  | ok a =>
    obtain ⟨home,hidle,-⟩ := h
    exact ⟨home,hidle⟩
  | error e => exact h

variable {may : Option Home → CallOp B → Prop}

theorem follows_sqlIn {α : Type} {q : Except Exc α → ChatPhase → Prop} {t : SqlTask α} {φ : ChatPhase}
    (detached : Bool) (h : Follows SqlAllows q t φ) : Follows (ChatAllows may) q (sqlIn detached t) φ := by
  refine Follows.interp (T := chatSignature B) ?_ h
  intro φ op post h r
  obtain ⟨φ',ha,hp⟩ := h r
  refine ⟨φ',.sql detached ha,?_⟩
  cases r with
  | ok a => exact hp
  | error e => exact hp

theorem follows_ofBase {α : Type} {q : Except Exc α → ChatPhase → Prop} {t : ChatTask B α} {φ : ChatPhase}
    (h : Follows (ChatAllows may) q t φ) : Follows (ServerAllows may) q (Gen.ofBase t) φ := by
  refine Follows.interp (T := genSignature (chatSignature B) ChatStreamEvent) ?_ h
  intro φ op post h r
  obtain ⟨φ',ha,hp⟩ := h r
  refine ⟨φ',ha,?_⟩
  cases r with
  | ok a => exact hp
  | error e => exact hp

theorem atRest_resume {S : Signature} {P : Typestate S Exc ChatPhase} {α β : Type} {t : Task S Exc α}
    {f : Except Exc α → Task S Exc β} {φ : ChatPhase}
    (h : Follows P AtRest t φ) (hf : ∀ r home, Follows P AtRest (f r) (.idle home)) : Follows P AtRest (t.resume f) φ := by
  apply Follows.resume
  refine h.mono fun r φ hφ => ?_
  obtain ⟨home,rfl⟩ := hφ
  exact hf r home

theorem atRest_bind {S : Signature} {P : Typestate S Exc ChatPhase} {α β : Type} {t : Task S Exc α}
    {f : α → Task S Exc β} {φ : ChatPhase}
    (h : Follows P AtRest t φ) (hf : ∀ a home, Follows P AtRest (f a) (.idle home)) : Follows P AtRest (t >>= f) φ := by
  apply atRest_resume h
  intro r home
  cases r with
  | ok a => exact hf a home
  | error e => exact ⟨home,rfl⟩

theorem atRest_attempt {S : Signature} {P : Typestate S Exc ChatPhase} {α : Type} {t : Task S Exc α} {φ : ChatPhase}
    (h : Follows P AtRest t φ) : Follows P AtRest t.attempt φ := by
  apply atRest_resume h
  exact fun r home => ⟨home,rfl⟩

theorem atRest_yield (value : ChatStreamEvent) (home : Option Home) :
    Follows (ServerAllows may) AtRest (Gen.yield (B := chatSignature B) value) (.idle home) := by
  intro r
  refine ⟨_,⟨rfl,home,rfl⟩,?_⟩
  cases r <;> exact ⟨home,rfl⟩

theorem atRest_monotonic (home : Option Home) :
    Follows (ChatAllows may) AtRest (chatMonotonic : ChatTask B ℕ) (.idle home) := by
  intro r
  refine ⟨_,.monotonic home r,?_⟩
  cases r <;> exact ⟨home,rfl⟩

theorem follows_persistPartial (h : Home) (parts : List Text) :
    Follows (ChatAllows may) AtRest (persistPartial h.conversation parts : ChatTask B Unit) (.idle (some h)) := by
  unfold persistPartial
  dsimp only
  split
  · exact ⟨_,rfl⟩
  · have hsave : Follows (ChatAllows may) AtRest
        (sqlIn true (recordAssistantTurn h.conversation (strip parts.flatten)) : ChatTask B Message) (.idle (some h)) :=
      (follows_sqlIn true (follows_recordAssistantTurn h (strip parts.flatten))).mono fun r φ hφ => hφ.atRest
    apply atRest_bind (atRest_attempt hsave)
    intro result home
    have hshield : Follows (ChatAllows may) AtRest (Task.call (S := chatSignature B) .awaitShield) (.idle home) := by
      intro r
      refine ⟨_,.awaitShield home r,?_⟩
      cases r <;> exact ⟨home,rfl⟩
    apply atRest_bind (atRest_attempt hshield)
    · intro waited home
      cases suppressCancelled (waited >>= fun () => result) <;> exact ⟨home,rfl⟩

/-- The loop stays where the turn is at home. -/
theorem follows_providerLoop (h : Home) (start : ℕ) {chunks : CallGen B Unit}
    (hc : GenIssues (may (some h)) chunks) :
    Follows (ServerAllows may) (fun _ φ => φ = .idle (some h)) (Turn.providerLoop start chunks) (.idle (some h)) := by
  have hyield : ∀ value, Follows (ServerAllows may) (fun (_ : Except Exc Unit) φ => φ = .idle (some h))
      (Gen.yield (B := chatSignature B) value) (.idle (some h)) := by
    intro value r
    refine ⟨_,⟨rfl,_,rfl⟩,?_⟩
    cases r <;> exact rfl
  have hattempt : ∀ value, Follows (ServerAllows may) (fun (_ : Except Exc (Except Exc Unit)) φ => φ = .idle (some h))
      (Gen.yield (B := chatSignature B) value).attempt (.idle (some h)) :=
    fun value => Follows.resume ((hyield value).mono fun r φ hφ => hφ)
  unfold Turn.providerLoop
  apply Follows.asyncFor hc
  · intro op hop r
    refine ⟨_,ChatAllows.call r hop,?_⟩
    cases r <;> exact rfl
  · intro d chunk
    unfold deliver
    split
    · exact rfl
    · apply Follows.bind
      have hannounce : Follows (ServerAllows may) (fun (_ : Except Exc (Except Exc Unit)) φ => φ = .idle (some h))
          (announce (B := B) start d) (.idle (some h)) := by
        unfold announce
        split
        · exact rfl
        · apply Follows.bind
          refine (follows_ofBase (q := fun _ φ => φ = .idle (some h)) ?_).mono fun r φ hφ => ?_
          · intro r
            refine ⟨_,.monotonic _ r,?_⟩
            cases r <;> exact rfl
          · subst hφ
            cases r with
            | ok stop => exact hattempt _
            | error e => exact rfl
      refine hannounce.mono fun r φ hφ => ?_
      subst hφ
      cases r with
      | error e => exact rfl
      | ok announced =>
        cases announced with
        | error e => exact rfl
        | ok u =>
          apply Follows.bind
          refine (hattempt _).mono fun r φ hφ => ?_
          subst hφ
          cases r <;> exact rfl

theorem follows_conclude (h : Home) (start : ℕ) (parts : List Text) (ended : Except Exc Unit) :
    Follows (ServerAllows may) AtRest (Turn.conclude (B := B) h.conversation start parts ended) (.idle (some h)) := by
  unfold Turn.conclude
  cases ended with
  | ok u =>
    apply atRest_bind (follows_ofBase ((follows_sqlIn false (follows_recordAssistantTurn h _)).mono fun r φ hφ => hφ.atRest))
    intro message home
    apply atRest_bind (follows_ofBase (atRest_monotonic home))
    intro stop home
    exact atRest_yield _ home
  | error e =>
    dsimp only
    split
    · apply atRest_bind (follows_ofBase (follows_persistPartial h parts))
      exact fun _ home => ⟨home,rfl⟩
    · rename_i err _
      by_cases hk : err.kind = .provider
      · simp only [hk, if_true]
        apply atRest_bind (follows_ofBase (follows_persistPartial h parts))
        exact fun _ home => atRest_yield _ home
      · simp only [hk, if_false]
        exact atRest_yield _ (some h)
    · exact ⟨_,rfl⟩

/-- The turn may make the calls of its provider, and of the wrapper, where it is at home. -/
def Turn.Calls (t : Turn B) (may : Option Home → CallOp B → Prop) : Prop :=
  ∀ (home : Home), home.content = t.content →
    (∀ op : CallOp B, (∀ b, op ≠ .inner b) → may (some home) op) ∧
    GenIssues (fun op => may (some home) (.inner op)) (t.adapter.streamChat
      (t.request (recentWindow home.history t.settings.maxHistoryMessages t.settings.maxHistoryChars)))

theorem follows_stream (t : Turn B) (hc : t.Calls may) : Follows (ServerAllows may) AtRest t.stream (.idle none) := by
  unfold Turn.stream
  apply Follows.bind
  apply follows_ofBase
  apply Follows.resume
  refine (follows_sqlIn false (follows_recordUserTurn t.settings t.conversationId t.content)).mono fun r φ hφ => ?_
  cases r with
  | error e =>
    obtain ⟨home,rfl⟩ := hφ
    simp only [Follows]
    split
    · exact atRest_yield _ home
    · exact ⟨home,rfl⟩
  | ok result =>
    obtain ⟨c,m,window⟩ := result
    obtain ⟨home,rfl,history,rfl,hw⟩ := hφ
    change Follows (ServerAllows may) AtRest (t.respond c window) _
    unfold Turn.respond
    obtain ⟨hother,hinner⟩ := hc ⟨c.id,t.content,m,history⟩ rfl
    simp only at hw
    subst hw
    apply Follows.bind
    refine (Follows.call (S := genSignature (chatSignature B) ChatStreamEvent)
      (q := fun _ _ φ => φ = .idle (some ⟨c.id,t.content,m,history⟩)) fun r => ⟨_,⟨rfl,_,rfl⟩,rfl⟩).mono fun r φ hφ => ?_
    subst hφ
    cases r with
    | error e => exact ⟨_,rfl⟩
    | ok u =>
      apply Follows.bind
      refine (follows_ofBase (Follows.call (S := chatSignature B)
        (q := fun _ _ φ => φ = .idle (some ⟨c.id,t.content,m,history⟩)) fun r => ⟨_,.monotonic _ r,rfl⟩)).mono fun r φ hφ => ?_
      subst hφ
      cases r with
      | error e => exact ⟨_,rfl⟩
      | ok start =>
        apply Follows.bind
        refine (follows_providerLoop ⟨c.id,t.content,m,history⟩ start
          (streamChat_issues _ t.adapter _ hother hinner)).mono fun r φ hφ => ?_
        subst hφ
        cases r with
        | error e => exact ⟨_,rfl⟩
        | ok d => exact follows_conclude ⟨c.id,t.content,m,history⟩ start d.1.parts d.2

theorem follows_send (t : Turn B) (hc : t.Calls may) : Follows (ChatAllows may) AtRest t.send (.idle none) := by
  unfold Turn.send
  apply Follows.bind
  refine (follows_sqlIn false (follows_recordUserTurn t.settings t.conversationId t.content)).mono fun r φ hφ => ?_
  cases r with
  | error e => exact hφ
  | ok result =>
    obtain ⟨c,m,window⟩ := result
    obtain ⟨home,rfl,history,rfl,hw⟩ := hφ
    obtain ⟨hother,hinner⟩ := hc ⟨c.id,t.content,m,history⟩ rfl
    simp only at hw
    subst hw
    have hcomplete : Issues (may (some ⟨c.id,t.content,m,history⟩)) (BaseProvider.complete
        (({t.instrumentation c.id with streamed := false} : Instrumentation).provider t.adapter)
        (t.request (recentWindow history t.settings.maxHistoryMessages t.settings.maxHistoryChars))) := by
      unfold BaseProvider.complete BaseProvider.drain
      apply Issues.bind
      · refine (Follows.asyncFor (streamChat_issues _ t.adapter _ hother hinner) ?_ ?_).mono fun _ _ _ => trivial
        · exact fun op hop => (Issues.call hop).mono fun _ _ _ => rfl
        · exact fun _ _ => rfl
      · rintro ⟨response,ended⟩
        cases ended <;> exact trivial
    apply Follows.bind
    refine (Follows.interp (Q := ChatAllows may) (q := fun _ φ => φ = .idle (some ⟨c.id,t.content,m,history⟩)) ?_
      (hcomplete.follows (P := fun φ op _ φ' => φ' = φ ∧ φ = .idle (some ⟨c.id,t.content,m,history⟩) ∧
        may (some ⟨c.id,t.content,m,history⟩) op) fun op r hop => ⟨rfl,rfl,hop⟩)).mono fun r φ hφ => ?_
    · intro φ op post h r
      obtain ⟨φ',⟨rfl,rfl,hop⟩,hp⟩ := h r
      refine ⟨_,.call r hop,?_⟩
      cases r <;> exact hp
    · subst hφ
      cases r with
      | error e => exact ⟨_,rfl⟩
      | ok response =>
        apply atRest_bind ((follows_sqlIn false (follows_recordAssistantTurn ⟨c.id,t.content,m,history⟩ response.text)).mono
          fun r φ hφ => hφ.atRest)
        exact fun _ home => ⟨home,rfl⟩

end Server
end InferenceLogger
