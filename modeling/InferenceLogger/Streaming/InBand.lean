import InferenceLogger.Streaming.Responses

/-! # The frames of a streamed turn

A turn that is neither cancelled nor closed should end with one terminal frame and never
raise. The handlers around its phases catch application errors only.
-/
namespace InferenceLogger
open PyText PyJson AsyncTask

variable {B : Signature}

/-- An exception of a database, a broker or a vendor. -/
def Exc.isOutside (e : Exc) : Prop := e.isForeign = true ∧ e.isException = true ∧ reported e = false

theorem Exc.isOutside.not_cancelled {e : Exc} (h : e.isOutside) : e.isCancelled = false := by
  have hexc := h.2.1
  unfold Exc.isException at hexc
  unfold Exc.isCancelled
  cases hcls : e.cls with
  | cancelledError => simp [hcls,ExcClass.isException] at hexc
  | _ => rfl

/-- Nobody cancels the task or closes the stream; anything else may fail. -/
def Uncancelled : (op : GenOp (chatSignature B) ChatStreamEvent) →
    Except Exc ((genSignature (chatSignature B) ChatStreamEvent).Answer op) → Prop
  | .yield _, r => r = .ok ()
  | .base .awaitShield, r => r = .ok ()
  | .base (.sql _ _), r => ∀ e, r = .error e → e.isOutside
  | .base (.call (.awaitPublish _)), r => ∀ e, r = .error e → e.isOutside
  | op, r => PossibleChat op r

theorem Uncancelled.possible {op : GenOp (chatSignature B) ChatStreamEvent}
    {r : Except Exc ((genSignature (chatSignature B) ChatStreamEvent).Answer op)} (h : Uncancelled op r) :
    PossibleChat op r := by
  rcases op with (op | ⟨d,stmt⟩ | _ | _) | y
  · cases op with
    | awaitPublish how =>
      intro e he
      exact (h e he).1
    | _ => exact h
  · intro e he
    exact (h e he).1
  · intro e he
    cases h.symm.trans he
  · exact h
  · intro e he
    cases h.symm.trans he

/-- `Failed | Started (FirstToken Delta+)? (Completed | Failed)`. -/
inductive TurnFrames : List ChatStreamEvent → Prop where
  | refused (code message : Text) : TurnFrames [.failed code message]
  | silent (id : Uuid) (provider model : Text) (last : ChatStreamEvent) : last.isTerminal = true →
      TurnFrames [.started id provider model,last]
  | spoken (id : Uuid) (provider model : Text) (ttft : ℤ) (first : Text) (more : List Text)
      (last : ChatStreamEvent) : last.isTerminal = true →
      TurnFrames (.started id provider model :: .firstToken ttft :: .delta first :: (more.map .delta ++ [last]))

def deltaText : ChatStreamEvent → Option Text
  | .delta shown => some shown
  | _ => none

/-- What the client has been shown. -/
def shownText (frames : List ChatStreamEvent) : Text := (frames.filterMap deltaText).flatten

/-- A turn that ended in band. -/
structure InBand (tr : ChatTrace B) (out : Except Exc Unit) : Prop where
  returned : out = .ok ()
  frames : TurnFrames (yielded tr)
  completed : ∀ id ms, .completed id ms ∈ yielded tr →
    ∃ c, conversations (statements false tr) = [c] ∧
      ⟨c.id,.assistant,shownText (yielded tr)⟩ ∈ committed (statements false tr)

/-- The provider, sent the transcript the turn read, ended in this way, and the call's event can
be built. -/
def ProviderEnded (t : Turn B) (tr : ChatTrace B) (exit : Except Exc Unit) : Prop :=
  ∃ history sent, histories (statements false tr) = [history] ∧
    Run (Drained Whatever) (t.adapter.streamChat
      (t.request (recentWindow history t.settings.maxHistoryMessages t.settings.maxHistoryChars))) sent exit ∧
    bases sent = innerCalls (calls tr) ∧
    Loggable t.adapter.name t.model (yielded sent) exit (wallReadings (calls tr))

/-- No statement of the turn failed; and the conversation was not found, or the call's event can
be built and published and the provider ended normally or with an application error. -/
structure Orderly (t : Turn B) (tr : ChatTrace B) : Prop where
  own : Smooth (statements false tr)
  detached : Smooth (statements true tr)
  answered : Missing (statements false tr) ∨ ∃ exit, ProviderEnded t tr exit ∧
    (∀ r ∈ publishAnswers (calls tr), r = .ok ()) ∧ ∀ e, exit = .error e → reported e = true

theorem shownText_append (f g : List ChatStreamEvent) : shownText (f ++ g) = shownText f ++ shownText g := by
  simp [shownText]

theorem shownText_delta (shown : Text) (f : List ChatStreamEvent) :
    shownText (.delta shown :: f) = shown ++ shownText f := rfl

theorem shownText_map (shown : List Text) : shownText (shown.map .delta) = shown.flatten := by
  induction shown with
  | nil => rfl
  | cons s shown ih => rw [List.map_cons, shownText_delta, ih, List.flatten_cons]

theorem shownText_terminal {last : ChatStreamEvent} (h : last.isTerminal = true) : shownText [last] = [] := by
  cases last <;> first | rfl | cases h

theorem Frames.turnFrames {shown : List Text} {frames : List ChatStreamEvent} (id : Uuid) (provider model : Text)
    (last : ChatStreamEvent) (h : Frames false shown frames) (hlast : last.isTerminal = true) :
    TurnFrames (.started id provider model :: (frames ++ [last])) ∧
      shownText (.started id provider model :: (frames ++ [last])) = shown.flatten := by
  have hstarted : ∀ f, shownText (.started id provider model :: f) = shownText f := fun _ => rfl
  have hfirst : ∀ ttft f, shownText (.firstToken ttft :: f) = shownText f := fun _ _ => rfl
  unfold Frames at h
  cases shown with
  | nil =>
    simp only [List.map_nil, or_true, if_true] at h
    subst h
    exact ⟨.silent _ _ _ _ hlast,by rw [hstarted]; exact shownText_terminal hlast⟩
  | cons first more =>
    rw [if_neg (by simp)] at h
    obtain ⟨ttft,rfl⟩ := h
    refine ⟨.spoken id provider model ttft first more last hlast,?_⟩
    rw [hstarted, shownText_append, shownText_terminal hlast, hfirst, shownText_map, List.append_nil]

theorem Frames.not_terminal {seen : Bool} {shown : List Text} {frames : List ChatStreamEvent}
    (h : Frames seen shown frames) {y : ChatStreamEvent} (hy : y ∈ frames) : y.isTerminal = false := by
  unfold Frames at h
  split at h
  · subst h
    obtain ⟨s,-,rfl⟩ := List.mem_map.mp hy
    rfl
  · obtain ⟨ttft,rfl⟩ := h
    rcases List.mem_cons.mp hy with rfl | hy
    · rfl
    · obtain ⟨s,-,rfl⟩ := List.mem_map.mp hy
      rfl

/-! ## After the loop -/

/-- A normal end is reported exactly when its transaction went through. -/
theorem conclude_ok_inBand {id : Uuid} {start : ℕ} {parts : List Text} {tr : ChatTrace B} {out : Except Exc Unit}
    (h : Run PossibleChat (Turn.conclude id start parts (.ok ())) tr out)
    (hu : ∀ e ∈ tr, Uncancelled e.op e.answer) :
    statements true tr = [] ∧
    ((Smooth (statements false tr) ∧ out = .ok () ∧ (∃ m ms, yielded tr = [.completed m ms]) ∧
        Settles (statements false tr) [⟨id,.assistant,parts.flatten⟩]) ∨
      (¬ Smooth (statements false tr) ∧ ∃ e, out = .error e)) := by
  obtain ⟨st,recorded,hst,hrest⟩ := conclude_ok_run h
  have hcandid := recordAssistantTurn_candid _ _ _ _ _ hst
  rcases hrest with ⟨e,rfl,rfl,rfl⟩ | ⟨m,stop,ms,r,rfl,rfl,rfl⟩
  · simp only [statements_map, if_true, Bool.false_eq_true, if_false]
    refine ⟨trivial,.inr ⟨?_,e,rfl⟩⟩
    intro hs
    obtain ⟨m,hm⟩ := recordAssistantTurn_smooth hst hs
    cases hm
  · have htail : ∀ b, statements (B := B) b
        [⟨.base .monotonic,.ok stop⟩,⟨.yield (.completed m.id ms),out⟩] = [] := fun _ => rfl
    have hresumed : out = .ok () := hu ⟨.yield (.completed m.id ms),out⟩ (by simp)
    simp only [statements_append, statements_map, htail, if_true, Bool.false_eq_true, if_false, List.append_nil]
    have hs : Smooth st := by
      rcases hcandid with hs | ⟨e,-,x,-,hx⟩
      · exact hs
      · cases hx
    refine ⟨trivial,.inl ⟨hs,hresumed,⟨m.id,ms,by rw [yielded_append, yielded_map]; rfl⟩,?_⟩⟩
    rcases recordAssistantTurn_settles hst with ⟨-,hset⟩ | ⟨hl,-,-⟩
    · exact hset
    · exact absurd (landed_of_smooth hs) hl

/-- An exceptional end is reported exactly when it is an application error and saving what there
was of the reply went through. -/
theorem conclude_error_inBand {id : Uuid} {start : ℕ} {parts : List Text} {e : Exc} {tr : ChatTrace B}
    {out : Except Exc Unit} (h : Run PossibleChat (Turn.conclude id start parts (.error e)) tr out)
    (hu : ∀ x ∈ tr, Uncancelled x.op x.answer) :
    statements false tr = [] ∧
    ((reported e = true ∧ Smooth (statements true tr) ∧ out = .ok () ∧
        ∃ code message, yielded tr = [.failed code message]) ∨
      (¬ (reported e = true ∧ Smooth (statements true tr)) ∧ ∃ x, out = .error x)) := by
  rcases conclude_error_run h with ⟨-,saving,rest,persisted,rfl,hp,hrest⟩ |
    ⟨-,hrep,code,message,r,rfl,rfl⟩ | ⟨-,hrep,rfl,rfl⟩
  · have hsaving : statements false saving = [] ∧ yielded saving = [] ∧
        (Smooth (statements true saving) ↔ persisted = .ok ()) := by
      rcases persistPartial_run hp with ⟨-,rfl,rfl⟩ | ⟨-,st,saved,waited,hst,rfl,rfl⟩
      · exact ⟨rfl,rfl,by simp [statements]⟩
      · have htail : ∀ b, statements (B := B) b [⟨.base .awaitShield,waited⟩] = [] := fun _ => rfl
        have hwaited : waited = .ok () :=
          hu ⟨.base .awaitShield,waited⟩ (List.mem_append_left _ (List.mem_append_right _ (List.mem_singleton_self _)))
        subst hwaited
        simp only [statements_append, statements_map, htail, if_true, Bool.true_eq_false, if_false, List.append_nil]
        refine ⟨trivial,by rw [yielded_append, yielded_map]; rfl,?_⟩
        constructor
        · intro hs
          obtain ⟨m,rfl⟩ := recordAssistantTurn_smooth hst hs
          rfl
        · intro hok
          rcases recordAssistantTurn_candid _ _ _ _ _ hst with hs | ⟨x,hx,y,hy,rfl⟩
          · exact hs
          · have houtside : y.isOutside :=
              hu (statementEvent true x) (List.mem_append_left _ (List.mem_append_left _ (List.mem_map_of_mem hx))) y hy
            simp [suppressCancelled,Bind.bind,Except.bind,houtside.not_cancelled] at hok
    obtain ⟨hf,hy,hs⟩ := hsaving
    have hquiet : ∀ b, statements b rest = [] := by
      intro b
      rcases hrest with ⟨x,-,rfl,-⟩ | ⟨-,-,rfl,-⟩ | ⟨-,-,code,message,r,rfl,-⟩ <;> rfl
    rw [statements_append, statements_append, hquiet, hquiet, hf, List.append_nil, List.append_nil]
    refine ⟨rfl,?_⟩
    rcases hrest with ⟨x,rfl,rfl,rfl⟩ | ⟨-,hrep,rfl,rfl⟩ | ⟨hok,hrep,code,message,r,rfl,rfl⟩
    · refine .inr ⟨?_,x,rfl⟩
      rintro ⟨-,hsmooth⟩
      cases hs.mp hsmooth
    · exact .inr ⟨by simp [hrep],e,rfl⟩
    · have hresumed : out = .ok () := hu ⟨.yield (.failed code message),out⟩ (by simp)
      exact .inl ⟨hrep,hs.mpr hok,hresumed,code,message,by rw [yielded_append, hy]; rfl⟩
  · have hresumed : out = .ok () := hu ⟨.yield (.failed code message),out⟩ (by simp)
    exact ⟨rfl,.inl ⟨hrep,smooth_nil,hresumed,code,message,rfl⟩⟩
  · exact ⟨rfl,.inr ⟨by simp [hrep],e,rfl⟩⟩

namespace Responded
variable {t : Turn B} {tr : ChatTrace B} {out : Except Exc Unit} {c : Conversation} {request : ChatRequest}
  {call : CallTrace B} {got : List StreamChunk} {exit : Except Exc Unit} {body rest : ChatTrace B}
  {parts : List Text}

/-- A turn that called its provider is in band exactly when its loop ended normally or with an
application error and every statement went through. -/
theorem inBand_iff (h : Responded t tr out c request call got exit body rest parts)
    (hu : ∀ x ∈ tr, Uncancelled x.op x.answer) (hframes : Frames false parts (yielded body)) :
    InBand tr out ↔ Smooth (statements false tr) ∧ Smooth (statements true tr) ∧
      ∀ e, exit = .error e → reported e = true := by
  obtain ⟨start,hrest⟩ := h.concluded
  have hurest : ∀ x ∈ rest, Uncancelled x.op x.answer := fun x hx => hu x (h.rest_sub x hx)
  rw [h.smooth, h.detached]
  cases exit with
  | ok u =>
    obtain ⟨hdetached,hend⟩ := conclude_ok_inBand hrest hurest
    rw [hdetached]
    rcases hend with ⟨hs,rfl,⟨m,ms,hy⟩,hset⟩ | ⟨hs,e,rfl⟩
    · refine ⟨fun _ => ⟨hs,smooth_nil,by simp⟩,fun _ => ?_⟩
      have hyielded := h.frames
      rw [hy] at hyielded
      obtain ⟨hturn,hshown⟩ := hframes.turnFrames c.id t.provider t.model (.completed m ms) rfl
      refine ⟨rfl,hyielded ▸ hturn,fun _ _ _ => ⟨c,h.answering.conversation,?_⟩⟩
      rw [hyielded, hshown]
      exact h.committed hset _ (List.mem_singleton_self _)
    · constructor
      · intro hb
        cases hb.returned
      · intro hb
        exact absurd hb.1 hs
  | error e =>
    obtain ⟨hown,hend⟩ := conclude_error_inBand hrest hurest
    rw [hown]
    rcases hend with ⟨hrep,hs,rfl,code,message,hy⟩ | ⟨hnot,x,rfl⟩
    · refine ⟨fun _ => ⟨smooth_nil,hs,by rintro _ ⟨⟩; exact hrep⟩,fun _ => ?_⟩
      have hyielded := h.frames
      rw [hy] at hyielded
      obtain ⟨hturn,-⟩ := hframes.turnFrames c.id t.provider t.model (.failed code message) rfl
      refine ⟨rfl,hyielded ▸ hturn,?_⟩
      intro id ms hmem
      rw [hyielded] at hmem
      simp only [List.mem_cons, List.mem_append, List.not_mem_nil, reduceCtorEq, or_false, false_or] at hmem
      cases hframes.not_terminal hmem
    · constructor
      · intro hb
        cases hb.returned
      · intro hb
        exact absurd ⟨hb.2.2 e rfl,hb.2.1⟩ hnot

end Responded

theorem Exc.not_outside_of_app {e : Exc} {err : AppError} (h : e.cls = .appError err) : ¬ e.isOutside := by
  rintro ⟨-,-,hr⟩
  simp [reported,h] at hr

/-- A turn that never called its provider is in band when the conversation was not found, and
not when a statement failed. -/
theorem Unanswered.inBand_iff {t : Turn B} {tr : ChatTrace B} {out : Except Exc Unit} (h : Unanswered t tr out)
    (hu : ∀ x ∈ tr, Uncancelled x.op x.answer) :
    (InBand tr out ↔ Smooth (statements false tr) ∧ Smooth (statements true tr)) ∧
      (Smooth (statements false tr) → Missing (statements false tr)) := by
  have hends : ∀ {st : SqlTrace} {e : Exc}, st.map (statementEvent false) ⊆ tr →
      Run (PossibleSql B false) (recordUserTurn t.settings t.conversationId t.content) st (.error e) →
      (Smooth st ∧ Missing st ∧ e = notFound) ∨ (¬ Smooth st ∧ e.isOutside) := by
    intro st e hsub hst
    obtain ⟨⟨c,m,w,history,-,hout⟩ | ⟨hs,hmiss,hout⟩ | hf,-⟩ := recordUserTurn_run hst
    · cases hout
    · cases hout
      exact .inl ⟨hs,hmiss,rfl⟩
    · obtain ⟨x,hx,y,hy,hout⟩ := id hf
      cases hout
      exact .inr ⟨hf.not_smooth,hu _ (hsub (List.mem_map_of_mem hx)) _ hy⟩
  cases h with
  | @refused st e err r hst hcls htr hout =>
    subst htr hout
    have htail : ∀ b, statements (B := B) b [⟨.yield (.failed err.code err.message),out⟩] = [] := fun _ => rfl
    have hresumed : out = .ok () := hu ⟨.yield (.failed err.code err.message),out⟩ (by simp)
    have hyielded : yielded (st.map (statementEvent false) ++ [⟨.yield (.failed err.code err.message),out⟩] :
        ChatTrace B) = [.failed err.code err.message] := by
      rw [yielded_append, yielded_map]
      rfl
    simp only [statements_append, statements_map, htail, if_true, Bool.false_eq_true, if_false, List.append_nil]
    rcases hends (by simp) hst with ⟨hs,hmiss,-⟩ | ⟨-,ho⟩
    · refine ⟨⟨fun _ => ⟨hs,smooth_nil⟩,fun _ => ⟨hresumed,hyielded ▸ .refused _ _,?_⟩⟩,fun _ => hmiss⟩
      intro id ms hmem
      simp [hyielded] at hmem
    · exact absurd ho (Exc.not_outside_of_app hcls)
  | @crashed st e hst hcls htr hout =>
    subst htr hout
    simp only [statements_map, if_true, Bool.false_eq_true, if_false]
    rcases hends (by simp) hst with ⟨-,-,rfl⟩ | ⟨hs,-⟩
    · exact absurd rfl (hcls _)
    · refine ⟨⟨?_,fun hb => absurd hb.1 hs⟩,fun hb => absurd hb hs⟩
      intro hb
      cases hb.returned
  | @unstarted st c m history e hst htr hout =>
    subst htr
    cases hu ⟨.yield (.started c.id t.provider t.model),.error e⟩ (by simp)

/-- The loop of a drained call is left with an application error, or normally, exactly when the
call's event is built and published and the provider ended so. -/
theorem reported_exit_iff {t : Turn B} {tr : ChatTrace B} {c : Conversation} {request : ChatRequest}
    {call : CallTrace B} {got : List StreamChunk} {exit : Except Exc Unit}
    (hans : Answering t tr c request call got exit)
    (hd : ∀ e ∈ call, Drained (B := callSignature B) (Y := StreamChunk) (fun _ _ => True) e.op e.answer)
    (hu : ∀ x ∈ tr, Uncancelled x.op x.answer) (hm : (monotonicReadings (calls tr)).Pairwise (· ≤ ·)) :
    (∀ e, exit = .error e → reported e = true) ↔ ∃ inner, ProviderEnded t tr inner ∧
      (∀ r ∈ publishAnswers (calls tr), r = .ok ()) ∧ ∀ e, inner = .error e → reported e = true := by
  obtain ⟨history,hhist,rfl⟩ := hans.transcript
  have hrun := run_of_reception hans.received hans.calls hd fun x hx => (hu x hx).possible
  have hvisible := Instrumentation.visible_drained hd
  -- the provider's own run is a projection of the call's
  have hended : ∀ x, EndedWith t (t.request (recentWindow history t.settings.maxHistoryMessages
      t.settings.maxHistoryChars)) call x ↔ ProviderEnded t tr x := by
    intro x
    constructor
    · rintro ⟨got',hg,hl⟩
      refine ⟨history,visible call,hhist,hg.drained hvisible,?_,?_⟩
      · rw [Instrumentation.bases_visible, hans.calls]
      · rw [hg.yielded_eq, ← hans.calls]
        exact hl
    · rintro ⟨history',sent,hh,hsent,hb,hl⟩
      cases hhist.symm.trans hh
      obtain ⟨cr⟩ := Instrumentation.streamChat_run hrun
      obtain ⟨got',hg,-⟩ := cr.loop.received
      rw [← cr.visible_eq] at hg
      have hbases : bases (visible call) = bases sent := by
        rw [hb, Instrumentation.bases_visible, hans.calls]
      obtain ⟨rfl,rfl⟩ := (hg.drained hvisible).drained_unique hsent hbases
      rw [hg.yielded_eq, ← hans.calls] at hl
      exact ⟨got',hg,hl⟩
  have hpublishes : ∀ r ∈ publishAnswers (calls tr), ∀ e, r = .error e → e.isOutside := by
    rintro r hr e rfl
    obtain ⟨x,hx,hxr⟩ := List.mem_filterMap.mp hr
    obtain ⟨y,hy,hyx⟩ := List.mem_filterMap.mp hx
    rcases y with ⟨(op | _ | _ | _) | _,r'⟩ <;> cases hyx
    cases op <;> cases hxr
    exact hu _ hy e rfl
  rcases call_outcome hrun rfl (hans.calls ▸ hm) with ⟨hnot,e,rfl⟩ | ⟨inner,finished,hi,hpub,rfl⟩
  · constructor
    · intro hexit
      cases hexit _ rfl
    · rintro ⟨inner,hi,-⟩
      exact absurd ((hended inner).mpr hi) (hnot inner)
  · rw [hans.calls] at hpub
    cases finished with
    | error x =>
      constructor
      · intro hexit
        obtain ⟨-,-,hr⟩ := hpublishes (.error x) (by simp [hpub]) x rfl
        rw [hexit x rfl] at hr
        cases hr
      · rintro ⟨-,-,hok,-⟩
        cases hok (.error x) (by simp [hpub])
    | ok u =>
      constructor
      · intro hexit
        refine ⟨inner,(hended inner).mp hi,?_,hexit⟩
        intro r hr
        simpa [hpub] using hr
      · rintro ⟨inner',hi',-,hrep⟩
        cases hi.unique ((hended inner').mpr hi')
        exact hrep

/-- A turn ends in band, never raising, exactly when it is an orderly one. -/
theorem in_band_iff {t : Turn B} {tr : ChatTrace B} {out : Except Exc Unit}
    (h : Run Uncancelled t.stream tr out) (hm : (monotonicReadings (calls tr)).Pairwise (· ≤ ·)) :
    InBand tr out ↔ Orderly t tr := by
  have hu := h.answers
  have hresumed : ∀ y e, ⟨.yield y,.error e⟩ ∉ tr := by
    intro y e he
    cases hu _ he
  rcases responded_of_run (h.mono fun _ _ => Uncancelled.possible) with hun |
    ⟨c,request,call,got,exit,body,rest,parts,hr⟩
  · obtain ⟨hiff,hmiss⟩ := hun.inBand_iff hu
    rw [hiff]
    constructor
    · rintro ⟨hs,hd⟩
      exact ⟨hs,hd,.inl (hmiss hs)⟩
    · rintro ⟨hs,hd,-⟩
      exact ⟨hs,hd⟩
  · obtain ⟨d,hleft,rfl⟩ := hr.left
    cases hleft with
    | ended hd hparts hframes hbody =>
      have hframes' : Frames false d.parts (yielded body) := by
        rw [hparts]
        exact hframes
      rw [hr.inBand_iff hu hframes', reported_exit_iff hr.answering hd hu hm]
      constructor
      · rintro ⟨hs,hdet,hended⟩
        exact ⟨hs,hdet,.inr hended⟩
      · rintro ⟨hs,hdet,hmiss | hended⟩
        · exact absurd hmiss hr.found
        · exact ⟨hs,hdet,hended⟩
    | atDelta shown e _ hmem => exact absurd (hr.body_sub _ hmem) (hresumed _ _)
    | atFirstToken ms shown e _ hmem => exact absurd (hr.body_sub _ hmem) (hresumed _ _)

/-! ## A conversation deleted while its turn runs -/

section
open Instrumentation

/-- Nothing fails but the insert of the reply: its conversation is gone. -/
def deletedChat (deleted : Bool) : (op : GenOp (chatSignature quietSignature) ChatStreamEvent) →
    Except Exc ((genSignature (chatSignature quietSignature) ChatStreamEvent).Answer op)
  | .base (.sql d (.insertMessage id .assistant content seq)) =>
    if deleted then .error (.foreign 0 (.exception (text "IntegrityError") (text "foreign key")))
    else quietChat (fun _ => .ok ()) (.base (.sql d (.insertMessage id .assistant content seq)))
  | op => quietChat (fun _ => .ok ()) op

theorem deletedChat_uncancelled (deleted : Bool) (op : GenOp (chatSignature quietSignature) ChatStreamEvent) :
    Uncancelled op (deletedChat deleted op) := by
  rcases op with (op | ⟨d,stmt⟩ | _ | _) | y
  · cases op with
    | inner op => exact op.elim
    | awaitPublish how =>
      intro e he
      cases he
    | _ => exact ⟨_,rfl⟩
  · cases stmt with
    | insertMessage id role content seq =>
      intro e he
      cases role with
      | assistant =>
        cases deleted <;> cases he
        exact ⟨rfl,rfl,rfl⟩
      | _ => cases he
    | _ =>
      intro e he
      cases he
  · rfl
  · exact ⟨_,rfl⟩
  · rfl

def deletedRun (deleted : Bool) : ChatTrace quietSignature × Except Exc Unit :=
  drive (fun _ => deletedChat deleted) 0 (quietTurn oneChunk).stream

/-- The frames of a turn that is answered with this text. -/
def answersWith (shown : Text) : List ChatStreamEvent → Bool
  | [.started _ _ _,.firstToken _,.delta first,.completed _ _] => decide (first = shown)
  | _ => false

theorem answersWith_frames {shown : Text} {frames : List ChatStreamEvent} (h : answersWith shown frames = true) :
    TurnFrames frames ∧ shownText frames = shown := by
  unfold answersWith at h
  split at h
  · rename_i id provider model ttft first mid ms
    refine ⟨.spoken id provider model ttft first [] (.completed mid ms) rfl,?_⟩
    rw [← of_decide_eq_true h]
    exact List.append_nil first
  · cases h

/-- The reply is committed to the turn's conversation. -/
def keepsReply (shown : Text) (tr : ChatTrace quietSignature) : Bool :=
  match conversations (statements false tr) with
  | [c] => decide (⟨c.id,.assistant,shown⟩ ∈ committed (statements false tr))
  | _ => false

theorem deletedRun_inBand : InBand (deletedRun false).1 (deletedRun false).2 := by
  have hreturned : (deletedRun false).2.isOk = true := by decide +kernel
  have hframes : answersWith (text "hi") (yielded (deletedRun false).1) = true := by decide +kernel
  have hkept : keepsReply (text "hi") (deletedRun false).1 = true := by decide +kernel
  obtain ⟨hturn,hshown⟩ := answersWith_frames hframes
  refine ⟨?_,hturn,fun _ _ _ => ?_⟩
  · cases hout : (deletedRun false).2 with
    | ok u => rfl
    | error e =>
      rw [hout] at hreturned
      cases hreturned
  · unfold keepsReply at hkept
    split at hkept
    · rename_i c hc
      exact ⟨c,hc,hshown ▸ of_decide_eq_true hkept⟩
    · cases hkept

theorem deletedRun_not_inBand : ¬ InBand (deletedRun true).1 (deletedRun true).2 := by
  intro h
  have hraised : (deletedRun true).2.isOk = false := by decide +kernel
  have hreturned : (deletedRun true).2 = .ok () := h.returned
  rw [hreturned] at hraised
  cases hraised

/-- The turn is orderly, but not when its conversation is gone. -/
theorem in_band_deleted : InBand (deletedRun false).1 (deletedRun false).2 ∧
    Orderly (quietTurn oneChunk) (deletedRun false).1 ∧ ¬ Orderly (quietTurn oneChunk) (deletedRun true).1 :=
  ⟨deletedRun_inBand,
    (in_band_iff (drive_run (fun _ => deletedChat_uncancelled false) 0 _) (by decide +kernel)).mp deletedRun_inBand,
    fun horderly => deletedRun_not_inBand
      ((in_band_iff (drive_run (fun _ => deletedChat_uncancelled true) 0 _) (by decide +kernel)).mpr horderly)⟩

/-- A turn whose conversation is deleted before its reply is recorded raises. -/
theorem deleted_conversation_raises :
    ∃ (t : Turn quietSignature) (tr : ChatTrace quietSignature) (out : Except Exc Unit),
      Run Uncancelled t.stream tr out ∧ (monotonicReadings (calls tr)).Pairwise (· ≤ ·) ∧ ¬ InBand tr out :=
  ⟨quietTurn oneChunk,_,_,drive_run (fun _ => deletedChat_uncancelled true) 0 _,by decide +kernel,deletedRun_not_inBand⟩

end
end InferenceLogger
