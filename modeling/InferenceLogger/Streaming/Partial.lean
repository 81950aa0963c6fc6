import InferenceLogger.Streaming.Responses

/-! # The partial reply of an interrupted turn

What the turn had received when it was interrupted is saved by two of the handlers around the
loop. Whether it survives depends on which exception the loop was left with.
-/
namespace InferenceLogger
open PyText PyJson AsyncTask

variable {B : Signature}

/-- The database is available and the conversation is there: a statement fails only by being
cancelled, and no cancellation reaches the detached task. -/
def AvailableChat : (op : GenOp (chatSignature B) ChatStreamEvent) →
    Except Exc ((genSignature (chatSignature B) ChatStreamEvent).Answer op) → Prop
  | .base (.sql detached _), r => ∀ e, r = .error e → e.isForeign = true ∧ e.isCancelled = true ∧ detached = false
  | op, r => PossibleChat op r

theorem AvailableChat.possible {op : GenOp (chatSignature B) ChatStreamEvent}
    {r : Except Exc ((genSignature (chatSignature B) ChatStreamEvent).Answer op)} (h : AvailableChat op r) :
    PossibleChat op r := by
  rcases op with (op | ⟨d,stmt⟩ | _ | _) | y
  · exact h
  · intro e he
    exact (h e he).1
  · exact h
  · exact h
  · exact h

def SavedOnce (tr : ChatTrace B) (id : Uuid) (received : Text) : Prop :=
  ∃ content, assistantMessages tr = [⟨id,.assistant,content⟩] ∧ strip content = strip received

/-- Nothing was thrown in at a `yield` before the loop had ended. -/
def Uninterrupted (tr : ChatTrace B) : Prop := ∀ y e, ⟨.yield y,.error e⟩ ∈ tr → y.isTerminal = true

/-- The turns whose text is kept: a cancellation or a provider's error is thrown in with a text,
reaches the await of the publish, or ends the provider; or the provider ends normally and
nothing cancels the second transaction. -/
inductive Kept (t : Turn B) (request : ChatRequest) (call : CallTrace B) (tr : ChatTrace B) : Prop where
  | thrown {shown : Text} {e : Exc} : (shown,.error e) ∈ deliveries tr → savesPartial e = true →
      Kept t request call tr
  | publishing {exit : Except Exc Unit} {e : Exc} : Uninterrupted tr → EndedWith t request call exit →
      .error e ∈ publishAnswers (calls tr) → savesPartial e = true → Kept t request call tr
  | failed {e : Exc} : Uninterrupted tr → EndedWith t request call (.error e) →
      (∀ r ∈ publishAnswers (calls tr), r = .ok ()) → savesPartial e = true → Kept t request call tr
  | replied : Uninterrupted tr → EndedWith t request call (.ok ()) →
      (∀ r ∈ publishAnswers (calls tr), r = .ok ()) → Landed (statements false tr) → Kept t request call tr

/-! ## What is committed after the loop -/

/-- The message of a normal end is committed exactly when its transaction was not cut short. -/
theorem conclude_ok_saved {id : Uuid} {start : ℕ} {parts : List Text} {tr : ChatTrace B} {out : Except Exc Unit}
    (h : Run PossibleChat (Turn.conclude id start parts (.ok ())) tr out) :
    statements true tr = [] ∧ ∃ new, Settles (statements false tr) new ∧
      ((Landed (statements false tr) ∧ new = [⟨id,.assistant,parts.flatten⟩]) ∨
        (¬ Landed (statements false tr) ∧ new = [])) := by
  obtain ⟨st,recorded,hst,hrest⟩ := conclude_ok_run h
  have hstatements : statements true tr = [] ∧ statements false tr = st := by
    rcases hrest with ⟨e,-,rfl,-⟩ | ⟨m,stop,ms,r,-,rfl,-⟩
    · simp
    · have htail : ∀ b, statements (B := B) b
          [⟨.base .monotonic,.ok stop⟩,⟨.yield (.completed m.id ms),r⟩] = [] := fun _ => rfl
      simp [htail]
  refine ⟨hstatements.1,?_⟩
  rw [hstatements.2]
  rcases recordAssistantTurn_settles hst with ⟨hl,hs⟩ | ⟨hl,hs,-⟩
  · exact ⟨_,hs,.inl ⟨hl,rfl⟩⟩
  · exact ⟨_,hs,.inr ⟨hl,rfl⟩⟩

/-- What a saving handler commits. -/
def salvaged (id : Uuid) (parts : List Text) (e : Exc) : List NewMessage :=
  if savesPartial e = true ∧ strip parts.flatten ≠ [] then [⟨id,.assistant,strip parts.flatten⟩] else []

theorem persistPartial_saved {id : Uuid} {parts : List Text} {tr : ChatTrace B} {out : Except Exc Unit}
    (h : Run PossibleChat (Gen.ofBase (persistPartial id parts) : ChatGen B Unit) tr out)
    (ha : ∀ e ∈ tr, AvailableChat e.op e.answer) :
    statements false tr = [] ∧ Settles (statements true tr)
      (if strip parts.flatten = [] then [] else [⟨id,.assistant,strip parts.flatten⟩]) := by
  rcases persistPartial_run h with ⟨hblank,rfl,-⟩ | ⟨hblank,st,saved,waited,hst,rfl,-⟩
  · rw [if_pos hblank]
    exact ⟨rfl,settles_nil⟩
  · have hsmooth : Smooth st := by
      intro e he
      have hav := ha (statementEvent true e) (List.mem_append_left _ (List.mem_map_of_mem he))
      cases hr : e.answer with
      | ok a => exact ⟨a,rfl⟩
      | error x => cases (hav x hr).2.2
    have htail : ∀ b, statements (B := B) b [⟨.base .awaitShield,waited⟩] = [] := fun _ => rfl
    rw [if_neg hblank]
    simp only [statements_append, statements_map, htail, if_true, Bool.true_eq_false, if_false, List.append_nil]
    refine ⟨trivial,?_⟩
    have hst' : Settles st [⟨id,.assistant,strip parts.flatten⟩] := by
      rcases recordAssistantTurn_settles hst with ⟨-,hs⟩ | ⟨hl,-⟩
      · exact hs
      · exact absurd (landed_of_smooth hsmooth) hl
    exact hst'

/-- After an exception, nothing is committed but what the saving handlers commit. -/
theorem conclude_error_saved {id : Uuid} {start : ℕ} {parts : List Text} {e : Exc} {tr : ChatTrace B}
    {out : Except Exc Unit} (h : Run PossibleChat (Turn.conclude id start parts (.error e)) tr out)
    (ha : ∀ x ∈ tr, AvailableChat x.op x.answer) :
    statements false tr = [] ∧ Settles (statements true tr) (salvaged id parts e) := by
  rcases conclude_error_run h with ⟨hsave,saving,rest,persisted,rfl,hp,hrest⟩ |
    ⟨hsave,-,code,message,r,rfl,-⟩ | ⟨hsave,-,rfl,-⟩
  · have hquiet : ∀ b, statements b rest = [] := by
      intro b
      rcases hrest with ⟨x,-,rfl,-⟩ | ⟨-,-,rfl,-⟩ | ⟨-,-,code,message,r,rfl,-⟩ <;> rfl
    obtain ⟨hf,hs⟩ := persistPartial_saved hp fun x hx => ha x (List.mem_append_left _ hx)
    rw [statements_append, statements_append, hquiet, hquiet, hf, List.append_nil]
    refine ⟨rfl,?_⟩
    unfold salvaged
    by_cases hb : strip parts.flatten = []
    · simpa [hb] using hs
    · simpa [hb,hsave] using hs
  · rw [salvaged, if_neg (by simp [hsave])]
    exact ⟨rfl,settles_nil⟩
  · rw [salvaged, if_neg (by simp [hsave])]
    exact ⟨rfl,settles_nil⟩

/-! ## What is saved -/

theorem savedOnce_singleton {tr : ChatTrace B} {id : Uuid} {content received : Text}
    (h : assistantMessages tr = [⟨id,.assistant,content⟩]) (hc : strip content = strip received) :
    SavedOnce tr id received := ⟨content,h,hc⟩

theorem not_savedOnce_nil {tr : ChatTrace B} {id : Uuid} {received : Text} (h : assistantMessages tr = []) :
    ¬ SavedOnce tr id received := by
  rintro ⟨content,hs,-⟩
  rw [h] at hs
  cases hs

namespace Responded
variable {t : Turn B} {tr : ChatTrace B} {out : Except Exc Unit} {c : Conversation} {request : ChatRequest}
  {call : CallTrace B} {got : List StreamChunk} {exit : Except Exc Unit} {body rest : ChatTrace B}
  {parts : List Text}

theorem savedOnce_error {e : Exc} (h : Responded t tr out c request call got (.error e) body rest parts)
    (ha : ∀ x ∈ tr, AvailableChat x.op x.answer) {received : Text} (hp : parts.flatten = received)
    (hne : strip received ≠ []) : SavedOnce tr c.id received ↔ savesPartial e = true := by
  obtain ⟨start,hrest⟩ := h.concluded
  obtain ⟨hf,ht⟩ := conclude_error_saved hrest fun x hx => ha x (h.rest_sub x hx)
  have hsaved := h.saved (hf ▸ settles_nil) ht
  subst hp
  cases hs : savesPartial e with
  | true =>
    rw [salvaged, if_pos ⟨hs,hne⟩] at hsaved
    exact ⟨fun _ => rfl,fun _ => savedOnce_singleton (by simpa using hsaved) (strip_strip _)⟩
  | false =>
    rw [salvaged, if_neg (by simp [hs])] at hsaved
    exact ⟨fun h => absurd h (not_savedOnce_nil (by simpa using hsaved)),fun h => by cases h⟩

theorem not_savedOnce_of_nil {e : Exc} (h : Responded t tr out c request call got (.error e) body rest [])
    (ha : ∀ x ∈ tr, AvailableChat x.op x.answer) (received : Text) : ¬ SavedOnce tr c.id received := by
  obtain ⟨start,hrest⟩ := h.concluded
  obtain ⟨hf,ht⟩ := conclude_error_saved hrest fun x hx => ha x (h.rest_sub x hx)
  have hsaved := h.saved (hf ▸ settles_nil) ht
  rw [salvaged, if_neg (by simp [strip])] at hsaved
  exact not_savedOnce_nil (by simpa using hsaved)

theorem savedOnce_ok (h : Responded t tr out c request call got (.ok ()) body rest parts) :
    SavedOnce tr c.id parts.flatten ↔ Landed (statements false tr) := by
  obtain ⟨start,hrest⟩ := h.concluded
  obtain ⟨ht,new,hset,hnew⟩ := conclude_ok_saved hrest
  have hsaved := h.saved hset (ht ▸ settles_nil)
  rw [h.landed]
  rcases hnew with ⟨hl,rfl⟩ | ⟨hl,rfl⟩
  · exact ⟨fun _ => hl,fun _ => savedOnce_singleton (by simpa using hsaved) rfl⟩
  · exact ⟨fun h => absurd h (not_savedOnce_nil (by simpa using hsaved)),fun h => absurd h hl⟩

/-- A loop that ended by itself keeps its text by the way it ended. -/
theorem kept_iff_ended (h : Responded t tr out c request call got exit body rest parts)
    (ha : ∀ x ∈ tr, AvailableChat x.op x.answer) (hm : (monotonicReadings (calls tr)).Pairwise (· ≤ ·))
    (hd : ∀ e ∈ call, Drained (B := callSignature B) (Y := StreamChunk) (fun _ _ => True) e.op e.answer)
    (hparts : parts = texts got) (hbody : ∀ y e, ⟨.yield y,.error e⟩ ∉ body)
    (hne : strip (texts got).flatten ≠ []) :
    SavedOnce tr c.id (texts got).flatten ↔ Kept t request call tr := by
  have hcalls := h.answering.calls
  have huninterrupted : Uninterrupted tr := by
    intro y e he
    rcases h.thrown y e he with hy | hy
    · exact hy
    · exact absurd hy (hbody y e)
  have hquiet : ∀ shown e, (shown,Except.error e) ∉ deliveries tr := by
    intro shown e he
    rw [h.deliveries_eq] at he
    obtain ⟨⟨op,r⟩,hmem,hev⟩ := List.mem_filterMap.mp he
    rcases op with _ | (_ | _ | _ | _ | _) <;> cases hev
    exact hbody _ _ hmem
  have hmodel : request.model = t.model := by
    obtain ⟨history,-,rfl⟩ := h.answering.transcript
    rfl
  have hrun := run_of_reception h.answering.received hcalls hd fun x hx => (ha x hx).possible
  rcases call_outcome hrun hmodel (hcalls ▸ hm) with ⟨hnot,e,rfl⟩ | ⟨inner,finished,hended,hpub,hexit⟩
  · rw [h.savedOnce_error ha (by rw [hparts]) hne]
    constructor
    · intro hs
      cases hs
    · intro hk
      cases hk with
      | thrown hmem => exact absurd hmem (hquiet _ _)
      | publishing _ hk => exact absurd hk (hnot _)
      | failed _ hk => exact absurd hk (hnot _)
      | replied _ hk => exact absurd hk (hnot _)
  · rw [hcalls] at hpub
    cases finished with
    | error x =>
      subst hexit
      rw [h.savedOnce_error ha (by rw [hparts]) hne]
      constructor
      · intro hs
        exact .publishing huninterrupted hended (by simp [hpub]) hs
      · intro hk
        cases hk with
        | thrown hmem => exact absurd hmem (hquiet _ _)
        | publishing _ _ hmem hs =>
          simp only [hpub, List.mem_singleton, Except.error.injEq] at hmem
          exact hmem ▸ hs
        | failed _ _ hok => cases hok _ (hpub ▸ List.mem_singleton_self _)
        | replied _ _ hok => cases hok _ (hpub ▸ List.mem_singleton_self _)
    | ok u =>
      have hok : ∀ r ∈ publishAnswers (calls tr), r = .ok () := by
        intro r hr
        simpa [hpub] using hr
      have hnone : ∀ e, Except.error e ∉ publishAnswers (calls tr) := by
        intro e he
        cases hok _ he
      cases inner with
      | error x =>
        subst hexit
        rw [h.savedOnce_error ha (by rw [hparts]) hne]
        constructor
        · intro hs
          exact .failed huninterrupted hended hok hs
        · intro hk
          cases hk with
          | thrown hmem => exact absurd hmem (hquiet _ _)
          | publishing _ _ hmem => exact absurd hmem (hnone _)
          | failed _ hk _ hs =>
            cases hended.unique hk
            exact hs
          | replied _ hk => cases hended.unique hk
      | ok u' =>
        subst hexit
        rw [← hparts, h.savedOnce_ok]
        constructor
        · intro hl
          exact .replied huninterrupted hended hok hl
        · intro hk
          cases hk with
          | thrown hmem => exact absurd hmem (hquiet _ _)
          | publishing _ _ hmem => exact absurd hmem (hnone _)
          | failed _ hk => cases hended.unique hk
          | replied _ _ _ hl => exact hl

theorem kept_iff (h : Responded t tr out c request call got exit body rest parts)
    (ha : ∀ x ∈ tr, AvailableChat x.op x.answer) (hm : (monotonicReadings (calls tr)).Pairwise (· ≤ ·))
    (hne : strip (texts got).flatten ≠ []) :
    SavedOnce tr c.id (texts got).flatten ↔ Kept t request call tr := by
  obtain ⟨d,hleft,rfl⟩ := h.left
  cases hleft with
  | ended hd hparts _ hbody => exact h.kept_iff_ended ha hm hd (by simpa using hparts) hbody hne
  | atDelta shown e hexit hmem hparts _ ho =>
    subst hexit
    have hinterrupted : ¬ Uninterrupted tr := by
      intro hu
      cases hu _ _ (h.body_sub _ hmem)
    rw [h.savedOnce_error ha (by rw [hparts]; rfl) hne]
    constructor
    · intro hs
      have hthrown : (shown,.error e) ∈ deliveries tr := by
        rw [h.deliveries_eq]
        exact List.mem_filterMap.mpr ⟨_,hmem,rfl⟩
      exact .thrown hthrown hs
    · intro hk
      cases hk with
      | thrown hthrown hs =>
        rw [h.deliveries_eq, ← ho] at hthrown
        obtain ⟨⟨op,r⟩,hcall,hev⟩ := List.mem_filterMap.mp hthrown
        rcases op with op | chunk
        · cases hev
        · cases r with
          | ok u =>
            simp only [offerOf, ite_eq_iff, reduceCtorEq, and_false, Option.some.injEq, Prod.mk.injEq, or_self] at hev
          | error x =>
            cases hev
            cases h.answering.received.thrown hcall
            exact hs
      | publishing hu => exact absurd hu hinterrupted
      | failed hu => exact absurd hu hinterrupted
      | replied hu => exact absurd hu hinterrupted
  | atFirstToken ms shown e hexit hmem _ hparts _ hnone =>
    subst hexit
    have hinterrupted : ¬ Uninterrupted tr := by
      intro hu
      cases hu _ _ (h.body_sub _ hmem)
    rw [show d.parts = [] from hparts] at h
    refine ⟨fun hs => absurd hs (h.not_savedOnce_of_nil ha _),?_⟩
    intro hk
    cases hk with
    | thrown hthrown =>
      rw [h.deliveries_eq, hnone] at hthrown
      cases hthrown
    | publishing hu => exact absurd hu hinterrupted
    | failed hu => exact absurd hu hinterrupted
    | replied hu => exact absurd hu hinterrupted

end Responded

/-- Text that is not blank survives the turn, once and up to surrounding whitespace, exactly
when the turn is one of those that keep it. -/
theorem partial_saved_iff {t : Turn B} {tr : ChatTrace B} {out : Except Exc Unit}
    (h : Run AvailableChat t.stream tr out) (hm : (monotonicReadings (calls tr)).Pairwise (· ≤ ·)) :
    calls tr = [] ∨ ∃ c request call got exit, Answering t tr c request call got exit ∧
      (isBlank (texts got).flatten = false →
        (SavedOnce tr c.id (texts got).flatten ↔ Kept t request call tr)) := by
  have ha := h.answers
  rcases responded_of_run (h.mono fun _ _ => AvailableChat.possible) with hc |
    ⟨c,request,call,got,exit,body,rest,parts,hr⟩
  · exact .inl hc.calls_eq
  · refine .inr ⟨c,request,call,got,exit,hr.answering,fun hb => hr.kept_iff ha hm ?_⟩
    intro hs
    rw [(isBlank_iff_strip _).mpr hs] at hb
    cases hb

/-! ## A stream closed at its first text -/

section
open Instrumentation

theorem quietChat_available {resumed : ChatStreamEvent → Except Exc Unit}
    (h : ∀ y e, resumed y = .error e → e.isForeign = true)
    (op : GenOp (chatSignature quietSignature) ChatStreamEvent) : AvailableChat op (quietChat resumed op) := by
  rcases op with (op | ⟨d,stmt⟩ | _ | _) | y
  · exact calm_possible (.base op)
  · cases stmt <;> (intro e he; cases he)
  · intro e he
    cases he
  · exact ⟨_,rfl⟩
  · exact h y

def thrownAtText (e : Exc) : ChatStreamEvent → Except Exc Unit
  | .delta _ => .error e
  | _ => .ok ()

theorem thrownAtText_foreign {e : Exc} (h : e.isForeign = true) (y : ChatStreamEvent) (e' : Exc)
    (he : thrownAtText e y = .error e') : e'.isForeign = true := by
  cases y <;> cases he
  exact h

def thrownRun (e : Exc) : ChatTrace quietSignature × Except Exc Unit :=
  drive (fun _ => quietChat (thrownAtText e)) 0 (quietTurn oneChunk).stream

def cancelled : Exc := .foreign 0 .cancelledError
def closed : Exc := .foreign 0 .generatorExit

theorem savesPartial_cancelled {e : Exc} (h : e.isCancelled = true) : savesPartial e = true := by
  unfold Exc.isCancelled ExcClass.isCancelled at h
  split at h
  · rename_i hcls
    rw [savesPartial, hcls]
  · cases h

/-- What was received, by what was shown. -/
theorem Answering.shown_text {t : Turn B} {tr : ChatTrace B} {c : Conversation} {request : ChatRequest} {call : CallTrace B}
    {got : List StreamChunk} {exit : Except Exc Unit} (h : Answering t tr c request call got exit) {shown : List Text}
    (hs : (deliveries tr).map Prod.fst = shown) (hne : shown ≠ []) : (texts got).flatten = shown.flatten := by
  rw [received_text h.received]
  rcases h.offers with ho | ⟨ms,e,first,-,hnone,-⟩
  · rw [ho, hs]
  · rw [hnone] at hs
    exact absurd hs.symm hne

/-- A stream whose task is cancelled at its first text saves it. -/
theorem partial_saved_cancelled : ∃ c request call got exit,
    Answering (quietTurn oneChunk) (thrownRun cancelled).1 c request call got exit ∧ (texts got).flatten = text "hi" ∧
      Kept (quietTurn oneChunk) request call (thrownRun cancelled).1 ∧
      SavedOnce (thrownRun cancelled).1 c.id (texts got).flatten := by
  have hrun : Run AvailableChat (quietTurn oneChunk).stream (thrownRun cancelled).1 (thrownRun cancelled).2 :=
    drive_run (fun _ => quietChat_available (thrownAtText_foreign rfl)) 0 _
  have hcalls : (calls (thrownRun cancelled).1).length ≠ 0 := by decide +kernel
  have hshown : (deliveries (thrownRun cancelled).1).map Prod.fst = [text "hi"] := by decide +kernel
  have hthrown : (deliveries (thrownRun cancelled).1).any (fun d => !d.2.isOk && (suppressCancelled d.2).isOk) = true := by
    decide +kernel
  rcases partial_saved_iff hrun (by decide +kernel) with hnone | ⟨c,request,call,got,exit,hanswering,hiff⟩
  · rw [hnone] at hcalls
    exact absurd rfl hcalls
  · have htext : (texts got).flatten = text "hi" := hanswering.shown_text hshown (by simp)
    have hkept : Kept (quietTurn oneChunk) request call (thrownRun cancelled).1 := by
      obtain ⟨⟨shown,r⟩,hmem,hsuppressed⟩ := List.any_eq_true.mp hthrown
      cases r with
      | ok u => cases hsuppressed
      | error e =>
        have hcancelled : e.isCancelled = true := by
          by_contra hne
          rw [suppressCancelled, if_neg hne] at hsuppressed
          cases hsuppressed
        exact .thrown hmem (savesPartial_cancelled hcancelled)
    exact ⟨c,request,call,got,exit,hanswering,htext,hkept,(hiff (by rw [htext]; decide)).mpr hkept⟩

/-- A stream closed at its first text saves nothing of it. -/
theorem closed_stream_loses_text :
    ∃ (t : Turn quietSignature) (tr : ChatTrace quietSignature) (out : Except Exc Unit) (c : Conversation)
      (request : ChatRequest) (call : CallTrace quietSignature) (got : List StreamChunk) (exit : Except Exc Unit),
      Run AvailableChat t.stream tr out ∧ (monotonicReadings (calls tr)).Pairwise (· ≤ ·) ∧
      Answering t tr c request call got exit ∧ isBlank (texts got).flatten = false ∧
      ¬ SavedOnce tr c.id (texts got).flatten := by
  have hrun : Run AvailableChat (quietTurn oneChunk).stream (thrownRun closed).1 (thrownRun closed).2 :=
    drive_run (fun _ => quietChat_available (thrownAtText_foreign rfl)) 0 _
  have hcalls : (calls (thrownRun closed).1).length ≠ 0 := by decide +kernel
  have hshown : (deliveries (thrownRun closed).1).map Prod.fst = [text "hi"] := by decide +kernel
  have hsaved : (assistantMessages (thrownRun closed).1).length = 0 := by decide +kernel
  rcases responded_of_run (hrun.mono fun _ _ => AvailableChat.possible) with hc |
    ⟨c,request,call,got,exit,body,rest,parts,hr⟩
  · rw [hc.calls_eq] at hcalls
    exact absurd rfl hcalls
  · refine ⟨_,_,_,c,request,call,got,exit,hrun,by decide +kernel,hr.answering,?_,
      not_savedOnce_nil (List.eq_nil_of_length_eq_zero hsaved)⟩
    rw [hr.answering.shown_text hshown (by simp)]
    decide

end
end InferenceLogger
