import InferenceLogger.Conversations.Dialogue
import InferenceLogger.Streaming.Delivery

/-! # The effect of a streamed turn

Alone with the database and interrupted anywhere, a streamed turn leaves one of four changes
behind, and what it adds is what it has shown. One that is not interrupted leaves the transcript
that the turn would have left without streaming.
-/
namespace InferenceLogger
open PyText PyJson AsyncTask KeyedTable RelyGuarantee

variable {B : Signature}

/-- A drained call that ends normally has delivered all of the inner provider's own run. -/
theorem Instrumentation.stream_delivers {w : Instrumentation} {inner : BaseProvider B} {request : ChatRequest}
    {call : CallTrace B} (h : Run Possible (w.streamChat inner request) call (.ok ()))
    (hd : ∀ e ∈ call, Drained (B := callSignature B) (Y := StreamChunk) (fun _ _ => True) e.op e.answer) :
    ∃ source, Run (Drained Whatever) (inner.streamChat request) source (.ok ()) ∧ bases source = innerCalls (bases call) ∧
      yielded source = yielded call := by
  obtain ⟨c⟩ := streamChat_run h
  obtain ⟨got,hgot,-⟩ := c.loop.received
  rw [← c.visible_eq] at hgot
  have hexit : c.exit = .ok () := by
    have hout := c.out_eq
    cases hf : c.finished with
    | ok v =>
      rw [hf] at hout
      exact hout.symm
    | error e =>
      rw [hf] at hout
      cases hout
  rw [hexit] at hgot
  exact ⟨visible call,hgot.drained (visible_drained hd),bases_visible call,yielded_visible call⟩

/-- A started frame carries the conversation's id and the resolved names. -/
def Turn.Announces (t : Turn B) (c : Conversation) (frames : List ChatStreamEvent) : Prop :=
  ∀ id provider model, .started id provider model ∈ frames → id = c.id ∧ provider = t.provider ∧ model = t.model

inductive StreamEffect where
  | nothing
  | asked
  | salvaged
  | replied

namespace StreamEffect

/-- The change of the database that each effect stands for. -/
def Holds (t : Turn B) (tr : ChatTrace B) (before after : Db) : StreamEffect → Prop
  | .nothing => after = before
  | .asked => ∃ c m, before.Asked after t.conversationId t.content c m ∧ t.Announces c (yielded tr)
  | .salvaged => ∃ mid c m reply, before.Asked mid t.conversationId t.content c m ∧
      strip (shownText (yielded tr)) ≠ [] ∧ mid.Answered after c (strip (shownText (yielded tr))) reply ∧
      t.Announces c (yielded tr)
  | .replied => ∃ mid c m got reply, before.Asked mid t.conversationId t.content c m ∧
      t.Delivers (mid.transcript c.id) (calls tr) got ∧ (texts got).flatten = shownText (yielded tr) ∧
      mid.Answered after c (shownText (yielded tr)) reply ∧ t.Announces c (yielded tr) ∧
      ∀ id ms, .completed id ms ∈ yielded tr → id = reply.id

/-- What the frames tell of the effect. -/
structure Told (frames : List ChatStreamEvent) (out : Except Exc Unit) (effect : StreamEffect) : Prop where
  started : (∃ id provider model, .started id provider model ∈ frames) → effect ≠ .nothing
  unstarted : effect = .salvaged ∨ effect = .replied → ∃ id provider model, .started id provider model ∈ frames
  completed : ∀ id ms, .completed id ms ∈ frames → effect = .replied
  failed : ∀ code message, .failed code message ∈ frames → effect ≠ .replied
  raised : effect = .replied → (∃ id ms, .completed id ms ∈ frames) ∨ ∃ x, out = .error x

/-- What each effect adds to the messages. -/
def adds (t : Turn B) (shown : Text) : StreamEffect → List Text
  | .nothing => []
  | .asked => [t.content]
  | .salvaged => [t.content,strip shown]
  | .replied => [t.content,shown]

theorem Holds.contents {t : Turn B} {tr : ChatTrace B} {before after : Db} {effect : StreamEffect}
    (h : effect.Holds t tr before after) :
    after.messages.rows.map (fun r => r.2.content) =
      before.messages.rows.map (fun r => r.2.content) ++ effect.adds t (shownText (yielded tr)) := by
  cases effect with
  | nothing =>
    rw [show after = before from h]
    exact (List.append_nil _).symm
  | asked =>
    obtain ⟨c,m,hasked,-⟩ := h
    rw [hasked.spoken.messages, List.map_append, List.map_singleton, hasked.content]
    rfl
  | salvaged =>
    obtain ⟨mid,c,m,reply,hasked,-,hanswered,-⟩ := h
    obtain ⟨now,hspoken⟩ := hanswered.spoken
    rw [hspoken.messages, hasked.spoken.messages, List.map_append, List.map_append, List.map_singleton, List.map_singleton,
      hasked.content, hanswered.content, List.append_assoc]
    rfl
  | replied =>
    obtain ⟨mid,c,m,got,reply,hasked,-,-,hanswered,-⟩ := h
    obtain ⟨now,hspoken⟩ := hanswered.spoken
    rw [hspoken.messages, hasked.spoken.messages, List.map_append, List.map_append, List.map_singleton, List.map_singleton,
      hasked.content, hanswered.content, List.append_assoc]
    rfl

end StreamEffect

/-! ## Frames and text -/

/-- The frames of the loop are texts, and the first token's timing. -/
def ChatStreamEvent.isSpeech : ChatStreamEvent → Prop
  | .delta _ => True
  | .firstToken _ => True
  | _ => False

theorem loop_frames {start : ℕ} {chunks : CallGen B Unit} {d : Delivery} {tr : ChatTrace B} {out}
    (h : Run PossibleChat (asyncFor (S := genSignature (chatSignature B) ChatStreamEvent)
      (fun op => Gen.baseCall (B := chatSignature B) (.call op)) chunks d (deliver start)) tr out) :
    ∀ y ∈ yielded tr, y.isSpeech := by
  have hround : ∀ {d : Delivery} {chunk tr out}, Run PossibleChat (deliver (B := B) start d chunk) tr out →
      ∀ y ∈ yielded tr, y.isSpeech := by
    intro d chunk tr out h y hy
    rcases deliver_run h with ⟨-,rfl,-⟩ | ⟨-,before,resumed,rfl,-,⟨-,rfl⟩ | ⟨-,stop,ms,rfl⟩⟩ | ⟨-,-,stop,ms,e,rfl,-⟩
    · cases hy
    · rw [List.mem_singleton.mp hy]
      trivial
    · rcases List.mem_cons.mp hy with rfl | hy
      · trivial
      · rw [List.mem_singleton.mp hy]
        trivial
    · rw [List.mem_singleton.mp hy]
      trivial
  induction chunks generalizing d tr with
  | done a | raise e =>
    obtain ⟨rfl,-⟩ := Run.done_iff.mp h
    exact fun y hy => by cases hy
  | await op k ih =>
    intro y hy
    cases op with
    | base op =>
      obtain ⟨tr₁,r,tr₂,rfl,h₁,h₂⟩ := Run.resume_iff.mp h
      obtain ⟨rfl,-⟩ := Run.call_iff.mp h₁
      rw [yielded_append, List.mem_append] at hy
      rcases hy with hy | hy
      · cases hy
      · exact ih r h₂ y hy
    | «yield» chunk =>
      obtain ⟨tr₁,r,tr₂,rfl,h₁,h₂⟩ := Run.resume_iff.mp h
      rw [yielded_append, List.mem_append] at hy
      rcases hy with hy | hy
      · exact hround h₁ y hy
      · rcases deliver_run h₁ with ⟨-,-,rfl⟩ | ⟨-,before,resumed,-,rfl,-⟩ | ⟨-,-,stop,ms,e,-,rfl⟩
        · exact ih _ h₂ y hy
        · cases resumed with
          | ok u => exact ih _ h₂ y hy
          | error e =>
            obtain ⟨rfl,-⟩ := Run.done_iff.mp h₂
            cases hy
        · obtain ⟨rfl,-⟩ := Run.done_iff.mp h₂
          cases hy

/-- However the loop was left, the text that counts as delivered is the text of its frames. -/
theorem LeftBy.shown {d : Delivery} {chunks : CallGen B Unit} {call : CallTrace B} {got : List StreamChunk}
    {exit : Except Exc Unit} {tr : ChatTrace B} (h : LeftBy {} call got exit tr d) (hrec : Reception chunks call got exit) :
    d.parts.flatten = shownText (yielded tr) := by
  have htext : offers call = deliveries tr → d.parts = texts got → d.parts.flatten = shownText (yielded tr) := by
    intro hoffers hparts
    rw [hparts, shownText_yielded, ← hoffers]
    exact received_text hrec
  cases h with
  | ended _ hp _ _ ho => exact htext ho (by simpa using hp)
  | atDelta shown e _ _ hp _ ho => exact htext ho (by simpa using hp)
  | atFirstToken ms shown e _ _ _ hp _ hd _ =>
    rw [hp, shownText_yielded, hd]
    rfl

/-- What follows the loop shows no text. -/
theorem conclude_shows_nothing {id : Uuid} {start : ℕ} {parts : List Text} {exit : Except Exc Unit} {tr : ChatTrace B}
    {out : Except Exc Unit} (h : Run PossibleChat (Turn.conclude id start parts exit) tr out) : shownText (yielded tr) = [] := by
  rw [shownText_yielded, (conclude_yields h).2.2]
  rfl

theorem conclude_terminal {id : Uuid} {start : ℕ} {parts : List Text} {exit : Except Exc Unit} {tr : ChatTrace B}
    {out : Except Exc Unit} (h : Run PossibleChat (Turn.conclude id start parts exit) tr out) :
    ∀ y ∈ yielded tr, y.isTerminal = true := by
  intro y hy
  obtain ⟨⟨op,r⟩,he,hop⟩ := List.mem_filterMap.mp hy
  rcases op with op | y'
  · cases hop
  · cases hop
    exact (conclude_yields h).1 _ _ he

/-! ## The effect -/

section
variable {pg : Postgres} {i : ℕ} {s s' : ChatStore} {t : Turn B} {tr : ChatTrace B} {out : Except Exc Unit}

/-- A turn that does not reach its provider has asked, or done nothing. -/
theorem Unanswered.effect (hun : Unanswered t tr out) (hrest : s.AtRest i) (hex : Executes (streamExec pg) i s tr s') :
    ∃ effect : StreamEffect, effect.Holds t tr s.db s'.db ∧ effect.Told (yielded tr) out := by
  have hfirst : ∀ {st recorded}, Run (PossibleSql B false) (recordUserTurn t.settings t.conversationId t.content) st recorded →
      Executes (chatExec pg) i s st s' →
      (∃ c m, s.db.Asked s'.db t.conversationId t.content c m) ∨ s'.db = s.db ∧ ∃ x, recorded = .error x := by
    intro st recorded hrun hst
    obtain ⟨-,⟨c,now,m,hasked,-⟩ | hsame⟩ := ChatStore.recordUserTurn_executes hrun hst hrest
    · exact .inl ⟨_,m,hasked⟩
    · exact .inr hsame
  -- without a frame but a failure, the effect is one of the first two
  have hearly : ((∃ c m, s.db.Asked s'.db t.conversationId t.content c m) ∨ s'.db = s.db) →
      (∀ y ∈ yielded tr, ∃ code message, y = .failed code message) →
      ∃ effect : StreamEffect, effect.Holds t tr s.db s'.db ∧ effect.Told (yielded tr) out := by
    intro hdb hframes
    have hnone : ∀ {y}, y ∈ yielded tr → (∃ id provider model, y = .started id provider model) ∨
        (∃ id ms, y = .completed id ms) → False := by
      intro y hy hbad
      obtain ⟨code,message,rfl⟩ := hframes y hy
      rcases hbad with ⟨_,_,_,h⟩ | ⟨_,_,h⟩ <;> cases h
    rcases hdb with ⟨c,m,hasked⟩ | hsame
    · refine ⟨.asked,⟨c,m,hasked,fun id provider model hy => ?_⟩,by simp,by simp,fun id ms hy => ?_,by simp,by simp⟩
      · exact (hnone hy (.inl ⟨id,provider,model,rfl⟩)).elim
      · exact (hnone hy (.inr ⟨id,ms,rfl⟩)).elim
    · refine ⟨.nothing,hsame,?_,by simp,fun id ms hy => ?_,by simp,by simp⟩
      · rintro ⟨id,provider,model,hy⟩
        exact (hnone hy (.inl ⟨id,provider,model,rfl⟩)).elim
      · exact (hnone hy (.inr ⟨id,ms,rfl⟩)).elim
  cases hun with
  | @refused st e err r hst _ htr =>
    have hdb := hfirst hst (statements_then (fun _ => rfl) (htr ▸ hex))
    refine hearly (hdb.imp_right And.left) fun y hy => ?_
    rw [htr, yielded_append, yielded_map, List.nil_append] at hy
    exact ⟨_,_,List.mem_singleton.mp hy⟩
  | crashed hst _ htr =>
    have hdb := hfirst hst (streamExec_sql (htr ▸ hex))
    refine hearly (hdb.imp_right And.left) fun y hy => ?_
    rw [htr, yielded_map] at hy
    cases hy
  | @unstarted st c m history e hst htr =>
    have hframes : yielded tr = [.started c.id t.provider t.model] := by
      rw [htr, yielded_append, yielded_map]
      rfl
    obtain ⟨-,⟨c',now,m',hasked,-,hout | ⟨⟨x,hx⟩,-⟩⟩ | ⟨-,x,hx⟩⟩ :=
      ChatStore.recordUserTurn_executes hst (statements_then (fun _ => rfl) (htr ▸ hex)) hrest
    · cases hout
      refine ⟨.asked,⟨_,m,hasked,?_⟩,by simp,by simp,?_,by simp,by simp⟩
      · intro id provider model hy
        rw [hframes] at hy
        cases List.mem_singleton.mp hy
        exact ⟨rfl,rfl,rfl⟩
      · rw [hframes]
        simp
    · cases hx
    · cases hx

/-- A reply that is saved when the turn is interrupted, or is not. -/
theorem persisted_effect {c : Conversation} {parts : List Text} {saving rest : ChatTrace B} {persisted : Except Exc Unit}
    (hown : s.own i = []) (hknown : ∀ k, s.db.messages.has k = true → k ∈ s.knownMessages)
    (hrow : s.db.conversations.get c.id = some c)
    (hp : Run PossibleChat (Gen.ofBase (persistPartial c.id parts) : ChatGen B Unit) saving persisted)
    (hquiet : ∀ b, statements b rest = []) (hex : Executes (streamExec pg) i s (saving ++ rest) s') :
    s'.db = s.db ∨ strip parts.flatten ≠ [] ∧ ∃ reply, s.db.Answered s'.db c (strip parts.flatten) reply := by
  rcases persistPartial_run hp with ⟨-,rfl,-⟩ | ⟨hne,st,saved,waited,hst,rfl,-⟩
  · exact .inl (congrArg ChatStore.db (streamExec_silent hex hquiet))
  · rw [List.append_assoc] at hex
    have hsql : Executes (chatExec pg) i s st s' := statements_then (fun b => by rw [statements_append, hquiet]; rfl) hex
    rcases ChatStore.recordAssistantTurn_executes hst hsql hown hknown hrow with ⟨reply,hanswered,-⟩ | ⟨hdb,-⟩
    · exact .inr ⟨hne,reply,hanswered⟩
    · exact .inl hdb

/-- No final frame follows a loop that was left with an exception. -/
theorem conclude_unfinished {id : Uuid} {start : ℕ} {parts : List Text} {e : Exc}
    (h : Run PossibleChat (Turn.conclude id start parts (.error e)) tr out) (mid : Uuid) (ms : ℤ) :
    .completed mid ms ∉ yielded tr := by
  intro hy
  rcases conclude_error_run h with ⟨-,saving,rest,persisted,rfl,hp,hrest⟩ | ⟨-,-,code,message,r,rfl,-⟩ | ⟨-,-,rfl,-⟩
  · have hsaving : yielded saving = [] := by
      rcases persistPartial_run hp with ⟨-,rfl,-⟩ | ⟨-,st,saved,waited,-,rfl,-⟩
      · rfl
      · rw [yielded_append, yielded_map]
        rfl
    rw [yielded_append, hsaving, List.nil_append] at hy
    rcases hrest with ⟨x,-,rfl,-⟩ | ⟨-,-,rfl,-⟩ | ⟨-,-,code,message,r,rfl,-⟩
    · cases hy
    · cases hy
    · cases List.mem_singleton.mp hy
  · cases List.mem_singleton.mp hy
  · cases hy

/-- What follows the loop makes of a turn whose question is in. -/
theorem conclude_effect {before : Db} {c : Conversation} {m : Message} {start : ℕ} {parts : List Text} {exit : Except Exc Unit}
    (hasked : before.Asked s.db t.conversationId t.content c m) (hown : s.own i = [])
    (hknown : ∀ k, s.db.messages.has k = true → k ∈ s.knownMessages)
    (h : Run PossibleChat (Turn.conclude c.id start parts exit) tr out) (hex : Executes (streamExec pg) i s tr s') :
    (s'.db = s.db ∧ (∀ id ms, .completed id ms ∉ yielded tr)) ∨
    ((∃ x, exit = .error x) ∧ strip parts.flatten ≠ [] ∧ (∀ id ms, .completed id ms ∉ yielded tr) ∧
      ∃ reply, s.db.Answered s'.db c (strip parts.flatten) reply) ∨
    (exit = .ok () ∧ (∀ code message, .failed code message ∉ yielded tr) ∧ ∃ reply, s.db.Answered s'.db c parts.flatten reply ∧
      (∀ id ms, .completed id ms ∈ yielded tr → id = reply.id) ∧
      ((∃ id ms, .completed id ms ∈ yielded tr) ∨ ∃ x, out = .error x)) := by
  cases exit with
  | ok u =>
    obtain ⟨st,recorded,hst,⟨e,rfl,rfl,rfl⟩ | ⟨reply,stop,ms,r,rfl,rfl,rfl⟩⟩ := conclude_ok_run h
    · rw [yielded_map]
      rcases ChatStore.recordAssistantTurn_executes hst (streamExec_sql hex) hown hknown hasked.spoken.row with
        ⟨reply,hanswered,-⟩ | ⟨hdb,-⟩
      · exact .inr (.inr ⟨rfl,by simp,reply,hanswered,by simp,.inr ⟨e,rfl⟩⟩)
      · exact .inl ⟨hdb,by simp⟩
    · have hframes : yielded (st.map (statementEvent false) ++
          [⟨.base .monotonic,.ok stop⟩,⟨.yield (.completed reply.id ms),out⟩] : ChatTrace B) =
          [.completed reply.id ms] := by
        rw [yielded_append, yielded_map]
        rfl
      rw [hframes]
      rcases ChatStore.recordAssistantTurn_executes hst (statements_then (fun _ => rfl) hex) hown hknown hasked.spoken.row with
        ⟨reply',hanswered,hout⟩ | ⟨-,x,hx⟩
      · have hsame : reply' = reply := by
          rcases hout with hok | ⟨⟨x,hx⟩,-⟩
          · exact (Except.ok.inj hok).symm
          · cases hx
        subst hsame
        refine .inr (.inr ⟨rfl,by simp,reply',hanswered,?_,.inl ⟨reply'.id,ms,by simp⟩⟩)
        intro id ms' hmem
        cases List.mem_singleton.mp hmem
        rfl
      · cases hx
  | error e =>
    have hnone := conclude_unfinished h
    have hunsaved : (∀ b, statements b tr = []) → s'.db = s.db := fun hq => congrArg ChatStore.db (streamExec_silent hex hq)
    rcases conclude_error_run h with ⟨-,saving,rest,persisted,rfl,hp,hrest⟩ | ⟨-,-,code,message,r,rfl,-⟩ | ⟨-,-,rfl,-⟩
    · have hquiet : ∀ b, statements b rest = [] := by
        rcases hrest with ⟨x,-,rfl,-⟩ | ⟨-,-,rfl,-⟩ | ⟨-,-,code,message,r,rfl,-⟩ <;> exact fun _ => rfl
      rcases persisted_effect hown hknown hasked.spoken.row hp hquiet hex with hdb | ⟨hne,hreply⟩
      · exact .inl ⟨hdb,hnone⟩
      · exact .inr (.inl ⟨⟨e,rfl⟩,hne,hnone,hreply⟩)
    · exact .inl ⟨hunsaved fun _ => rfl,hnone⟩
    · exact .inl ⟨hunsaved fun _ => rfl,hnone⟩

section
variable {st : SqlTrace} {c : Conversation} {m : Message} {history : List Message} {start : ℕ} {body rest : ChatTrace B}
  {d : Delivery} {exit : Except Exc Unit}

/-- The trace of a turn whose loop over the provider has begun. -/
def respondedTrace (t : Turn B) (c : Conversation) (start : ℕ) (st : SqlTrace) (body rest : ChatTrace B) : ChatTrace B :=
  st.map (statementEvent false) ++ ⟨.yield (.started c.id t.provider t.model),.ok ()⟩ ::
    ⟨.base .monotonic,.ok start⟩ :: (body ++ rest)

theorem responded_frames :
    yielded (respondedTrace t c start st body rest) = .started c.id t.provider t.model :: (yielded body ++ yielded rest) := by
  unfold respondedTrace
  rw [yielded_append, yielded_map, List.nil_append]
  change _ :: yielded (body ++ rest) = _
  rw [yielded_append]

theorem responded_calls (hconclude : Run PossibleChat (Turn.conclude c.id start d.parts exit) rest out) :
    calls (respondedTrace t c start st body rest) = calls body := by
  unfold respondedTrace
  rw [calls_append, calls_map, List.nil_append]
  change calls (body ++ rest) = _
  rw [calls_append, (conclude_yields hconclude).2.1, List.append_nil]

theorem responded_text (hconclude : Run PossibleChat (Turn.conclude c.id start d.parts exit) rest out) :
    shownText (yielded (respondedTrace t c start st body rest)) = shownText (yielded body) := by
  rw [responded_frames]
  change shownText (yielded body ++ yielded rest) = _
  rw [shownText_append, conclude_shows_nothing hconclude, List.append_nil]

/-- A frame that ends a turn comes after the loop. -/
theorem responded_terminal
    (hloop : Run PossibleChat (Turn.providerLoop start ((t.instrumentation c.id).streamChat t.adapter (t.request history)))
      body (.ok (d,exit))) {y : ChatStreamEvent} (hy : y ∈ yielded (respondedTrace t c start st body rest))
    (hlast : (∃ id ms, y = .completed id ms) ∨ ∃ code message, y = .failed code message) : y ∈ yielded rest := by
  rw [responded_frames] at hy
  rcases List.mem_cons.mp hy with rfl | hy
  · rcases hlast with ⟨_,_,h⟩ | ⟨_,_,h⟩ <;> cases h
  · rcases List.mem_append.mp hy with hy | hy
    · have hno := loop_frames hloop y hy
      rcases hlast with ⟨_,_,rfl⟩ | ⟨_,_,rfl⟩ <;> exact hno.elim
    · exact hy

theorem responded_announces
    (hloop : Run PossibleChat (Turn.providerLoop start ((t.instrumentation c.id).streamChat t.adapter (t.request history)))
      body (.ok (d,exit))) (hconclude : Run PossibleChat (Turn.conclude c.id start d.parts exit) rest out) :
    t.Announces c (yielded (respondedTrace t c start st body rest)) := by
  intro id provider model hy
  rw [responded_frames] at hy
  rcases List.mem_cons.mp hy with heq | hy
  · cases heq
    exact ⟨rfl,rfl,rfl⟩
  · rcases List.mem_append.mp hy with hy | hy
    · exact (loop_frames hloop _ hy).elim
    · exact absurd (conclude_terminal hconclude _ hy) (by simp [ChatStreamEvent.isTerminal])

/-- The question is in before the loop, and what is left of the turn begins there. -/
theorem responded_executes (hrest : s.AtRest i)
    (hst : Run (PossibleSql B false) (recordUserTurn t.settings t.conversationId t.content) st (.ok (c,m,history)))
    (hquiet : ∀ b, statements b body = []) (hex : Executes (streamExec pg) i s (respondedTrace t c start st body rest) s') :
    ∃ s₁ now, s.db.Asked s₁.db t.conversationId t.content (ChatStore.headed c t.content now) m ∧
      history = recentWindow (s₁.db.transcript c.id) t.settings.maxHistoryMessages t.settings.maxHistoryChars ∧
      s₁.own i = [] ∧ (∀ k, s₁.db.messages.has k = true → k ∈ s₁.knownMessages) ∧ Executes (streamExec pg) i s₁ rest s' := by
  unfold respondedTrace at hex
  obtain ⟨s₁,hex₁,hex₂⟩ := Executes.append_iff.mp hex
  rw [← List.cons_append, ← List.cons_append] at hex₂
  obtain ⟨s₂,hex₂,hex₃⟩ := Executes.append_iff.mp hex₂
  have hsame := streamExec_silent hex₂ hquiet
  subst hsame
  obtain ⟨hown,⟨c',now,m',hasked,hknown,hout | ⟨⟨x,hx⟩,-⟩⟩ | ⟨-,x,hx⟩⟩ :=
    ChatStore.recordUserTurn_executes hst (streamExec_sql hex₁) hrest
  · cases hout
    exact ⟨s₂,now,hasked,rfl,hown,hknown,hex₃⟩
  · cases hx
  · cases hx

/-- What a turn makes of its question once the loop over its provider has begun. -/
theorem responded_effect (hrest : s.AtRest i)
    (hanswers : ∀ e ∈ respondedTrace t c start st body rest, PossibleChat e.op e.answer)
    (hst : Run (PossibleSql B false) (recordUserTurn t.settings t.conversationId t.content) st (.ok (c,m,history)))
    (hloop : Run PossibleChat (Turn.providerLoop start ((t.instrumentation c.id).streamChat t.adapter (t.request history)))
      body (.ok (d,exit)))
    (hconclude : Run PossibleChat (Turn.conclude c.id start d.parts exit) rest out)
    (hex : Executes (streamExec pg) i s (respondedTrace t c start st body rest) s') :
    ∃ effect : StreamEffect, effect.Holds t (respondedTrace t c start st body rest) s.db s'.db ∧
      effect.Told (yielded (respondedTrace t c start st body rest)) out := by
  obtain ⟨d',exit',call,got,ho,hrec,hcalls,hquiet,hleft⟩ := providerLoop_run hloop
  cases ho
  obtain ⟨s₁,now,hasked,rfl,hown,hknown,hafter⟩ := responded_executes hrest hst hquiet hex
  have hshown : shownText (yielded (respondedTrace t c start st body rest)) = d.parts.flatten :=
    (responded_text hconclude).trans (hleft.shown hrec).symm
  have hstarted : ∃ id provider model, ChatStreamEvent.started id provider model ∈ yielded
      (respondedTrace t c start st body rest) :=
    ⟨c.id,t.provider,t.model,by rw [responded_frames]; exact List.mem_cons_self⟩
  have hannounces : t.Announces c (yielded (respondedTrace t c start st body rest)) := responded_announces hloop hconclude
  rcases conclude_effect (c := ChatStore.headed c t.content now) hasked hown hknown hconclude hafter with
    ⟨hdb,hnone⟩ | ⟨-,hne,hnone,reply,hanswered⟩ | ⟨rfl,hnone,reply,hanswered,hid,hraised⟩
  · refine ⟨.asked,⟨ChatStore.headed c t.content now,m,hdb ▸ hasked,hannounces⟩,
      by simp,by simp,fun id ms hy => ?_,by simp,by simp⟩
    exact absurd (responded_terminal hloop hy (.inl ⟨id,ms,rfl⟩)) (hnone id ms)
  · refine ⟨.salvaged,⟨s₁.db,_,m,reply,hasked,hshown ▸ hne,hshown ▸ hanswered,hannounces⟩,
      by simp,fun _ => hstarted,fun id ms hy => ?_,
      by simp,by simp⟩
    exact absurd (responded_terminal hloop hy (.inl ⟨id,ms,rfl⟩)) (hnone id ms)
  · obtain ⟨hd,hparts⟩ : (∀ e ∈ call, Drained (B := callSignature B) (Y := StreamChunk) (fun _ _ => True) e.op e.answer) ∧
        d.parts = texts got := by
      cases hleft with
      | ended hd hp _ _ _ => exact ⟨hd,by simpa using hp⟩
      | atDelta _ _ hexit => cases hexit
      | atFirstToken _ _ _ hexit => cases hexit
    have hsame : bases call = calls (respondedTrace t c start st body rest) := hcalls.trans (responded_calls hconclude).symm
    have hdelivers : t.Delivers (s₁.db.transcript c.id) (calls (respondedTrace t c start st body rest)) got := by
      obtain ⟨source,hsource,hbases,hyielded⟩ := Instrumentation.stream_delivers (run_of_reception hrec hsame hd hanswers) hd
      exact ⟨source,hsource,hbases.trans (congrArg innerCalls hsame),hyielded.trans hrec.yielded_eq⟩
    refine ⟨.replied,⟨s₁.db,ChatStore.headed c t.content now,m,got,reply,hasked,hdelivers,?_,hshown ▸ hanswered,
      hannounces,fun id ms hy => hid id ms (responded_terminal hloop hy (.inl ⟨id,ms,rfl⟩))⟩,
      by simp,fun _ => hstarted,fun _ _ _ => rfl,fun code message hy => ?_,fun _ => ?_⟩
    · rw [hshown, hparts]
    · exact absurd (responded_terminal hloop hy (.inr ⟨code,message,rfl⟩)) (hnone code message)
    · refine hraised.imp_left ?_
      rintro ⟨id,ms,hy⟩
      refine ⟨id,ms,?_⟩
      rw [responded_frames]
      exact List.mem_cons_of_mem _ (List.mem_append_right _ hy)

end

/-- A streamed turn alone with the database, interrupted anywhere: the database is as it was, or
has the question, or the question and what was shown, whole or stripped. A reply whose frame was
handed out is in, under its id, and is the whole of what the provider sent. -/
theorem Turn.stream_effect (hrest : s.AtRest i) (h : Run PossibleChat t.stream tr out)
    (hex : Executes (streamExec pg) i s tr s') :
    ∃ effect : StreamEffect, effect.Holds t tr s.db s'.db ∧ effect.Told (yielded tr) out := by
  rcases stream_loop h with hun | ⟨st,c,m,history,start,body,d,exit,rest,hst,hloop,hconclude,htr⟩
  · exact hun.effect hrest hex
  · subst htr
    exact responded_effect hrest h.answers hst hloop hconclude hex

end

/-! ## The same turn, not streamed -/

/-- What a transcript shows of a message, but for its id and its time. -/
def Message.line (m : Message) : MessageRole × Text × ℕ := (m.role,m.content,m.seq)

def Db.lines (db : Db) (id : Uuid) : List (MessageRole × Text × ℕ) := (db.transcript id).map Message.line

/-- The number behind these lines. -/
def nextNumber (lines : List (MessageRole × Text × ℕ)) : ℕ := (lines.map fun l => l.2.2 + 1).foldr max 0

namespace Db
variable {before after mid : Db} {c : Conversation} {m : Message} {id : Uuid}

theorem nextSeq_lines (db : Db) (id : Uuid) : db.nextSeq id = nextNumber (db.lines id) := by
  unfold nextSeq nextNumber lines
  rw [List.map_map]
  rfl

theorem Says.lines (h : before.Says after c m) :
    after.lines c.id = before.lines c.id ++ [(m.role,m.content,nextNumber (before.lines c.id))] := by
  unfold Db.lines
  rw [h.transcript, if_pos rfl, List.map_append]
  change _ ++ [(m.role,m.content,m.seq)] = _
  rw [h.number, nextSeq_lines]
  rfl

/-- The lines of the conversation a request names. -/
def linesOf (db : Db) (conversationId : Option Uuid) : List (MessageRole × Text × ℕ) :=
  match conversationId with
  | none => []
  | some id => db.lines id

/-- The title of a conversation once it has been asked this. -/
def titleAfter (db : Db) (conversationId : Option Uuid) (content : Text) : Option Text :=
  match conversationId with
  | none => some (ConversationRepository.titleOf content)
  | some id => (db.conversations.get id).bind fun c => some (c.title.getD (ConversationRepository.titleOf content))

theorem Asked.lines {conversationId : Option Uuid} {content : Text} (h : before.Asked after conversationId content c m)
    (hempty : ∀ id, before.conversations.has id = false → before.transcript id = []) :
    after.lines c.id = before.linesOf conversationId ++ [(.user,content,nextNumber (before.linesOf conversationId))] ∧
      c.title = before.titleAfter conversationId content := by
  have hlines := h.spoken.lines
  rw [h.role, h.content] at hlines
  cases conversationId with
  | none =>
    obtain ⟨hnew,htitle⟩ := h.opened rfl
    have hnone : before.lines c.id = [] := by
      unfold Db.lines
      rw [hempty c.id (by simp [Table.has,hnew])]
      rfl
    rw [hnone] at hlines
    exact ⟨hlines,htitle⟩
  | some id =>
    obtain ⟨rfl,old,hold,hc⟩ := h.resumed id rfl
    refine ⟨hlines,?_⟩
    change c.title = (before.conversations.get c.id).bind _
    rw [hold]
    exact congrArg Conversation.title hc

theorem Answered.lines {output : Text} (h : mid.Answered after c output m) :
    after.lines c.id = mid.lines c.id ++ [(.assistant,output,nextNumber (mid.lines c.id))] ∧
      (after.conversations.get c.id).map Conversation.title = some c.title := by
  obtain ⟨now,hspoken⟩ := h.spoken
  have hlines := hspoken.lines
  rw [h.role, h.content] at hlines
  exact ⟨hlines,by rw [hspoken.row]; rfl⟩

end Db

/-! The window, and with it the prompt, depends on the lines only. -/

theorem keepWithin_lines {budget : ℤ} {kept kept' ms ms' : List Message} (hkept : kept.map Message.line = kept'.map Message.line)
    (h : ms.map Message.line = ms'.map Message.line) :
    (keepWithin budget kept ms).map Message.line = (keepWithin budget kept' ms').map Message.line := by
  induction ms generalizing ms' budget kept kept' with
  | nil =>
    rw [List.map_nil] at h
    rw [List.map_eq_nil_iff.mp h.symm]
    exact hkept
  | cons m ms ih =>
    obtain ⟨m',rest,rfl,hm,hrest⟩ := List.map_eq_cons_iff.mp h.symm
    have hcontent : m'.content = m.content := congrArg (fun l : MessageRole × Text × ℕ => l.2.1) hm
    have hnil : kept = [] ↔ kept' = [] := by
      rw [← List.map_eq_nil_iff (f := Message.line), hkept, List.map_eq_nil_iff]
    unfold keepWithin
    rw [hcontent]
    simp only [hnil]
    split
    · refine ih ?_ hrest.symm
      rw [List.map_cons, List.map_cons, hm, hkept]
    · exact hkept

theorem recentWindow_lines {h h' : List Message} (heq : h.map Message.line = h'.map Message.line)
    (maxMessages : ℕ) (maxChars : ℤ) :
    (recentWindow h maxMessages maxChars).map Message.line = (recentWindow h' maxMessages maxChars).map Message.line := by
  have hlength : h.length = h'.length := by simpa using congrArg List.length heq
  unfold recentWindow
  apply keepWithin_lines rfl
  rw [List.map_reverse, List.map_reverse, List.map_drop, List.map_drop, heq, hlength]

theorem Turn.request_lines (t : Turn B) {h h' : List Message} (heq : h.map Message.line = h'.map Message.line) :
    t.request h = t.request h' := by
  have hmessages : ∀ ms : List Message, (ms.map fun m => ({role := m.role, content := m.content} : ChatMessage)) =
      (ms.map Message.line).map fun l => {role := l.1, content := l.2.1} := by
    intro ms
    rw [List.map_map]
    rfl
  unfold Turn.request
  rw [hmessages, hmessages, heq]


/-! A turn that went all the way, on either path. -/

/-- The question, what the provider delivered on it, and the reply. -/
def Turn.Exchanges (t : Turn B) (events : CallEvents B) (before after : Db) (c : Conversation) (reply : Message) : Prop :=
  ∃ mid m got, before.Asked mid t.conversationId t.content c m ∧ t.Delivers (mid.transcript c.id) events got ∧
    mid.Answered after c (got.map StreamChunk.deltaText).flatten reply

section
variable {t : Turn B} {before after after' : Db} {events events' : CallEvents B} {c c' : Conversation} {reply reply' : Message}

/-- On the same lines the same answers of the vendor's client deliver the same chunks. -/
theorem Turn.Delivers.same {transcript transcript' : List Message} {got got' : List StreamChunk}
    (h : t.Delivers transcript events got) (h' : t.Delivers transcript' events' got')
    (hlines : transcript'.map Message.line = transcript.map Message.line) (hcalls : innerCalls events' = innerCalls events) :
    got' = got := by
  obtain ⟨source,hsource,hbases,rfl⟩ := h
  obtain ⟨source',hsource',hbases',rfl⟩ := h'
  rw [t.request_lines (recentWindow_lines hlines _ _)] at hsource'
  obtain ⟨rfl,-⟩ := Run.drained_unique hsource' hsource (by rw [hbases, hbases', hcalls])
  rfl

theorem Turn.Exchanges.conversation (h : t.Exchanges events before after c reply) {k : Uuid} (hk : t.conversationId = some k) :
    c.id = k := by
  obtain ⟨mid,m,got,hasked,-,-⟩ := h
  exact (hasked.resumed k hk).1

theorem Turn.Exchanges.others (h : t.Exchanges events before after c reply) {k : Uuid} (hk : k ≠ c.id) :
    after.transcript k = before.transcript k ∧ after.conversations.get k = before.conversations.get k := by
  obtain ⟨mid,m,got,hasked,-,hanswered⟩ := h
  obtain ⟨now,hspoken⟩ := hanswered.spoken
  constructor
  · rw [hspoken.transcript, hasked.spoken.transcript]
    simp [Ne.symm hk]
  · rw [hspoken.others k hk, hasked.spoken.others k hk]

/-- Two turns from the same tables with the same answers of the vendor's client leave the same
lines under the same title. -/
theorem Turn.Exchanges.same (hempty : ∀ id, before.conversations.has id = false → before.transcript id = [])
    (h : t.Exchanges events before after c reply) (h' : t.Exchanges events' before after' c' reply')
    (hcalls : innerCalls events' = innerCalls events) :
    after'.lines c'.id = after.lines c.id ∧
      (after'.conversations.get c'.id).map Conversation.title = (after.conversations.get c.id).map Conversation.title ∧
      reply'.content = reply.content := by
  obtain ⟨mid,m,got,hasked,hdelivers,hanswered⟩ := h
  obtain ⟨mid',m',got',hasked',hdelivers',hanswered'⟩ := h'
  obtain ⟨hlines,htitle⟩ := hasked.lines hempty
  obtain ⟨hlines',htitle'⟩ := hasked'.lines hempty
  have hmid : mid'.lines c'.id = mid.lines c.id := by rw [hlines', hlines]
  have hgot := hdelivers.same hdelivers' hmid hcalls
  subst hgot
  obtain ⟨hend,hkept⟩ := hanswered.lines
  obtain ⟨hend',hkept'⟩ := hanswered'.lines
  refine ⟨?_,?_,?_⟩
  · rw [hend', hend, hmid]
  · rw [hkept', hkept, htitle', htitle]
  · rw [hanswered'.content, hanswered.content]

end

section
variable {pg : Postgres} {i : ℕ} {s s' : ChatStore} {t : Turn B}

/-- A turn that is not streamed and returns has been answered. -/
theorem send_exchanges {tr : TurnTrace B} {result : ChatResult} (hrest : s.AtRest i)
    (h : Run PossibleTurn t.send tr (.ok result))
    (hex : Executes (turnExec pg) i s tr s') :
    ∃ c, c.id = result.conversation.id ∧ t.Exchanges (turnCalls tr) s.db s'.db c result.assistantMessage ∧
      result.provider = t.provider ∧ result.model = t.model := by
  rcases Run.bind_iff.mp h with ⟨tu,⟨c,m,history⟩,tr₁,rfl,hasking,h₁⟩ | ⟨x,hx,-⟩
  swap
  · cases hx
  rcases Run.bind_iff.mp h₁ with ⟨tc,response,tr₂,rfl,hcalling,h₂⟩ | ⟨x,hx,-⟩
  swap
  · cases hx
  rcases Run.bind_iff.mp h₂ with ⟨ta,reply,tr₃,rfl,hanswering,h₃⟩ | ⟨x,hx,-⟩
  swap
  · cases hx
  obtain ⟨rfl,hresult⟩ := Run.done_iff.mp h₃
  cases hresult
  rw [List.append_nil] at hex ⊢
  obtain ⟨s₁,hex₁,hex₂⟩ := Executes.append_iff.mp hex
  obtain ⟨s₂,hex₂,hex₃⟩ := Executes.append_iff.mp hex₂
  obtain ⟨now,hasked,rfl,hown,hknown,hu,-⟩ := asking_returned hasking hex₁ hrest
  obtain ⟨rfl,-,got,hgot,htext⟩ := calling_returned hcalling hex₂
  obtain ⟨st,rfl,hst⟩ := sqlIn_iff.mp hanswering
  have hcalls : turnCalls (tu ++ (tc ++ st.map (chatSqlEvent false))) = turnCalls tc := by
    have hnone := turnCalls_sql (B := B) false st
    unfold turnCalls at hu hnone ⊢
    rw [List.filterMap_append, List.filterMap_append, hu, hnone, List.nil_append, List.append_nil]
  rw [htext] at hst
  rcases ChatStore.recordAssistantTurn_executes (c := ChatStore.headed c t.content now) hst (turnExec_sql hex₃)
    hown hknown hasked.spoken.row with ⟨reply',hanswered,hok | ⟨⟨x,hx⟩,-⟩⟩ | ⟨-,x,hx⟩
  · cases hok
    refine ⟨ChatStore.headed c t.content now,rfl,⟨_,m,got,hasked,?_,hanswered⟩,rfl,rfl⟩
    rw [hcalls]
    exact hgot
  · cases hx
  · cases hx

/-- A streamed turn that has handed out a final frame has been answered. -/
theorem stream_exchanges {tr : ChatTrace B} {out : Except Exc Unit} {mid : Uuid} {ms : ℤ} (hrest : s.AtRest i)
    (h : Run PossibleChat t.stream tr out) (hex : Executes (streamExec pg) i s tr s')
    (hcompleted : .completed mid ms ∈ yielded tr) :
    ∃ c reply, t.Exchanges (calls tr) s.db s'.db c reply ∧ reply.content = shownText (yielded tr) ∧ reply.id = mid ∧
      t.Announces c (yielded tr) := by
  obtain ⟨effect,hholds,htold⟩ : ∃ effect : StreamEffect, effect.Holds t tr s.db s'.db ∧ effect.Told (yielded tr) out := by
    rcases stream_loop h with hun | ⟨st,c,m,history,start,body,d,exit,rest,hst,hloop,hconclude,htr⟩
    · exact hun.effect hrest hex
    · subst htr
      exact responded_effect hrest h.answers hst hloop hconclude hex
  obtain rfl := htold.completed _ _ hcompleted
  obtain ⟨db,c,m,got,reply,hasked,hdelivers,htext,hanswered,hstarted,hid⟩ := hholds
  refine ⟨c,reply,⟨db,m,got,hasked,hdelivers,?_⟩,hanswered.content,(hid _ _ hcompleted).symm,hstarted⟩
  rw [← texts_flatten, htext]
  exact hanswered

/-- The same turn from the same tables, once streamed to its final frame and once not: where the
vendor's client gave the same answers to both, they leave the same lines, the frames have shown
the reply that the other returned, and nothing else differs but ids and times. -/
theorem Turn.stream_agrees_with_send {j : ℕ} {s₁ s₂ : ChatStore} {tr₁ : TurnTrace B} {tr₂ : ChatTrace B} {result : ChatResult}
    {out : Except Exc Unit} {id mid : Uuid} {provider model : Text} {ms : ℤ} (hs : s.Inv) (hi : s.own i = []) (hj : s.own j = [])
    (hsend : Run PossibleTurn t.send tr₁ (.ok result)) (hex₁ : Executes (turnExec pg) i s tr₁ s₁)
    (hstream : Run PossibleChat t.stream tr₂ out) (hex₂ : Executes (streamExec pg) j s tr₂ s₂)
    (hstarted : .started id provider model ∈ yielded tr₂) (hcompleted : .completed mid ms ∈ yielded tr₂)
    (hvendor : innerCalls (calls tr₂) = innerCalls (turnCalls tr₁)) :
    s₂.db.lines id = s₁.db.lines result.conversation.id ∧
    (s₂.db.conversations.get id).map Conversation.title =
    (s₁.db.conversations.get result.conversation.id).map Conversation.title ∧
    shownText (yielded tr₂) = result.assistantMessage.content ∧ provider = result.provider ∧ model = result.model ∧
    (∀ k, t.conversationId = some k → id = k ∧ result.conversation.id = k) ∧
    ∀ k, k ≠ id → k ≠ result.conversation.id → s₂.db.transcript k = s₁.db.transcript k ∧
      s₂.db.conversations.get k = s₁.db.conversations.get k := by
  obtain ⟨c,hc,hsent,hp,hm⟩ := send_exchanges (hs.atRest hi) hsend hex₁
  obtain ⟨c',reply,hstreamed,hcontent,-,hnames⟩ := stream_exchanges (hs.atRest hj) hstream hex₂ hcompleted
  obtain ⟨rfl,rfl,rfl⟩ := hnames _ _ _ hstarted
  have hempty : ∀ id, s.db.conversations.has id = false → s.db.transcript id = [] := by
    intro id hid
    rw [hs.transcript, hid]
    rfl
  obtain ⟨hlines,htitle,hreply⟩ := hsent.same hempty hstreamed hvendor
  rw [← hc]
  refine ⟨hlines,htitle,?_,hp.symm,hm.symm,fun k hk => ⟨hstreamed.conversation hk,hsent.conversation hk⟩,fun k hk hk' => ?_⟩
  · rw [← hcontent, hreply]
  · obtain ⟨htranscript,hrow⟩ := hsent.others hk'
    obtain ⟨htranscript',hrow'⟩ := hstreamed.others hk
    exact ⟨by rw [htranscript', htranscript],by rw [hrow', hrow]⟩

end

/-! ## A turn with the mock provider -/

section
open Instrumentation

/-- The client leaves at the first text. -/
def stoppedAtText (n : ℕ) : StreamChoice quietSignature where
  sql := (smoothly n).sql
  answer
    | .yield (.delta _) => .error (.foreign 0 .cancelledError)
    | op => (smoothly n).answer op

/-- Nothing was raised, but at a frame. -/
def unhurt : Event (genSignature (chatSignature quietSignature) ChatStreamEvent) Exc → Bool
  | ⟨_,.ok _⟩ => true
  | ⟨.yield _,.error x⟩ => x.isForeign
  | ⟨.base _,.error _⟩ => false

theorem unhurt_possible {e : Event (genSignature (chatSignature quietSignature) ChatStreamEvent) Exc} (h : unhurt e = true) :
    PossibleChat e.op e.answer := by
  obtain ⟨op,r⟩ := e
  cases r with
  | ok a => exact possibleChat_ok op a
  | error x =>
    cases op with
    | base op => cases h
    | «yield» y =>
      intro e he
      cases he
      exact h

def emptyTables : ChatStore := (ServerState.initial (B := quietSignature)).store

def streamedAlone (t : Turn quietSignature) (choose : ℕ → StreamChoice quietSignature) :
    Option (ChatTrace quietSignature × ChatStore × Except Exc Unit) :=
  alone (streamExec plain.pg) 0 choose 0 emptyTables t.stream

theorem streamedAlone_runs {t : Turn quietSignature} {choose : ℕ → StreamChoice quietSignature} {run}
    (hmem : streamedAlone t choose = some run) (hall : run.1.all unhurt = true) :
    Run PossibleChat t.stream run.1 run.2.2 ∧ Executes (streamExec plain.pg) 0 emptyTables run.1 run.2.1 := by
  have hrun : Run (fun _ _ => True) t.stream run.1 run.2.2 ∧
      Executes (streamExec plain.pg) 0 emptyTables run.1 run.2.1 := alone_executes (fun _ => trivial) hmem
  exact ⟨hrun.1.restrict fun e he => unhurt_possible (List.all_eq_true.mp hall e he),hrun.2⟩

/-- A provider whose text is not stripped. -/
def indentedTurn : Turn quietSignature :=
  {mockTurn none with adapter := {oneChunkProvider with streamChat := fun _ => Gen.yield {deltaText := text " hi"}}}

def salvages (run : ChatTrace quietSignature × ChatStore × Except Exc Unit) : Bool :=
  run.1.all unhurt && decide (shownText (yielded run.1) = text " hi" ∧
    run.2.1.db.messages.rows.map (fun r => r.2.content) = [text "hi",text "hi"])

theorem stoppedAtText_salvages : (streamedAlone indentedTurn stoppedAtText).any salvages = true := by decide +kernel

/-- The question is in, and the stripped text. -/
theorem Turn.stream_effect_stopped : ∃ (tr : ChatTrace quietSignature) (s' : ChatStore) (out : Except Exc Unit),
    Run PossibleChat indentedTurn.stream tr out ∧ Executes (streamExec plain.pg) 0 emptyTables tr s' ∧
    shownText (yielded tr) = text " hi" ∧ StreamEffect.salvaged.Holds indentedTurn tr emptyTables.db s'.db ∧
    StreamEffect.salvaged.Told (yielded tr) out := by
  obtain ⟨⟨tr,s',out⟩,hmem,hsalvages⟩ := (Option.any_eq_true _ _).mp stoppedAtText_salvages
  obtain ⟨hall,hkept⟩ := Bool.and_eq_true_iff.mp hsalvages
  obtain ⟨hshown,hcontents⟩ := of_decide_eq_true hkept
  obtain ⟨hrun,hex⟩ := streamedAlone_runs hmem hall
  obtain ⟨effect,hholds,htold⟩ := Turn.stream_effect (emptyStore_atRest 0) hrun hex
  have hadds := hholds.contents
  rw [hcontents, hshown] at hadds
  have hsalvaged : effect = .salvaged := by
    cases effect with
    | salvaged => rfl
    | nothing | asked | replied => exact absurd hadds (by decide)
  subst hsalvaged
  exact ⟨tr,s',out,hrun,hex,hshown,hholds,htold⟩

/-- All four frames of an answered turn. -/
def fourFrames : List ChatStreamEvent → Bool
  | [.started _ _ _,.firstToken _,.delta _,.completed _ _] => true
  | _ => false

def answers (run : ChatTrace quietSignature × ChatStore × Except Exc Unit) : Bool :=
  run.1.all unhurt && fourFrames (yielded run.1)

theorem smoothly_answers : (streamedAlone (mockTurn none) smoothly).any answers = true := by decide +kernel

def sentAlone : Option (TurnTrace quietSignature × ChatStore × Except Exc ChatResult) :=
  alone (turnExec plain.pg) 0 (cancelledAt 100) 0 emptyTables (mockTurn none).send

theorem sentAlone_returns : sentAlone.any (fun run => run.2.2.isOk) = true := by decide +kernel

theorem fourFrames_mem {frames : List ChatStreamEvent} (h : fourFrames frames = true) :
    ∃ id provider model mid ms, .started id provider model ∈ frames ∧ .completed mid ms ∈ frames := by
  unfold fourFrames at h
  split at h
  · rename_i id provider model _ _ mid ms
    exact ⟨id,provider,model,mid,ms,by simp,by simp⟩
  · cases h

theorem quiet_calls (events : CallEvents quietSignature) : innerCalls events = [] :=
  List.eq_nil_iff_forall_not_mem.mpr fun e _ => e.op.elim

theorem Turn.stream_agrees_with_send_mock : ∃ (tr : ChatTrace quietSignature) (s₁ s₂ : ChatStore)
    (result : ChatResult) (id : Uuid),
    s₂.db.lines id = s₁.db.lines result.conversation.id ∧ shownText (yielded tr) = result.assistantMessage.content := by
  obtain ⟨⟨tr₂,s₂,out⟩,hmem,hanswers⟩ := (Option.any_eq_true _ _).mp smoothly_answers
  obtain ⟨hall,hframes⟩ := Bool.and_eq_true_iff.mp hanswers
  obtain ⟨hstream,hex₂⟩ := streamedAlone_runs hmem hall
  obtain ⟨id,provider,model,mid,ms,hstarted,hcompleted⟩ := fourFrames_mem hframes
  obtain ⟨⟨tr₁,s₁,sent⟩,hsent,hok⟩ := (Option.any_eq_true _ _).mp sentAlone_returns
  obtain ⟨hsend,hex₁⟩ := alone_executes cancelledAt_possible hsent
  cases sent with
  | error x => cases hok
  | ok result =>
    have hempty : Conversed quietSignature twoMessages emptyTables := .empty
    have hs := conversed_spoken hempty
    obtain ⟨hlines,-,htext,-⟩ := Turn.stream_agrees_with_send hs.inv (hs.own 0) (hs.own 0) hsend hex₁ hstream hex₂
      hstarted hcompleted ((quiet_calls _).trans (quiet_calls _).symm)
    exact ⟨tr₂,s₁,s₂,result,id,hlines,htext⟩

end
end InferenceLogger
