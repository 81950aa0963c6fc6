import InferenceLogger.Domain.Enums
import InferenceLogger.Frontend.ChatWindow

/-! # The echo of the message just sent

The transcript of the open conversation arrives apart from the stream. Until it holds the
message that was sent, the window shows a copy of its own, which it drops when the last user
message of the transcript reads the same.
-/
namespace InferenceLogger.Frontend
open Utf Transition

structure Message where
  role : MessageRole
  content : JsString

/-- The window, and the data of the query for the conversation in its URL. -/
structure Screen where
  window : Window
  conversation : Option (List Message)

/-- The query is disabled without a conversation. -/
def Screen.messages (s : Screen) : List Message :=
  match s.window.conversationId with
  | none => []
  | some _ => s.conversation.getD []

def userContents (messages : List Message) : List JsString :=
  (messages.filter fun m => decide (m.role = .user)).map Message.content

def Screen.lastUserMessage (s : Screen) : Option Message :=
  s.messages.reverse.find? fun m => decide (m.role = .user)

/-- The echo that is shown, if any. -/
def Screen.pendingUser (s : Screen) : Option JsString :=
  s.window.state.pendingUserContent.filter fun content =>
    decide (s.lastUserMessage.map Message.content ≠ some content)

/-- The user bubbles on screen, from the top. -/
def Screen.userBubbles (s : Screen) : List JsString := userContents s.messages ++ s.pendingUser.toList

inductive ScreenAction where
  | window (action : WindowAction)
  /-- A fetch of the transcript comes back, or a cached one is at hand. -/
  | fetched (messages : List Message)

/-- Another conversation's query starts with no data. -/
def Screen.step (s : Screen) : ScreenAction → Option Screen
  | .window action => (s.window.step action).map fun w =>
    ⟨w,if w.conversationId = s.window.conversationId then s.conversation else none⟩
  | .fetched messages => match s.window.conversationId with
    | none => none
    | some _ => some { s with conversation := some messages }

/-- Neither another send nor a change of the conversation, but for the one the stream itself makes
when it starts; and the server has the user messages it had, or those and the new one. -/
def Meanwhile (base : List JsString) (content : JsString) (s : Screen) : ScreenAction → Prop
  | .window action => (∀ draft, action ≠ .submit draft) ∧ ∀ w, s.window.step action = some w →
      w.conversationId = s.window.conversationId ∨
        ∃ id, action = .callback (s.window.sends.length - 1) (.onStart id)
  | .fetched messages => userContents messages = base ∨ userContents messages = base ++ [content]

/-! ## What is rendered -/

theorem lastUserMessage_content (s : Screen) :
    s.lastUserMessage.map Message.content = (userContents s.messages).getLast? := by
  unfold Screen.lastUserMessage userContents
  rw [List.getLast?_map, List.getLast?_filter]

/-- With the echo pending, the new message is there once unless the transcript without it ends
with the same text. -/
theorem userBubbles_pending {s : Screen} {content : JsString} (h : s.window.state.pendingUserContent = some content) :
    s.userBubbles = userContents s.messages ++
      if (userContents s.messages).getLast? = some content then [] else [content] := by
  unfold Screen.userBubbles Screen.pendingUser
  rw [h, lastUserMessage_content]
  by_cases hc : (userContents s.messages).getLast? = some content <;> simp [hc]

/-! ## Until the next send -/

theorem map_modify {α β : Type} {f : α → α} {g : α → β} (h : ∀ x, g (f x) = g x) (xs : List α) (i : ℕ) :
    (xs.modify i f).map g = xs.map g := by
  induction xs generalizing i with
  | nil => cases i <;> rfl
  | cons x xs ih =>
    cases i with
    | zero => exact congrArg (· :: xs.map g) (h x)
    | succ i => exact congrArg (g x :: ·) (ih i)

/-- While the message is pending. A stream that was started without a conversation had no
transcript before it. -/
structure Echoed (base : List JsString) (content : JsString) (s : Screen) : Prop where
  pending : s.window.state.pendingUserContent = some content
  shown : userContents s.messages = base ∨ userContents s.messages = base ++ [content]
  kept : s.window.effectRan = some s.window.conversationId ∨ s.window.selfMoved = true
  origin : ∃ origin, (s.window.sends.map Sending.conversationId).getLast? = some origin ∧ (origin = none → base = [])

section
variable {base : List JsString} {content : JsString} {s t : Screen}

/-- A window step within the conversation keeps the transcript. -/
theorem Echoed.within (h : Echoed base content s) {w : Window} (hw : w.conversationId = s.window.conversationId)
    (hstate : w.state.pendingUserContent = s.window.state.pendingUserContent)
    (hkept : w.effectRan = some w.conversationId ∨ w.selfMoved = true)
    (hsends : w.sends.map Sending.conversationId = s.window.sends.map Sending.conversationId) :
    Echoed base content ⟨w,if w.conversationId = s.window.conversationId then s.conversation else none⟩ where
  pending := hstate.trans h.pending
  shown := by
    rw [if_pos hw]
    unfold Screen.messages
    dsimp only
    rw [hw]
    exact h.shown
  kept := hkept
  origin := by
    dsimp only
    rw [hsends]
    exact h.origin

theorem pending_update (previous : StreamingState) (callback : Callback) :
    (callback.update previous).pendingUserContent = previous.pendingUserContent := by
  cases callback <;> rfl

theorem pending_caught (previous : StreamingState) (aborted : Bool) (error : Option ApiError) :
    (caught previous aborted error).pendingUserContent = previous.pendingUserContent := by
  unfold caught
  split <;> rfl

/-- The start of a stream moves the window to its conversation, if it was sent from none. -/
theorem Echoed.started (h : Echoed base content s) {i : ℕ} {sending : Sending} {id : JsString}
    (hr : s.window.running i = some sending)
    (hm : (s.window.call sending (.onStart id)).conversationId = s.window.conversationId ∨ i = s.window.sends.length - 1) :
    Echoed base content ⟨s.window.call sending (.onStart id),
      if (s.window.call sending (.onStart id)).conversationId = s.window.conversationId then s.conversation else none⟩ := by
  cases hfrom : sending.conversationId with
  | some from' =>
    have hsame : s.window.call sending (.onStart id) = s.window := by
      simp [Window.call,Window.started,hfrom,Callback.update]
    rw [hsame]
    exact h.within rfl rfl h.kept rfl
  | none =>
    have hmoved : s.window.call sending (.onStart id) =
        { s.window with selfNavigated := some id, conversationId := some id } := by
      simp [Window.call,Window.started,hfrom,Callback.update]
    rw [hmoved] at hm ⊢
    have hself : Window.selfMoved { s.window with selfNavigated := some id, conversationId := some id } = true := by
      simp [Window.selfMoved]
    by_cases hconv : some id = s.window.conversationId
    · exact h.within hconv rfl (.inr hself) rfl
    · have hlatest := hm.resolve_left hconv
      obtain ⟨origin,hlast,hbase⟩ := h.origin
      have hget : s.window.sends.getLast? = some sending := by
        rw [List.getLast?_eq_getElem?, ← hlatest]
        exact Option.eq_some_of_filter_eq_some hr
      rw [List.getLast?_map, hget, Option.map_some, hfrom, Option.some.injEq] at hlast
      refine ⟨h.pending,.inl ?_,.inr hself,⟨origin,?_,hbase⟩⟩
      · rw [if_neg hconv, hbase hlast.symm]
        rfl
      · rw [List.getLast?_map, hget, Option.map_some, hfrom, hlast]

/-- What happens to the window between two sends leaves the message pending. -/
theorem Echoed.window (h : Echoed base content s) {action : WindowAction} {w : Window}
    (ha : Meanwhile base content s (.window action)) (hw : s.window.step action = some w) :
    Echoed base content ⟨w,if w.conversationId = s.window.conversationId then s.conversation else none⟩ := by
  obtain ⟨hsubmit,hmove⟩ := ha
  have hconv := hmove w hw
  cases action with
  | submit draft => exact absurd rfl (hsubmit draft)
  | stop =>
    simp only [Window.step, Option.ite_none_right_eq_some, Option.some.injEq] at hw
    obtain ⟨-,rfl⟩ := hw
    unfold Window.stop
    split
    · exact h.within rfl rfl h.kept rfl
    · exact h.within rfl rfl h.kept (map_modify (by exact fun _ => rfl) _ _)
  | navigate conversationId =>
    cases hw
    rcases hconv with hsame | ⟨id,hid⟩
    · have hcid : conversationId = s.window.conversationId := hsame
      subst hcid
      exact h.within rfl rfl h.kept rfl
    · cases hid
  | effect =>
    simp only [Window.step, Option.ite_none_left_eq_some, Option.some.injEq] at hw
    obtain ⟨hran,rfl⟩ := hw
    have hself : s.window.selfMoved = true := h.kept.resolve_left hran
    have hreset : s.window.resetEffect = { s.window with effectRan := some s.window.conversationId, selfNavigated := none } :=
      if_pos hself
    rw [hreset]
    exact h.within rfl rfl (.inl rfl) rfl
  | callback i callback =>
    obtain ⟨sending,hr,rfl⟩ := Option.map_eq_some_iff.mp hw
    cases callback with
    | onStart id =>
      refine h.started hr (hconv.imp_right ?_)
      rintro ⟨id',hid⟩
      cases hid
      rfl
    | _ => exact h.within rfl (pending_update _ _) h.kept rfl
  | returns i =>
    obtain ⟨sending,-,rfl⟩ := Option.map_eq_some_iff.mp hw
    exact h.within rfl rfl h.kept (map_modify (by exact fun _ => rfl) _ _)
  | throws i error =>
    obtain ⟨sending,-,rfl⟩ := Option.map_eq_some_iff.mp hw
    exact h.within rfl (pending_caught _ _ _) h.kept (map_modify (by exact fun _ => rfl) _ _)

theorem Echoed.step (h : Echoed base content s) {a : ScreenAction} (ha : Meanwhile base content s a)
    (hs : s.step a = some t) : Echoed base content t := by
  cases a with
  | window action =>
    obtain ⟨w,hw,rfl⟩ := Option.map_eq_some_iff.mp hs
    exact h.window ha hw
  | fetched messages =>
    cases hc : s.window.conversationId with
    | none =>
      simp only [Screen.step, hc] at hs
      cases hs
    | some id =>
      simp only [Screen.step, hc, Option.some.injEq] at hs
      subst hs
      refine ⟨h.pending,?_,h.kept,h.origin⟩
      unfold Screen.messages
      dsimp only
      rw [hc]
      exact ha

/-- The state a send leaves. -/
theorem submit_echoed {draft : JsString} (hran : s.window.effectRan = some s.window.conversationId)
    (h : s.step (.window (.submit draft)) = some t) :
    Echoed (userContents s.messages) (trim draft) t ∧ userContents t.messages = userContents s.messages := by
  obtain ⟨w,hw,rfl⟩ := Option.map_eq_some_iff.mp h
  simp only [Window.step, Option.ite_none_left_eq_some, Option.some.injEq] at hw
  obtain ⟨-,rfl⟩ := hw
  have hsame : userContents (Screen.messages ⟨s.window.send (trim draft),
      if (s.window.send (trim draft)).conversationId = s.window.conversationId then s.conversation else none⟩) =
      userContents s.messages := by
    rw [if_pos (show (s.window.send (trim draft)).conversationId = s.window.conversationId from rfl)]
    rfl
  refine ⟨⟨rfl,.inl hsame,.inl hran,s.window.conversationId,?_,?_⟩,hsame⟩
  · simp [Window.send]
  · intro hnone
    unfold Screen.messages
    rw [hnone]
    rfl

/-- After a send from a window at rest in its conversation, whatever arrives in whatever order until
the next send or change of the conversation: the user bubbles are always those of before and the
new one, if and only if the last user message of before does not read the same. -/
theorem sent_shown_once_iff {draft : JsString} (hran : s.window.effectRan = some s.window.conversationId)
    (h : s.step (.window (.submit draft)) = some t) :
    (∀ u, Guarded Screen.step (Meanwhile (userContents s.messages) (trim draft)) t u →
      u.userBubbles = userContents s.messages ++ [trim draft]) ↔
      (userContents s.messages).getLast? ≠ some (trim draft) := by
  obtain ⟨hstart,hsame⟩ := submit_echoed hran h
  constructor
  · intro hall hlast
    have hshown := hall t (.refl t)
    rw [userBubbles_pending hstart.pending, hsame, if_pos hlast, List.append_nil] at hshown
    exact List.cons_ne_nil _ _ (List.self_eq_append_right.mp hshown)
  · intro hlast u hu
    have hu' : Echoed (userContents s.messages) (trim draft) u := hu.invariant hstart fun _ _ _ hi ha hs => hi.step ha hs
    rw [userBubbles_pending hu'.pending]
    rcases hu'.shown with hshown | hshown
    · rw [hshown, if_neg hlast]
    · rw [hshown, if_pos List.getLast?_concat, List.append_nil]

end

/-! ## The same message twice -/

section
open JsJson

/-- A conversation whose only message is the user's, just opened. -/
def oneMessage (content : String) : Screen where
  window := { Window.opened (some (jsText "x")) with effectRan := some (some (jsText "x")) }
  conversation := some [⟨.user,jsText content⟩]

def sentFrom (s : Screen) (content : String) : Option Screen := s.step (.window (.submit (jsText content)))

theorem sent_shown_once_differs : ∃ t, sentFrom (oneMessage "hi") "yo" = some t ∧
    ∀ u, Guarded Screen.step (Meanwhile (userContents (oneMessage "hi").messages) (trim (jsText "yo"))) t u →
      u.userBubbles = userContents (oneMessage "hi").messages ++ [trim (jsText "yo")] := by
  have hsome : (sentFrom (oneMessage "hi") "yo").isSome = true := by decide
  obtain ⟨t,ht⟩ := Option.isSome_iff_exists.mp hsome
  exact ⟨t,ht,(sent_shown_once_iff rfl ht).mpr (by decide)⟩

/-- The user says the same thing again, and sees it once. -/
theorem repeated_message_not_shown : ∃ t, sentFrom (oneMessage "hi") "hi" = some t ∧
    t.userBubbles ≠ userContents (oneMessage "hi").messages ++ [trim (jsText "hi")] := by
  have hshown : (sentFrom (oneMessage "hi") "hi").any (fun t => t.userBubbles == [jsText "hi"]) = true := by
    decide
  obtain ⟨t,ht,hb⟩ := (Option.any_eq_true _ _).mp hshown
  refine ⟨t,ht,?_⟩
  rw [eq_of_beq hb]
  decide

end

end InferenceLogger.Frontend
