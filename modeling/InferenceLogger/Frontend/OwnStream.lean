import InferenceLogger.Frontend.ChatWindow

/-! # What the window shows after a send

The view a turn should have is what its own stream and the user's changes of conversation make
of it. It is that, and Stop aborts that stream, as long as no earlier stream is still running
its course.
-/
namespace InferenceLogger.Frontend
open Utf Transition

/-- What happens to a turn: its own stream's callbacks and failure, and resets. -/
inductive TurnEvent where
  | called (callback : Callback)
  | threw (aborted : Bool) (error : Option ApiError)
  | switched

/-- The latest send and what has happened to it since. -/
structure Turn where
  content : JsString
  events : List TurnEvent

def TurnEvent.apply (view : StreamingState) : TurnEvent → StreamingState
  | .called callback => callback.update view
  | .threw aborted error => caught view aborted error
  | .switched => idle

/-- What a turn shows if nothing else has a part in it. -/
def Turn.view (t : Turn) : StreamingState :=
  t.events.foldl TurnEvent.apply { idle with isStreaming := true, pendingUserContent := some t.content }

def Turn.add (t : Turn) (e : TurnEvent) : Turn := { t with events := t.events ++ [e] }

theorem Turn.view_add (t : Turn) (e : TurnEvent) : (t.add e).view = e.apply t.view := by
  unfold Turn.view Turn.add
  rw [List.foldl_append]
  rfl

/-- A window, and the turn of its latest send. -/
structure Watched where
  window : Window
  turn : Option Turn

/-- The send is the latest one. -/
def Window.latest (w : Window) (i : ℕ) : Bool := i + 1 == w.sends.length

def Watched.record (o : Watched) : WindowAction → Option Turn
  | .submit draft => some ⟨trim draft,[]⟩
  | .effect => if o.window.selfMoved then o.turn else o.turn.map (·.add .switched)
  | .callback i callback => if o.window.latest i then o.turn.map (·.add (.called callback)) else o.turn
  | .throws i error =>
    if o.window.latest i then o.turn.map (·.add (.threw (o.window.sends[i]?.any (·.aborted)) error)) else o.turn
  | _ => o.turn

def Watched.step (o : Watched) (a : WindowAction) : Option Watched := (o.window.step a).map fun w => ⟨w,o.record a⟩

def Watched.opened (conversationId : Option JsString) : Watched := ⟨.opened conversationId,none⟩

/-- Stop aborts the latest stream, which is running, and no other. -/
def Window.StopsLatest (w : Window) : Prop :=
  ∃ earlier sending, w.sends = earlier ++ [sending] ∧ sending.settled = false ∧
    w.step .stop = some { w with sends := earlier ++ [{ sending with aborted := true }] }

/-- What is shown is the latest turn's own, and while it streams Stop is for its stream. -/
def Watched.OwnTurn (o : Watched) : Prop :=
  ∀ t, o.turn = some t → o.window.state = t.view ∧ (o.window.state.isStreaming = true → o.window.StopsLatest)

/-- A send from an existing conversation does nothing with the name it is given. -/
def Window.ignores (w : Window) (i : ℕ) : Callback → Bool
  | .onStart _ => w.sends[i]?.any (·.conversationId.isSome)
  | _ => false

/-- No earlier stream throws or calls back, unless with a name that is ignored, and none returns
while one is shown. -/
def OwnStep (o : Watched) : WindowAction → Prop
  | .callback i callback => o.window.latest i = true ∨ o.window.ignores i callback = true
  | .throws i _ => o.window.latest i = true
  | .returns _ => o.window.state.isStreaming = false
  | _ => True

/-! ## One step -/

/-- The latest send runs and the ref holds its controller. -/
def Window.Held (w : Window) : Prop :=
  ∃ earlier sending, w.sends = earlier ++ [sending] ∧ sending.settled = false ∧ w.controllerRef = some earlier.length

theorem modify_last {α : Type} (f : α → α) (earlier : List α) (x : α) :
    (earlier ++ [x]).modify earlier.length f = earlier ++ [f x] := by
  rw [List.modify_eq_take_cons_drop (by simp)]
  simp

theorem Window.Held.stops {w : Window} (h : w.Held) (hs : w.state.isStreaming = true) : w.StopsLatest := by
  obtain ⟨earlier,sending,hsends,hset,href⟩ := h
  refine ⟨earlier,sending,hsends,hset,?_⟩
  simp [Window.step,hs,Window.stop,href,hsends,modify_last]

structure Watched.Inv (o : Watched) : Prop where
  /-- There is a turn once something was sent. -/
  sent : o.turn = none → o.window.sends = []
  shown : ∀ t, o.turn = some t → o.window.state = t.view
  held : o.window.state.isStreaming = true → o.window.Held

theorem opened_inv (conversationId : Option JsString) : (Watched.opened conversationId).Inv where
  sent _ := rfl
  shown t h := by cases h
  held h := by cases h

section
variable {o : Watched} (h : o.Inv)
include h

omit h in
theorem submit_inv (content : JsString) : Watched.Inv ⟨o.window.send content,some ⟨content,[]⟩⟩ where
  sent h := by cases h
  shown t ht := by
    cases ht
    rfl
  held _ := ⟨o.window.sends,_,rfl,rfl,rfl⟩

theorem stop_inv : Watched.Inv ⟨o.window.stop,o.turn⟩ := by
  have hstate : o.window.stop.state = o.window.state := by
    unfold Window.stop
    split <;> rfl
  refine ⟨fun ht => ?_,fun t ht => hstate.trans (h.shown t ht),fun hs => ?_⟩
  · have hnil := h.sent ht
    unfold Window.stop
    split
    · exact hnil
    · simp [hnil]
  · rw [hstate] at hs
    obtain ⟨earlier,sending,hsends,hset,href⟩ := h.held hs
    refine ⟨earlier,{ sending with aborted := true },?_,hset,?_⟩
    · simp [Window.stop,href,hsends,modify_last]
    · simp [Window.stop,href]

theorem effect_inv : Watched.Inv ⟨o.window.resetEffect,o.record .effect⟩ := by
  by_cases hmoved : o.window.selfMoved = true
  · have hrecord : o.record .effect = o.turn := if_pos hmoved
    have hwindow : o.window.resetEffect = { o.window with effectRan := some o.window.conversationId, selfNavigated := none } :=
      if_pos hmoved
    rw [hrecord, hwindow]
    exact ⟨h.sent,h.shown,h.held⟩
  · have hrecord : o.record .effect = o.turn.map (·.add .switched) := if_neg hmoved
    have hwindow : o.window.resetEffect = { o.window with effectRan := some o.window.conversationId, state := idle } :=
      if_neg hmoved
    rw [hrecord, hwindow]
    refine ⟨fun ht => h.sent (by simpa using ht),fun t ht => ?_,fun hs => by cases hs⟩
    obtain ⟨t',-,rfl⟩ := Option.map_eq_some_iff.mp ht
    rw [Turn.view_add]
    rfl

theorem callback_inv {i : ℕ} {sending : Sending} (hi : o.window.latest i = true) (callback : Callback) :
    Watched.Inv ⟨o.window.call sending callback,o.record (.callback i callback)⟩ := by
  have hrecord : o.record (.callback i callback) = o.turn.map (·.add (.called callback)) := if_pos hi
  have hstate : (o.window.call sending callback).state = callback.update o.window.state := by
    unfold Window.call
    cases callback with
    | onStart id =>
      simp only [Window.started]
      split <;> rfl
    | _ => rfl
  have hsends : (o.window.call sending callback).sends = o.window.sends ∧
      (o.window.call sending callback).controllerRef = o.window.controllerRef := by
    unfold Window.call
    cases callback with
    | onStart id =>
      simp only [Window.started]
      split <;> exact ⟨rfl,rfl⟩
    | _ => exact ⟨rfl,rfl⟩
  have hstreaming : (callback.update o.window.state).isStreaming = true → o.window.state.isStreaming = true := by
    cases callback <;> simp [Callback.update]
  rw [hrecord]
  refine ⟨fun ht => ?_,fun t ht => ?_,fun hs => ?_⟩
  · rw [hsends.1]
    exact h.sent (by simpa using ht)
  · obtain ⟨t',ht',rfl⟩ := Option.map_eq_some_iff.mp ht
    rw [Turn.view_add, hstate, h.shown t' ht']
    rfl
  · rw [hstate] at hs
    obtain ⟨earlier,last,hl,hset,href⟩ := h.held (hstreaming hs)
    exact ⟨earlier,last,hsends.1.trans hl,hset,hsends.2.trans href⟩

omit h in
theorem ignored_step {i : ℕ} {callback : Callback} (hi : o.window.latest i = false) (hc : o.window.ignores i callback = true)
    {o' : Watched} (hs : o.step (.callback i callback) = some o') : o' = o := by
  cases callback with
  | onStart id =>
    obtain ⟨w,hw,rfl⟩ := Option.map_eq_some_iff.mp hs
    obtain ⟨sending,hr,rfl⟩ := Option.map_eq_some_iff.mp hw
    have hrecord : o.record (.callback i (.onStart id)) = o.turn := if_neg (by simp [hi])
    have hcalled : o.window.call sending (.onStart id) = o.window := by
      have hget : o.window.sends[i]? = some sending := Option.eq_some_of_filter_eq_some hr
      unfold Window.ignores at hc
      rw [hget] at hc
      obtain ⟨existing,hexisting⟩ := Option.isSome_iff_exists.mp hc
      unfold Window.call Window.started
      rw [hexisting]
      rfl
    rw [hrecord, hcalled]
  | _ => cases hc

theorem returns_inv (i : ℕ) (hs : o.window.state.isStreaming = false) : Watched.Inv ⟨o.window.settle i,o.turn⟩ where
  sent ht := by simp [Window.settle,h.sent ht]
  shown := h.shown
  held hs' := absurd hs' (by simp [Window.settle,hs])

theorem throws_inv {i : ℕ} {sending : Sending} (hi : o.window.latest i = true) (hr : o.window.running i = some sending)
    (error : Option ApiError) :
    Watched.Inv ⟨{ o.window.settle i with state := caught o.window.state sending.aborted error },
    o.record (.throws i error)⟩ := by
  have hget : o.window.sends[i]? = some sending := Option.eq_some_of_filter_eq_some hr
  have hrecord : o.record (.throws i error) = o.turn.map (·.add (.threw sending.aborted error)) := by
    change (if o.window.latest i = true then _ else _) = _
    rw [if_pos hi, hget]
    rfl
  rw [hrecord]
  refine ⟨fun ht => ?_,fun t ht => ?_,fun hs => ?_⟩
  · have hnil : o.window.sends = [] := h.sent (by simpa using ht)
    simp [Window.settle,hnil]
  · obtain ⟨t',ht',rfl⟩ := Option.map_eq_some_iff.mp ht
    rw [Turn.view_add, ← h.shown t' ht']
    rfl
  · have hidle : (caught o.window.state sending.aborted error).isStreaming = false := by
      unfold caught
      split <;> rfl
    simp [hidle] at hs

end

/-- A step in which no earlier stream has a part keeps the invariant. -/
theorem ownStep_inv {o o' : Watched} {a : WindowAction} (h : o.Inv) (ha : OwnStep o a) (hs : o.step a = some o') : o'.Inv := by
  obtain ⟨w,hw,rfl⟩ := Option.map_eq_some_iff.mp hs
  cases a with
  | submit draft =>
    simp only [Window.step, Option.ite_none_left_eq_some, Option.some.injEq] at hw
    obtain ⟨-,rfl⟩ := hw
    exact submit_inv (trim draft)
  | stop =>
    simp only [Window.step, Option.ite_none_right_eq_some, Option.some.injEq] at hw
    obtain ⟨-,rfl⟩ := hw
    exact stop_inv h
  | navigate conversationId =>
    cases hw
    exact ⟨h.sent,h.shown,h.held⟩
  | effect =>
    simp only [Window.step, Option.ite_none_left_eq_some, Option.some.injEq] at hw
    obtain ⟨-,rfl⟩ := hw
    exact effect_inv h
  | callback i callback =>
    by_cases hi : o.window.latest i = true
    · obtain ⟨sending,-,rfl⟩ := Option.map_eq_some_iff.mp hw
      exact callback_inv h hi callback
    · rw [ignored_step (eq_false_of_ne_true hi) (ha.resolve_left hi) hs]
      exact h
  | returns i =>
    obtain ⟨sending,-,rfl⟩ := Option.map_eq_some_iff.mp hw
    exact returns_inv h i ha
  | throws i error =>
    obtain ⟨sending,hr,rfl⟩ := Option.map_eq_some_iff.mp hw
    exact throws_inv h ha hr error

/-- As long as no earlier stream has a part in what happens, and none ends in silence while the
latest one is shown, the window shows the latest turn's own and Stop aborts its stream. -/
theorem own_turn_shown (conversationId : Option JsString) (o : Watched)
    (h : Guarded Watched.step OwnStep (.opened conversationId) o) : o.OwnTurn := by
  have hinv : o.Inv := h.invariant (opened_inv conversationId) fun _ _ _ hi ha hs => ownStep_inv hi ha hs
  exact fun t ht => ⟨hinv.shown t ht,fun hs => (hinv.held hs).stops hs⟩

/-! ## A reply in another conversation -/

section
open JsJson

/-- A chunk of the first reply comes after the second message was sent, in another conversation. -/
def switchedAway : List WindowAction :=
  [.effect,.submit (jsText "hi"),.navigate (some (jsText "x")),.effect,.submit (jsText "yo"),
    .callback 0 (.onChunk (jsText "late"))]

/-- The first reply is still under way, and begins, when the second one's text comes. -/
def sideBySide : List WindowAction :=
  [.effect,.submit (jsText "hi"),.navigate (some (jsText "x")),.effect,.submit (jsText "yo"),.callback 0 (.onStart (jsText "c")),
    .callback 1 (.onChunk (jsText "so"))]

def checkedOwn (o : Watched) : WindowAction → Bool
  | .callback i callback => o.window.latest i || o.window.ignores i callback
  | .throws i _ => o.window.latest i
  | .returns _ => !o.window.state.isStreaming
  | _ => true

theorem checkedOwn_sound (o : Watched) (a : WindowAction) (h : checkedOwn o a = true) : OwnStep o a := by
  cases a <;> simp_all [checkedOwn,OwnStep]

theorem switchedAway_run : (play Watched.step (.opened none) switchedAway).any (fun o =>
    o.window.state.text == jsText "late" && (o.turn.map fun t => t.view.text) == some []) = true := by
  decide

theorem sideBySide_run : (play (checked Watched.step checkedOwn) (.opened (some (jsText "c"))) sideBySide).any (fun o =>
    (o.turn.map fun t => t.content) == some (jsText "yo") && o.window.state.isStreaming &&
      (o.window.sends.map Sending.settled == [false,false] && o.window.state.text == jsText "so")) = true := by
  decide

theorem own_turn_shown_beside : ∃ (o : Watched) (t : Turn), o.turn = some t ∧ t.content = jsText "yo" ∧
    o.window.sends.map Sending.settled = [false,false] ∧ o.window.state = t.view ∧ t.view.text = jsText "so" ∧
    o.window.StopsLatest := by
  obtain ⟨o,hp,ho⟩ := play_any sideBySide_run
  rw [Bool.and_eq_true, Bool.and_eq_true, Bool.and_eq_true] at ho
  obtain ⟨⟨hturn,hstreaming⟩,hsettled,htext⟩ := ho
  obtain ⟨t,ht,hcontent⟩ := Option.map_eq_some_iff.mp (eq_of_beq hturn)
  obtain ⟨hstate,hstops⟩ := own_turn_shown (some (jsText "c")) o (play_checked checkedOwn_sound hp) t ht
  exact ⟨o,t,ht,hcontent,eq_of_beq hsettled,hstate,hstate ▸ eq_of_beq htext,hstops hstreaming⟩

/-- A chunk of the first reply is shown as the second one's. -/
theorem late_chunk_shown : ¬ ∀ o, Reach Watched.step (.opened none) o → o.OwnTurn := by
  intro hall
  obtain ⟨o,hp,ho⟩ := play_any switchedAway_run
  rw [Bool.and_eq_true] at ho
  obtain ⟨t,ht,hempty⟩ := Option.map_eq_some_iff.mp (eq_of_beq ho.2)
  have hshown := (hall o (play_reach hp) t ht).1
  have htext := eq_of_beq ho.1
  rw [hshown, hempty] at htext
  exact absurd htext (by decide)

end
end InferenceLogger.Frontend
