import InferenceLogger.Conversations.Exchanges
import InferenceLogger.Providers.Vendors

/-! # The dialogue a prompt shows

The window of a conversation is cut by the number and the size of its messages. What the
provider is handed is a dialogue when the cut falls between two turns, and none of the turns
behind it was answered with nothing.
-/
namespace InferenceLogger
open PyText PyJson AsyncTask KeyedTable RelyGuarantee Budget Grouping

/-- What the Messages API takes: the first turn is the user's, and none is empty. -/
structure WellFormed (turns : List ChatMessage) : Prop where
  opens : ∃ m rest, turns = m :: rest ∧ m.role = .user
  filled : ∀ m ∈ turns, m.content ≠ []

instance (turns : List ChatMessage) : Decidable (WellFormed turns) :=
  decidable_of_iff ((turns.head?.map ChatMessage.role = some .user) ∧ ∀ m ∈ turns, m.content ≠ []) <| by
    constructor
    · rintro ⟨hhead,hfilled⟩
      obtain ⟨m,hm,hrole⟩ := Option.map_eq_some_iff.mp hhead
      exact ⟨⟨m,turns.tail,List.eq_cons_of_mem_head? hm,hrole⟩,hfilled⟩
    · rintro ⟨⟨m,rest,rfl,hrole⟩,hfilled⟩
      exact ⟨congrArg some hrole,hfilled⟩

/-- Without a system turn, the split hands the messages over as they are. -/
theorem splitSystem_turns {request : ChatRequest} {ms : List Message} (hr : request.messages = ms.map chatMessage)
    (hroles : ∀ m ∈ ms, m.role = .user ∨ m.role = .assistant) :
    (AnthropicProvider.splitSystem request).2 = ms.map chatMessage := by
  have hkept : (ms.map chatMessage).filter (fun m => m.role ≠ .system) = ms.map chatMessage := by
    refine List.filter_eq_self.mpr fun m hm => ?_
    obtain ⟨m',hm',rfl⟩ := List.mem_map.mp hm
    rcases hroles m' hm' with h | h <;> simp [chatMessage,h]
  unfold AnthropicProvider.splitSystem
  rw [hr, hkept]
  refine (List.map_congr_left fun m hm => ?_).trans (List.map_id _)
  obtain ⟨m',hm',rfl⟩ := List.mem_map.mp hm
  rcases hroles m' hm' with h | h <;> simp [chatMessage,h]

theorem wellFormed_iff {ms : List Message} : WellFormed (ms.map chatMessage) ↔
    (∃ m rest, ms = m :: rest ∧ m.role = .user) ∧ ∀ m ∈ ms, m.content ≠ [] := by
  constructor
  · rintro ⟨⟨m,rest,hms,hm⟩,hfilled⟩
    obtain ⟨m',rest',rfl,rfl,-⟩ := List.map_eq_cons_iff.mp hms
    exact ⟨⟨m',rest',rfl,hm⟩,fun x hx => hfilled _ (List.mem_map_of_mem hx)⟩
  · rintro ⟨⟨m,rest,rfl,hm⟩,hfilled⟩
    refine ⟨⟨chatMessage m,rest.map chatMessage,rfl,hm⟩,fun x hx => ?_⟩
    obtain ⟨m',hm',rfl⟩ := List.mem_map.mp hx
    exact hfilled m' hm'

/-! ## Exchanges -/

theorem mem_dialogue {es : List Exchange} {m : Message} (h : m ∈ dialogue es) :
    ∃ e ∈ es, m = e.question ∨ e.reply = some m := by
  obtain ⟨e,he,hm⟩ := List.mem_flatMap.mp h
  rcases List.mem_cons.mp hm with rfl | hm
  · exact ⟨e,he,.inl rfl⟩
  · exact ⟨e,he,.inr (Option.mem_toList.mp hm)⟩

theorem dialogue_roles {es : List Exchange} {m : Message} (h : m ∈ dialogue es) : m.role = .user ∨ m.role = .assistant := by
  obtain ⟨e,-,rfl | hm⟩ := mem_dialogue h
  · exact .inl e.asked
  · exact .inr (e.answered m hm)

/-- Every reply that was saved says something. -/
def AllAnswered (es : List Exchange) : Prop := ∀ e ∈ es, ∀ m, e.reply = some m → m.content ≠ []

theorem dialogue_filled (es : List Exchange) : (∀ m ∈ dialogue es, m.content ≠ []) ↔ AllAnswered es := by
  constructor
  · intro h e he m hm
    exact h m (List.mem_flatMap.mpr ⟨e,he,List.mem_cons_of_mem _ (Option.mem_toList.mpr hm)⟩)
  · intro h m hm
    obtain ⟨e,he,rfl | hm⟩ := mem_dialogue hm
    · exact e.filled
    · exact h e he m hm

/-- A stretch of the newest messages that begins with a question begins with a turn. -/
theorem suffix_of_question {es : List Exchange} {question m : Message} {rest : List Message}
    (h : m :: rest <:+ dialogue es ++ [question]) (hm : m.role = .user) :
    ∃ old recent, es = old ++ recent ∧ m :: rest = dialogue recent ++ [question] := by
  induction es with
  | nil =>
    refine ⟨[],[],rfl,?_⟩
    rcases List.suffix_cons_iff.mp h with heq | hnil
    · exact heq
    · cases List.suffix_nil.mp hnil
  | cons e es ih =>
    rw [dialogue_cons, List.cons_append, List.append_assoc] at h
    have hwithin : ∀ {l}, m :: rest <:+ e.reply.toList ++ l → m :: rest <:+ l := by
      intro l hl
      cases hreply : e.reply with
      | none =>
        rw [hreply] at hl
        exact hl
      | some reply =>
        rw [hreply] at hl
        rcases List.suffix_cons_iff.mp hl with heq | hl
        · cases heq
          rw [e.answered m hreply] at hm
          cases hm
        · exact hl
    rcases List.suffix_cons_iff.mp h with heq | h
    · refine ⟨[],e :: es,rfl,?_⟩
      rw [heq, dialogue_cons, List.cons_append, List.append_assoc]
    · obtain ⟨old,recent,rfl,heq⟩ := ih (hwithin h)
      exact ⟨e :: old,recent,rfl,heq⟩

theorem dialogue_opens {recent : List Exchange} {question : Message} (hq : question.role = .user) :
    ∃ m rest, dialogue recent ++ [question] = m :: rest ∧ m.role = .user := by
  cases recent with
  | nil => exact ⟨question,[],rfl,hq⟩
  | cons e recent => exact ⟨e.question,_,rfl,e.asked⟩

/-! ## The cut -/

theorem Admissible.suffix {maxMessages : ℕ} {maxChars : ℤ} {s t : List Message} (h : Admissible maxMessages maxChars t)
    (hs : s <:+ t) (hne : s ≠ []) : Admissible maxMessages maxChars s := by
  obtain ⟨older,rfl⟩ := hs
  have hlength := List.length_pos_iff.mpr hne
  have hcount := h.count
  rw [List.length_append] at hcount
  refine ⟨by omega,?_⟩
  rcases h.size with h1 | hsize
  · rw [List.length_append] at h1
    exact .inl (by omega)
  · have holder := total_nonneg contentLength contentLength_nonneg older
    rw [total_append] at hsize
    exact .inr (by omega)

/-- The bounds cut a conversation between two turns: the newest whole turns are within both, with
the new question, and with one message more they are not. -/
structure CutBetween (maxMessages : ℕ) (maxChars : ℤ) (old recent : List Exchange) (question : Message) : Prop where
  within : Admissible maxMessages maxChars (dialogue recent ++ [question])
  full : ∀ m, (dialogue old).getLast? = some m → ¬ Admissible maxMessages maxChars (m :: (dialogue recent ++ [question]))

theorem cutBetween_iff {maxMessages : ℕ} {maxChars : ℤ} {old recent : List Exchange} {question : Message} :
    CutBetween maxMessages maxChars old recent question ↔ LongestSuffix (Admissible maxMessages maxChars)
      (dialogue (old ++ recent) ++ [question]) (dialogue recent ++ [question]) := by
  rw [dialogue_append, List.append_assoc]
  constructor
  · rintro ⟨hwithin,hfull⟩
    refine ⟨List.suffix_append _ _,hwithin,fun t ht ha => ?_⟩
    by_contra hlong
    rcases List.suffix_or_suffix_of_suffix ht (List.suffix_append (dialogue old) (dialogue recent ++ [question])) with
      hs | ⟨more,rfl⟩
    · exact hlong hs.length_le
    · have hmore := List.suffix_append_self_iff.mp ht
      rcases List.eq_nil_or_concat more with rfl | ⟨init,m,rfl⟩
      · exact hlong (Nat.le_refl _)
      · rw [List.concat_eq_append] at hmore ha
        obtain ⟨older,hold⟩ := hmore
        refine hfull m (by rw [← hold, ← List.append_assoc, List.getLast?_concat]) (ha.suffix ?_ (List.cons_ne_nil _ _))
        rw [List.append_assoc, List.singleton_append]
        exact List.suffix_append _ _
  · intro h
    refine ⟨h.holds,fun m hm ha => ?_⟩
    obtain ⟨init,hinit⟩ := List.getLast?_eq_some_iff.mp hm
    have hle := h.longest (m :: (dialogue recent ++ [question])) (by
      rw [hinit, List.append_assoc, List.singleton_append]
      exact List.suffix_append _ _) ha
    rw [List.length_cons] at hle
    omega

/-- For the bounds and the turns so far, whatever the new question: the prompt is well formed if
and only if the cut is between two turns and every reply behind it says something. -/
theorem window_well_formed {maxMessages : ℕ} (hn : 1 ≤ maxMessages) (maxChars : ℤ) {es : List Exchange} {question : Message}
    (hasked : question.role = .user) (hfilled : question.content ≠ []) {request : ChatRequest}
    (hr : request.messages = (recentWindow (dialogue es ++ [question]) maxMessages maxChars).map chatMessage) :
    WellFormed (AnthropicProvider.splitSystem request).2 ↔ ∃ old recent, es = old ++ recent ∧
      CutBetween maxMessages maxChars old recent question ∧ AllAnswered recent := by
  have hlongest := recentWindow_eq_longest (List.append_ne_nil_of_right_ne_nil (dialogue es) (List.cons_ne_nil question []))
    hn maxChars
  have hroles : ∀ m ∈ recentWindow (dialogue es ++ [question]) maxMessages maxChars, m.role = .user ∨ m.role = .assistant := by
    intro m hm
    rcases List.mem_append.mp (hlongest.suffix.subset hm) with hm | hm
    · exact dialogue_roles hm
    · rw [List.mem_singleton.mp hm]
      exact .inl hasked
  rw [splitSystem_turns hr hroles, wellFormed_iff]
  constructor
  · rintro ⟨⟨m,rest,hwindow,hm⟩,hall⟩
    rw [hwindow] at hlongest hall
    obtain ⟨old,recent,rfl,heq⟩ := suffix_of_question hlongest.suffix hm
    rw [heq] at hlongest hall
    refine ⟨old,recent,rfl,cutBetween_iff.mpr hlongest,(dialogue_filled recent).mp fun x hx => ?_⟩
    exact hall x (List.mem_append_left _ hx)
  · rintro ⟨old,recent,rfl,hcut,hanswered⟩
    rw [hlongest.unique (cutBetween_iff.mp hcut)]
    refine ⟨dialogue_opens hasked,fun m hm => ?_⟩
    rcases List.mem_append.mp hm with hm | hm
    · exact (dialogue_filled recent).mpr hanswered m hm
    · rw [List.mem_singleton.mp hm]
      exact hfilled

section
variable {B : Signature} {server : ChatServer} {pg : Postgres} {i : ℕ} {s s' : ChatStore} {t : Turn B} {tr : TurnTrace B}

/-- After any turns, one after another, and for every turn that asks next: the transcript is a
list of exchanges, and what the adapter makes of the prompt is well formed if and only if the
bounds cut between two of them and every reply behind the cut says something. -/
theorem prompt_well_formed_iff (hs : Conversed B server s) (hn : 1 ≤ t.settings.maxHistoryMessages) (hne : t.content ≠ [])
    {c : Conversation} {m : Message} {history : List Message} (h : Run PossibleTurn t.asking tr (.ok (c,m,history)))
    (hex : Executes (turnExec pg) i s tr s') :
    (∃ es, s.db.transcript c.id = dialogue es) ∧ s'.db.transcript c.id = s.db.transcript c.id ++ [m] ∧
    ∀ es, s.db.transcript c.id = dialogue es →
      (WellFormed (AnthropicProvider.splitSystem (t.request history)).2 ↔ ∃ old recent, es = old ++ recent ∧
        CutBetween t.settings.maxHistoryMessages t.settings.maxHistoryChars old recent m ∧ AllAnswered recent) := by
  have hspoken := conversed_spoken hs
  obtain ⟨now,hasked,hhistory,-⟩ := asking_returned h hex (hspoken.inv.atRest (hspoken.own i))
  have htranscript := hasked.spoken.transcript c.id
  rw [show (ChatStore.headed c t.content now).id = c.id from rfl, if_pos rfl] at htranscript
  refine ⟨hspoken.dialogues c.id,htranscript,fun es hes => ?_⟩
  refine window_well_formed hn t.settings.maxHistoryChars hasked.role (hasked.content ▸ hne) ?_
  rw [← hes, ← htranscript, ← hhistory]
  rfl

end

/-! ## A window of two messages -/

section
open Instrumentation

def twoMessages : ChatServer where
  settings := {maxHistoryMessages := 2, maxHistoryChars := 1000, maxOutputTokens := 1, redactor :=
    {maxChars := 10, enabled := false, rules := []}}
  settings_ok := Nat.le_refl 2
  pg := plain.pg

theorem possibleChat_ok {B : Signature} (op : GenOp (chatSignature B) ChatStreamEvent)
    (a : (genSignature (chatSignature B) ChatStreamEvent).Answer op) : PossibleChat op (.ok a) := by
  rcases op with ((_ | _ | _ | _ | _ | _) | ⟨d,stmt⟩ | _ | _) | y
  case base.monotonic | base.call.uuid4 | base.call.now | base.call.monotonic | base.call.createPublish => exact ⟨a,rfl⟩
  case base.awaitShield =>
    intro e he
    cases he
  all_goals
    intro e he
    cases he

/-- Everything goes through; a new row gets the number of the operation. -/
def smoothly (n : ℕ) : StreamChoice quietSignature where
  sql := ⟨.none,0,n⟩
  answer
    | .yield _ => .ok ()
    | .base (.call op) => calm (.base op)
    | .base (.sql _ _) => .error (.foreign 0 .cancelledError)
    | .base .awaitShield => .ok ()
    | .base .monotonic => .ok (0 : ℕ)

/-- A question to the mock provider. -/
def mockTurn (conversationId : Option Uuid) : Turn quietSignature :=
  ⟨twoMessages.settings,oneChunkProvider,text "mock",text "mock-1",conversationId,text "hi"⟩

def mockRequest : ApiRequest quietSignature := .stream oneChunkProvider (text "mock") (text "mock-1") none (text "hi")

/-- A turn in a new conversation is answered. -/
def firstTurn : Option (ChatTrace quietSignature × ChatStore × Except Exc Unit) :=
  alone (streamExec plain.pg) 0 smoothly 0 (ServerState.initial (B := quietSignature)).store (twoMessages.program mockRequest)

/-- A further question in the first conversation, with a window of that many messages. -/
def windowTurn (n : ℕ) : Turn quietSignature :=
  {mockTurn (some 0) with settings := {twoMessages.settings with maxHistoryMessages := n}}

/-- The next one asks. -/
def secondTurn (n : ℕ) (s : ChatStore) :
    Option (TurnTrace quietSignature × ChatStore × Except Exc (Conversation × Message × List Message)) :=
  alone (turnExec plain.pg) 0 (cancelledAt 100) 50 s (windowTurn n).asking

def goneThrough (tr : ChatTrace quietSignature) : Bool := tr.all fun e => e.answer.isOk

/-- Whether the prompt is well formed. -/
def prompts (n : ℕ) (formed : Bool) (run : TurnTrace quietSignature × ChatStore × Except Exc
    (Conversation × Message × List Message)) :
    Bool :=
  match run.2.2 with
  | .ok (_,_,history) => decide (WellFormed (AnthropicProvider.splitSystem ((windowTurn n).request history)).2) == formed
  | .error _ => false

def bothGoThrough (n : ℕ) (formed : Bool) (run : ChatTrace quietSignature × ChatStore × Except Exc Unit) : Bool :=
  goneThrough run.1 && (secondTurn n run.2.1).any (prompts n formed)

theorem twoTurns_open_with_reply : firstTurn.any (bothGoThrough 2 false) = true := by decide +kernel

theorem twoTurns_open_with_question : firstTurn.any (bothGoThrough 3 true) = true := by decide +kernel

theorem windowTurn_runs {n : ℕ} {formed : Bool} (h : firstTurn.any (bothGoThrough n formed) = true) :
    ∃ s s' tr c m history, Conversed quietSignature twoMessages s ∧
      Run PossibleTurn (windowTurn n).asking tr (.ok (c,m,history)) ∧
      Executes (turnExec plain.pg) 0 s tr s' ∧
      decide (WellFormed (AnthropicProvider.splitSystem ((windowTurn n).request history)).2) = formed := by
  obtain ⟨⟨tr,s,out⟩,hmem,hboth⟩ := (Option.any_eq_true _ _).mp h
  obtain ⟨hgone,hsecond⟩ := Bool.and_eq_true_iff.mp hboth
  obtain ⟨⟨tr',s',out'⟩,hmem',hreply⟩ := (Option.any_eq_true _ _).mp hsecond
  have hfirst : Run (fun _ _ => True) (twoMessages.program mockRequest) tr out ∧
      Executes (streamExec plain.pg) 0 (ServerState.initial (B := quietSignature)).store tr s :=
        alone_executes (fun _ => trivial) hmem
  obtain ⟨hrun,hex⟩ := hfirst
  obtain ⟨hrun',hex'⟩ := alone_executes cancelledAt_possible hmem'
  have hpossible : Run PossibleChat (twoMessages.program mockRequest) tr out := by
    refine hrun.restrict fun e he => ?_
    have hok := List.all_eq_true.mp hgone e he
    obtain ⟨op,r⟩ := e
    cases r with
    | ok a => exact possibleChat_ok op a
    | error x => cases hok
  cases out' with
  | error x => cases hreply
  | ok asked =>
    obtain ⟨c,m,history⟩ := asked
    exact ⟨s,s',tr',c,m,history,.turn .empty rfl (by decide) hpossible hex,hrun',hex',eq_of_beq hreply⟩

/-- One answered turn, and a window of two messages: the prompt of the next turn opens with the
reply. -/
theorem prompt_opens_with_reply : ∃ (s s' : ChatStore) (t : Turn quietSignature)
    (tr : TurnTrace quietSignature) (c : Conversation)
    (m : Message) (history : List Message), Conversed quietSignature twoMessages s ∧ t.settings = twoMessages.settings ∧
    2 ≤ t.settings.maxHistoryMessages ∧ 1000 ≤ t.settings.maxHistoryChars ∧ t.content ≠ [] ∧
    Run PossibleTurn t.asking tr (.ok (c,m,history)) ∧ Executes (turnExec twoMessages.pg) 0 s tr s' ∧
    ¬ WellFormed (AnthropicProvider.splitSystem (t.request history)).2 := by
  obtain ⟨s,s',tr,c,m,history,hs,hrun,hex,hformed⟩ := windowTurn_runs twoTurns_open_with_reply
  exact ⟨s,s',windowTurn 2,tr,c,m,history,hs,rfl,by decide,by decide,by decide,hrun,hex,of_decide_eq_false hformed⟩

/-- With room for two messages the cut is inside a turn; with room for three there is none. -/
theorem prompt_well_formed_iff_windows :
    (∃ s s' tr c m history es, Conversed quietSignature twoMessages s ∧
      Run PossibleTurn (windowTurn 2).asking tr (.ok (c,m,history)) ∧
      Executes (turnExec plain.pg) 0 s tr s' ∧ s.db.transcript c.id = dialogue es ∧
      ¬ WellFormed (AnthropicProvider.splitSystem ((windowTurn 2).request history)).2 ∧
      ¬ ∃ old recent, es = old ++ recent ∧ CutBetween 2 1000 old recent m ∧ AllAnswered recent) ∧
    ∃ s s' tr c m history es, Conversed quietSignature twoMessages s ∧
      Run PossibleTurn (windowTurn 3).asking tr (.ok (c,m,history)) ∧
      Executes (turnExec plain.pg) 0 s tr s' ∧ s.db.transcript c.id = dialogue es ∧
      WellFormed (AnthropicProvider.splitSystem ((windowTurn 3).request history)).2 ∧
      ∃ old recent, es = old ++ recent ∧ CutBetween 3 1000 old recent m ∧ AllAnswered recent := by
  constructor
  · obtain ⟨s,s',tr,c,m,history,hs,hrun,hex,hformed⟩ := windowTurn_runs twoTurns_open_with_reply
    obtain ⟨⟨es,hes⟩,-,hall⟩ := prompt_well_formed_iff hs (t := windowTurn 2) (by decide) (by decide) hrun hex
    have hnot := of_decide_eq_false hformed
    exact ⟨s,s',tr,c,m,history,es,hs,hrun,hex,hes,hnot,fun hcut => hnot ((hall es hes).mpr hcut)⟩
  · obtain ⟨s,s',tr,c,m,history,hs,hrun,hex,hformed⟩ := windowTurn_runs twoTurns_open_with_question
    obtain ⟨⟨es,hes⟩,-,hall⟩ := prompt_well_formed_iff hs (t := windowTurn 3) (by decide) (by decide) hrun hex
    have hwell := of_decide_eq_true hformed
    exact ⟨s,s',tr,c,m,history,es,hs,hrun,hex,hes,hwell,(hall es hes).mp hwell⟩

end
end InferenceLogger
