import InferenceLogger.Conversations.Ownership
import InferenceLogger.Conversations.Programs
import InferenceLogger.Observation.OneEvent

/-! # The conversation aggregate

Every committed conversation is numbered from zero without a gap, opens with the user's
message and is titled after it, whatever the requests do at the same time.
-/
namespace InferenceLogger
open PyText PyJson AsyncTask KeyedTable Transition

/-! ## Runs of the server -/

section Runs
variable {B : Signature} {server : ChatServer} {may : ApiRequest B → Option Home → CallOp B → Prop}

/-- The tables are in order, and every request is in a phase that its session's part of the
state matches. -/
structure Served (may : ApiRequest B → Option Home → CallOp B → Prop) (s : ServerState B) : Prop where
  inv : s.store.Inv
  idle : ∀ i, s.requests i = none → s.store.own i = []
  busy : ∀ i r, s.requests i = some r →
    ∃ φ, Follows (ServerAllows (may r.request)) AtRest r.program φ ∧ s.store.Owns i φ

theorem initial_served : Served may (ServerState.initial : ServerState B) where
  inv := by
    constructor <;> simp [ServerState.initial,ChatStore.saidIn,Db.transcript,Table.has,Table.empty,Table.get]
  idle := fun _ _ => rfl
  busy := fun _ _ h => nomatch h

theorem serve_self (s : ServerState B) (i : ℕ) (r : Serving B) : (s.serve i r).requests i = some r := by
  simp [ServerState.serve]

theorem serve_other (s : ServerState B) {i j : ℕ} (h : j ≠ i) (r : Serving B) : (s.serve i r).requests j = s.requests j := by
  simp [ServerState.serve,h]

/-- A step of request `i` keeps the state served when its own part is, and the others do not
notice. -/
theorem Served.serve {s : ServerState B} (h : Served may s) {i : ℕ} {store : ChatStore} {r : Serving B} {φ : ChatPhase}
    (hinv : store.Inv) (hothers : ∀ j, j ≠ i → s.store.Around j store)
    (hf : Follows (ServerAllows (may r.request)) AtRest r.program φ) (ho : store.Owns i φ) :
    Served may (({s with store := store} : ServerState B).serve i r) where
  inv := hinv
  idle := by
    intro j hj
    by_cases hji : j = i
    · subst hji
      rw [serve_self] at hj
      cases hj
    · rw [serve_other _ hji] at hj
      exact (hothers j hji).own.trans (h.idle j hj)
  busy := by
    intro j r' hj
    by_cases hji : j = i
    · subst hji
      rw [serve_self] at hj
      cases hj
      exact ⟨φ,hf,ho⟩
    · rw [serve_other _ hji] at hj
      obtain ⟨ψ,hψ,hown⟩ := h.busy j r' hj
      exact ⟨ψ,hψ,(hothers j hji).owns hown⟩

theorem around_refl (i : ℕ) (s : ChatStore) : s.Around i s := (ChatStore.quiet_refl (i + 1) s).around (Nat.succ_ne_self i).symm

/-- A statement of a request whose session is in this phase. -/
theorem chatExec_served {s : ChatStore} {i : ℕ} {φ φ' : ChatPhase} {stmt : ChatSql} {choice : ChatChoice} {s' : ChatStore} {r}
    (hs : s.Inv) (ho : s.Owns i φ) (ha : SqlAllows φ stmt r φ') (he : chatExec server.pg i s stmt choice = some (s',r)) :
    s'.Inv ∧ s'.Owns i φ' ∧ ∀ j, j ≠ i → s.Around j s' := by
  by_cases hc : stmt = .commit
  · subst hc
    have hcases : (s' = s.commit i) ∨ (s' = s.abort i ∧ ∃ e, r = .error e) := by
      unfold chatExec at he
      split at he
      · cases he
        exact .inl rfl
      · cases he
        exact .inr ⟨rfl,_,rfl⟩
      · cases he
        exact .inl rfl
    cases ha with
    | @commit _ home r hset =>
      rcases hcases with rfl | ⟨rfl,e,rfl⟩
      · have hamount := ho.amounts hs hset
        obtain ⟨hhome,hfail⟩ := ho.commit hset
        refine ⟨ChatStore.commit_inv hs hamount,?_,fun j hj => ChatStore.commit_around hs hj hamount⟩
        cases r with
        | ok u => exact ⟨ChatStore.own_commit_self,hhome⟩
        | error e => exact ⟨ChatStore.own_commit_self,hfail⟩
      · have hq := ChatStore.quiet_abort i s
        exact ⟨hq.inv hs,⟨ChatStore.own_abort_self,hq.atHome ho.atHome⟩,fun j hj => hq.around hj⟩
  · have hp := ChatStore.chatExec_performs hc he
    exact ⟨hp.quiet.inv hs,ho.step hs ha hp hc,fun j hj => hp.quiet.around hj⟩

/-- What is not a statement leaves a request in its phase. -/
theorem answer_phase {may : Option Home → CallOp B → Prop} {φ φ' : ChatPhase} {op : ServerOp B} {r}
    (h : ServerAllows may φ op r φ') (hop : ∀ d stmt, op ≠ .base (.sql d stmt)) : φ' = φ := by
  cases op with
  | «yield» value => exact h.1
  | base op =>
    cases h with
    | sql d _ => exact absurd rfl (hop d _)
    | call | awaitShield | monotonic => rfl

theorem step_served {s t : ServerState B} {a : ServerAction B} (h : Served may s)
    (haccept : ∀ i request, a = .accept i request →
      Follows (ServerAllows (may request)) AtRest (server.program request) (.idle none))
    (he : server.step s a = some t) : Served may t ∧ s.store.said <+: t.store.said := by
  cases a with
  | accept i request =>
    simp only [ChatServer.step] at he
    split at he
    · rename_i hnone
      cases he
      exact ⟨h.serve h.inv (fun j _ => around_refl j s.store)
        (haccept i request rfl) ⟨h.idle i hnone,by simp [ChatStore.AtHome]⟩,
        List.prefix_refl _⟩
    · cases he
  | statement i choice =>
    simp only [ChatServer.step] at he
    split at he
    · rename_i request d stmt k hr
      obtain ⟨⟨s',r⟩,hexec,rfl⟩ := Option.map_eq_some_iff.mp he
      obtain ⟨φ,hf,ho⟩ := h.busy i _ hr
      obtain ⟨φ',ha,hk⟩ := hf r
      cases ha with
      | sql _ ha =>
        obtain ⟨hinv,ho',hothers⟩ := chatExec_served h.inv ho ha hexec
        exact ⟨h.serve hinv hothers hk ho',(hothers (i + 1) (Nat.succ_ne_self i)).said⟩
    · cases he
  | answer i oracle =>
    simp only [ChatServer.step] at he
    split at he
    · cases he
    · rename_i request op k hop hr
      cases he
      obtain ⟨φ,hf,ho⟩ := h.busy i _ hr
      obtain ⟨φ',ha,hk⟩ := hf (oracle op)
      have hsame : φ' = φ := by
        refine answer_phase ha ?_
        rintro d stmt rfl
        exact hop _ _ _ rfl HEq.rfl
      subst hsame
      exact ⟨h.serve h.inv (fun j _ => around_refl j s.store) hk ho,List.prefix_refl _⟩
    · cases he
  | kill i =>
    simp only [ChatServer.step] at he
    split at he
    · rename_i request program hr
      cases he
      have hq := ChatStore.quiet_forget i s.store
      have hdone : Follows (ServerAllows (may request)) AtRest (.done () : ChatGen B Unit) (.idle none) := ⟨none,rfl⟩
      refine ⟨h.serve (hq.inv h.inv) (fun j hj => hq.around hj) hdone ⟨ChatStore.own_forget_self,by simp [ChatStore.AtHome]⟩,?_⟩
      exact List.prefix_refl _
    · cases he

/-- A run whose every accepted request makes only calls it may make. -/
theorem run_served {guard : ServerState B → ServerAction B → Prop} {s t : ServerState B}
    (haccept : ∀ s i request, guard s (.accept i request) →
      Follows (ServerAllows (may request)) AtRest (server.program request) (.idle none))
    (hs : Served may s) (h : Guarded server.step guard s t) : Served may t ∧ s.store.said <+: t.store.said := by
  induction h with
  | refl => exact ⟨hs,List.prefix_refl _⟩
  | step _ ha he ih =>
    obtain ⟨hserved,hsaid⟩ := ih
    obtain ⟨hserved',hsaid'⟩ := step_served hserved (fun i request hi => haccept _ i request (hi ▸ ha)) he
    exact ⟨hserved',hsaid.trans hsaid'⟩

/-- Every request follows the phases. -/
theorem program_follows (request : ApiRequest B)
    (hc : ∀ adapter provider model conversationId content,
      (request = .send adapter provider model conversationId content ∨ request =
      .stream adapter provider model conversationId content) →
      (Turn.mk server.settings adapter provider model conversationId content).Calls (may request)) :
    Follows (ServerAllows (may request)) AtRest (server.program request) (.idle none) := by
  cases request with
  | createConversation =>
    apply atRest_bind (follows_ofBase ((follows_sqlIn false follows_createConversation).mono fun _ _ hφ => hφ.atRest))
    exact fun _ home => ⟨home,rfl⟩
  | deleteConversation id =>
    exact follows_ofBase ((follows_sqlIn false (follows_deleteConversation id)).mono fun _ _ hφ => hφ.atRest)
  | send adapter provider model conversationId content =>
    apply atRest_bind (follows_ofBase (follows_send _ (hc _ _ _ _ _ (.inl rfl))))
    exact fun _ home => ⟨home,rfl⟩
  | stream adapter provider model conversationId content =>
    change Follows (ServerAllows _) AtRest (Turn.chatStream _) (.idle none)
    unfold Turn.chatStream
    apply Follows.bind
    refine (follows_ofBase (follows_sqlIn false (follows_prepare conversationId))).mono fun r φ hφ => ?_
    cases r with
    | error e => exact hφ
    | ok u =>
      obtain ⟨home,rfl,rfl⟩ := hφ
      exact follows_stream _ (hc _ _ _ _ _ (.inr rfl))

/-- Turns may call anything. -/
theorem calls_any (t : Turn B) : t.Calls fun _ _ => True := by
  intro home _
  refine ⟨fun _ _ => trivial,?_⟩
  generalize t.adapter.streamChat _ = gen
  induction gen with
  | done u => exact trivial
  | raise e => exact trivial
  | await op k ih => exact fun r => ⟨(),fun _ _ => trivial,ih r⟩

theorem reach_served {s t : ServerState B} (hs : Served (fun _ _ _ => True) s) (h : Reach server.step s t) :
    Served (fun _ _ _ => True) t ∧ s.store.said <+: t.store.said := by
  refine run_served (fun _ i request _ => ?_) hs h
  apply program_follows request
  intro _ _ _ _ _ _
  exact calls_any _

/-- The number a message is inserted under is free. -/
theorem insert_number_free {s : ServerState B} (h : Served may s) {i : ℕ} {request : ApiRequest B} {d : Bool} {id : Uuid}
    {role : MessageRole} {content : Text} {seq : ℕ} {k} (hr : s.requests i =
      some ⟨request,.await (.base (.sql d (.insertMessage id role content seq))) k⟩) :
    ((s.store.view i).transcript id).any (fun m => decide (m.seq = seq)) = false := by
  obtain ⟨φ,hf,ho⟩ := h.busy i _ hr
  obtain ⟨φ',ha,-⟩ := hf (.error (.own .cancelledError))
  cases ha with
  | sql _ ha =>
    cases ha with
    | @insert a n r =>
      obtain ⟨hown,hp,hn⟩ := ho
      have htr : (s.store.view i).transcript a.id = s.store.db.transcript a.id := by
        rw [ChatStore.opening_view hown]
        unfold Db.transcript
        rw [ChatStore.opening_messages]
      rw [htr, h.inv.transcript, List.any_eq_false]
      intro m hm
      split at hm
      · rename_i hhas
        have hmem : m.seq ∈ (s.store.saidIn a.id).map Message.seq := List.mem_map_of_mem hm
        rw [h.inv.numbered, List.mem_range] at hmem
        rw [hn (.inr hhas)]
        simp only [decide_eq_true_eq]
        omega
      · cases hm

theorem perform_insert_unique {s : ChatStore} {pg : Postgres} {i : ℕ} {now : ℤ} {fresh id : Uuid} {role : MessageRole}
    {content : Text} {seq : ℕ} {s' : ChatStore}
    (hfree : ((s.view i).transcript id).any (fun m => decide (m.seq = seq)) = false) :
    s.perform pg i now fresh (.insertMessage id role content seq) ≠
      some (s',.error (databaseError "UniqueViolationError")) := by
  intro he
  simp only [ChatStore.perform, ChatStore.statement, hfree] at he
  have hname : ∀ {a b : String}, databaseError a = databaseError b → text a = text b := by
    intro a b hab
    injection hab with _ hc
    injection hc
  split at he
  · simp only [Option.some.injEq, Prod.mk.injEq, Except.error.injEq] at he
    exact absurd (hname he.2) (by decide)
  · split at he
    · simp only [Option.some.injEq, Prod.mk.injEq, Except.error.injEq] at he
      exact absurd (hname he.2) (by decide)
    · split at he
      · cases he
      · split at he
        · cases he
        · rw [if_neg (by simp)] at he
          split at he
          · split at he
            · cases he
            · simp at he
          · simp only [Option.some.injEq, Prod.mk.injEq, Except.error.injEq] at he
            exact absurd (hname he.2) (by decide)

/-- In every state the requests reach, a conversation is numbered from zero without gap or
duplicate, opens with the user's message, has the title of that message or none when it is
empty, and keeps it; and no insert fails on its number. -/
theorem conversations_in_order (server : ChatServer) (s : ServerState B) (h : Reach server.step .initial s) :
    (∀ id c, s.store.db.conversations.get id = some c →
      (s.store.db.transcript id).map Message.seq = List.range (s.store.db.transcript id).length ∧
      (∀ m, (s.store.db.transcript id).head? = some m → m.role = .user) ∧
      c.title = openingTitle (s.store.db.transcript id)) ∧
    (∀ k m, s.store.db.messages.get k = some m → s.store.db.conversations.has m.conversationId = true) ∧
    (∀ i request d id role content seq k now fresh s',
      s.requests i = some ⟨request,.await (.base (.sql d (.insertMessage id role content seq))) k⟩ →
      s.store.perform server.pg i now fresh (.insertMessage id role content seq) ≠
        some (s',.error (databaseError "UniqueViolationError"))) ∧
    ∀ t, Reach server.step s t → ∀ id c c', s.store.db.conversations.get id = some c →
      t.store.db.conversations.get id = some c' → c.title ≠ none → c'.title = c.title := by
  obtain ⟨hs,-⟩ := reach_served initial_served h
  have htr : ∀ id c, s.store.db.conversations.get id = some c → s.store.db.transcript id = s.store.saidIn id := by
    intro id c hg
    rw [hs.inv.transcript, if_pos (Table.has_iff.mpr ⟨c,hg⟩)]
  refine ⟨?_,fun k m hk => hs.inv.attached hk,?_,?_⟩
  · intro id c hg
    rw [htr id c hg]
    exact ⟨hs.inv.numbered id,hs.inv.opened id,hs.inv.titled id c hg⟩
  · intro i request d id role content seq k now fresh s' hr
    exact perform_insert_unique (insert_number_free hs hr)
  · intro t ht id c c' hg hg' hne
    obtain ⟨hs',hsaid⟩ := reach_served hs ht
    rw [hs'.inv.titled id c' hg', hs.inv.titled id c hg]
    rw [hs.inv.titled id c hg] at hne
    obtain ⟨rest,hrest⟩ := ChatStore.saidIn_grows hsaid id
    rw [← hrest]
    cases hl : s.store.saidIn id with
    | nil =>
      rw [hl] at hne
      exact absurd rfl hne
    | cons m ms => rfl

end Runs

/-! ## Two turns at once -/

section
open Instrumentation

def quietServer : ChatServer where
  settings := {maxHistoryMessages := 2, maxHistoryChars := 100, maxOutputTokens := 1, redactor :=
    {maxChars := 10, enabled := false, rules := []}}
  settings_ok := le_rfl
  pg := plain.pg

/-- The next statement of a request goes through; a new row gets this id. -/
def runs (i : ℕ) (id : Uuid) : ServerAction quietSignature := .statement i ⟨.none,0,id⟩

def asks (i : ℕ) (conversationId : Option Uuid) (content : String) : ServerAction quietSignature :=
  .accept i (.stream oneChunkProvider (text "mock") (text "mock-1") conversationId (text content))

/-- A turn opens a conversation; then two turns look it up, and the second one to lock it has
to wait. -/
def twoTurns : List (ServerAction quietSignature) :=
  [asks 0 none "hi"] ++ List.replicate 9 (runs 0 7) ++ [asks 1 (some 7) "yo",asks 2 (some 7) "ya"] ++
  List.replicate 4 (runs 1 8) ++ List.replicate 4 (runs 2 9) ++ List.replicate 8 (runs 1 8) ++ List.replicate 8 (runs 2 9)

theorem twoTurns_run : (play quietServer.step .initial twoTurns).any (fun s =>
    decide ((s.store.db.transcript 7).map Message.content = [text "hi",text "yo",text "ya"]) &&
    ((s.store.db.conversations.get 7).bind Conversation.title == some (text "hi"))) = true := by
  decide

theorem conversations_in_order_two : ∃ s : ServerState quietSignature,
    (s.store.db.transcript 7).map Message.seq = [0,1,2] := by
  obtain ⟨s,hp,hs⟩ := play_any twoTurns_run
  rw [Bool.and_eq_true] at hs
  have hlen : (s.store.db.transcript 7).length = 3 := by
    have hcontent := congrArg List.length (of_decide_eq_true hs.1)
    simpa using hcontent
  obtain ⟨c,hc,-⟩ := Option.bind_eq_some_iff.mp (eq_of_beq hs.2)
  obtain ⟨hall,-⟩ := conversations_in_order quietServer s (play_reach hp)
  obtain ⟨hseq,-⟩ := hall 7 c hc
  exact ⟨s,hseq.trans (by rw [hlen]; rfl)⟩

end
end InferenceLogger
