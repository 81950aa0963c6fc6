import InferenceLogger.Conversations.Speaking

/-! # Who said what

Whatever else is going on, a request commits its question at most once, and its reply at most
once, after the question and in the same conversation; and every message in the tables is of
exactly one request.
-/
namespace InferenceLogger
open PyText PyJson AsyncTask KeyedTable Transition

/-! ## What a request may say -/

section
variable {B : Signature}

/-- The question is the request's content, in the conversation it names or at the start of a new one. -/
structure Asks (request : ApiRequest B) (m : Message) : Prop where
  role : m.role = .user
  content : request.content = some m.content
  named : ∀ id, request.conversationId = some id → m.conversationId = id
  first : request.conversationId = none → m.seq = 0

structure Answers (question m : Message) : Prop where
  role : m.role = .assistant
  conversation : m.conversationId = question.conversationId
  after : question.seq < m.seq

/-- Nothing, the question, or the question and a reply. -/
inductive Says (request : ApiRequest B) : List Message → Prop where
  | nothing : Says request []
  | asked {question : Message} : Asks request question → Says request [question]
  | answered {question reply : Message} : Asks request question → Answers question reply → Says request [question,reply]

theorem Says.initial {request : ApiRequest B} {ms ms' : List Message} (h : Says request ms) (hp : ms' <+: ms) :
    Says request ms' := by
  cases h with
  | nothing =>
    rw [List.prefix_nil.mp hp]
    exact .nothing
  | asked hq =>
    rcases List.prefix_cons_iff.mp hp with rfl | ⟨t,rfl,ht⟩
    · exact .nothing
    · rw [List.prefix_nil.mp ht]
      exact .asked hq
  | answered hq ha =>
    rcases List.prefix_cons_iff.mp hp with rfl | ⟨t,rfl,ht⟩
    · exact .nothing
    · rcases List.prefix_cons_iff.mp ht with rfl | ⟨u,rfl,hu⟩
      · exact .asked hq
      · rw [List.prefix_nil.mp hu]
        exact .answered hq ha

end

/-! ## What a session has said -/

namespace ChatStore
variable {B : Signature} {request : ApiRequest B} {s s' : ChatStore} {i j : ℕ}

/-- The messages a session has committed. -/
def spoken (s : ChatStore) (i : ℕ) : List Message := (s.said.filter fun p => decide (p.1 = i)).map Prod.snd

/-- With those its open transaction is about to commit. -/
def voiced (s : ChatStore) (i : ℕ) : List Message := s.spoken i ++ (s.own i).filterMap ChatWrite.message

/-- What a request has said where it has come to. -/
def Speaking (request : ApiRequest B) (s : ChatStore) (i : ℕ) : Floor → Prop
  | .opening => s.voiced i = []
  | .asking id => s.voiced i = [] ∧ (∀ k, request.conversationId = some k → id = k) ∧
      (request.conversationId = none → ∃ c, c.id = id ∧ .create c ∈ s.own i)
  | .answering => s.voiced i = [] ∨ ∃ question, Asks request question ∧ s.voiced i = [question]
  | .finished => Says request (s.voiced i)

theorem mem_spoken {m : Message} : m ∈ s.spoken i ↔ (i,m) ∈ s.said := by
  unfold spoken
  rw [List.mem_map]
  constructor
  · rintro ⟨⟨j,m'⟩,hp,rfl⟩
    obtain ⟨hp,hj⟩ := List.mem_filter.mp hp
    rwa [← of_decide_eq_true hj]
  · exact fun hp => ⟨(i,m),List.mem_filter.mpr ⟨hp,by simp⟩,rfl⟩

theorem spoken_voiced : s.spoken i <+: s.voiced i := List.prefix_append _ _

theorem spoken_congr (h : s'.said = s.said) : s'.spoken i = s.spoken i := by
  unfold spoken
  rw [h]

theorem voiced_of_silent (h : s.own i = []) : s.voiced i = s.spoken i := by
  unfold voiced
  rw [h]
  exact List.append_nil _

theorem voiced_around (hs : s'.spoken j = s.spoken j) (ho : s'.own j = s.own j) : s'.voiced j = s.voiced j := by
  unfold voiced
  rw [hs, ho]

theorem spoken_append {new : List Message} (h : s'.said = s.said ++ new.map fun m => (i,m)) :
    s'.spoken j = s.spoken j ++ if j = i then new else [] := by
  unfold spoken
  rw [h, List.filter_append, List.map_append, List.filter_map]
  by_cases hji : j = i
  · subst hji
    simp [Function.comp_def]
  · simp [Function.comp_def,hji,Ne.symm hji]

theorem spoken_commit_self : (s.commit i).spoken i = s.voiced i := by
  rw [spoken_append (s := s) (i := i) rfl, if_pos rfl]
  rfl

theorem spoken_commit_other (h : j ≠ i) : (s.commit i).spoken j = s.spoken j := by
  rw [spoken_append (s := s) (i := i) rfl, if_neg h, List.append_nil]

/-- The sessions that others run keep what they have said. -/
theorem Speaking.around {floor : Floor} (h : Speaking request s j floor) (hs : s'.spoken j = s.spoken j)
    (ho : s'.own j = s.own j) : Speaking request s' j floor := by
  have hv := voiced_around hs ho
  cases floor with
  | opening | answering | finished =>
    unfold Speaking at h ⊢
    rwa [hv]
  | asking id =>
    obtain ⟨hnil,hnamed,hcreate⟩ := h
    refine ⟨hv.trans hnil,hnamed,fun hn => ?_⟩
    rw [ho]
    exact hcreate hn

/-- A step that says nothing new. -/
theorem Speaking.after {floor : Floor} {op : ChatSql} {α : Type} {r : Except Exc α} (h : Speaking request s i floor)
    (hv : s'.voiced i <+: s.voiced i) (ho : op.ends = false → (∃ a, r = .ok a) → s.own i ⊆ s'.own i) :
    Speaking request s' i (floor.after op r) := by
  cases floor with
  | opening =>
    have hnil : s.voiced i = [] := h
    rw [hnil] at hv
    exact List.prefix_nil.mp hv
  | asking id =>
    obtain ⟨hnil,hnamed,hcreate⟩ := h
    rw [hnil] at hv
    have hnil' := List.prefix_nil.mp hv
    cases r with
    | error e => exact hnil'
    | ok a =>
      cases he : op.ends with
      | true =>
        simp only [Floor.after, he, if_true]
        exact hnil'
      | false =>
        simp only [Floor.after, he]
        refine ⟨hnil',hnamed,fun hn => ?_⟩
        obtain ⟨c,hc,hmem⟩ := hcreate hn
        exact ⟨c,hc,ho he ⟨a,rfl⟩ hmem⟩
  | answering =>
    rcases h with hnil | ⟨question,hq,hone⟩
    · rw [hnil] at hv
      exact .inl (List.prefix_nil.mp hv)
    · rw [hone] at hv
      rcases List.prefix_cons_iff.mp hv with hnil | ⟨rest,heq,hrest⟩
      · exact .inl hnil
      · rw [List.prefix_nil.mp hrest] at heq
        exact .inr ⟨question,hq,heq⟩
  | finished => exact Says.initial h hv

theorem Speaking.says {floor : Floor} (h : Speaking request s i floor) : Says request (s.spoken i) := by
  have hvoiced : Says request (s.voiced i) := by
    cases floor with
    | opening =>
      have hnil : s.voiced i = [] := h
      rw [hnil]
      exact .nothing
    | asking id =>
      rw [h.1]
      exact .nothing
    | answering =>
      rcases h with hnil | ⟨question,hq,hone⟩
      · rw [hnil]
        exact .nothing
      · rw [hone]
        exact .asked hq
    | finished => exact h
  exact hvoiced.initial spoken_voiced

/-- A statement that inserts nothing and commits nothing. -/
theorem Performs.silent {op : ChatSql} {r} (hp : Performs s i op s' r) (hi : op.inserts = false) :
    s'.voiced i <+: s.voiced i ∧ (op.ends = false → (∃ a, r = .ok a) → s.own i ⊆ s'.own i) := by
  have hspoken : s'.spoken i = s.spoken i := spoken_congr hp.quiet.said
  have hdropped : s'.own i = [] → s'.voiced i <+: s.voiced i := by
    intro hnil
    rw [voiced_of_silent hnil, hspoken]
    exact spoken_voiced
  have hpushed : ∀ {w : ChatWrite}, w.message = none → s'.own i = s.own i ++ [w] →
      s'.voiced i <+: s.voiced i ∧ (op.ends = false → (∃ a, r = .ok a) → s.own i ⊆ s'.own i) := by
    intro w hw ho
    unfold voiced
    rw [hspoken, ho, List.filterMap_append]
    simp [hw]
  have hsame : s'.own i = s.own i →
      s'.voiced i <+: s.voiced i ∧ (op.ends = false → (∃ a, r = .ok a) → s.own i ⊆ s'.own i) := by
    intro ho
    rw [voiced_around hspoken ho, ho]
    exact ⟨List.prefix_refl _,fun _ _ _ h => h⟩
  cases hp with
  | refused | got | unlocked | locked | numbered | touchedNone | untitled | read | droppedNone | deletedNone => exact hsame rfl
  | failed e => exact ⟨hdropped own_abort_self,fun _ ⟨a,ha⟩ => nomatch ha⟩
  | rollback | close => exact ⟨hdropped own_forget_self,fun he => nomatch he⟩
  | inserted => cases hi
  | created c => exact hpushed (w := .create c) rfl (own_push_self _)
  | touched now => exact hpushed rfl (own_lock _ _ _)
  | titled => exact hpushed rfl (own_lock _ _ _)
  | dropped => exact hpushed rfl (own_push_self _)
  | deleted => exact hpushed rfl (own_lock _ _ _)

/-- The insert of a message: it is the session's next word, unless it fails. -/
theorem Performs.uttered {id : Uuid} {role : MessageRole} {content : Text} {seq : ℕ} {r}
    (hs : s.Inv) (hp : Performs s i (.insertMessage id role content seq) s' r) :
    s'.voiced i = s.spoken i ∨ ∃ m, s'.voiced i = s.voiced i ++ [m] ∧ m.conversationId = id ∧ m.role = role ∧
      m.content = content ∧ m.seq = seq ∧ (s.view i).conversations.has id = true := by
  cases hp with
  | refused e ha => exact .inl (voiced_of_silent (hs.aborted i ha))
  | failed e =>
    left
    rw [voiced_of_silent own_abort_self]
    exact spoken_congr rfl
  | inserted m hna hf hconv hrole hcontent hseq hh hb =>
    refine .inr ⟨m,?_,hconv,hrole,hcontent,hseq,hh⟩
    have hown : ({(s.lock i .keyShare id).push i (.insert m) with knownMessages := m.id :: s.knownMessages} : ChatStore).own i =
        s.own i ++ [.insert m] := own_push_self _
    unfold voiced
    rw [hown, List.filterMap_append, ← List.append_assoc]
    rfl

/-- The first message of a conversation that its session is about to create. -/
theorem Owns.first (hs : s.Inv) {φ φ' : ChatPhase} {id : Uuid} {role : MessageRole} {content : Text} {seq : ℕ} {r}
    (ho : s.Owns i φ) (ha : SqlAllows φ (.insertMessage id role content seq) r φ')
    (hh : (s.view i).conversations.has id = true) (hc : ∃ c, c.id = id ∧ .create c ∈ s.own i) : seq = 0 := by
  cases ha with
  | @insert a n r =>
    obtain ⟨hown,-,hn⟩ := ho
    rw [opening_view hown] at hh
    obtain ⟨c,hid,hmem⟩ := hc
    rw [hn (opening_has hh), ← hid, saidIn_created hs hmem]
    rfl

/-- A reply goes where the question of its session has been committed, with a larger number. -/
theorem Owns.replies (hs : s.Inv) {φ φ' : ChatPhase} {id : Uuid} {content : Text} {seq : ℕ} {r}
    (ho : s.Owns i φ) (ha : SqlAllows φ (.insertMessage id .assistant content seq) r φ')
    (hh : (s.view i).conversations.has id = true) :
    ∃ question ∈ s.spoken i, question.conversationId = id ∧ question.seq < seq := by
  generalize hrole : MessageRole.assistant = role at ha
  cases ha with
  | @insert a n r =>
    obtain ⟨hown,hplaced,hn⟩ := ho
    rcases hplaced.author with ⟨huser,-⟩ | ⟨-,-,home,hhome,hid⟩
    · rw [← hrole] at huser
      cases huser
    · have hcom := hplaced.home home hhome
      have hin : home.message ∈ s.saidIn a.id := by
        rw [← hid]
        exact hcom.history.subset (List.mem_of_getLast? hcom.last)
      refine ⟨home.message,mem_spoken.mpr hcom.said,of_decide_eq_true (List.mem_filter.mp hin).2,?_⟩
      rw [opening_view hown] at hh
      have hseq : home.message.seq ∈ (s.saidIn a.id).map Message.seq := List.mem_map_of_mem hin
      rw [hs.numbered, List.mem_range] at hseq
      rwa [hn (opening_has hh)]

/-- What a session looks up is under the id it looks for. -/
theorem Owns.finds (hs : s.Inv) {φ φ' : ChatPhase} {id : Uuid} {c : Conversation}
    (ho : s.Owns i φ) (ha : SqlAllows φ (.getConversation id) (.ok (some c)) φ')
    (hp : Performs s i (.getConversation id) s' (.ok (some c))) : s' = s ∧ c.id = id := by
  generalize hr : (Except.ok (some c) : Except Exc (Option Conversation)) = r at ha hp
  cases ha with
  | get id r =>
    cases hp with
    | refused | failed => cases hr
    | got =>
      rw [view_nil ho.1] at hr
      exact ⟨rfl,hs.conversationKey id c (Except.ok.inj hr).symm⟩

/-- A statement of a request that is where it speaks. -/
theorem Speaking.step (hs : s.Inv) {φ φ' : ChatPhase} {floor floor' : Floor} {op : ChatSql} {r}
    (h : Speaking request s i floor) (ho : s.Owns i φ) (ha : SqlAllows φ op r φ') (hf : Speaks request floor op r floor')
    (hp : Performs s i op s' r) : Speaking request s' i floor' := by
  cases hf with
  | other floor r hi =>
    obtain ⟨hv,hown⟩ := hp.silent hi
    exact h.after hv hown
  | create c hn =>
    have hnil : s.voiced i = [] := h
    have hvoiced := (hp.silent rfl).1
    rw [hnil] at hvoiced
    cases hp with
    | created c hna hf htitle =>
      refine ⟨List.prefix_nil.mp hvoiced,fun k hk => ?_,fun _ => ⟨c,rfl,?_⟩⟩
      · rw [hn] at hk
        cases hk
      · exact (own_push_self (s := s) (i := i) (.create c)).symm ▸ List.mem_append_right _ (List.mem_singleton_self _)
  | find id c hid =>
    obtain ⟨rfl,hc⟩ := ho.finds hs ha hp
    refine ⟨h,fun k hk => ?_,fun hn => ?_⟩
    · rw [hid] at hk
      cases hk
      exact hc
    · rw [hid] at hn
      cases hn
  | ask r hcontent =>
    obtain ⟨hnil,hnamed,hcreate⟩ := h
    rcases hp.uttered hs with hv | ⟨m,hv,hconv,hrole,htext,hseq,hh⟩
    · left
      rw [hv, ← List.prefix_nil, ← hnil]
      exact spoken_voiced
    · right
      rw [hnil] at hv
      refine ⟨m,⟨hrole,by rw [hcontent, htext],fun k hk => hconv.trans (hnamed k hk),fun hn => ?_⟩,hv⟩
      rw [hseq]
      exact ho.first hs ha hh (hcreate hn)
  | reply r =>
    rcases hp.uttered hs with hv | ⟨m,hv,hconv,hrole,-,hseq,hh⟩
    · change Says request (s'.voiced i)
      rw [hv]
      exact h.says
    · obtain ⟨asked,hasked,hplace,hbefore⟩ := ho.replies hs ha hh
      have hmem := spoken_voiced.subset hasked
      rcases h with hnil | ⟨question,hq,hone⟩
      · rw [hnil] at hmem
        cases hmem
      · rw [hone] at hmem hv
        obtain rfl := List.mem_singleton.mp hmem
        change Says request (s'.voiced i)
        rw [hv]
        exact .answered hq ⟨hrole,hconv.trans hplace.symm,hseq ▸ hbefore⟩

end ChatStore

/-! ## Runs -/

section Runs
variable {B : Signature} {server : ChatServer} {s t : ServerState B}
open ChatStore

/-- Every request has said what it may say where it has come to. -/
structure Attributed (s : ServerState B) : Prop where
  served : Served (fun _ _ _ => True) s
  silent : ∀ i, s.requests i = none → s.store.spoken i = []
  speaking : ∀ i r, s.requests i = some r → ∃ floor,
    Follows (ServerSpeaks r.request) (fun _ _ => True) r.program floor ∧ Speaking r.request s.store i floor

theorem initial_attributed : Attributed (ServerState.initial : ServerState B) where
  served := initial_served
  silent := fun _ _ => rfl
  speaking := fun _ _ h => nomatch h

theorem Attributed.serve (h : Attributed s) {i : ℕ} {store : ChatStore} {r : Serving B} {floor : Floor}
    (hserved : Served (fun _ _ _ => True) (({s with store := store} : ServerState B).serve i r))
    (hothers : ∀ j, j ≠ i → store.spoken j = s.store.spoken j ∧ store.own j = s.store.own j)
    (hf : Follows (ServerSpeaks r.request) (fun _ _ => True) r.program floor) (hs : Speaking r.request store i floor) :
    Attributed (({s with store := store} : ServerState B).serve i r) where
  served := hserved
  silent := by
    intro j hj
    by_cases hji : j = i
    · subst hji
      rw [serve_self] at hj
      cases hj
    · rw [serve_other _ hji] at hj
      exact (hothers j hji).1.trans (h.silent j hj)
  speaking := by
    intro j r' hj
    by_cases hji : j = i
    · subst hji
      rw [serve_self] at hj
      cases hj
      exact ⟨floor,hf,hs⟩
    · rw [serve_other _ hji] at hj
      obtain ⟨floor',hf',hs'⟩ := h.speaking j r' hj
      exact ⟨floor',hf',hs'.around (hothers j hji).1 (hothers j hji).2⟩

/-- A statement of a request that is where it speaks; the others have said what they had. -/
theorem chatExec_speaking {s s' : ChatStore} {i : ℕ} {request : ApiRequest B} {φ φ' : ChatPhase} {floor floor' : Floor}
    {stmt : ChatSql} {choice : ChatChoice} {r} (hs : s.Inv) (h : Speaking request s i floor) (ho : s.Owns i φ)
    (ha : SqlAllows φ stmt r φ') (hf : Speaks request floor stmt r floor')
    (he : chatExec server.pg i s stmt choice = some (s',r)) :
    Speaking request s' i floor' ∧ ∀ j, j ≠ i → s'.spoken j = s.spoken j := by
  by_cases hc : stmt = .commit
  · subst hc
    have hcases : s' = s.commit i ∨ s' = s.abort i := by
      unfold chatExec at he
      split at he
      · cases he
        exact .inl rfl
      · cases he
        exact .inr rfl
      · cases he
        exact .inl rfl
    cases hf with
    | other floor r hi =>
      rcases hcases with rfl | rfl
      · refine ⟨h.after ?_ (fun hends => nomatch hends),fun j hj => spoken_commit_other hj⟩
        rw [voiced_of_silent own_commit_self, spoken_commit_self]
      · refine ⟨h.after ?_ (fun hends => nomatch hends),fun j _ => spoken_congr rfl⟩
        rw [voiced_of_silent own_abort_self]
        exact spoken_voiced (s := s)
  · have hp := chatExec_performs hc he
    exact ⟨h.step hs ho ha hf hp,fun j _ => spoken_congr hp.quiet.said⟩

/-- What is not a statement says nothing. -/
theorem answer_floor {request : ApiRequest B} {floor floor' : Floor} {op : ServerOp B} {r}
    (h : ServerSpeaks request floor op r floor') (hop : ∀ d stmt, op ≠ .base (.sql d stmt)) : floor' = floor := by
  cases op with
  | «yield» value => exact h
  | base op =>
    cases op with
    | sql d stmt => exact absurd rfl (hop d stmt)
    | call | awaitShield | monotonic => exact h

theorem step_attributed {a : ServerAction B} (h : Attributed s) (he : server.step s a = some t) : Attributed t := by
  have hserved : Served (fun _ _ _ => True) t := by
    refine (step_served h.served (fun i request _ => ?_) he).1
    apply program_follows request
    intro _ _ _ _ _ _
    exact calls_any _
  cases a with
  | accept i request =>
    simp only [ChatServer.step] at he
    split at he
    · rename_i hnone
      cases he
      refine h.serve hserved (fun _ _ => ⟨rfl,rfl⟩) (program_speaks server request) ?_
      change s.store.voiced i = []
      rw [voiced_of_silent (h.served.idle i hnone), h.silent i hnone]
    · cases he
  | statement i choice =>
    simp only [ChatServer.step] at he
    split at he
    · rename_i request d stmt k hr
      obtain ⟨⟨s',r⟩,hexec,rfl⟩ := Option.map_eq_some_iff.mp he
      obtain ⟨φ,hφ,ho⟩ := h.served.busy i _ hr
      obtain ⟨φ',ha,-⟩ := hφ r
      obtain ⟨floor,hf,hs⟩ := h.speaking i _ hr
      obtain ⟨floor',hspeaks,hk⟩ := hf r
      cases ha with
      | sql _ ha =>
        obtain ⟨hs',hothers⟩ := chatExec_speaking h.served.inv hs ho ha hspeaks hexec
        have haround := (chatExec_served h.served.inv ho ha hexec).2.2
        exact h.serve hserved (fun j hj => ⟨hothers j hj,(haround j hj).own⟩) hk hs'
    · cases he
  | answer i oracle =>
    simp only [ChatServer.step] at he
    split at he
    · cases he
    · rename_i request op k hop hr
      cases he
      obtain ⟨floor,hf,hs⟩ := h.speaking i _ hr
      obtain ⟨floor',hspeaks,hk⟩ := hf (oracle op)
      have hsame : floor' = floor := by
        refine answer_floor hspeaks ?_
        rintro d stmt rfl
        exact hop _ _ _ rfl HEq.rfl
      subst hsame
      exact h.serve hserved (fun _ _ => ⟨rfl,rfl⟩) hk hs
    · cases he
  | kill i =>
    simp only [ChatServer.step] at he
    split at he
    · rename_i request program hr
      cases he
      obtain ⟨floor,-,hs⟩ := h.speaking i _ hr
      have hgone : Speaking request (s.store.forget i) i .finished := by
        change Says request ((s.store.forget i).voiced i)
        rw [voiced_of_silent own_forget_self]
        exact hs.says
      exact h.serve hserved (fun j hj => ⟨spoken_congr rfl,own_forget_other hj⟩) trivial hgone
    · cases he

/-- Two sessions have not said the same. -/
theorem said_once {s : ChatStore} (hs : s.Inv) {i j : ℕ} {m : Message} (hi : m ∈ s.spoken i) (hj : m ∈ s.spoken j) : j = i := by
  have hnodup : ((s.said.filter fun p => decide (p.2.conversationId = m.conversationId)).map fun p => p.2.seq).Nodup := by
    have hseqs := hs.numbered m.conversationId
    unfold saidIn at hseqs
    rw [List.filter_map, List.map_map] at hseqs
    have hrange := List.nodup_range (n := (s.saidIn m.conversationId).length)
    unfold saidIn at hrange
    rw [List.filter_map] at hrange
    exact hseqs ▸ hrange
  have hmem : ∀ {k}, m ∈ s.spoken k → (k,m) ∈ s.said.filter fun p => decide (p.2.conversationId = m.conversationId) :=
    fun hk => List.mem_filter.mpr ⟨mem_spoken.mp hk,by simp⟩
  have hpair := List.inj_on_of_nodup_map hnodup (hmem hj) (hmem hi) rfl
  exact congrArg Prod.fst hpair

/-- In every state the requests reach, what a request has committed is nothing, its question, or its
question and a reply after it in the same conversation; and every message there is was committed by
one request, and by no other. -/
theorem every_message_attributed (server : ChatServer) (s : ServerState B) (h : Reach server.step .initial s) :
    (∀ i r, s.requests i = some r → Says r.request (s.store.spoken i)) ∧
    ∀ k m, s.store.db.messages.get k = some m →
      ∃ i r, s.requests i = some r ∧ m ∈ s.store.spoken i ∧ ∀ j, m ∈ s.store.spoken j → j = i := by
  have hs : Attributed s := h.invariant initial_attributed fun _ _ _ hs _ he => step_attributed hs he
  refine ⟨fun i r hr => ?_,fun k m hk => ?_⟩
  · obtain ⟨floor,-,hspeaking⟩ := hs.speaking i r hr
    exact hspeaking.says
  · have hsaid : m ∈ s.store.saidIn m.conversationId := by
      have htr : m ∈ s.store.db.transcript m.conversationId := Db.mem_transcript.mpr ⟨⟨k,hk⟩,rfl⟩
      rwa [hs.served.inv.transcript, if_pos (hs.served.inv.attached hk)] at htr
    obtain ⟨⟨i,m'⟩,hp,rfl⟩ := List.mem_map.mp (List.mem_filter.mp hsaid).1
    have hspoken := mem_spoken.mpr hp
    cases hr : s.requests i with
    | none =>
      rw [hs.silent i hr] at hspoken
      cases hspoken
    | some r => exact ⟨i,r,hr,hspoken,fun j hj => said_once hs.served.inv hspoken hj⟩

end Runs

/-! ## A reply after another's question -/

section
open Instrumentation ChatStore

/-- A turn opens a conversation and another asks there before the first has its reply. -/
def asksBetween : List (ServerAction (notedSignature quietSignature)) :=
  [asksNoted 0 none "hi"] ++ List.replicate 9 (runsNoted 0 7) ++ [asksNoted 1 (some 7) "yo"] ++
  List.replicate 12 (runsNoted 1 8) ++ List.replicate 14 (.answer 0 succeeds) ++ List.replicate 6 (runsNoted 0 9)

def seqsOf (s : ServerState (notedSignature quietSignature)) (i : ℕ) : List ℕ := (s.store.spoken i).map Message.seq

theorem asksBetween_run : (play quietServer.step .initial asksBetween).any (fun s =>
    decide (seqsOf s 0 = [0,2]) && decide (seqsOf s 1 = [1]) && (s.requests 0).isSome) = true := by
  decide +kernel

theorem every_message_attributed_between : ∃ (s : ServerState (notedSignature quietSignature))
    (r : Serving (notedSignature quietSignature)),
    s.requests 0 = some r ∧ seqsOf s 0 = [0,2] ∧ seqsOf s 1 = [1] ∧ Says r.request (s.store.spoken 0) := by
  obtain ⟨s,hp,hs⟩ := play_any asksBetween_run
  simp only [Bool.and_eq_true, decide_eq_true_eq] at hs
  obtain ⟨⟨hzero,hone⟩,hthere⟩ := hs
  obtain ⟨r,hr⟩ := Option.isSome_iff_exists.mp hthere
  exact ⟨s,r,hr,hzero,hone,(every_message_attributed quietServer s (play_reach hp)).1 0 r hr⟩

end
end InferenceLogger
