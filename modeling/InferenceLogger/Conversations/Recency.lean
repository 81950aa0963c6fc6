import InferenceLogger.Conversations.Aggregate
import InferenceLogger.Conversations.Clock

/-! # Recency

The lock of an append may be granted long after its transaction began. While no transaction takes
the lock of a conversation that one begun after it has already written to, `updated_at` and the
times of the messages go forward.
-/
namespace InferenceLogger
open PyText PyJson AsyncTask KeyedTable Transition

namespace ChatStore
variable {s : ChatStore} {i j : ℕ}

/-! ## The lock -/

/-- Where an append begins: the lock is granted on a row that is there, or there is nothing to
append to. -/
theorem Owns.granted {φ φ' : ChatPhase} {stmt : ChatSql} {a : Append} {r} (ho : s.Owns i φ) (h : SqlAllows φ stmt r φ')
    (ha : phaseAppend φ' = some a) : stmt.ends = false ∧ (phaseAppend φ = some a ∨
      stmt = .lockConversation a.id ∧ (∃ u, r = .ok u) ∧ (s.Live a → (s.view i).conversations.has a.id = true)) := by
  cases h with
  | @lock c created content r =>
    cases r with
    | error e => cases ha
    | ok u =>
      cases ha
      refine ⟨rfl,.inr ⟨rfl,⟨u,rfl⟩,fun hl => ?_⟩⟩
      obtain ⟨hown,hcr,-⟩ := ho
      unfold view
      rw [hown]
      cases created with
      | true => exact Table.has_iff.mpr ⟨c,(Db.applyChat_opened (hcr rfl).absent).row⟩
      | false => exact hl.resolve_left (by simp)
  | @lockHome h content r =>
    cases r with
    | error e => cases ha
    | ok u =>
      cases ha
      refine ⟨rfl,.inr ⟨rfl,⟨u,rfl⟩,fun hl => ?_⟩⟩
      unfold view
      rw [ho.1]
      exact hl.resolve_left (by simp)
  | number r | insert r | touch r | title r | read r =>
    cases r with
    | error e => cases ha
    | ok u => exact ⟨rfl,.inl ha⟩
  | get id r =>
    cases r with
    | error e => cases ha
    | ok found => cases found <;> cases ha
  | create r | list r | drop r | dropConversation r | commit r => cases r <;> cases ha
  | rollback | close => cases ha

/-- A commit is seen by no session that appends elsewhere. -/
theorem Dates.apart (hs : s.Inv) {φ : ChatPhase} {begun : Option ℤ} {id : Uuid} {t : ℤ} (hd : s.Dates i φ) (hij : j ≠ i)
    (hg : s.Guards j id) : (id,t) ∉ s.dating i begun := by
  intro hmem
  obtain ⟨-,w,hw,hid⟩ := mem_dating.mp hmem
  cases hd with
  | nothing hquiet =>
    rw [hquiet w hw] at hid
    cases hid
  | opened c hown hc =>
    have hpending := hw
    rw [hown, List.mem_singleton] at hw
    subst hw
    cases hid
    exact guards_apart hs hij hg (.inr ⟨c,rfl,hpending,hc⟩)
  | appended a m t _ hwriting hsub _ _ _ hone =>
    have heq := hone w hw id hid
    subst heq
    exact guards_apart hs hij hg (hwriting.commands hsub)

end ChatStore

/-! ## Runs -/

section Runs
variable {B : Signature} {server : ChatServer} {may : ApiRequest B → Option Home → CallOp B → Prop} {s t : ClockedState B}
open ChatStore

/-- Nothing on record for the conversation of an append is later than its transaction. -/
def Ordered (store : ChatStore) (begun : Option ℤ) (written : List (Uuid × ℤ)) (φ : ChatPhase) : Prop :=
  ∀ a, phaseAppend φ = some a → store.Live a → ∀ t, (a.id,t) ∈ written → ∃ now, begun = some now ∧ t ≤ now

structure Clocked (may : ApiRequest B → Option Home → CallOp B → Prop) (s : ClockedState B) : Prop where
  inv : s.server.store.Inv
  idle : ∀ i, s.server.requests i = none → s.server.store.own i = []
  busy : ∀ i r, s.server.requests i = some r → ∃ φ, Follows (ServerAllows (may r.request)) AtRest r.program φ ∧
    s.server.store.Owns i φ ∧ Ordered s.server.store (s.begun i) s.written φ
  timed : ∀ i, ∀ w ∈ s.server.store.own i, ∀ t ∈ w.time, s.begun i = some t
  dated : s.server.store.Dated s.written

theorem initial_clocked : Clocked may (ClockedState.initial : ClockedState B) where
  inv := by
    have hserved : Served may (ServerState.initial : ServerState B) := initial_served
    exact hserved.inv
  idle := fun _ _ => rfl
  busy := fun _ _ h => nomatch h
  timed := fun _ _ h => nomatch h
  dated := by
    constructor <;> simp [ClockedState.initial,ServerState.initial,ChatStore.saidIn]

theorem ordered_none {store : ChatStore} {begun : Option ℤ} {written : List (Uuid × ℤ)} {φ : ChatPhase}
    (h : phaseAppend φ = none) : Ordered store begun written φ := by
  intro a ha
  rw [h] at ha
  cases ha

/-- A step of request `i`, when its own part is in order and the others do not notice. -/
theorem Clocked.serve (h : Clocked may s) {i : ℕ} {store : ChatStore} {r : Serving B} {φ : ChatPhase} {begun : ℕ → Option ℤ}
    {written : List (Uuid × ℤ)} (hinv : store.Inv) (hothers : ∀ j, j ≠ i → s.server.store.Around j store)
    (hbegun : ∀ j, j ≠ i → begun j = s.begun j)
    (hapart : ∀ j, j ≠ i → ∀ id, s.server.store.Guards j id → ∀ t, (id,t) ∈ written → (id,t) ∈ s.written)
    (hf : Follows (ServerAllows (may r.request)) AtRest r.program φ) (ho : store.Owns i φ)
    (hordered : Ordered store (begun i) written φ) (htimed : ∀ w ∈ store.own i, ∀ t ∈ w.time, begun i = some t)
    (hdated : store.Dated written) :
    Clocked may ⟨({s.server with store := store} : ServerState B).serve i r,s.clock,begun,written⟩ where
  inv := hinv
  idle := by
    intro j hj
    by_cases hji : j = i
    · subst hji
      rw [serve_self] at hj
      cases hj
    · rw [serve_other _ hji] at hj
      exact (hothers j hji).own.trans (h.idle j hj)
  busy := by
    intro j r' hj
    by_cases hji : j = i
    · subst hji
      rw [serve_self] at hj
      cases hj
      exact ⟨φ,hf,ho,hordered⟩
    · rw [serve_other _ hji] at hj
      obtain ⟨ψ,hψ,hown,hord⟩ := h.busy j r' hj
      refine ⟨ψ,hψ,(hothers j hji).owns hown,?_⟩
      intro a ha hl t ht
      have hp := hown.placed ha
      obtain ⟨now,hnow,hle⟩ := hord a ha (((hothers j hji).live hp).mp hl) t (hapart j hji a.id hp.guards t ht)
      exact ⟨now,(hbegun j hji).trans hnow,hle⟩
  timed := by
    intro j w hw
    by_cases hji : j = i
    · subst hji
      exact htimed w hw
    · change w ∈ store.own j at hw
      rw [(hothers j hji).own] at hw
      exact fun t ht => (hbegun j hji).trans (h.timed j w hw t ht)
  dated := hdated

/-- A statement that was answered, in turn. -/
theorem Clocked.statement (h : Clocked may s) {i : ℕ} {choice : ChatChoice} {request : ApiRequest B} {d : Bool} {stmt : ChatSql}
    {k : Except Exc (chatSqlSignature.Answer stmt) → ChatGen B Unit} {store : ChatStore} {r}
    (hr : s.server.requests i = some ⟨request,.await (.base (.sql d stmt)) k⟩)
    (hclock : stmt.ends = true ∨ s.begun i = some choice.now) (hturn : s.InTurn (.act (.statement i choice)))
    (hexec : chatExec server.pg i s.server.store stmt choice = some (store,r)) :
    Clocked may (s.answered i (({s.server with store := store} : ServerState B).serve i ⟨request,k r⟩) stmt choice.fault) := by
  obtain ⟨φ,hf,ho,hord⟩ := h.busy i _ hr
  obtain ⟨φ',ha,hk⟩ := hf r
  cases ha with
  | sql _ ha =>
    obtain ⟨hinv,ho',hothers⟩ := chatExec_served h.inv ho ha hexec
    have htimed := chatExec_timed hexec
    have hbegun : ∀ j, j ≠ i → (if stmt.ends then Function.update s.begun i none else s.begun) j = s.begun j := by
      intro j hj
      split
      · exact Function.update_of_ne hj _ _
      · rfl
    by_cases hc : stmt = .commit
    · subst hc
      have hempty : store.own i = [] ∧ phaseAppend φ' = none := by
        cases ha
        cases r <;> exact ⟨ho'.1,rfl⟩
      have hquiet : ∀ w ∈ store.own i, ∀ t ∈ w.time,
          (if ChatSql.commit.ends then Function.update s.begun i none else s.begun) i = some t := by
        intro w hw
        rw [hempty.1] at hw
        cases hw
      cases ha with
      | @commit _ home r hset =>
        have hdates := ho.dates h.inv hset
        have hlanded : store = s.server.store.commit i →
            Clocked may ⟨({s.server with store := store} : ServerState B).serve i ⟨request,k r⟩,
            s.clock,if ChatSql.commit.ends then Function.update s.begun i none else s.begun,
            s.written ++ s.server.store.dating i (s.begun i)⟩ := by
          rintro rfl
          refine h.serve hinv hothers hbegun ?_ hk ho' (ordered_none hempty.2) hquiet (h.dated.commit hdates (h.timed i) hord)
          intro j hj id hg t ht
          exact (List.mem_append.mp ht).resolve_right (hdates.apart h.inv hj hg)
        unfold chatExec at hexec
        split at hexec
        · rename_i hfault
          cases hexec
          rw [hfault]
          exact hlanded rfl
        · rename_i hfault
          cases hexec
          rw [hfault]
          exact h.serve hinv hothers hbegun (fun _ _ _ _ _ ht => ht) hk ho' (ordered_none hempty.2) hquiet
            (h.dated.quiet (quiet_abort i _))
        · rename_i hfault
          cases hexec
          rw [hfault]
          exact hlanded rfl
    · have hlands : stmt.lands choice.fault = false := by
        cases stmt <;> first | rfl | exact absurd rfl hc
      have hq := (chatExec_performs hc hexec).quiet
      unfold ClockedState.answered
      rw [hlands]
      refine h.serve hinv hothers hbegun (fun _ _ _ _ _ ht => ht) hk ho' ?_ ?_ (h.dated.quiet hq)
      · intro a hpa hl t ht
        obtain ⟨hends,hsame | ⟨rfl,⟨u,rfl⟩,hhas⟩⟩ := ho.granted ha hpa
        · have hlive : s.server.store.Live a := by
            unfold Live at hl ⊢
            rwa [hq.db] at hl
          rw [hends]
          exact hord a hsame hlive t ht
        · have hlive : s.server.store.Live a := by
            unfold Live at hl ⊢
            rwa [hq.db] at hl
          have hfault : choice.fault = .none := by
            unfold chatExec at hexec
            split at hexec
            · assumption
            · cases hexec
            · cases hexec
          rw [hends]
          exact ⟨choice.now,hclock.resolve_left (by simp [hends]),hturn _ _ _ _ hr hfault (hhas hlive) t ht⟩
      · intro w hw t ht
        cases hends : stmt.ends with
        | true =>
          have hempty : store.own i = [] := by
            cases ha with
            | rollback | close => exact ho'.1
            | commit => exact absurd rfl hc
            | _ => cases hends
          rw [hempty] at hw
          cases hw
        | false =>
          have hnow := hclock.resolve_left (by simp [hends])
          rcases htimed.own hw with hold | hnew
          · exact h.timed i w hold t ht
          · rw [hnew t ht]
            exact hnow

/-- A session without a transaction has no pending write that the clock was read for. -/
theorem Clocked.begin (h : Clocked may s) {i : ℕ} (hnone : s.begun i = none) (now : ℤ) :
    Clocked may {s with begun := Function.update s.begun i (some now)} where
  inv := h.inv
  idle := h.idle
  busy := by
    intro j r hj
    obtain ⟨φ,hf,ho,hord⟩ := h.busy j r hj
    refine ⟨φ,hf,ho,fun a ha hl t ht => ?_⟩
    obtain ⟨now',hnow,hle⟩ := hord a ha hl t ht
    have hji : j ≠ i := by
      rintro rfl
      rw [hnone] at hnow
      cases hnow
    exact ⟨now',(Function.update_of_ne hji _ _).trans hnow,hle⟩
  timed := by
    intro j w hw t ht
    have htime := h.timed j w hw t ht
    have hji : j ≠ i := by
      rintro rfl
      rw [hnone] at htime
      cases htime
    exact (Function.update_of_ne hji _ _).trans htime
  dated := h.dated

theorem clockedStep_clocked {a : ClockedAction B} (h : Clocked may s)
    (haccept : ∀ i request, a = .act (.accept i request) →
      Follows (ServerAllows (may request)) AtRest (server.program request) (.idle none))
    (hturn : s.InTurn a) (he : server.clockedStep s a = some t) : Clocked may t := by
  have hrefl : ∀ j, s.server.store.Around j s.server.store := fun j => around_refl j _
  cases a with
  | tick now =>
    simp only [ChatServer.clockedStep] at he
    split at he
    · cases he
      exact ⟨h.inv,h.idle,h.busy,h.timed,h.dated⟩
    · cases he
  | «begin» i =>
    simp only [ChatServer.clockedStep] at he
    split at he
    · rename_i hnone
      split at he
      · cases he
      · cases he
        exact h.begin hnone s.clock
    · cases he
  | act a =>
    cases a with
    | accept i request =>
      simp only [ChatServer.clockedStep, ChatServer.step] at he
      split at he
      · rename_i hnone
        cases he
        refine h.serve h.inv (fun j _ => hrefl j) (fun _ _ => rfl) (fun _ _ _ _ _ ht => ht) (haccept i request rfl)
          ⟨h.idle i hnone,by simp [AtHome]⟩ (ordered_none rfl) ?_ h.dated
        exact h.timed i
      · cases he
    | statement i choice =>
      simp only [ChatServer.clockedStep] at he
      split at he
      · rename_i request d stmt k hr
        split at he
        · rename_i hclock
          simp only [ChatServer.step, hr, Option.map_map] at he
          obtain ⟨⟨store,r⟩,hexec,rfl⟩ := Option.map_eq_some_iff.mp he
          refine h.statement hr ?_ hturn hexec
          rcases Bool.or_eq_true_iff.mp hclock with hends | hnow
          · exact .inl hends
          · exact .inr (eq_of_beq hnow)
        · cases he
      · cases he
    | answer i oracle =>
      simp only [ChatServer.clockedStep, ChatServer.step] at he
      split at he
      · cases he
      · rename_i request op k hop hr
        cases he
        obtain ⟨φ,hf,ho,hord⟩ := h.busy i _ hr
        obtain ⟨φ',ha,hk⟩ := hf (oracle op)
        have hsame : φ' = φ := by
          refine answer_phase ha ?_
          rintro d stmt rfl
          exact hop _ _ _ rfl HEq.rfl
        subst hsame
        exact h.serve h.inv (fun j _ => hrefl j) (fun _ _ => rfl) (fun _ _ _ _ _ ht => ht) hk ho hord (h.timed i) h.dated
      · cases he
    | kill i =>
      simp only [ChatServer.clockedStep, ChatServer.step] at he
      split at he
      · rename_i request program hr
        cases he
        have hq := quiet_forget i s.server.store
        have hdone : Follows (ServerAllows (may request)) AtRest (.done () : ChatGen B Unit) (.idle none) := ⟨none,rfl⟩
        have hempty : (s.server.store.forget i).own i = [] := own_forget_self
        refine h.serve (hq.inv h.inv) (fun j hj => hq.around hj) (fun j hj => Function.update_of_ne hj _ _)
          (fun _ _ _ _ _ ht => ht) hdone ⟨hempty,by simp [AtHome]⟩ (ordered_none rfl) ?_ (h.dated.quiet hq)
        intro w hw
        rw [hempty] at hw
        cases hw
      · cases he

theorem clockedStep_written {a : ClockedAction B} (he : server.clockedStep s a = some t) : s.written ⊆ t.written := by
  cases a with
  | tick now =>
    simp only [ChatServer.clockedStep] at he
    split at he
    · cases he
      exact fun _ hp => hp
    · cases he
  | «begin» i =>
    simp only [ChatServer.clockedStep] at he
    split at he
    · split at he
      · cases he
      · cases he
        exact fun _ hp => hp
    · cases he
  | act a =>
    cases a with
    | accept | answer | kill =>
      obtain ⟨u,-,rfl⟩ := Option.map_eq_some_iff.mp he
      exact fun _ hp => hp
    | statement i choice =>
      simp only [ChatServer.clockedStep] at he
      split at he
      · split at he
        · obtain ⟨u,-,rfl⟩ := Option.map_eq_some_iff.mp he
          unfold ClockedState.answered
          dsimp only
          split
          · exact List.subset_append_left _ _
          · exact fun _ hp => hp
        · cases he
      · cases he

theorem run_clocked (hs : Clocked (fun _ _ _ => True) s) (h : Guarded server.clockedStep ClockedState.InTurn s t) :
    Clocked (fun _ _ _ => True) t ∧ s.written ⊆ t.written := by
  induction h with
  | refl => exact ⟨hs,fun _ hp => hp⟩
  | step _ ha he ih =>
    obtain ⟨hclocked,hwritten⟩ := ih
    refine ⟨clockedStep_clocked hclocked (fun i request _ => ?_) ha he,List.Subset.trans hwritten (clockedStep_written he)⟩
    apply program_follows request
    intro _ _ _ _ _ _
    exact calls_any _

theorem Clocked.transcript_sorted (h : Clocked may s) (id : Uuid) :
    ∀ m ∈ s.server.store.db.transcript id, ∀ m' ∈ s.server.store.db.transcript id,
      m.seq < m'.seq → m.createdAt ≤ m'.createdAt := by
  rw [h.inv.transcript]
  split
  · have hseq : (s.server.store.saidIn id).Pairwise fun m m' => m.seq < m'.seq := by
      rw [← List.pairwise_map, h.inv.numbered]
      exact List.pairwise_lt_range
    have hle : (s.server.store.saidIn id).Pairwise fun m m' => m.seq < m'.seq → m.createdAt ≤ m'.createdAt := by
      refine (h.dated.sorted id).imp ?_
      exact fun hle _ => hle
    have hflip : (s.server.store.saidIn id).Pairwise (flip fun m m' => m.seq < m'.seq → m.createdAt ≤ m'.createdAt) :=
      hseq.imp fun hlt hgt => absurd hlt (Nat.lt_asymm hgt)
    intro m hm m' hm'
    exact List.Pairwise.forall_of_forall_of_flip (fun _ _ _ => le_rfl) hle hflip hm hm'
  · exact fun m hm => absurd hm List.not_mem_nil

/-- In a run in turn, the time of a conversation never goes back, and a message with a larger number
is not older. -/
theorem recency_forward (server : ChatServer) (s t : ClockedState B)
    (hs : Guarded server.clockedStep ClockedState.InTurn .initial s)
    (ht : Guarded server.clockedStep ClockedState.InTurn s t) :
    (∀ id c c', s.server.store.db.conversations.get id = some c → t.server.store.db.conversations.get id = some c' →
      c.updatedAt ≤ c'.updatedAt) ∧
    ∀ id, ∀ m ∈ t.server.store.db.transcript id, ∀ m' ∈ t.server.store.db.transcript id,
      m.seq < m'.seq → m.createdAt ≤ m'.createdAt := by
  obtain ⟨hclocked,-⟩ := run_clocked initial_clocked hs
  obtain ⟨hclocked',hwritten⟩ := run_clocked hclocked ht
  refine ⟨?_,fun id => hclocked'.transcript_sorted id⟩
  intro id c c' hc hc'
  exact (hclocked'.dated.rows id c' hc').2 _ (hwritten (hclocked.dated.rows id c hc).1)

end Runs

/-! ## Two turns at once -/

section
open Instrumentation

/-- Whether a step comes in turn. -/
def checksTurn {B : Signature} (s : ClockedState B) : ClockedAction B → Bool
  | .act (.statement i choice) => match s.server.requests i with
    | some ⟨_,.await (.base (.sql _ (.lockConversation id))) _⟩ => s.written.all fun p => p.1 != id || decide (p.2 ≤ choice.now)
    | _ => true
  | _ => true

theorem inTurn_of_checks {B : Signature} (s : ClockedState B) (a : ClockedAction B)
    (h : checksTurn s a = true) : s.InTurn a := by
  cases a with
  | tick | «begin» => exact trivial
  | act a =>
    cases a with
    | accept | answer | kill => exact trivial
    | statement i choice =>
      intro request d id k hr _ _ now hnow
      simp only [checksTurn, hr] at h
      have hp := List.all_eq_true.mp h _ hnow
      simpa using hp

/-- The next statement of a request goes through, in a transaction that began at this time. -/
def runsAt (i : ℕ) (now : ℤ) (id : Uuid) : ClockedAction quietSignature := .act (.statement i ⟨.none,now,id⟩)

/-- A turn opens a conversation, and two turns look it up: the transaction of the second begins
after that of the first. -/
def twoBegun : List (ClockedAction quietSignature) :=
  [.act (asks 0 none "hi"),.begin 0] ++ List.replicate 9 (runsAt 0 0 7) ++
  [.act (asks 1 (some 7) "yo"),.act (asks 2 (some 7) "ya"),.tick 1,.begin 1] ++ List.replicate 3 (runsAt 1 1 8) ++
  [.begin 1,runsAt 1 1 8,.tick 2,.begin 2] ++ List.replicate 3 (runsAt 2 2 9) ++ [.begin 2,runsAt 2 2 9]

def firstAppends : List (ClockedAction quietSignature) := List.replicate 8 (runsAt 1 1 8)

def secondAppends : List (ClockedAction quietSignature) := List.replicate 8 (runsAt 2 2 9)

/-- The time of the conversation, and those of its messages. -/
def times (s : ClockedState quietSignature) : Option ℤ × List ℤ :=
  ((s.server.store.db.conversations.get 7).map Conversation.updatedAt,(s.server.store.db.transcript 7).map Message.createdAt)

theorem twoBegun_first : (play (checked quietServer.clockedStep checksTurn) .initial (twoBegun ++ firstAppends)).any (fun s =>
    decide (times s = (some 1,[0,1])) && (play (checked quietServer.clockedStep checksTurn) s secondAppends).any fun t =>
      decide (times t = (some 2,[0,1,2]))) = true := by
  decide

theorem twoBegun_second : (play quietServer.clockedStep .initial (twoBegun ++ secondAppends)).any (fun s =>
    decide (times s = (some 2,[0,2])) && (play quietServer.clockedStep s firstAppends).any fun t =>
      decide (times t = (some 1,[0,2,1])) &&
        decide ((t.server.store.db.transcript 7).map Message.seq = [0,1,2])) = true := by
  decide

theorem recency_forward_two : ∃ s t : ClockedState quietSignature, ∃ c c', s.server.store.db.conversations.get 7 = some c ∧
    t.server.store.db.conversations.get 7 = some c' ∧ c.updatedAt ≤ c'.updatedAt ∧ times t = (some 2,[0,1,2]) := by
  obtain ⟨s,hs,hboth⟩ := play_any twoBegun_first
  obtain ⟨hfirst,hsecond⟩ := Bool.and_eq_true_iff.mp hboth
  obtain ⟨t,ht,htimes⟩ := (Option.any_eq_true _ _).mp hsecond
  obtain ⟨c,hc,-⟩ := Option.map_eq_some_iff.mp (congrArg Prod.fst (of_decide_eq_true hfirst))
  obtain ⟨c',hc',-⟩ := Option.map_eq_some_iff.mp (congrArg Prod.fst (of_decide_eq_true htimes))
  obtain ⟨hforward,-⟩ := recency_forward quietServer s t (play_checked inTurn_of_checks hs) (play_checked inTurn_of_checks ht)
  exact ⟨s,t,c,c',hc,hc',hforward 7 c c' hc hc',of_decide_eq_true htimes⟩

/-- The transaction that began first appends last. -/
theorem recency_goes_back : ∃ s t : ClockedState quietSignature, Reach quietServer.clockedStep .initial s ∧
    Reach quietServer.clockedStep s t ∧ times s = (some 2,[0,2]) ∧ times t = (some 1,[0,2,1]) ∧
    (t.server.store.db.transcript 7).map Message.seq = [0,1,2] := by
  obtain ⟨s,hs,hboth⟩ := play_any twoBegun_second
  obtain ⟨hsecond,hfirst⟩ := Bool.and_eq_true_iff.mp hboth
  obtain ⟨t,ht,hlast⟩ := (Option.any_eq_true _ _).mp hfirst
  obtain ⟨htimes,hseq⟩ := Bool.and_eq_true_iff.mp hlast
  exact ⟨s,t,play_reach hs,play_reach ht,of_decide_eq_true hsecond,of_decide_eq_true htimes,of_decide_eq_true hseq⟩

end
end InferenceLogger
