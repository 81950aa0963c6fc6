import InferenceLogger.Conversations.Server
import InferenceLogger.Conversations.Commits

/-! # A clock

The server over a database with a clock. `now()` is read once for each transaction, when it
begins. Every pending write carries the clock of its transaction, and a commit makes the
conversations it wrote to known with it.
-/
namespace InferenceLogger
open PyText PyJson AsyncTask KeyedTable Transition

/-- The conversation that a write is a sign of life of, other than by its row. -/
def ChatWrite.conversation : ChatWrite → Option Uuid
  | .create c => some c.id
  | .insert m => some m.conversationId
  | _ => none

/-- The value of `now()` in a write. A title comes with the `onupdate` of its row, which writes again
what the touch before it has written. -/
def ChatWrite.time : ChatWrite → Option ℤ
  | .create c => some c.updatedAt
  | .insert m => some m.createdAt
  | .touch _ now => some now
  | _ => none

/-- Whether the statement ends the open transaction; it does not begin one. -/
def ChatSql.ends : ChatSql → Bool
  | .commit => true
  | .rollback => true
  | .close => true
  | _ => false

/-- Whether the statement is a commit that takes effect. -/
def ChatSql.lands : ChatSql → Fault → Bool
  | .commit, .before _ => false
  | .commit, _ => true
  | _, _ => false

/-- `begun` is what `now()` is in the open transaction of a session. `written` remembers the
conversations that committed transactions created or appended to, and when those began. -/
structure ClockedState (B : Signature) where
  server : ServerState B
  clock : ℤ
  begun : ℕ → Option ℤ := fun _ => none
  written : List (Uuid × ℤ) := []

inductive ClockedAction (B : Signature) where
  | tick (now : ℤ)
  | begin (i : ℕ)
  | act (a : ServerAction B)

/-- What the open transaction of a session is about to make known. -/
def ChatStore.dating (s : ChatStore) (i : ℕ) (begun : Option ℤ) : List (Uuid × ℤ) :=
  begun.toList.flatMap fun now => ((s.own i).filterMap ChatWrite.conversation).map fun id => (id,now)

section
variable {B : Signature} (server : ChatServer)

namespace ClockedState

def ended (s : ClockedState B) (i : ℕ) : ClockedState B := {s with begun := Function.update s.begun i none}

/-- After a statement that was answered. -/
def answered (s : ClockedState B) (i : ℕ) (t : ServerState B) (stmt : ChatSql) (fault : Fault) : ClockedState B :=
  {s with
    server := t
    begun := if stmt.ends then Function.update s.begun i none else s.begun
    written := if stmt.lands fault then s.written ++ s.server.store.dating i (s.begun i) else s.written}

end ClockedState

/-- A statement reads the clock of its transaction. -/
def ChatServer.clockedStep : Step (ClockedState B) (ClockedAction B) := fun s a =>
  match a with
  | .tick now => if s.clock ≤ now then some {s with clock := now} else none
  | .begin i => match s.server.requests i, s.begun i with
    | some ⟨_,.await (.base (.sql _ stmt)) _⟩, none =>
      if stmt.ends then none else some {s with begun := Function.update s.begun i (some s.clock)}
    | _, _ => none
  | .act (.statement i choice) => match s.server.requests i with
    | some ⟨_,.await (.base (.sql _ stmt)) _⟩ =>
      if stmt.ends || s.begun i == some choice.now then
        (server.step s.server (.statement i choice)).map fun t => s.answered i t stmt choice.fault
      else none
    | _ => none
  | .act (.kill i) => (server.step s.server (.kill i)).map fun t => {s.ended i with server := t}
  | .act a => (server.step s.server a).map fun t => {s with server := t}

/-- No transaction is granted the lock of a conversation that one begun after it has written to. -/
def ClockedState.InTurn (s : ClockedState B) : ClockedAction B → Prop
  | .act (.statement i choice) => ∀ request d id k,
      s.server.requests i = some ⟨request,.await (.base (.sql d (.lockConversation id))) k⟩ → choice.fault = .none →
      (s.server.store.view i).conversations.has id = true → ∀ now, (id,now) ∈ s.written → now ≤ choice.now
  | _ => True

end

def ClockedState.initial {B : Signature} : ClockedState B where
  server := .initial
  clock := 0

/-! ## Single statements -/

namespace ChatStore
variable {s s' : ChatStore} {i j : ℕ}

/-- A pending write of another kind, or with this time. -/
def Timed (s : ChatStore) (i : ℕ) (now : ℤ) (s' : ChatStore) : Prop :=
  ∀ w ∈ s'.writes, w ∈ s.writes ∨ w.1 = i ∧ ∀ t ∈ w.2.time, t = now

theorem timed_refl (now : ℤ) : Timed s i now s := fun _ hw => .inl hw

theorem timed_forget (now : ℤ) : Timed s i now (s.forget i) := fun _ hw => .inl (List.mem_of_mem_filter hw)

theorem timed_push {s₀ : ChatStore} {new : ChatWrite} {now : ℤ} (hs : s₀.writes = s.writes) (hnew : ∀ t ∈ new.time, t = now) :
    Timed s i now (s₀.push i new) := by
  intro w hw
  rcases List.mem_append.mp hw with hw | hw
  · exact .inl (hs ▸ hw)
  · rw [List.mem_singleton.mp hw]
    exact .inr ⟨rfl,hnew⟩

theorem timed_onRow {mode : LockMode} {id : Uuid} {change : Option ChatWrite} {now : ℤ} {r : Except Exc Unit}
    (hchange : ∀ new ∈ change, ∀ t ∈ new.time, t = now) (h : s.onRow i mode id change = some (s',r)) :
    Timed s i now s' := by
  rcases onRow_cases h with ⟨-,rfl,-⟩ | ⟨-,-,-,rfl⟩
  · exact timed_refl now
  · cases change with
    | none => exact timed_refl now
    | some new => exact timed_push rfl (hchange new rfl)

theorem timed_statement {α : Type} {admits : Bool} {run : Option (ChatStore × Except Exc α)} {now : ℤ} {r : Except Exc α}
    (h : s.statement i admits run = some (s',r)) (hrun : run = some (s',r) → Timed s i now s') : Timed s i now s' := by
  rcases statement_cases h with ⟨rfl,-⟩ | ⟨rfl,-⟩ | ⟨-,h⟩
  · exact timed_refl now
  · exact timed_forget now
  · exact hrun h

/-- What a statement writes carries the clock of its transaction. -/
theorem perform_timed {pg : Postgres} {now : ℤ} {fresh : Uuid} {op : ChatSql} {r}
    (h : s.perform pg i now fresh op = some (s',r)) : Timed s i now s' := by
  have hnone : ∀ {w : ChatWrite}, w.time = none → ∀ t ∈ w.time, t = now := by
    intro w hw t ht
    rw [hw] at ht
    cases ht
  cases op with
  | commit | rollback | close =>
    cases h
    exact timed_forget now
  | getConversation id | nextSeq id | messages id =>
    refine timed_statement h fun h => ?_
    cases h
    exact timed_refl now
  | createConversation title =>
    refine timed_statement h fun h => ?_
    split at h
    · cases h
    · cases h
      exact timed_push rfl fun t ht => (Option.mem_some_iff.mp ht).symm
  | lockConversation id => exact timed_statement h (timed_onRow (fun _ hnew => nomatch hnew))
  | insertMessage id role content seq =>
    refine timed_statement h fun h => ?_
    split at h
    · cases h
    split at h
    · cases h
    split at h
    · cases h
      exact timed_forget now
    split at h
    · split at h
      · cases h
      · cases h
        exact timed_push rfl fun t ht => (Option.mem_some_iff.mp ht).symm
    · cases h
      exact timed_forget now
  | touch id =>
    refine timed_statement h (timed_onRow ?_)
    intro new hnew t ht
    cases hnew
    exact (Option.mem_some_iff.mp ht).symm
  | setTitleIfNull id title =>
    refine timed_statement h fun h => ?_
    split at h
    · refine timed_onRow ?_ h
      intro new hnew
      cases hnew
      exact hnone rfl
    · cases h
      exact timed_refl now
  | deleteMessage id =>
    refine timed_statement h fun h => ?_
    split at h
    · split at h
      · cases h
      · cases h
        exact timed_push rfl (hnone rfl)
    · cases h
      exact timed_refl now
  | deleteConversation id =>
    refine timed_statement h fun h => ?_
    split at h
    · cases h
    · refine timed_onRow ?_ h
      intro new hnew
      cases hnew
      exact hnone rfl

theorem chatExec_timed {pg : Postgres} {op : ChatSql} {choice : ChatChoice} {r}
    (h : chatExec pg i s op choice = some (s',r)) : Timed s i choice.now s' := by
  unfold chatExec at h
  split at h
  · exact perform_timed h
  · cases h
    cases op <;> exact timed_forget _
  · cases h
    cases op <;> exact timed_forget _

theorem Timed.own {now : ℤ} (h : Timed s i now s') {w : ChatWrite} (hw : w ∈ s'.own i) :
    w ∈ s.own i ∨ ∀ t ∈ w.time, t = now := by
  rcases h _ (mem_own.mp hw) with hold | ⟨-,hnew⟩
  · exact .inl (mem_own.mpr hold)
  · exact .inr hnew

/-! ## What a commit dates -/

/-- The append that a phase is part of. -/
def phaseAppend : ChatPhase → Option Append
  | .locked a => some a
  | .numbered a _ => some a
  | .inserted a _ => some a
  | .touched a _ => some a
  | .titled a _ => some a
  | .read a _ _ => some a
  | _ => none

theorem Owns.placed {φ : ChatPhase} {a : Append} (ho : s.Owns i φ) (ha : phaseAppend φ = some a) : s.Placed i a := by
  cases φ with
  | locked b | numbered b n =>
    cases ha
    first | exact ho.2 | exact ho.2.1
  | inserted b m =>
    cases ha
    exact ho.2.placed
  | touched b m =>
    cases ha
    obtain ⟨-,-,hw⟩ := ho
    exact hw.placed
  | titled b m =>
    cases ha
    obtain ⟨-,-,-,hw⟩ := ho
    exact hw.placed
  | read b m history =>
    cases ha
    obtain ⟨-,-,hw,-⟩ := ho
    exact hw.placed
  | _ => cases ha

/-- What the transaction of a session in this phase makes known when it commits: nothing, a
conversation, or a message and the time of its conversation. -/
inductive Dates (s : ChatStore) (i : ℕ) (φ : ChatPhase) : Prop where
  | nothing : (∀ w ∈ s.own i, w.conversation = none) →
      (∀ k c, (s.view i).conversations.get k = some c → s.db.conversations.get k = some c) → Dates s i φ
  | opened (c : Conversation) : s.own i = [.create c] → s.Creates i c → Dates s i φ
  | appended (a : Append) (m : Message) (t : ℤ) : phaseAppend φ = some a → s.Writing i a m → a.opening ⊆ s.own i →
      (s.own i).filterMap ChatWrite.message = [m] → .insert m ∈ s.own i → .touch a.id t ∈ s.own i →
      (∀ w ∈ s.own i, ∀ k ∈ w.conversation, k = a.id) →
      (∀ c, (s.view i).conversations.get a.id = some c → c.updatedAt = t) →
      (∀ k, k ≠ a.id → (s.view i).conversations.get k = s.db.conversations.get k) → Dates s i φ

theorem touched_row {db : Db} {id : Uuid} {t : ℤ} {c : Conversation}
    (h : (db.applyChat (.touch id t)).conversations.get id = some c) : c.updatedAt = t := by
  simp only [Db.applyChat, Table.get_updateAt, if_true] at h
  obtain ⟨c₀,-,rfl⟩ := Option.map_eq_some_iff.mp h
  rfl

theorem titled_row {db : Db} {id : Uuid} {title : Text} {c : Conversation}
    (h : (db.applyChat (.title id title)).conversations.get id = some c) :
    ∃ c₀, db.conversations.get id = some c₀ ∧ c.updatedAt = c₀.updatedAt := by
  simp only [Db.applyChat, Table.get_updateAt, if_true] at h
  obtain ⟨c₀,hc₀,rfl⟩ := Option.map_eq_some_iff.mp h
  exact ⟨c₀,hc₀,rfl⟩

theorem appended_row {db : Db} {a : Append} {m : Message} {t : ℤ} {c : Conversation}
    (h : (db.applyChats (a.opening ++ [.insert m,.touch a.id t])).conversations.get a.id = some c) : c.updatedAt = t := by
  have hsplit : a.opening ++ [.insert m,.touch a.id t] = (a.opening ++ [.insert m]) ++ [.touch a.id t] := by simp
  rw [hsplit, Db.applyChats_append] at h
  exact touched_row h

theorem headed_row {db : Db} {a : Append} {m : Message} {t : ℤ} {c : Conversation}
    (h : (db.applyChats (a.opening ++ [.insert m,.touch a.id t] ++ s.heading a)).conversations.get a.id = some c) :
    c.updatedAt = t := by
  rw [Db.applyChats_append] at h
  unfold heading at h
  split at h
  · obtain ⟨c₀,hc₀,heq⟩ := titled_row h
    exact heq.trans (appended_row hc₀)
  · exact appended_row h

theorem opening_conversation {a : Append} {w : ChatWrite} {k : Uuid} (hp : s.Placed i a) (hw : w ∈ a.opening)
    (hk : k ∈ w.conversation) : k = a.id := by
  obtain ⟨c,hc,rfl⟩ := List.mem_map.mp hw
  rw [Option.mem_toList] at hc
  cases hk
  exact (hp.created c hc).1

theorem Owns.dates (hs : s.Inv) {φ : ChatPhase} {home : Option Home} (ho : s.Owns i φ) (h : φ.settles home) : s.Dates i φ := by
  have hidle : s.own i = [] → s.Dates i φ := by
    intro hown
    refine .nothing (by simp [hown]) ?_
    unfold view
    rw [hown]
    exact fun _ _ hg => hg
  have hbody : ∀ {a : Append} {m : Message} {t : ℤ} {rest : List ChatWrite}, s.own i =
      a.opening ++ ([.insert m,.touch a.id t] ++ rest) →
      s.Writing i a m → rest = [] ∨ rest = s.heading a → (∀ w ∈ s.own i, ∀ k ∈ w.conversation, k = a.id) ∧
      (s.own i).filterMap ChatWrite.message = [m] := by
    intro a m t rest hown hw hrest
    have hquiet : ∀ w ∈ rest, w.conversation = none ∧ w.message = none := by
      rcases hrest with rfl | rfl
      · simp
      · unfold heading
        split <;> simp [ChatWrite.conversation,ChatWrite.message]
    constructor
    · intro w hmem k hk
      rw [hown] at hmem
      rcases List.mem_append.mp hmem with hmem | hmem
      · exact opening_conversation hw.placed hmem hk
      · rcases List.mem_append.mp hmem with hmem | hmem
        · simp only [List.mem_cons, List.not_mem_nil, or_false] at hmem
          rcases hmem with rfl | rfl
          · cases hk
            exact hw.entry.conversation
          · cases hk
        · rw [(hquiet w hmem).1] at hk
          cases hk
    · have hnil : rest.filterMap ChatWrite.message = [] := List.filterMap_eq_nil_iff.mpr fun w hmem => (hquiet w hmem).2
      rw [hown, List.filterMap_append, List.filterMap_append, opening_message, hnil]
      rfl
  cases φ with
  | resolved c created =>
    obtain ⟨hown,hcr,-⟩ := ho
    cases created with
    | true => exact .opened c hown (hcr rfl)
    | false => exact hidle hown
  | touched a m =>
    obtain ⟨t,hown,hw⟩ := ho
    obtain ⟨hone,hmessage⟩ := @hbody a m t [] hown hw (.inl rfl)
    have hsub : a.opening ⊆ s.own i := by
      rw [hown]
      exact List.subset_append_left _ _
    refine .appended a m t rfl hw hsub hmessage (by simp [hown]) (by simp [hown]) hone ?_ ?_
    · unfold view
      rw [hown]
      exact fun c hc => appended_row hc
    · unfold view
      rw [hown]
      exact (touched_appended hs hw hsub).rows
  | read a m history =>
    obtain ⟨-,⟨t,hown⟩,hw,-⟩ := ho
    obtain ⟨hone,hmessage⟩ := @hbody a m t (s.heading a) (by rw [hown, List.append_assoc]) hw (.inr rfl)
    have hsub : a.opening ⊆ s.own i := by
      rw [hown, List.append_assoc]
      exact List.subset_append_left _ _
    refine .appended a m t rfl hw hsub hmessage (by simp [hown]) (by simp [hown]) hone ?_ ?_
    · unfold view
      rw [hown]
      exact fun c hc => headed_row hc
    · unfold view
      rw [hown]
      exact (titled_appended hs hw hsub).rows
  | deleted c =>
    rcases ho with hnil | ⟨ks,hown,hd,-⟩
    · exact hidle hnil
    · refine .nothing ?_ ?_
      · intro w hw
        rw [hown] at hw
        rcases List.mem_append.mp hw with hw | hw
        · obtain ⟨k,-,rfl⟩ := List.mem_map.mp hw
          rfl
        · rw [List.mem_singleton.mp hw]
          rfl
      · have hremoved : Db.Removed s.db (s.view i) c := by
          unfold view
          rw [hown]
          exact deletes_removed hd
        intro k c' hg
        by_cases hk : k = c
        · rw [hk, hremoved.row] at hg
          cases hg
        · rwa [hremoved.rows k hk] at hg
  | _ => exact absurd h (by simp [ChatPhase.settles])

/-! ## The times on record -/

theorem mem_dating {begun : Option ℤ} {id : Uuid} {t : ℤ} :
    (id,t) ∈ s.dating i begun ↔ begun = some t ∧ ∃ w ∈ s.own i, w.conversation = some id := by
  simp only [dating, List.mem_flatMap, Option.mem_toList, List.mem_map, List.mem_filterMap, Prod.mk.injEq]
  constructor
  · rintro ⟨now,hnow,id',⟨w,hw,hid⟩,rfl,rfl⟩
    exact ⟨hnow,w,hw,hid⟩
  · rintro ⟨hnow,w,hw,hid⟩
    exact ⟨t,hnow,id,⟨w,hw,hid⟩,rfl,rfl⟩

/-- The row of a conversation has the latest of the times on record for it, and its messages have
some of them, in order. -/
structure Dated (s : ChatStore) (written : List (Uuid × ℤ)) : Prop where
  settled : ∀ p ∈ written, s.Settled p.1
  rows : ∀ id c, s.db.conversations.get id = some c →
    (id,c.updatedAt) ∈ written ∧ ∀ t, (id,t) ∈ written → t ≤ c.updatedAt
  messages : ∀ id, ∀ m ∈ s.saidIn id, (id,m.createdAt) ∈ written
  sorted : ∀ id, (s.saidIn id).Pairwise fun m m' => m.createdAt ≤ m'.createdAt

variable {written : List (Uuid × ℤ)}

theorem Dated.quiet (h : s.Dated written) (hq : Quiet i s s') : s'.Dated written where
  settled := fun p hp => (hq.around (Nat.succ_ne_self i)).settled (h.settled p hp)
  rows := by
    rw [hq.db]
    exact h.rows
  messages := by
    intro id
    rw [saidIn_congr hq.said]
    exact h.messages id
  sorted := by
    intro id
    rw [saidIn_congr hq.said]
    exact h.sorted id

/-- A commit keeps the record when an append comes no earlier than what is on record. -/
theorem Dated.commit {φ : ChatPhase} {begun : Option ℤ} (h : s.Dated written) (hd : s.Dates i φ)
    (htimed : ∀ w ∈ s.own i, ∀ t ∈ w.time, begun = some t)
    (hbound : ∀ a, phaseAppend φ = some a → s.Live a → ∀ t, (a.id,t) ∈ written → ∃ now, begun = some now ∧ t ≤ now) :
    (s.commit i).Dated (written ++ s.dating i begun) := by
  cases hd with
  | nothing hquiet hrows =>
    have hnone : s.dating i begun = [] := by
      rw [List.eq_nil_iff_forall_not_mem]
      rintro ⟨id,t⟩ hmem
      obtain ⟨-,w,hw,hid⟩ := mem_dating.mp hmem
      rw [hquiet w hw] at hid
      cases hid
    have hsilent : (s.own i).filterMap ChatWrite.message = [] := by
      rw [List.filterMap_eq_nil_iff]
      intro w hw
      have hnoc := hquiet w hw
      cases w with
      | insert m => cases hnoc
      | _ => rfl
    rw [hnone, List.append_nil]
    constructor
    · exact fun p hp => (h.settled p hp).commit
    · exact fun id c hg => h.rows id c (hrows id c hg)
    · intro id
      rw [saidIn_commit_silent hsilent]
      exact h.messages id
    · intro id
      rw [saidIn_commit_silent hsilent]
      exact h.sorted id
  | opened c hown hc =>
    have hbegun : begun = some c.updatedAt := htimed (.create c) (by rw [hown]; exact List.mem_singleton_self _) _ rfl
    have hmem : ∀ {id t}, (id,t) ∈ s.dating i begun ↔ c.updatedAt = t ∧ c.id = id := by
      intro id t
      rw [mem_dating, hbegun, hown]
      simp [ChatWrite.conversation]
    have hopen : Db.Opened s.db (s.view i) c := by
      unfold view
      rw [hown]
      exact Db.applyChat_opened hc.absent
    have hsilent : (s.own i).filterMap ChatWrite.message = [] := by
      rw [hown]
      rfl
    constructor
    · rintro ⟨id,t⟩ hp
      rcases List.mem_append.mp hp with hp | hp
      · exact (h.settled _ hp).commit
      · obtain ⟨-,rfl⟩ := hmem.mp hp
        exact hc.settled
    · intro id c' hg
      change (s.view i).conversations.get id = some c' at hg
      by_cases hid : id = c.id
      · subst hid
        rw [hopen.row] at hg
        cases hg
        refine ⟨List.mem_append_right _ (hmem.mpr ⟨rfl,rfl⟩),fun t ht => ?_⟩
        rcases List.mem_append.mp ht with ht | ht
        · have hpending : ChatWrite.create c ∈ s.own i := by simp [hown]
          exact absurd rfl ((h.settled _ ht).committed _ (mem_own.mp hpending) c rfl)
        · exact (hmem.mp ht).1.symm.le
      · rw [hopen.rows id hid] at hg
        obtain ⟨hin,hle⟩ := h.rows id c' hg
        refine ⟨List.mem_append_left _ hin,fun t ht => ?_⟩
        rcases List.mem_append.mp ht with ht | ht
        · exact hle t ht
        · exact absurd (hmem.mp ht).2.symm hid
    · intro id m hm
      rw [saidIn_commit_silent hsilent] at hm
      exact List.mem_append_left _ (h.messages id m hm)
    · intro id
      rw [saidIn_commit_silent hsilent]
      exact h.sorted id
  | appended a m t ha hw hsub hmessage hinsert htouch hone hrow hrows =>
    have hbegun : begun = some t := htimed _ htouch t rfl
    have hcreated : m.createdAt = t := Option.some.inj ((htimed _ hinsert _ rfl).symm.trans hbegun)
    have hmem : ∀ {id t'}, (id,t') ∈ s.dating i begun ↔ t = t' ∧ id = a.id := by
      intro id t'
      rw [mem_dating, hbegun, Option.some.injEq]
      refine and_congr_right fun _ => ⟨?_,?_⟩
      · rintro ⟨w,hmem,hid⟩
        exact hone w hmem id hid
      · rintro rfl
        exact ⟨_,hinsert,congrArg some hw.entry.conversation⟩
    have hlatest : ∀ t', (a.id,t') ∈ written → t' ≤ t := by
      intro t' ht'
      obtain ⟨now,hnow,hle⟩ := hbound a ha hw.live t' ht'
      rw [hbegun] at hnow
      cases hnow
      exact hle
    constructor
    · rintro ⟨id,t'⟩ hp
      rcases List.mem_append.mp hp with hp | hp
      · exact (h.settled _ hp).commit
      · obtain ⟨-,rfl⟩ := hmem.mp hp
        exact hw.settled
    · intro id c hg
      change (s.view i).conversations.get id = some c at hg
      by_cases hid : id = a.id
      · subst hid
        rw [hrow c hg]
        refine ⟨List.mem_append_right _ (hmem.mpr ⟨rfl,rfl⟩),fun t' ht => ?_⟩
        rcases List.mem_append.mp ht with ht | ht
        · exact hlatest t' ht
        · exact (hmem.mp ht).1.symm.le
      · rw [hrows id hid] at hg
        obtain ⟨hin,hle⟩ := h.rows id c hg
        refine ⟨List.mem_append_left _ hin,fun t' ht => ?_⟩
        rcases List.mem_append.mp ht with ht | ht
        · exact hle t' ht
        · exact absurd (hmem.mp ht).2 hid
    · intro id x hx
      rw [saidIn_commit_appended hw.entry.conversation hmessage] at hx
      rcases List.mem_append.mp hx with hx | hx
      · exact List.mem_append_left _ (h.messages id x hx)
      · split at hx
        · rename_i hid
          rw [List.mem_singleton.mp hx]
          exact List.mem_append_right _ (hmem.mpr ⟨hcreated.symm,hid⟩)
        · cases hx
    · intro id
      rw [saidIn_commit_appended hw.entry.conversation hmessage, List.pairwise_append]
      refine ⟨h.sorted id,?_,?_⟩
      · split
        · exact List.pairwise_singleton _ _
        · exact List.Pairwise.nil
      · intro x hx y hy
        split at hy
        · rename_i hid
          rw [List.mem_singleton.mp hy, hcreated]
          exact hlatest _ (hid ▸ h.messages id x hx)
        · cases hy

end ChatStore
end InferenceLogger
