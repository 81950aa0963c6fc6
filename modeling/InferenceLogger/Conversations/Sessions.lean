import InferenceLogger.Conversations.Phases
import InferenceLogger.Conversations.Transcript

/-! # What a session has written in each phase

The pending writes of a request's transaction, and what its locks and the newness of its ids
keep others from changing. Everything stated of a session survives the steps of the others.
-/
namespace InferenceLogger
open PyText PyJson AsyncTask KeyedTable

/-- The writes an append starts from. -/
def Append.opening (a : Append) : List ChatWrite := a.created.toList.map .create

namespace ChatStore
variable (s : ChatStore) (i : ℕ)

/-- Everything ever committed to a conversation. -/
def saidIn (id : Uuid) : List Message := (s.said.map Prod.snd).filter fun m => decide (m.conversationId = id)

/-- The id has been drawn, and no open transaction is about to create a conversation under it. -/
structure Settled (id : Uuid) : Prop where
  known : id ∈ s.knownConversations
  committed : ∀ w ∈ s.writes, ∀ c, w.2 = .create c → c.id ≠ id

structure SettledMessage (id : Uuid) : Prop where
  known : id ∈ s.knownMessages
  committed : ∀ w ∈ s.writes, ∀ m, w.2 = .insert m → m.id ≠ id

/-- The lock of `SELECT … FOR UPDATE`, or of a deletion. -/
def Holds (id : Uuid) : Prop := ⟨i,.update,id⟩ ∈ s.locks

structure Creates (c : Conversation) : Prop where
  title : c.title = none
  absent : s.db.conversations.get c.id = none
  known : c.id ∈ s.knownConversations
  only : ∀ w ∈ s.writes, ∀ c', w.2 = .create c' → c'.id = c.id → w.1 = i

/-- No other session can change the conversation. -/
def Guards (id : Uuid) : Prop :=
  (s.Holds i id ∧ s.db.conversations.has id = true) ∨ (∃ c, c.id = id ∧ s.Creates i c) ∨
  (s.Settled id ∧ s.db.conversations.has id = false)

/-- The turn's own message has been committed, at the end of the history it read. -/
structure Committed (h : Home) : Prop where
  settled : s.Settled h.conversation
  history : h.history <+: s.saidIn h.conversation
  last : h.history.getLast? = some h.message
  said : (i,h.message) ∈ s.said
  role : h.message.role = .user
  content : h.message.content = h.content

def AtHome (home : Option Home) : Prop := ∀ h, home = some h → s.Committed i h

/-- Where an append goes: a conversation of its own, or one it has locked, or one that is gone. -/
structure Placed (a : Append) : Prop where
  created : ∀ c, a.created = some c → c.id = a.id ∧ s.Creates i c
  existing : a.created = none → s.Settled a.id ∧ (s.Holds i a.id ∨ s.db.conversations.has a.id = false)
  author : (a.role = .user ∧ a.home = none) ∨
    (a.role = .assistant ∧ a.created = none ∧ ∃ h, a.home = some h ∧ h.conversation = a.id)
  home : s.AtHome i a.home

def Live (a : Append) : Prop := a.created.isSome = true ∨ s.db.conversations.has a.id = true

/-- The message of an append: the next one of its conversation. -/
structure Entry (a : Append) (m : Message) : Prop where
  conversation : m.conversationId = a.id
  role : m.role = a.role
  content : m.content = a.content
  seq : m.seq = (s.saidIn a.id).length
  known : m.id ∈ s.knownMessages
  absent : s.db.messages.get m.id = none
  only : ∀ w ∈ s.writes, ∀ m', w.2 = .insert m' → m'.id = m.id → w.1 = i

structure Writing (a : Append) (m : Message) : Prop where
  placed : s.Placed i a
  live : s.Live a
  entry : s.Entry i a m

/-- The title goes to a conversation nothing has been said in. -/
def heading (a : Append) : List ChatWrite :=
  if s.saidIn a.id = [] then [.title a.id (ConversationRepository.titleOf a.content)] else []

/-- A message of the conversation that this session deletes, and no other. -/
structure Deletes (c k : Uuid) : Prop where
  pending : .deleteMessage k ∈ s.own i
  row : ∃ m, s.db.messages.get k = some m ∧ m.conversationId = c
  only : ∀ w ∈ s.writes, w.1 ≠ i → w.2 ≠ .deleteMessage k ∧ w.2 ≠ .deleteConversation c

/-- The conversation this session deletes, with all its messages. -/
structure Ends (c : Uuid) : Prop where
  pending : .deleteConversation c ∈ s.own i
  holds : s.Holds i c
  present : s.db.conversations.has c = true
  only : ∀ w ∈ s.writes, w.1 ≠ i → ∀ k m, w.2 = .deleteMessage k → s.db.messages.get k = some m → m.conversationId ≠ c

/-- A message that was read from the conversation. -/
structure Lists (c : Uuid) (m : Message) : Prop where
  settled : s.SettledMessage m.id
  row : ∀ m', s.db.messages.get m.id = some m' → m'.conversationId = c

def Owns : ChatPhase → Prop
  | .idle home => s.own i = [] ∧ s.AtHome i home
  | .failing home => s.own i = [] ∧ s.AtHome i home
  | .resolved c created => s.own i = (if created then [.create c] else []) ∧
      (created = true → s.Creates i c) ∧ (created = false → s.Settled c.id)
  | .locked a => s.own i = a.opening ∧ s.Placed i a
  | .numbered a n => s.own i = a.opening ∧ s.Placed i a ∧ (s.Live a → n = (s.saidIn a.id).length)
  | .inserted a m => s.own i = a.opening ++ [.insert m] ∧ s.Writing i a m
  | .touched a m => ∃ t, s.own i = a.opening ++ [.insert m,.touch a.id t] ∧ s.Writing i a m
  | .titled a m => a.home = none ∧ ∃ t, s.own i = a.opening ++ [.insert m,.touch a.id t] ++ s.heading a ∧ s.Writing i a m
  | .read a m history => a.home = none ∧ (∃ t, s.own i = a.opening ++ [.insert m,.touch a.id t] ++ s.heading a) ∧
    s.Writing i a m ∧
      history = s.saidIn a.id ++ [m]
  | .listed c ms => (∀ w ∈ s.own i, ∃ k, w = .deleteMessage k ∧ s.Deletes i c k) ∧ s.Settled c ∧ ∀ m ∈ ms, s.Lists c m
  | .deleted c => s.own i = [] ∨ ∃ ks : List Uuid, s.own i = ks.map .deleteMessage ++ [.deleteConversation c] ∧
      (∀ k ∈ ks, s.Deletes i c k) ∧ s.Ends i c

/-! ## Steps of other sessions -/

/-- What a session can count on while the others go on. -/
structure Around (s' : ChatStore) : Prop where
  own : s'.own i = s.own i
  locks : ∀ l ∈ s.locks, l.session = i → l ∈ s'.locks
  conversations : s.knownConversations ⊆ s'.knownConversations
  messages : s.knownMessages ⊆ s'.knownMessages
  writes : ∀ w ∈ s'.writes, w ∈ s.writes ∨ w.1 ≠ i ∧
    (∀ c, w.2 = .create c → c.id ∉ s.knownConversations) ∧ (∀ m, w.2 = .insert m → m.id ∉ s.knownMessages) ∧
    (∀ k, w.2 = .deleteMessage k → s.deletedByOther w.1 k = false) ∧
    (∀ c, w.2 = .deleteConversation c → s.childDeletedByOther w.1 c = false)
  said : s.said <+: s'.said
  kept : ∀ id, s.Guards i id → s'.db.conversations.get id = s.db.conversations.get id ∧
    s'.saidIn id = s.saidIn id ∧ ∀ k m, m.conversationId = id →
      (s'.db.messages.get k = some m ↔ s.db.messages.get k = some m)
  unborn : ∀ m, .insert m ∈ s.own i → s.db.messages.get m.id = none → s'.db.messages.get m.id = none
  old : ∀ k m, s.SettledMessage k → s'.db.messages.get k = some m → s.db.messages.get k = some m
  doomed : ∀ c k, s.Deletes i c k → ∃ m, s'.db.messages.get k = some m ∧ m.conversationId = c

variable {s i} {s' : ChatStore}

theorem mem_own {w : ChatWrite} : w ∈ s.own i ↔ (i,w) ∈ s.writes := by
  unfold own
  rw [List.mem_map]
  constructor
  · rintro ⟨⟨j,w'⟩,hm,rfl⟩
    obtain ⟨hm,hj⟩ := List.mem_filter.mp hm
    rw [← of_decide_eq_true hj]
    exact hm
  · intro hm
    exact ⟨(i,w),List.mem_filter.mpr ⟨hm,by simp⟩,rfl⟩

theorem saidIn_grows (h : s.said <+: s'.said) (id : Uuid) : s.saidIn id <+: s'.saidIn id :=
  (h.map Prod.snd).filter _

namespace Around
variable (h : s.Around i s')
include h

theorem settled {id : Uuid} (hs : s.Settled id) : s'.Settled id where
  known := h.conversations hs.known
  committed := by
    intro w hw c hc
    rcases h.writes w hw with hold | ⟨-,hnew,-⟩
    · exact hs.committed w hold c hc
    · exact fun hid => hnew c hc (hid ▸ hs.known)

theorem settledMessage {id : Uuid} (hs : s.SettledMessage id) : s'.SettledMessage id where
  known := h.messages hs.known
  committed := by
    intro w hw m hm
    rcases h.writes w hw with hold | ⟨-,-,hnew,-⟩
    · exact hs.committed w hold m hm
    · exact fun hid => hnew m hm (hid ▸ hs.known)

theorem holds {id : Uuid} (hs : s.Holds i id) : s'.Holds i id := h.locks _ hs rfl

theorem creates {c : Conversation} (hc : s.Creates i c) : s'.Creates i c where
  title := hc.title
  absent := by
    rw [(h.kept c.id (.inr (.inl ⟨c,rfl,hc⟩))).1]
    exact hc.absent
  known := h.conversations hc.known
  only := by
    intro w hw c' hc' hid
    rcases h.writes w hw with hold | ⟨-,hnew,-⟩
    · exact hc.only w hold c' hc' hid
    · exact absurd (hid ▸ hc.known) (hnew c' hc')

theorem committed {home : Home} (hh : s.Committed i home) : s'.Committed i home where
  settled := h.settled hh.settled
  history := hh.history.trans (saidIn_grows h.said _)
  last := hh.last
  said := h.said.subset hh.said
  role := hh.role
  content := hh.content

theorem atHome {home : Option Home} (hh : s.AtHome i home) : s'.AtHome i home :=
  fun x hx => h.committed (hh x hx)

theorem has {id : Uuid} (hg : s.Guards i id) : s'.db.conversations.has id = s.db.conversations.has id := by
  unfold Table.has
  rw [(h.kept id hg).1]

end Around

theorem Placed.guards {a : Append} (h : s.Placed i a) : s.Guards i a.id := by
  cases hc : a.created with
  | some c =>
    obtain ⟨hid,hcr⟩ := h.created c hc
    exact .inr (.inl ⟨c,hid,hcr⟩)
  | none =>
    obtain ⟨hs,hold | hgone⟩ := h.existing hc
    · cases hh : s.db.conversations.has a.id with
      | true => exact .inl ⟨hold,hh⟩
      | false => exact .inr (.inr ⟨hs,hh⟩)
    · exact .inr (.inr ⟨hs,hgone⟩)

namespace Around
variable (h : s.Around i s')
include h

theorem placed {a : Append} (hp : s.Placed i a) : s'.Placed i a where
  created := fun c hc => ⟨(hp.created c hc).1,h.creates (hp.created c hc).2⟩
  existing := by
    intro hc
    obtain ⟨hs,hold | hgone⟩ := hp.existing hc
    · exact ⟨h.settled hs,.inl (h.holds hold)⟩
    · refine ⟨h.settled hs,.inr ?_⟩
      rw [h.has hp.guards]
      exact hgone
  author := hp.author
  home := h.atHome hp.home

theorem live {a : Append} (hp : s.Placed i a) : s'.Live a ↔ s.Live a := by
  unfold Live
  rw [h.has hp.guards]

theorem heading {a : Append} (hp : s.Placed i a) : s'.heading a = s.heading a := by
  unfold ChatStore.heading
  rw [(h.kept _ hp.guards).2.1]

theorem writing {a : Append} {m : Message} (hw : s.Writing i a m) (hm : .insert m ∈ s.own i) : s'.Writing i a m where
  placed := h.placed hw.placed
  live := (h.live hw.placed).mpr hw.live
  entry := {
    conversation := hw.entry.conversation
    role := hw.entry.role
    content := hw.entry.content
    seq := by
      rw [(h.kept _ hw.placed.guards).2.1]
      exact hw.entry.seq
    known := h.messages hw.entry.known
    absent := h.unborn m hm hw.entry.absent
    only := by
      intro w hmem m' hm' hid
      rcases h.writes w hmem with hold | ⟨-,-,hnew,-⟩
      · exact hw.entry.only w hold m' hm' hid
      · exact absurd (hid ▸ hw.entry.known) (hnew m' hm') }

theorem deletes {c k : Uuid} (hd : s.Deletes i c k) : s'.Deletes i c k where
  pending := by
    rw [h.own]
    exact hd.pending
  row := h.doomed c k hd
  only := by
    intro w hw hne
    rcases h.writes w hw with hold | ⟨hj,-,-,hmsg,hconv⟩
    · exact hd.only w hold hne
    · obtain ⟨m,hm,hc⟩ := hd.row
      constructor
      · intro hk
        have hfree := hmsg k hk
        unfold deletedByOther at hfree
        rw [List.any_eq_false] at hfree
        exact hfree (i,.deleteMessage k) (mem_own.mp hd.pending) (by simp [Ne.symm hj])
      · intro hk
        have hfree := hconv c hk
        unfold childDeletedByOther at hfree
        rw [List.any_eq_false] at hfree
        exact hfree (i,.deleteMessage k) (mem_own.mp hd.pending) (by simp [Ne.symm hj,hm,hc])

theorem ends {c : Uuid} (he : s.Ends i c) : s'.Ends i c where
  pending := by
    rw [h.own]
    exact he.pending
  holds := h.holds he.holds
  present := by
    rw [h.has (.inl ⟨he.holds,he.present⟩)]
    exact he.present
  only := by
    intro w hw hne k m hk hm hc
    have hold : s.db.messages.get k = some m := ((h.kept c (.inl ⟨he.holds,he.present⟩)).2.2 k m hc).mp hm
    rcases h.writes w hw with hmem | ⟨hj,-,-,hmsg,-⟩
    · exact he.only w hmem hne k m hk hold hc
    · have hfree := hmsg k hk
      unfold deletedByOther at hfree
      rw [List.any_eq_false] at hfree
      exact hfree (i,.deleteConversation c) (mem_own.mp he.pending) (by simp [Ne.symm hj,hold,hc])

theorem lists {c : Uuid} {m : Message} (hl : s.Lists c m) : s'.Lists c m where
  settled := h.settledMessage hl.settled
  row := fun m' hm' => hl.row m' (h.old _ _ hl.settled hm')

/-- A session's part of the state survives the steps of the others. -/
theorem owns {φ : ChatPhase} (ho : s.Owns i φ) : s'.Owns i φ := by
  cases φ with
  | idle home => exact ⟨h.own.trans ho.1,h.atHome ho.2⟩
  | failing home => exact ⟨h.own.trans ho.1,h.atHome ho.2⟩
  | resolved c created => exact ⟨h.own.trans ho.1,fun hc => h.creates (ho.2.1 hc),fun hc => h.settled (ho.2.2 hc)⟩
  | locked a => exact ⟨h.own.trans ho.1,h.placed ho.2⟩
  | numbered a n =>
    obtain ⟨hown,hp,hn⟩ := ho
    refine ⟨h.own.trans hown,h.placed hp,fun hl => ?_⟩
    rw [(h.kept _ hp.guards).2.1]
    exact hn ((h.live hp).mp hl)
  | inserted a m =>
    obtain ⟨hown,hw⟩ := ho
    exact ⟨h.own.trans hown,h.writing hw (by simp [hown])⟩
  | touched a m =>
    obtain ⟨t,hown,hw⟩ := ho
    exact ⟨t,h.own.trans hown,h.writing hw (by simp [hown])⟩
  | titled a m =>
    obtain ⟨hhome,t,hown,hw⟩ := ho
    refine ⟨hhome,t,?_,h.writing hw (by simp [hown])⟩
    rw [h.own, h.heading hw.placed]
    exact hown
  | read a m history =>
    obtain ⟨hhome,⟨t,hown⟩,hw,hh⟩ := ho
    refine ⟨hhome,⟨t,?_⟩,h.writing hw (by simp [hown]),?_⟩
    · rw [h.own, h.heading hw.placed]
      exact hown
    · rw [(h.kept _ hw.placed.guards).2.1]
      exact hh
  | listed c ms =>
    obtain ⟨hown,hset,hl⟩ := ho
    refine ⟨?_,h.settled hset,fun m hm => h.lists (hl m hm)⟩
    intro w hw
    rw [h.own] at hw
    obtain ⟨k,rfl,hd⟩ := hown w hw
    exact ⟨k,rfl,h.deletes hd⟩
  | deleted c =>
    rcases ho with hnil | ⟨ks,hown,hd,he⟩
    · exact .inl (h.own.trans hnil)
    · exact .inr ⟨ks,h.own.trans hown,fun k hk => h.deletes (hd k hk),h.ends he⟩

end Around
end ChatStore
end InferenceLogger
