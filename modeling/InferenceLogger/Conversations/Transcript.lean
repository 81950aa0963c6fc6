import InferenceLogger.Conversations.Store

/-! # What the chat writes do to the rows

Each write touches one conversation: its row, or its messages. The three changes a
transaction commits as a whole are a conversation opened, a message appended, and a
conversation removed.
-/
namespace InferenceLogger
open PyText PyJson KeyedTable

namespace Db
variable {db : Db}

/-- The messages of a conversation, in table order. -/
def messagesOf (db : Db) (id : Uuid) : List Message :=
  (db.messages.rows.map Prod.snd).filter fun m => decide (m.conversationId = id)

theorem transcript_eq (id : Uuid) : db.transcript id = (db.messagesOf id).insertionSort (fun a b => a.seq ≤ b.seq) := rfl

theorem mem_transcript {id : Uuid} {m : Message} :
    m ∈ db.transcript id ↔ (∃ k, db.messages.get k = some m) ∧ m.conversationId = id := by
  rw [transcript_eq, List.mem_insertionSort]
  unfold messagesOf
  rw [List.mem_filter, List.mem_map, decide_eq_true_eq]
  constructor
  · rintro ⟨⟨⟨k,m'⟩,hm,rfl⟩,hc⟩
    exact ⟨⟨k,Table.get_eq_some.mpr hm⟩,hc⟩
  · rintro ⟨⟨k,hk⟩,hc⟩
    exact ⟨⟨(k,m),Table.get_eq_some.mp hk,rfl⟩,hc⟩

theorem orderedInsert_last {x m : Message} {sorted : List Message} (h : x.seq ≤ m.seq) :
    (sorted ++ [m]).orderedInsert (fun a b => a.seq ≤ b.seq) x =
      sorted.orderedInsert (fun a b => a.seq ≤ b.seq) x ++ [m] := by
  induction sorted with
  | nil => simp [h]
  | cons y sorted ih =>
    simp only [List.cons_append, List.orderedInsert_cons]
    split
    · rfl
    · rw [ih, List.cons_append]

theorem insertionSort_last {ms : List Message} {m : Message} (h : ∀ x ∈ ms, x.seq ≤ m.seq) :
    (ms ++ [m]).insertionSort (fun a b => a.seq ≤ b.seq) =
      ms.insertionSort (fun a b => a.seq ≤ b.seq) ++ [m] := by
  induction ms with
  | nil => rfl
  | cons x ms ih =>
    rw [List.cons_append, List.insertionSort_cons, List.insertionSort_cons,
      ih fun y hy => h y (List.mem_cons_of_mem _ hy), orderedInsert_last (h x List.mem_cons_self)]

/-- The next number after a transcript numbered from zero. -/
theorem nextSeq_of_numbered {id : Uuid} (h : (db.transcript id).map Message.seq = List.range (db.transcript id).length) :
    db.nextSeq id = (db.transcript id).length := by
  have hmax : ∀ n, ((List.range n).map (· + 1)).foldr max 0 = n := by
    intro n
    induction n with
    | zero => rfl
    | succ n ih =>
      have hfold : ∀ (l : List ℕ) (a : ℕ), (l ++ [a]).foldr max 0 = max (l.foldr max 0) a := by
        intro l a
        induction l with
        | nil => simp
        | cons b l ih => simp [ih,Nat.max_assoc]
      rw [List.range_succ, List.map_append, List.map_singleton, hfold, ih]
      omega
  unfold nextSeq
  have hseqs : (db.transcript id).map (fun m => m.seq + 1) = ((db.transcript id).map Message.seq).map (· + 1) := by
    rw [List.map_map]
    rfl
  rw [hseqs, h, hmax]

/-! ## Single writes -/

theorem messagesOf_insert {m : Message} (hm : db.messages.get m.id = none) (id : Uuid) :
    (db.applyChat (.insert m)).messagesOf id = db.messagesOf id ++ if m.conversationId = id then [m] else [] := by
  have hrows := Table.rows_insertNew hm m
  unfold messagesOf
  simp only [applyChat, hrows, List.map_append, List.filter_append]
  by_cases hc : m.conversationId = id
  · simp [hc]
  · simp [hc]

theorem transcript_insert {m : Message} (hm : db.messages.get m.id = none)
    (hs : ∀ x ∈ db.transcript m.conversationId, x.seq ≤ m.seq) (id : Uuid) :
    (db.applyChat (.insert m)).transcript id = db.transcript id ++ if m.conversationId = id then [m] else [] := by
  rw [transcript_eq, messagesOf_insert hm]
  by_cases hc : m.conversationId = id
  · subst hc
    simp only [if_true]
    exact insertionSort_last fun x hx => hs x ((List.mem_insertionSort _).mpr hx)
  · simp [hc,transcript_eq]

theorem messagesOf_deleteMessage {k : Uuid} {m : Message} {id : Uuid} (hk : db.messages.get k = some m)
    (hm : m.conversationId ≠ id) : (db.applyChat (.deleteMessage k)).messagesOf id = db.messagesOf id := by
  unfold messagesOf
  simp only [applyChat, deleteMessage, Table.erase, Table.filter, List.filter_map, List.filter_filter]
  congr 1
  apply List.filter_congr
  rintro ⟨k',m'⟩ hrow
  by_cases hc : m'.conversationId = id
  · have hne : k' ≠ k := by
      rintro rfl
      rw [Table.get_eq_some.mpr hrow] at hk
      cases hk
      exact hm hc
    simp [hc,hne]
  · simp [hc]

theorem messagesOf_deleteConversation (c id : Uuid) :
    (db.applyChat (.deleteConversation c)).messagesOf id = if id = c then [] else db.messagesOf id := by
  unfold messagesOf
  simp only [applyChat, deleteConversation, Table.filter, List.filter_map, List.filter_filter]
  by_cases hc : id = c
  · subst hc
    rw [if_pos rfl, List.map_eq_nil_iff, List.filter_eq_nil_iff]
    intro row _
    simp
  · rw [if_neg hc]
    congr 1
    apply List.filter_congr
    intro row _
    by_cases hr : row.2.conversationId = id
    · simp [hr,hc]
    · simp [hr]

/-! ## Whole transactions -/

/-- A conversation is new, and nothing else has changed. -/
structure Opened (db db' : Db) (c : Conversation) : Prop where
  row : db'.conversations.get c.id = some c
  rows : ∀ k, k ≠ c.id → db'.conversations.get k = db.conversations.get k
  messages : db'.messages = db.messages

/-- A message is at the end of its conversation, whose title is this one. -/
structure Appended (db db' : Db) (id : Uuid) (m : Message) (title : Option Text) : Prop where
  row : ∃ c, db'.conversations.get id = some c ∧ c.id = id ∧ c.title = title
  rows : ∀ k, k ≠ id → db'.conversations.get k = db.conversations.get k
  message : ∀ k, db'.messages.get k = if k = m.id then some m else db.messages.get k
  transcript : db'.transcript id = db.transcript id ++ [m]
  transcripts : ∀ k, k ≠ id → db'.transcript k = db.transcript k

/-- A conversation is gone with its messages. -/
structure Removed (db db' : Db) (id : Uuid) : Prop where
  row : db'.conversations.get id = none
  rows : ∀ k, k ≠ id → db'.conversations.get k = db.conversations.get k
  message : ∀ k, db'.messages.get k = (db.messages.get k).filter fun m => decide (m.conversationId ≠ id)
  transcript : db'.transcript id = []
  transcripts : ∀ k, k ≠ id → db'.transcript k = db.transcript k

theorem applyChat_opened {c : Conversation} (h : db.conversations.get c.id = none) :
    Opened db (db.applyChat (.create c)) c where
  row := by simp [applyChat,Table.get_insertNew,h]
  rows := by
    intro k hk
    simp [applyChat,Table.get_insertNew,hk]
  messages := rfl

theorem applyChat_appended {id : Uuid} {m : Message} {c : Conversation} (hc : db.conversations.get id = some c)
    (hid : c.id = id) (hm : db.messages.get m.id = none) (hmid : m.conversationId = id)
    (hs : ∀ x ∈ db.transcript id, x.seq ≤ m.seq) : Appended db (db.applyChat (.insert m)) id m c.title where
  row := ⟨c,hc,hid,rfl⟩
  rows := fun _ _ => rfl
  message := by
    intro k
    simp only [applyChat, Table.get_insertNew, hm, and_true]
  transcript := by
    subst hmid
    simp [transcript_insert hm hs]
  transcripts := by
    intro k hk
    subst hmid
    simp [transcript_insert hm hs,Ne.symm hk]

theorem Appended.touched {db' : Db} {id : Uuid} {m : Message} {title : Option Text} (h : Appended db db' id m title)
    (now : ℤ) : Appended db (db'.applyChat (.touch id now)) id m title where
  row := by
    obtain ⟨c,hc,hid,ht⟩ := h.row
    exact ⟨{c with updatedAt := now},by simp [applyChat,Table.get_updateAt,hc],hid,ht⟩
  rows := by
    intro k hk
    simp only [applyChat, Table.get_updateAt, hk, if_false]
    exact h.rows k hk
  message := h.message
  transcript := h.transcript
  transcripts := h.transcripts

theorem Appended.titled {db' : Db} {id : Uuid} {m : Message} {title : Option Text} (h : Appended db db' id m title)
    (new : Text) : Appended db (db'.applyChat (.title id new)) id m (some new) where
  row := by
    obtain ⟨c,hc,hid,-⟩ := h.row
    exact ⟨{c with title := some new},by simp [applyChat,Table.get_updateAt,hc],hid,rfl⟩
  rows := by
    intro k hk
    simp only [applyChat, Table.get_updateAt, hk, if_false]
    exact h.rows k hk
  message := h.message
  transcript := h.transcript
  transcripts := h.transcripts

/-- A new conversation and its first message. -/
theorem Opened.appended {db' db'' : Db} {c : Conversation} {m : Message} {title : Option Text}
    (h : Opened db db' c) (h' : Appended db' db'' c.id m title) : Appended db db'' c.id m title where
  row := h'.row
  rows := fun k hk => (h'.rows k hk).trans (h.rows k hk)
  message := by
    intro k
    rw [h'.message k, h.messages]
  transcript := by
    rw [h'.transcript]
    unfold Db.transcript
    rw [h.messages]
  transcripts := by
    intro k hk
    rw [h'.transcripts k hk]
    unfold Db.transcript
    rw [h.messages]

/-- Deleting messages of a conversation leaves the rest of the tables alone. -/
theorem deleteMessages_frame {id : Uuid} (ks : List Uuid)
    (hk : ∀ k ∈ ks, ∀ m, db.messages.get k = some m → m.conversationId = id) :
    (db.applyChats (ks.map .deleteMessage)).conversations = db.conversations ∧
    (∀ k, (db.applyChats (ks.map .deleteMessage)).messages.get k = if k ∈ ks then none else db.messages.get k) ∧
    ∀ k, k ≠ id → (db.applyChats (ks.map .deleteMessage)).messagesOf k = db.messagesOf k := by
  induction ks generalizing db with
  | nil => exact ⟨rfl,fun k => by simp [applyChats],fun k _ => rfl⟩
  | cons a ks ih =>
    have hget : ∀ k, (db.applyChat (.deleteMessage a)).messages.get k = if k = a then none else db.messages.get k :=
      fun k => Table.get_erase _ _ _
    have hk' : ∀ k ∈ ks, ∀ m, (db.applyChat (.deleteMessage a)).messages.get k = some m → m.conversationId = id := by
      intro k hmem m hm
      rw [hget] at hm
      split at hm
      · cases hm
      · exact hk k (List.mem_cons_of_mem _ hmem) m hm
    obtain ⟨hc,hm,ho⟩ := ih hk'
    refine ⟨hc,?_,?_⟩
    · intro k
      change (Db.applyChats _ (ks.map ChatWrite.deleteMessage)).messages.get k = _
      rw [hm k, hget k]
      by_cases hka : k = a
      · simp [hka]
      · simp [hka]
    · intro k hne
      refine (ho k hne).trans ?_
      cases hga : db.messages.get a with
      | none =>
        unfold messagesOf
        simp only [applyChat, deleteMessage, Table.erase, Table.filter]
        congr 2
        apply List.filter_eq_self.mpr
        intro row hrow
        have hrk : row.1 ≠ a := by
          intro hra
          exact Table.get_eq_none.mp hga (hra ▸ List.mem_map_of_mem hrow)
        simp [hrk]
      | some m =>
        apply messagesOf_deleteMessage hga
        rw [hk a List.mem_cons_self m hga]
        exact Ne.symm hne

/-- The unit of work of a deletion: messages of the conversation first, then its row, and the
messages that are left with it. -/
theorem deleteAll_removed {id : Uuid} (ks : List Uuid)
    (hk : ∀ k ∈ ks, ∀ m, db.messages.get k = some m → m.conversationId = id) :
    Removed db (db.applyChats (ks.map .deleteMessage ++ [.deleteConversation id])) id := by
  obtain ⟨hc,hm,ho⟩ := deleteMessages_frame ks hk
  have hsplit : db.applyChats (ks.map .deleteMessage ++ [.deleteConversation id]) =
      (db.applyChats (ks.map .deleteMessage)).applyChat (.deleteConversation id) := by
    unfold applyChats
    rw [List.foldl_append]
    rfl
  rw [hsplit]
  constructor
  · simp [applyChat,deleteConversation,Table.get_erase]
  · intro k hne
    simp only [applyChat, deleteConversation, Table.get_erase, hne, if_false]
    rw [hc]
  · intro k
    simp only [applyChat, deleteConversation, Table.get_filter]
    rw [hm k]
    by_cases hks : k ∈ ks
    · rw [if_pos hks]
      cases hg : db.messages.get k with
      | none => rfl
      | some m =>
        have hid := hk k hks m hg
        simp [Option.filter,hid]
    · rw [if_neg hks]
  · rw [transcript_eq, messagesOf_deleteConversation, if_pos rfl]
    rfl
  · intro k hne
    rw [transcript_eq, messagesOf_deleteConversation, if_neg hne, ho k hne]
    rfl

end Db
end InferenceLogger
