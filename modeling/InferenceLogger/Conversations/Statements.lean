import InferenceLogger.Conversations.Sessions

/-! # One statement of one session

A statement that is not a commit changes nothing another session can see but locks and
pending writes, and takes its own session to the phase its answer leads to.
-/
namespace InferenceLogger
open PyText PyJson AsyncTask KeyedTable

namespace ChatStore

/-- What every state has: rows under their own ids, drawn ids remembered, a transcript that is
what has been said, numbered from zero, opened by the user and titled after the opening. -/
structure Inv (s : ChatStore) : Prop where
  conversationKey : ∀ k c, s.db.conversations.get k = some c → c.id = k
  messageKey : ∀ k m, s.db.messages.get k = some m → m.id = k
  settled : ∀ k, s.db.conversations.has k = true → s.Settled k
  settledMessage : ∀ k, s.db.messages.has k = true → s.SettledMessage k
  pendingCreate : ∀ w ∈ s.writes, ∀ c, w.2 = .create c → c.id ∈ s.knownConversations
  pendingInsert : ∀ w ∈ s.writes, ∀ m, w.2 = .insert m → m.id ∈ s.knownMessages
  spoken : ∀ p ∈ s.said, s.Settled p.2.conversationId
  transcript : ∀ k, s.db.transcript k = if s.db.conversations.has k = true then s.saidIn k else []
  numbered : ∀ k, (s.saidIn k).map Message.seq = List.range (s.saidIn k).length
  opened : ∀ k m, (s.saidIn k).head? = some m → m.role = .user
  titled : ∀ k c, s.db.conversations.get k = some c →
    c.title = (s.saidIn k).head?.map fun m => ConversationRepository.titleOf m.content
  exclusive : ∀ l ∈ s.locks, ∀ l' ∈ s.locks, l.session ≠ l'.session → l.row = l'.row →
    l.mode.conflicts l'.mode = false
  aborted : ∀ i ∈ s.aborted, s.own i = []

variable {s s' : ChatStore} {i j : ℕ}

/-! ## Own writes -/

theorem own_push_self (w : ChatWrite) : (s.push i w).own i = s.own i ++ [w] := by
  simp [own,push]

theorem own_forget_self : (s.forget i).own i = [] := by
  simp [own,forget]

theorem own_abort_self : (s.abort i).own i = [] := own_forget_self

theorem own_forget_other (h : j ≠ i) : (s.forget i).own j = s.own j := by
  unfold own forget
  simp only [List.filter_filter]
  congr 1
  apply List.filter_congr
  intro w _
  by_cases hw : w.1 = j
  · simp [hw,h]
  · simp [hw]

/-! ## Quiet steps -/

/-- A step of session `i` that commits nothing. -/
structure Quiet (i : ℕ) (s s' : ChatStore) : Prop where
  db : s'.db = s.db
  said : s'.said = s.said
  own : ∀ j, j ≠ i → s'.own j = s.own j
  locks : ∀ l ∈ s.locks, l.session ≠ i → l ∈ s'.locks
  newLocks : ∀ l ∈ s'.locks, l ∈ s.locks ∨ l.session = i ∧ s.blocked i l.mode l.row = false
  conversations : s.knownConversations ⊆ s'.knownConversations
  messages : s.knownMessages ⊆ s'.knownMessages
  writes : ∀ w ∈ s'.writes, w ∈ s.writes ∨ w.1 = i ∧
    (∀ c, w.2 = .create c → c.id ∉ s.knownConversations ∧ c.id ∈ s'.knownConversations) ∧
    (∀ m, w.2 = .insert m → m.id ∉ s.knownMessages ∧ m.id ∈ s'.knownMessages) ∧
    (∀ k, w.2 = .deleteMessage k → s.deletedByOther i k = false) ∧
    (∀ c, w.2 = .deleteConversation c → s.childDeletedByOther i c = false)
  aborted : ∀ j ∈ s'.aborted, j ∈ s.aborted ∧ s'.own j = s.own j ∨ s'.own j = []

theorem quiet_refl (i : ℕ) (s : ChatStore) : Quiet i s s where
  db := rfl
  said := rfl
  own := fun _ _ => rfl
  locks := fun _ h _ => h
  newLocks := fun _ h => .inl h
  conversations := fun _ h => h
  messages := fun _ h => h
  writes := fun _ h => .inl h
  aborted := fun _ h => .inl ⟨h,rfl⟩

theorem quiet_forget (i : ℕ) (s : ChatStore) : Quiet i s (s.forget i) where
  db := rfl
  said := rfl
  own := fun _ h => own_forget_other h
  locks := fun l h hne => List.mem_filter.mpr ⟨h,by simpa using hne⟩
  newLocks := fun _ h => .inl (List.mem_of_mem_filter h)
  conversations := fun _ h => h
  messages := fun _ h => h
  writes := fun _ h => .inl (List.mem_of_mem_filter h)
  aborted := by
    intro j hj
    obtain ⟨hmem,hne⟩ := List.mem_filter.mp hj
    exact .inl ⟨hmem,own_forget_other (of_decide_eq_true hne)⟩

theorem quiet_abort (i : ℕ) (s : ChatStore) : Quiet i s (s.abort i) where
  db := rfl
  said := rfl
  own := fun _ h => own_forget_other h
  locks := (quiet_forget i s).locks
  newLocks := (quiet_forget i s).newLocks
  conversations := fun _ h => h
  messages := fun _ h => h
  writes := (quiet_forget i s).writes
  aborted := by
    intro j hj
    rcases List.mem_cons.mp hj with rfl | hmem
    · exact .inr own_forget_self
    · by_cases hji : j = i
      · subst hji
        exact .inr own_forget_self
      · exact .inl ⟨hmem,own_forget_other hji⟩

/-- New writes, new locks and new ids. -/
theorem quiet_extend (new : List ChatWrite) (locks : List RowLock) (hna : i ∉ s.aborted) (hdb : s'.db = s.db)
    (hsaid : s'.said = s.said) (hw : s'.writes = s.writes ++ new.map fun w => (i,w))
    (hl : s'.locks = locks ++ s.locks) (ha : s'.aborted = s.aborted)
    (hc : s.knownConversations ⊆ s'.knownConversations) (hm : s.knownMessages ⊆ s'.knownMessages)
    (hlocks : ∀ l ∈ locks, l.session = i ∧ s.blocked i l.mode l.row = false)
    (hnew : ∀ w ∈ new, (∀ c, w = .create c → c.id ∉ s.knownConversations ∧ c.id ∈ s'.knownConversations) ∧
      (∀ m, w = .insert m → m.id ∉ s.knownMessages ∧ m.id ∈ s'.knownMessages) ∧
      (∀ k, w = .deleteMessage k → s.deletedByOther i k = false) ∧
      (∀ c, w = .deleteConversation c → s.childDeletedByOther i c = false)) : Quiet i s s' := by
  have hown : ∀ j, j ≠ i → s'.own j = s.own j := by
    intro j hj
    unfold own
    rw [hw, List.filter_append, List.map_append]
    have hnone : (new.map fun w => (i,w)).filter (fun w => decide (w.1 = j)) = [] := by
      rw [List.filter_eq_nil_iff]
      intro w hw
      obtain ⟨w',-,rfl⟩ := List.mem_map.mp hw
      simpa using Ne.symm hj
    rw [hnone, List.map_nil, List.append_nil]
  constructor
  · exact hdb
  · exact hsaid
  · exact hown
  · intro l h _
    rw [hl]
    exact List.mem_append_right _ h
  · intro l h
    rw [hl] at h
    rcases List.mem_append.mp h with h | h
    · exact .inr (hlocks l h)
    · exact .inl h
  · exact hc
  · exact hm
  · intro w h
    rw [hw] at h
    rcases List.mem_append.mp h with h | h
    · exact .inl h
    · obtain ⟨w',hw',rfl⟩ := List.mem_map.mp h
      exact .inr ⟨rfl,hnew w' hw'⟩
  · intro j hj
    rw [ha] at hj
    have hne : j ≠ i := fun hji => hna (hji ▸ hj)
    exact .inl ⟨hj,hown j hne⟩

theorem conflicts_symm (a b : LockMode) : a.conflicts b = b.conflicts a := by
  cases a <;> cases b <;> rfl

theorem Quiet.around (h : Quiet i s s') (hj : j ≠ i) : s.Around j s' where
  own := h.own j hj
  locks := fun l hl hs => h.locks l hl (hs ▸ hj)
  conversations := h.conversations
  messages := h.messages
  writes := by
    intro w hw
    rcases h.writes w hw with hold | ⟨hi,hc,hm,hk,hd⟩
    · exact .inl hold
    · subst hi
      exact .inr ⟨Ne.symm hj,fun c e => (hc c e).1,fun m e => (hm m e).1,hk,hd⟩
  said := by rw [h.said]
  kept := by
    intro id _
    rw [h.db]
    refine ⟨rfl,?_,fun _ _ _ => Iff.rfl⟩
    unfold saidIn
    rw [h.said]
  unborn := fun _ _ hm => by rw [h.db]; exact hm
  old := fun _ _ _ hm => by rw [h.db] at hm; exact hm
  doomed := fun _ _ hd => by rw [h.db]; exact hd.row

theorem saidIn_congr (h : s'.said = s.said) (id : Uuid) : s'.saidIn id = s.saidIn id := by
  unfold saidIn
  rw [h]

theorem Quiet.inv (h : Quiet i s s') (hs : s.Inv) : s'.Inv := by
  have ha : s.Around (i + 1) s' := h.around (Nat.succ_ne_self i)
  have hsaid := saidIn_congr h.said
  constructor
  · rw [h.db]
    exact hs.conversationKey
  · rw [h.db]
    exact hs.messageKey
  · intro k hk
    rw [h.db] at hk
    exact ha.settled (hs.settled k hk)
  · intro k hk
    rw [h.db] at hk
    exact ha.settledMessage (hs.settledMessage k hk)
  · intro w hw c hc
    rcases h.writes w hw with hold | ⟨-,hcreate,-⟩
    · exact h.conversations (hs.pendingCreate w hold c hc)
    · exact (hcreate c hc).2
  · intro w hw m hm
    rcases h.writes w hw with hold | ⟨-,-,hinsert,-⟩
    · exact h.messages (hs.pendingInsert w hold m hm)
    · exact (hinsert m hm).2
  · intro p hp
    rw [h.said] at hp
    exact ha.settled (hs.spoken p hp)
  · intro k
    rw [h.db, hsaid]
    exact hs.transcript k
  · intro k
    rw [hsaid]
    exact hs.numbered k
  · intro k
    rw [hsaid]
    exact hs.opened k
  · intro k
    rw [h.db, hsaid]
    exact hs.titled k
  · have hfree : ∀ l ∈ s'.locks, ∀ l' ∈ s.locks, l.session = i → s.blocked i l.mode l.row = false →
        l.session ≠ l'.session → l.row = l'.row → l'.mode.conflicts l.mode = false := by
      intro l _ l' hl' hi hb hne hrow
      unfold blocked at hb
      rw [List.any_eq_false] at hb
      have hno := hb l' hl'
      simpa [hi ▸ Ne.symm hne,hrow] using hno
    intro l hl l' hl' hne hrow
    rcases h.newLocks l hl with hold | ⟨hi,hb⟩
    · rcases h.newLocks l' hl' with hold' | ⟨hi',hb'⟩
      · exact hs.exclusive l hold l' hold' hne hrow
      · exact hfree l' hl' l hold hi' hb' (Ne.symm hne) hrow.symm
    · rcases h.newLocks l' hl' with hold' | ⟨hi',-⟩
      · rw [conflicts_symm]
        exact hfree l hl l' hold' hi hb hne hrow
      · exact absurd (hi.trans hi'.symm) hne
  · intro j hj
    rcases h.aborted j hj with ⟨hmem,hown⟩ | hnil
    · rw [hown]
      exact hs.aborted j hmem
    · exact hnil

/-! ## Single statements -/

/-- Everything a statement that is not a commit can do. -/
inductive Performs (s : ChatStore) (i : ℕ) : (op : ChatSql) → ChatStore → Except Exc (chatSqlSignature.Answer op) → Prop where
  | refused {op : ChatSql} (e : Exc) : i ∈ s.aborted → Performs s i op s (.error e)
  | failed {op : ChatSql} (e : Exc) : Performs s i op (s.abort i) (.error e)
  | rollback (r) : Performs s i .rollback (s.forget i) r
  | close (r) : Performs s i .close (s.forget i) r
  | created {title : Option Text} (c : Conversation) : i ∉ s.aborted → c.id ∉ s.knownConversations → c.title = title →
      Performs s i (.createConversation title)
        {s.push i (.create c) with knownConversations := c.id :: s.knownConversations} (.ok c)
  | got (id : Uuid) : Performs s i (.getConversation id) s (.ok ((s.view i).conversations.get id))
  | unlocked {id : Uuid} : (s.view i).conversations.has id = false → Performs s i (.lockConversation id) s (.ok ())
  | locked {id : Uuid} : i ∉ s.aborted → (s.view i).conversations.has id = true → s.blocked i .update id = false →
      Performs s i (.lockConversation id) (s.lock i .update id) (.ok ())
  | numbered (id : Uuid) : Performs s i (.nextSeq id) s (.ok ((s.view i).nextSeq id))
  | inserted {id : Uuid} {role : MessageRole} {content : Text} {seq : ℕ} (m : Message) : i ∉ s.aborted →
      m.id ∉ s.knownMessages → m.conversationId = id → m.role = role → m.content = content → m.seq = seq →
      (s.view i).conversations.has id = true → s.blocked i .keyShare id = false →
      Performs s i (.insertMessage id role content seq)
        {(s.lock i .keyShare id).push i (.insert m) with knownMessages := m.id :: s.knownMessages} (.ok m)
  | touchedNone {id : Uuid} : (s.view i).conversations.has id = false → Performs s i (.touch id) s (.ok ())
  | touched {id : Uuid} (now : ℤ) : i ∉ s.aborted → (s.view i).conversations.has id = true →
      s.blocked i .noKeyUpdate id = false →
      Performs s i (.touch id) ((s.lock i .noKeyUpdate id).push i (.touch id now)) (.ok ())
  | untitled {id : Uuid} {title : Text} : ((s.view i).conversations.get id).any (fun c => c.title.isNone) = false →
      Performs s i (.setTitleIfNull id title) s (.ok ())
  | titled {id : Uuid} {title : Text} : i ∉ s.aborted → ((s.view i).conversations.get id).any (fun c => c.title.isNone) = true →
      s.blocked i .noKeyUpdate id = false →
      Performs s i (.setTitleIfNull id title) ((s.lock i .noKeyUpdate id).push i (.title id title)) (.ok ())
  | read (id : Uuid) : Performs s i (.messages id) s (.ok ((s.view i).transcript id))
  | droppedNone {id : Uuid} : (s.view i).messages.has id = false → Performs s i (.deleteMessage id) s (.ok ())
  | dropped {id : Uuid} : i ∉ s.aborted → (s.view i).messages.has id = true → s.deletedByOther i id = false →
      Performs s i (.deleteMessage id) (s.push i (.deleteMessage id)) (.ok ())
  | deletedNone {id : Uuid} : (s.view i).conversations.has id = false → Performs s i (.deleteConversation id) s (.ok ())
  | deleted {id : Uuid} : i ∉ s.aborted → (s.view i).conversations.has id = true → s.blocked i .update id = false →
      s.childDeletedByOther i id = false →
      Performs s i (.deleteConversation id) ((s.lock i .update id).push i (.deleteConversation id)) (.ok ())

theorem statement_cases {α : Type} {admits : Bool} {run : Option (ChatStore × Except Exc α)} {r : Except Exc α}
    (h : s.statement i admits run = some (s',r)) :
    (s' = s ∧ i ∈ s.aborted ∧ ∃ e, r = .error e) ∨ (s' = s.abort i ∧ ∃ e, r = .error e) ∨
      (i ∉ s.aborted ∧ run = some (s',r)) := by
  unfold statement at h
  split at h
  · rename_i ha
    cases h
    exact .inl ⟨rfl,ha,_,rfl⟩
  · rename_i ha
    split at h
    · cases h
      exact .inr (.inl ⟨rfl,_,rfl⟩)
    · exact .inr (.inr ⟨ha,h⟩)

theorem onRow_cases {mode : LockMode} {id : Uuid} {change : Option ChatWrite} {r : Except Exc Unit}
    (h : s.onRow i mode id change = some (s',r)) :
    ((s.view i).conversations.has id = false ∧ s' = s ∧ r = .ok ()) ∨
      ((s.view i).conversations.has id = true ∧ s.blocked i mode id = false ∧ r = .ok () ∧
        s' = change.elim (s.lock i mode id) (fun w => (s.lock i mode id).push i w)) := by
  unfold onRow at h
  split at h
  · rename_i hh
    split at h
    · cases h
    · rename_i hb
      cases h
      exact .inr ⟨hh,by simpa using hb,rfl,rfl⟩
  · rename_i hh
    cases h
    exact .inl ⟨by simpa using hh,rfl,rfl⟩

theorem perform_performs {pg : Postgres} {now : ℤ} {fresh : Uuid} {op : ChatSql} {r} (hop : op ≠ .commit)
    (h : s.perform pg i now fresh op = some (s',r)) : Performs s i op s' r := by
  cases op with
  | commit => exact absurd rfl hop
  | rollback =>
    cases h
    exact .rollback _
  | close =>
    cases h
    exact .close _
  | createConversation title =>
    rcases statement_cases h with ⟨rfl,ha,e,rfl⟩ | ⟨rfl,e,rfl⟩ | ⟨hna,h⟩
    · exact .refused e ha
    · exact .failed e
    · split at h
      · cases h
      · rename_i hf
        cases h
        exact .created _ hna hf rfl
  | getConversation id =>
    rcases statement_cases h with ⟨rfl,ha,e,rfl⟩ | ⟨rfl,e,rfl⟩ | ⟨hna,h⟩
    · exact .refused e ha
    · exact .failed e
    · cases h
      exact .got id
  | lockConversation id =>
    rcases statement_cases h with ⟨rfl,ha,e,rfl⟩ | ⟨rfl,e,rfl⟩ | ⟨hna,h⟩
    · exact .refused e ha
    · exact .failed e
    · rcases onRow_cases h with ⟨hh,rfl,rfl⟩ | ⟨hh,hb,rfl,rfl⟩
      · exact .unlocked hh
      · exact .locked hna hh hb
  | nextSeq id =>
    rcases statement_cases h with ⟨rfl,ha,e,rfl⟩ | ⟨rfl,e,rfl⟩ | ⟨hna,h⟩
    · exact .refused e ha
    · exact .failed e
    · cases h
      exact .numbered id
  | insertMessage id role content seq =>
    rcases statement_cases h with ⟨rfl,ha,e,rfl⟩ | ⟨rfl,e,rfl⟩ | ⟨hna,h⟩
    · exact .refused e ha
    · exact .failed e
    · split at h
      · cases h
      · rename_i hf
        split at h
        · cases h
        · split at h
          · cases h
            exact .failed _
          · split at h
            · rename_i hh
              split at h
              · cases h
              · rename_i hb
                cases h
                exact .inserted ⟨fresh,id,role,content,seq,now⟩ hna hf rfl rfl rfl rfl hh (by simpa using hb)
            · cases h
              exact .failed _
  | touch id =>
    rcases statement_cases h with ⟨rfl,ha,e,rfl⟩ | ⟨rfl,e,rfl⟩ | ⟨hna,h⟩
    · exact .refused e ha
    · exact .failed e
    · rcases onRow_cases h with ⟨hh,rfl,rfl⟩ | ⟨hh,hb,rfl,rfl⟩
      · exact .touchedNone hh
      · exact .touched now hna hh hb
  | setTitleIfNull id title =>
    rcases statement_cases h with ⟨rfl,ha,e,rfl⟩ | ⟨rfl,e,rfl⟩ | ⟨hna,h⟩
    · exact .refused e ha
    · exact .failed e
    · split at h
      · rename_i hn
        rcases onRow_cases h with ⟨hh,rfl,rfl⟩ | ⟨hh,hb,rfl,rfl⟩
        · unfold Table.has at hh
          cases hg : (s'.view i).conversations.get id with
          | none => simp [hg] at hn
          | some c => simp [hg] at hh
        · exact .titled hna hn hb
      · rename_i hn
        cases h
        exact .untitled (by simpa using hn)
  | messages id =>
    rcases statement_cases h with ⟨rfl,ha,e,rfl⟩ | ⟨rfl,e,rfl⟩ | ⟨hna,h⟩
    · exact .refused e ha
    · exact .failed e
    · cases h
      exact .read id
  | deleteMessage id =>
    rcases statement_cases h with ⟨rfl,ha,e,rfl⟩ | ⟨rfl,e,rfl⟩ | ⟨hna,h⟩
    · exact .refused e ha
    · exact .failed e
    · split at h
      · rename_i hh
        split at h
        · cases h
        · rename_i hb
          cases h
          exact .dropped hna hh (by simpa using hb)
      · rename_i hh
        cases h
        exact .droppedNone (by simpa using hh)
  | deleteConversation id =>
    rcases statement_cases h with ⟨rfl,ha,e,rfl⟩ | ⟨rfl,e,rfl⟩ | ⟨hna,h⟩
    · exact .refused e ha
    · exact .failed e
    · split at h
      · cases h
      · rename_i hc
        rcases onRow_cases h with ⟨hh,rfl,rfl⟩ | ⟨hh,hb,rfl,rfl⟩
        · exact .deletedNone hh
        · exact .deleted hna hh hb (by simpa using hc)

theorem chatExec_performs {pg : Postgres} {op : ChatSql} {choice : ChatChoice} {r} (hop : op ≠ .commit)
    (h : chatExec pg i s op choice = some (s',r)) : Performs s i op s' r := by
  have hfail : ∀ e, Performs s i op (s.failBefore i op) (.error e) := by
    intro e
    cases op with
    | rollback => exact .rollback _
    | close => exact .close _
    | _ => exact .failed e
  unfold chatExec at h
  split at h
  · exact perform_performs hop h
  · cases h
    exact hfail _
  · cases h
    have hsame : s.failAfter i op = s.failBefore i op := by
      cases op with
      | commit => exact absurd rfl hop
      | _ => rfl
    rw [hsame]
    exact hfail _

theorem Performs.quiet {op : ChatSql} {r} (h : Performs s i op s' r) : Quiet i s s' := by
  cases h with
  | refused | got | unlocked | numbered | touchedNone | untitled | read | droppedNone | deletedNone => exact quiet_refl i s
  | failed => exact quiet_abort i s
  | rollback | close => exact quiet_forget i s
  | created c hna hf _ =>
    exact quiet_extend [.create c] [] hna rfl rfl rfl rfl rfl (fun _ h => List.mem_cons_of_mem _ h) (fun _ h => h)
      (by simp) (by simp [hf])
  | locked hna _ hb =>
    exact quiet_extend [] [⟨i,.update,_⟩] hna rfl rfl (by simp [lock]) rfl rfl (fun _ h => h) (fun _ h => h)
      (by simp [hb]) (by simp)
  | inserted m hna hf _ _ _ _ _ hb =>
    exact quiet_extend [.insert m] [⟨i,.keyShare,_⟩] hna rfl rfl rfl rfl rfl (fun _ h => h)
      (fun _ h => List.mem_cons_of_mem _ h) (by simp [hb]) (by simp [hf])
  | touched now hna _ hb =>
    exact quiet_extend [.touch _ now] [⟨i,.noKeyUpdate,_⟩] hna rfl rfl rfl rfl rfl (fun _ h => h) (fun _ h => h)
      (by simp [hb]) (by simp)
  | titled hna _ hb =>
    exact quiet_extend [.title _ _] [⟨i,.noKeyUpdate,_⟩] hna rfl rfl rfl rfl rfl (fun _ h => h) (fun _ h => h)
      (by simp [hb]) (by simp)
  | dropped hna _ hd =>
    exact quiet_extend [.deleteMessage _] [] hna rfl rfl rfl rfl rfl (fun _ h => h) (fun _ h => h)
      (by simp) (by simp [hd])
  | deleted hna _ hb hd =>
    exact quiet_extend [.deleteConversation _] [⟨i,.update,_⟩] hna rfl rfl rfl rfl rfl (fun _ h => h) (fun _ h => h)
      (by simp [hb]) (by simp [hd])

/-- A statement that fails leaves its session without a transaction. -/
theorem Performs.error {op : ChatSql} {e : Exc} (hs : s.Inv) (h : Performs s i op s' (.error e)) : s'.own i = [] := by
  generalize hr : Except.error e = r at h
  cases h with
  | refused _ ha => exact hs.aborted i ha
  | failed => exact own_forget_self
  | rollback | close => exact own_forget_self
  | _ => cases hr

end ChatStore
end InferenceLogger
