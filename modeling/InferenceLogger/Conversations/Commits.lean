import InferenceLogger.Conversations.Statements

/-! # What a transaction commits

A commit opens a conversation, appends the next message to one, removes one with its messages,
or changes nothing; the other sessions do not notice.
-/
namespace InferenceLogger
open PyText PyJson AsyncTask KeyedTable

/-- The title that the first message of a transcript gives. -/
def openingTitle (ms : List Message) : Option Text := ms.head?.map fun m => ConversationRepository.titleOf m.content

theorem openingTitle_append {ms : List Message} (h : ms ≠ []) (m : Message) : openingTitle (ms ++ [m]) = openingTitle ms := by
  cases ms with
  | nil => exact absurd rfl h
  | cons x ms => rfl

theorem Db.applyChats_append (db : Db) (ws ws' : List ChatWrite) : db.applyChats (ws ++ ws') =
    (db.applyChats ws).applyChats ws' :=
  List.foldl_append ..

namespace ChatStore
variable {s : ChatStore} {i j : ℕ}

/-- Nothing has been said in a conversation that is about to be created. -/
theorem saidIn_created (hs : s.Inv) {c : Conversation} (hp : .create c ∈ s.own i) : s.saidIn c.id = [] := by
  unfold saidIn
  rw [List.filter_eq_nil_iff]
  intro m hm
  obtain ⟨p,hp',rfl⟩ := List.mem_map.mp hm
  have hne := (hs.spoken p hp').committed _ (mem_own.mp hp) c rfl
  simpa using Ne.symm hne

theorem mem_opening {a : Append} {c : Conversation} (hc : a.created = some c) : .create c ∈ a.opening := by
  simp [Append.opening,hc]

/-- The transcript of a conversation an append can go to is what has been said there. -/
theorem live_transcript (hs : s.Inv) {a : Append} (hp : s.Placed i a) (hl : s.Live a) (ho : a.opening ⊆ s.own i) :
    s.db.transcript a.id = s.saidIn a.id := by
  rw [hs.transcript]
  cases hc : a.created with
  | none =>
    rcases hl with hcr | hh
    · simp [hc] at hcr
    · rw [if_pos hh]
  | some c =>
    obtain ⟨hid,hcr⟩ := hp.created c hc
    rw [← hid, saidIn_created hs (ho (mem_opening hc)), ite_self]

/-- The row of the conversation, as the append finds it. -/
theorem opening_row (hs : s.Inv) {a : Append} (hp : s.Placed i a) (hl : s.Live a) (ho : a.opening ⊆ s.own i) :
    ∃ c, (s.db.applyChats a.opening).conversations.get a.id = some c ∧ c.id = a.id ∧ c.title = openingTitle (s.saidIn a.id) := by
  cases hc : a.created with
  | none =>
    rcases hl with hcr | hh
    · simp [hc] at hcr
    · obtain ⟨c,hg⟩ := Table.has_iff.mp hh
      have hopen : a.opening = [] := by simp [Append.opening,hc]
      rw [hopen]
      exact ⟨c,hg,hs.conversationKey _ _ hg,hs.titled _ _ hg⟩
  | some c =>
    obtain ⟨hid,hcr⟩ := hp.created c hc
    have hopen : a.opening = [.create c] := by simp [Append.opening,hc]
    refine ⟨c,?_,hid,?_⟩
    · rw [hopen, ← hid]
      exact (Db.applyChat_opened hcr.absent).row
    · rw [hcr.title, ← hid, saidIn_created hs (ho (mem_opening hc))]
      rfl

theorem opening_messages (a : Append) : (s.db.applyChats a.opening).messages = s.db.messages := by
  unfold Append.opening
  cases a.created <;> rfl

theorem opening_has {a : Append} (hh : (s.db.applyChats a.opening).conversations.has a.id = true) : s.Live a := by
  cases hc : a.created with
  | some c => exact .inl (by simp [hc])
  | none =>
    have hopen : a.opening = [] := by simp [Append.opening,hc]
    rw [hopen] at hh
    exact .inr hh

/-- The message is in, at the end of its conversation. -/
theorem inserted_appended (hs : s.Inv) {a : Append} {m : Message} (hw : s.Writing i a m) (ho : a.opening ⊆ s.own i) :
    Db.Appended s.db (s.db.applyChats (a.opening ++ [.insert m])) a.id m (openingTitle (s.saidIn a.id)) := by
  obtain ⟨c,hrow,hid,htitle⟩ := opening_row hs hw.placed hw.live ho
  have hmsgs := opening_messages (s := s) a
  have htr : (s.db.applyChats a.opening).transcript a.id = s.saidIn a.id := by
    rw [← live_transcript hs hw.placed hw.live ho]
    unfold Db.transcript
    rw [hmsgs]
  have hseq : ∀ x ∈ (s.db.applyChats a.opening).transcript a.id, x.seq ≤ m.seq := by
    intro x hx
    rw [htr] at hx
    have hmem : x.seq ∈ (s.saidIn a.id).map Message.seq := List.mem_map_of_mem hx
    rw [hs.numbered, List.mem_range] at hmem
    rw [hw.entry.seq]
    omega
  have hnew : (s.db.applyChats a.opening).messages.get m.id = none := by
    rw [hmsgs]
    exact hw.entry.absent
  have happ := Db.applyChat_appended hrow hid hnew hw.entry.conversation hseq
  rw [htitle] at happ
  rw [Db.applyChats_append]
  change Db.Appended s.db ((s.db.applyChats a.opening).applyChat (.insert m)) a.id m _
  cases hc : a.created with
  | none =>
    have hopen : a.opening = [] := by simp [Append.opening,hc]
    rw [hopen] at happ ⊢
    exact happ
  | some c' =>
    obtain ⟨hid',hcr⟩ := hw.placed.created c' hc
    have hopen : a.opening = [.create c'] := by simp [Append.opening,hc]
    rw [hopen] at happ ⊢
    rw [← hid'] at happ ⊢
    exact (Db.applyChat_opened hcr.absent).appended happ

theorem touched_appended (hs : s.Inv) {a : Append} {m : Message} {t : ℤ} (hw : s.Writing i a m) (ho : a.opening ⊆ s.own i) :
    Db.Appended s.db (s.db.applyChats (a.opening ++ [.insert m,.touch a.id t])) a.id m (openingTitle (s.saidIn a.id)) := by
  have happ := (inserted_appended hs hw ho).touched t
  have hsplit : a.opening ++ [.insert m,.touch a.id t] = (a.opening ++ [.insert m]) ++ [.touch a.id t] := by simp
  rw [hsplit, Db.applyChats_append]
  exact happ

/-- With the title of a conversation nothing had been said in. -/
theorem titled_appended (hs : s.Inv) {a : Append} {m : Message} {t : ℤ} (hw : s.Writing i a m) (ho : a.opening ⊆ s.own i) :
    Db.Appended s.db (s.db.applyChats (a.opening ++ [.insert m,.touch a.id t] ++ s.heading a)) a.id m
      (openingTitle (s.saidIn a.id ++ [m])) := by
  have happ := touched_appended (t := t) hs hw ho
  rw [Db.applyChats_append]
  unfold heading
  by_cases hnil : s.saidIn a.id = []
  · rw [if_pos hnil, hnil]
    have htitled := happ.titled (ConversationRepository.titleOf a.content)
    rw [← hw.entry.content] at htitled ⊢
    exact htitled
  · rw [if_neg hnil, openingTitle_append hnil]
    exact happ

/-! ## The commit -/

/-- What the open transaction of a session amounts to. -/
inductive Amounts (s : ChatStore) (i : ℕ) : Prop where
  | nothing : s.own i = [] → Amounts s i
  | opened (c : Conversation) : s.own i = [.create c] → s.Creates i c → Amounts s i
  | appended (a : Append) (m : Message) : s.Writing i a m → a.opening ⊆ s.own i → .insert m ∈ s.own i →
      (s.own i).filterMap ChatWrite.message = [m] → (m.role = .user ∨ s.saidIn a.id ≠ []) →
      Db.Appended s.db (s.view i) a.id m (openingTitle (s.saidIn a.id ++ [m])) → Amounts s i
  | removed (c : Uuid) : (s.own i).filterMap ChatWrite.message = [] → s.Ends i c → Db.Removed s.db (s.view i) c → Amounts s i

theorem opening_message (a : Append) : a.opening.filterMap ChatWrite.message = [] := by
  unfold Append.opening
  cases a.created <;> rfl

theorem heading_message (a : Append) : (s.heading a).filterMap ChatWrite.message = [] := by
  unfold heading
  split <;> rfl

/-- The messages a session deletes are those of the conversation it deletes. -/
theorem deletes_removed {c : Uuid} {ks : List Uuid} (hd : ∀ k ∈ ks, s.Deletes i c k) :
    Db.Removed s.db (s.db.applyChats (ks.map .deleteMessage ++ [.deleteConversation c])) c := by
  apply Db.deleteAll_removed
  intro k hk m hm
  obtain ⟨m',hm',hc⟩ := (hd k hk).row
  rw [hm'] at hm
  cases hm
  exact hc

/-- A phase that a commit may come in. -/
theorem Owns.amounts (hs : s.Inv) {φ : ChatPhase} {home : Option Home} (ho : s.Owns i φ) (h : φ.settles home) : s.Amounts i := by
  cases φ with
  | resolved c created =>
    obtain ⟨hown,hcr,-⟩ := ho
    cases created with
    | true => exact .opened c hown (hcr rfl)
    | false => exact .nothing hown
  | touched a m =>
    obtain ⟨t,hown,hw⟩ := ho
    obtain ⟨hhome,hne⟩ := h
    rcases hw.placed.author with ⟨-,hnone⟩ | ⟨-,-,x,hx,hconv⟩
    · exact absurd (hhome.symm.trans hnone) hne
    · have hcom := hw.placed.home x hx
      have hsaid : s.saidIn a.id ≠ [] := by
        intro hnil
        have hhist := hcom.history
        rw [hconv, hnil, List.prefix_nil] at hhist
        have hlast := hcom.last
        rw [hhist] at hlast
        cases hlast
      have hsub : a.opening ⊆ s.own i := by
        rw [hown]
        exact List.subset_append_left _ _
      refine .appended a m hw hsub (by simp [hown]) ?_ (.inr hsaid) ?_
      · rw [hown, List.filterMap_append, opening_message]
        rfl
      · rw [openingTitle_append hsaid]
        unfold view
        rw [hown]
        exact touched_appended hs hw hsub
  | read a m history =>
    obtain ⟨hhome,⟨t,hown⟩,hw,-⟩ := ho
    have hsub : a.opening ⊆ s.own i := by
      rw [hown, List.append_assoc]
      exact List.subset_append_left _ _
    refine .appended a m hw hsub (by simp [hown]) ?_ ?_ ?_
    · rw [hown, List.filterMap_append, List.filterMap_append, opening_message, heading_message]
      rfl
    · left
      rcases hw.placed.author with ⟨hrole,-⟩ | ⟨-,-,x,hx,-⟩
      · exact hw.entry.role.trans hrole
      · rw [hhome] at hx
        cases hx
    · unfold view
      rw [hown]
      exact titled_appended hs hw hsub
  | deleted c =>
    rcases ho with hnil | ⟨ks,hown,hd,he⟩
    · exact .nothing hnil
    · refine .removed c ?_ he ?_
      · rw [hown, List.filterMap_append]
        have hks : (ks.map ChatWrite.deleteMessage).filterMap ChatWrite.message = [] := by
          rw [List.filterMap_eq_nil_iff]
          intro w hw
          obtain ⟨k,-,rfl⟩ := List.mem_map.mp hw
          rfl
        rw [hks]
        rfl
      · unfold view
        rw [hown]
        exact deletes_removed hd
  | _ => exact absurd h (by simp [ChatPhase.settles])

theorem saidIn_commit (id : Uuid) : (s.commit i).saidIn id =
    s.saidIn id ++ ((s.own i).filterMap ChatWrite.message).filter fun m => decide (m.conversationId = id) := by
  simp [saidIn,commit,Function.comp_def]

theorem own_commit_other (h : j ≠ i) : (s.commit i).own j = s.own j := own_forget_other h

theorem own_commit_self : (s.commit i).own i = [] := own_forget_self

theorem mem_commit_writes {w : ℕ × ChatWrite} : w ∈ (s.commit i).writes ↔ w ∈ s.writes ∧ w.1 ≠ i := by
  simp [commit,forget]

theorem Settled.commit {id : Uuid} (h : s.Settled id) : (s.commit i).Settled id where
  known := h.known
  committed := fun w hw => h.committed w (mem_commit_writes.mp hw).1

theorem SettledMessage.commit {id : Uuid} (h : s.SettledMessage id) : (s.commit i).SettledMessage id where
  known := h.known
  committed := fun w hw => h.committed w (mem_commit_writes.mp hw).1

/-- A created conversation is settled once its creation is committed. -/
theorem Creates.settled {c : Conversation} (h : s.Creates i c) : (s.commit i).Settled c.id where
  known := h.known
  committed := by
    intro w hw c' hc' hid
    obtain ⟨hmem,hne⟩ := mem_commit_writes.mp hw
    exact hne (h.only w hmem c' hc' hid)

/-- What is left to show of a commit, once its locks and pending writes are gone. -/
theorem commit_inv_of (hs : s.Inv)
    (conversationKey : ∀ k c, (s.view i).conversations.get k = some c → c.id = k)
    (messageKey : ∀ k m, (s.view i).messages.get k = some m → m.id = k)
    (settled : ∀ k, (s.view i).conversations.has k = true → (s.commit i).Settled k)
    (settledMessage : ∀ k, (s.view i).messages.has k = true → (s.commit i).SettledMessage k)
    (spoken : ∀ p ∈ (s.commit i).said, (s.commit i).Settled p.2.conversationId)
    (transcript : ∀ k, (s.view i).transcript k = if (s.view i).conversations.has k = true then (s.commit i).saidIn k else [])
    (numbered : ∀ k, ((s.commit i).saidIn k).map Message.seq = List.range ((s.commit i).saidIn k).length)
    (opened : ∀ k m, ((s.commit i).saidIn k).head? = some m → m.role = .user)
    (titled : ∀ k c, (s.view i).conversations.get k = some c → c.title = openingTitle ((s.commit i).saidIn k)) :
    (s.commit i).Inv where
  conversationKey := conversationKey
  messageKey := messageKey
  settled := settled
  settledMessage := settledMessage
  pendingCreate := fun w hw => hs.pendingCreate w (mem_commit_writes.mp hw).1
  pendingInsert := fun w hw => hs.pendingInsert w (mem_commit_writes.mp hw).1
  spoken := spoken
  transcript := transcript
  numbered := numbered
  opened := opened
  titled := titled
  exclusive := fun l hl l' hl' => hs.exclusive l (List.mem_of_mem_filter hl) l' (List.mem_of_mem_filter hl')
  aborted := by
    intro j hj
    obtain ⟨hmem,hne⟩ := List.mem_filter.mp hj
    rw [own_commit_other (of_decide_eq_true hne)]
    exact hs.aborted j hmem

/-- A commit that says nothing. -/
theorem saidIn_commit_silent (h : (s.own i).filterMap ChatWrite.message = []) (id : Uuid) :
    (s.commit i).saidIn id = s.saidIn id := by
  rw [saidIn_commit, h]
  simp

theorem said_commit_silent (h : (s.own i).filterMap ChatWrite.message = []) : (s.commit i).said = s.said := by
  simp [commit,h]

theorem saidIn_commit_appended {a : Append} {m : Message} (hm : m.conversationId = a.id)
    (h : (s.own i).filterMap ChatWrite.message = [m]) (id : Uuid) :
    (s.commit i).saidIn id = s.saidIn id ++ if id = a.id then [m] else [] := by
  rw [saidIn_commit, h]
  by_cases hid : id = a.id
  · simp [hid,hm]
  · simp [hid,hm,Ne.symm hid]

theorem commit_inv_opened (hs : s.Inv) {c : Conversation} (hown : s.own i = [.create c]) (hc : s.Creates i c) :
    (s.commit i).Inv := by
  have hopen : Db.Opened s.db (s.view i) c := by
    unfold view
    rw [hown]
    exact Db.applyChat_opened hc.absent
  have hsilent : (s.own i).filterMap ChatWrite.message = [] := by
    rw [hown]
    rfl
  have hsaid := saidIn_commit_silent hsilent
  have hnone : s.saidIn c.id = [] := saidIn_created (i := i) hs (by simp [hown])
  have hhas : ∀ k, k ≠ c.id → (s.view i).conversations.has k = s.db.conversations.has k := by
    intro k hk
    unfold Table.has
    rw [hopen.rows k hk]
  have htr : ∀ k, (s.view i).transcript k = s.db.transcript k := by
    intro k
    unfold Db.transcript
    rw [hopen.messages]
  apply commit_inv_of hs
  · intro k c' hg
    by_cases hk : k = c.id
    · subst hk
      rw [hopen.row] at hg
      cases hg
      rfl
    · rw [hopen.rows k hk] at hg
      exact hs.conversationKey k c' hg
  · rw [hopen.messages]
    exact hs.messageKey
  · intro k hk
    by_cases hkc : k = c.id
    · rw [hkc]
      exact hc.settled
    · rw [hhas k hkc] at hk
      exact (hs.settled k hk).commit
  · rw [hopen.messages]
    exact fun k hk => (hs.settledMessage k hk).commit
  · rw [said_commit_silent hsilent]
    exact fun p hp => (hs.spoken p hp).commit
  · intro k
    rw [htr, hsaid, hs.transcript]
    by_cases hk : k = c.id
    · rw [hk, hnone, ite_self, ite_self]
    · rw [hhas k hk]
  · intro k
    rw [hsaid]
    exact hs.numbered k
  · intro k
    rw [hsaid]
    exact hs.opened k
  · intro k c' hg
    rw [hsaid]
    by_cases hk : k = c.id
    · subst hk
      rw [hopen.row] at hg
      cases hg
      rw [hc.title, hnone]
      rfl
    · rw [hopen.rows k hk] at hg
      exact hs.titled k c' hg

theorem commit_inv_removed (hs : s.Inv) {c : Uuid} (hsilent : (s.own i).filterMap ChatWrite.message = [])
    (hr : Db.Removed s.db (s.view i) c) : (s.commit i).Inv := by
  have hsaid := saidIn_commit_silent hsilent
  have hhas : ∀ k, k ≠ c → (s.view i).conversations.has k = s.db.conversations.has k := by
    intro k hk
    unfold Table.has
    rw [hr.rows k hk]
  have hgone : (s.view i).conversations.has c = false := by
    unfold Table.has
    rw [hr.row]
    rfl
  have hold : ∀ k m, (s.view i).messages.get k = some m → s.db.messages.get k = some m := by
    intro k m hg
    rw [hr.message k] at hg
    exact (Option.filter_eq_some_iff.mp hg).1
  apply commit_inv_of hs
  · intro k c' hg
    by_cases hk : k = c
    · rw [hk, hr.row] at hg
      cases hg
    · rw [hr.rows k hk] at hg
      exact hs.conversationKey k c' hg
  · exact fun k m hg => hs.messageKey k m (hold k m hg)
  · intro k hk
    by_cases hkc : k = c
    · rw [hkc, hgone] at hk
      cases hk
    · rw [hhas k hkc] at hk
      exact (hs.settled k hk).commit
  · intro k hk
    obtain ⟨m,hg⟩ := Table.has_iff.mp hk
    exact (hs.settledMessage k (Table.has_iff.mpr ⟨m,hold k m hg⟩)).commit
  · rw [said_commit_silent hsilent]
    exact fun p hp => (hs.spoken p hp).commit
  · intro k
    rw [hsaid]
    by_cases hk : k = c
    · rw [hk, hr.transcript, hgone]
      rfl
    · rw [hr.transcripts k hk, hhas k hk]
      exact hs.transcript k
  · intro k
    rw [hsaid]
    exact hs.numbered k
  · intro k
    rw [hsaid]
    exact hs.opened k
  · intro k c' hg
    rw [hsaid]
    by_cases hk : k = c
    · rw [hk, hr.row] at hg
      cases hg
    · rw [hr.rows k hk] at hg
      exact hs.titled k c' hg

/-- The conversation of an append is settled once the append is committed. -/
theorem Writing.settled {a : Append} {m : Message} (hw : s.Writing i a m) : (s.commit i).Settled a.id := by
  cases hc : a.created with
  | some c =>
    obtain ⟨hid,hcr⟩ := hw.placed.created c hc
    exact hid ▸ hcr.settled
  | none => exact (hw.placed.existing hc).1.commit

theorem commit_inv_appended (hs : s.Inv) {a : Append} {m : Message} (hw : s.Writing i a m) (ho : a.opening ⊆ s.own i)
    (hm : (s.own i).filterMap ChatWrite.message = [m]) (hu : m.role = .user ∨ s.saidIn a.id ≠ [])
    (happ : Db.Appended s.db (s.view i) a.id m (openingTitle (s.saidIn a.id ++ [m]))) : (s.commit i).Inv := by
  have hsaid := saidIn_commit_appended hw.entry.conversation hm
  obtain ⟨row,hrow,hrid,hrtitle⟩ := happ.row
  have hhas : ∀ k, k ≠ a.id → (s.view i).conversations.has k = s.db.conversations.has k := by
    intro k hk
    unfold Table.has
    rw [happ.rows k hk]
  apply commit_inv_of hs
  · intro k c' hg
    by_cases hk : k = a.id
    · rw [hk, hrow] at hg
      cases hg
      exact hrid.trans hk.symm
    · rw [happ.rows k hk] at hg
      exact hs.conversationKey k c' hg
  · intro k m' hg
    rw [happ.message] at hg
    split at hg
    · rename_i hk
      cases hg
      exact hk.symm
    · exact hs.messageKey k m' hg
  · intro k hk
    by_cases hkc : k = a.id
    · rw [hkc]
      exact hw.settled
    · rw [hhas k hkc] at hk
      exact (hs.settled k hk).commit
  · intro k hk
    obtain ⟨m',hg⟩ := Table.has_iff.mp hk
    rw [happ.message] at hg
    split at hg
    · rename_i hkm
      refine ⟨hkm ▸ hw.entry.known,?_⟩
      intro w hmem x hx hid
      obtain ⟨hold,hne⟩ := mem_commit_writes.mp hmem
      exact hne (hw.entry.only w hold x hx (hid.trans hkm))
    · exact (hs.settledMessage k (Table.has_iff.mpr ⟨m',hg⟩)).commit
  · intro p hp
    simp only [commit, hm, List.map_cons, List.map_nil, List.mem_append, List.mem_singleton] at hp
    rcases hp with hp | rfl
    · exact (hs.spoken p hp).commit
    · rw [hw.entry.conversation]
      exact hw.settled
  · intro k
    rw [hsaid]
    by_cases hk : k = a.id
    · subst hk
      rw [happ.transcript, if_pos (Table.has_iff.mpr ⟨row,hrow⟩), if_pos rfl, live_transcript hs hw.placed hw.live ho]
    · rw [happ.transcripts k hk, hhas k hk, if_neg hk, List.append_nil]
      exact hs.transcript k
  · intro k
    rw [hsaid]
    by_cases hk : k = a.id
    · subst hk
      rw [if_pos rfl, List.map_append, hs.numbered, List.length_append, List.map_singleton, List.length_singleton,
        List.range_succ, hw.entry.seq]
    · rw [if_neg hk, List.append_nil]
      exact hs.numbered k
  · intro k x hx
    rw [hsaid] at hx
    by_cases hk : k = a.id
    · subst hk
      rw [if_pos rfl] at hx
      cases hl : s.saidIn a.id with
      | nil =>
        rw [hl] at hx
        cases hx
        exact hu.resolve_right fun hne => hne hl
      | cons y ys =>
        rw [hl] at hx
        cases hx
        exact hs.opened a.id x (by rw [hl]; rfl)
    · rw [if_neg hk, List.append_nil] at hx
      exact hs.opened k x hx
  · intro k c' hg
    rw [hsaid]
    by_cases hk : k = a.id
    · subst hk
      rw [hrow] at hg
      cases hg
      rw [if_pos rfl]
      exact hrtitle
    · rw [happ.rows k hk] at hg
      rw [if_neg hk, List.append_nil]
      exact hs.titled k c' hg

theorem commit_inv (hs : s.Inv) (h : s.Amounts i) : (s.commit i).Inv := by
  cases h with
  | opened c hown hc => exact commit_inv_opened hs hown hc
  | appended a m hw ho _ hm hu happ => exact commit_inv_appended hs hw ho hm hu happ
  | removed c hsilent _ hr => exact commit_inv_removed hs hsilent hr
  | nothing hown =>
    have hview : s.view i = s.db := by
      unfold view
      rw [hown]
      rfl
    have hsilent : (s.own i).filterMap ChatWrite.message = [] := by
      rw [hown]
      rfl
    have hsaid := saidIn_commit_silent hsilent
    apply commit_inv_of hs
    · rw [hview]
      exact hs.conversationKey
    · rw [hview]
      exact hs.messageKey
    · rw [hview]
      exact fun k hk => (hs.settled k hk).commit
    · rw [hview]
      exact fun k hk => (hs.settledMessage k hk).commit
    · rw [said_commit_silent hsilent]
      exact fun p hp => (hs.spoken p hp).commit
    · intro k
      rw [hview, hsaid]
      exact hs.transcript k
    · intro k
      rw [hsaid]
      exact hs.numbered k
    · intro k
      rw [hsaid]
      exact hs.opened k
    · intro k
      rw [hview, hsaid]
      exact hs.titled k

/-! ## The other sessions -/

/-- Two sessions do not change the same conversation. -/
theorem guards_apart (hs : s.Inv) (hij : j ≠ i) {id : Uuid} (hj : s.Guards j id)
    (hi : (s.Holds i id ∧ s.db.conversations.has id = true) ∨ ∃ c, c.id = id ∧ .create c ∈ s.own i ∧ s.Creates i c) : False := by
  rcases hi with ⟨hhold,hhas⟩ | ⟨c,rfl,hp,hc⟩
  · rcases hj with ⟨hhold',-⟩ | ⟨c,rfl,hc⟩ | ⟨-,hgone⟩
    · have hno := hs.exclusive _ hhold _ hhold' (Ne.symm hij) rfl
      cases hno
    · obtain ⟨c',hg⟩ := Table.has_iff.mp hhas
      rw [hc.absent] at hg
      cases hg
    · rw [hgone] at hhas
      cases hhas
  · rcases hj with ⟨-,hhas⟩ | ⟨c',hid,hc'⟩ | ⟨hset,-⟩
    · obtain ⟨x,hg⟩ := Table.has_iff.mp hhas
      rw [hc.absent] at hg
      cases hg
    · exact hij (hc'.only _ (mem_own.mp hp) c rfl hid.symm).symm
    · exact hset.committed _ (mem_own.mp hp) c rfl rfl

/-- An append commands its conversation. -/
theorem Writing.commands {a : Append} {m : Message} (hw : s.Writing i a m) (ho : a.opening ⊆ s.own i) :
    (s.Holds i a.id ∧ s.db.conversations.has a.id = true) ∨ ∃ c, c.id = a.id ∧ .create c ∈ s.own i ∧ s.Creates i c := by
  cases hc : a.created with
  | some c =>
    obtain ⟨hid,hcr⟩ := hw.placed.created c hc
    exact .inr ⟨c,hid,ho (mem_opening hc),hcr⟩
  | none =>
    rcases hw.live with hsome | hhas
    · simp [hc] at hsome
    · rcases (hw.placed.existing hc).2 with hhold | hgone
      · exact .inl ⟨hhold,hhas⟩
      · rw [hgone] at hhas
        cases hhas

theorem said_commit_grows : s.said <+: (s.commit i).said := List.prefix_append _ _

/-- What is left to show of a commit: the rows others count on. -/
theorem commit_around_of (hij : j ≠ i)
    (kept : ∀ id, s.Guards j id → (s.view i).conversations.get id = s.db.conversations.get id ∧
      (s.commit i).saidIn id = s.saidIn id ∧ ∀ k m, m.conversationId = id →
        ((s.view i).messages.get k = some m ↔ s.db.messages.get k = some m))
    (unborn : ∀ m, .insert m ∈ s.own j → s.db.messages.get m.id = none → (s.view i).messages.get m.id = none)
    (old : ∀ k m, s.SettledMessage k → (s.view i).messages.get k = some m → s.db.messages.get k = some m)
    (doomed : ∀ c k, s.Deletes j c k → ∃ m, (s.view i).messages.get k = some m ∧ m.conversationId = c) :
    s.Around j (s.commit i) where
  own := own_commit_other hij
  locks := fun l hl hs => List.mem_filter.mpr ⟨hl,by simpa [hs] using hij⟩
  conversations := fun _ h => h
  messages := fun _ h => h
  writes := fun w hw => .inl (mem_commit_writes.mp hw).1
  said := said_commit_grows
  kept := kept
  unborn := unborn
  old := old
  doomed := doomed

theorem commit_around (hs : s.Inv) (hij : j ≠ i) (h : s.Amounts i) : s.Around j (s.commit i) := by
  cases h with
  | nothing hown =>
    have hview : s.view i = s.db := by
      unfold view
      rw [hown]
      rfl
    apply commit_around_of hij
    · intro id _
      rw [hview]
      refine ⟨rfl,saidIn_commit_silent ?_ id,fun _ _ _ => Iff.rfl⟩
      rw [hown]
      rfl
    · rw [hview]
      exact fun _ _ hm => hm
    · rw [hview]
      exact fun _ _ _ hm => hm
    · rw [hview]
      exact fun _ _ hd => hd.row
  | opened c hown hc =>
    have hopen : Db.Opened s.db (s.view i) c := by
      unfold view
      rw [hown]
      exact Db.applyChat_opened hc.absent
    apply commit_around_of hij
    · intro id hg
      have hne : id ≠ c.id := by
        rintro rfl
        exact guards_apart hs hij hg (.inr ⟨c,rfl,by simp [hown],hc⟩)
      rw [hopen.messages]
      refine ⟨hopen.rows id hne,saidIn_commit_silent ?_ id,fun _ _ _ => Iff.rfl⟩
      rw [hown]
      rfl
    · rw [hopen.messages]
      exact fun _ _ hm => hm
    · rw [hopen.messages]
      exact fun _ _ _ hm => hm
    · rw [hopen.messages]
      exact fun _ _ hd => hd.row
  | appended a m hw ho hp hm _ happ =>
    apply commit_around_of hij
    · intro id hg
      have hne : id ≠ a.id := by
        rintro rfl
        exact guards_apart hs hij hg (hw.commands ho)
      refine ⟨happ.rows id hne,?_,?_⟩
      · rw [saidIn_commit_appended hw.entry.conversation hm, if_neg hne, List.append_nil]
      · intro k x hx
        rw [happ.message]
        by_cases hk : k = m.id
        · rw [if_pos hk, hk, hw.entry.absent]
          constructor
          · intro he
            cases he
            exact absurd (hx.symm.trans hw.entry.conversation) hne
          · intro he
            cases he
        · rw [if_neg hk]
    · intro x hx hnone
      have hne : x.id ≠ m.id := fun hid => hij (hw.entry.only _ (mem_own.mp hx) x rfl hid)
      rw [happ.message, if_neg hne]
      exact hnone
    · intro k x hset hg
      have hne : k ≠ m.id := fun hid => hset.committed _ (mem_own.mp hp) m rfl hid.symm
      rwa [happ.message, if_neg hne] at hg
    · intro c k hd
      obtain ⟨x,hx,hc⟩ := hd.row
      have hne : k ≠ m.id := by
        rintro rfl
        rw [hw.entry.absent] at hx
        cases hx
      exact ⟨x,by rw [happ.message, if_neg hne]; exact hx,hc⟩
  | removed c hsilent he hr =>
    apply commit_around_of hij
    · intro id hg
      have hne : id ≠ c := by
        rintro rfl
        exact guards_apart hs hij hg (.inl ⟨he.holds,he.present⟩)
      refine ⟨hr.rows id hne,saidIn_commit_silent hsilent id,?_⟩
      intro k x hx
      rw [hr.message, Option.filter_eq_some_iff]
      constructor
      · exact fun h => h.1
      · exact fun h => ⟨h,by simpa [hx] using hne⟩
    · intro x _ hnone
      rw [hr.message, hnone]
      rfl
    · intro k x _ hg
      rw [hr.message] at hg
      exact (Option.filter_eq_some_iff.mp hg).1
    · intro c' k hd
      obtain ⟨x,hx,hc⟩ := hd.row
      have hne := he.only _ (mem_own.mp hd.pending) hij k x rfl hx
      exact ⟨x,by rw [hr.message, Option.filter_eq_some_iff]; exact ⟨hx,by simpa using hne⟩,hc⟩

end ChatStore
end InferenceLogger
