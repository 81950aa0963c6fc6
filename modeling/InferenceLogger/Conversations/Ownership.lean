import InferenceLogger.Conversations.Commits

/-! # A session's own steps

Each statement takes the session that issues it to the phase its answer leads to, with the
pending writes, locks and new ids of that phase.
-/
namespace InferenceLogger
open PyText PyJson AsyncTask KeyedTable

namespace ChatStore
variable {s s' : ChatStore} {i j : ℕ}

/-! ## A session's own step -/

namespace Quiet
variable (h : Quiet i s s')
include h

theorem settled {id : Uuid} (hs : s.Settled id) : s'.Settled id := (h.around (Nat.succ_ne_self i)).settled hs

theorem settledMessage {id : Uuid} (hs : s.SettledMessage id) : s'.SettledMessage id :=
  (h.around (Nat.succ_ne_self i)).settledMessage hs

theorem atHome {home : Option Home} (hh : s.AtHome i home) : s'.AtHome i home := by
  intro x hx
  obtain ⟨hset,hhist,hlast,hsaid,hrole,hcontent⟩ := hh x hx
  refine ⟨h.settled hset,?_,hlast,?_,hrole,hcontent⟩
  · rw [saidIn_congr h.said]
    exact hhist
  · rw [h.said]
    exact hsaid

theorem creates {c : Conversation} (hc : s.Creates i c) : s'.Creates i c where
  title := hc.title
  absent := by
    rw [h.db]
    exact hc.absent
  known := h.conversations hc.known
  only := by
    intro w hw c' hc' hid
    rcases h.writes w hw with hold | ⟨hi,-⟩
    · exact hc.only w hold c' hc' hid
    · exact hi

theorem placed (hl : s.locks ⊆ s'.locks) {a : Append} (hp : s.Placed i a) : s'.Placed i a where
  created := fun c hc => ⟨(hp.created c hc).1,h.creates (hp.created c hc).2⟩
  existing := by
    intro hc
    obtain ⟨hs,hold | hgone⟩ := hp.existing hc
    · exact ⟨h.settled hs,.inl (hl hold)⟩
    · exact ⟨h.settled hs,.inr (by rw [h.db]; exact hgone)⟩
  author := hp.author
  home := h.atHome hp.home

theorem live (a : Append) : s'.Live a ↔ s.Live a := by
  unfold Live
  rw [h.db]

theorem heading (a : Append) : s'.heading a = s.heading a := by
  unfold ChatStore.heading
  rw [saidIn_congr h.said]

theorem writing (hl : s.locks ⊆ s'.locks) {a : Append} {m : Message} (hw : s.Writing i a m) : s'.Writing i a m where
  placed := h.placed hl hw.placed
  live := (h.live a).mpr hw.live
  entry := {
    conversation := hw.entry.conversation
    role := hw.entry.role
    content := hw.entry.content
    seq := by
      rw [saidIn_congr h.said]
      exact hw.entry.seq
    known := h.messages hw.entry.known
    absent := by
      rw [h.db]
      exact hw.entry.absent
    only := by
      intro w hmem m' hm' hid
      rcases h.writes w hmem with hold | ⟨hi,-⟩
      · exact hw.entry.only w hold m' hm' hid
      · exact hi }

theorem deletes (ho : s.own i ⊆ s'.own i) {c k : Uuid} (hd : s.Deletes i c k) : s'.Deletes i c k where
  pending := ho hd.pending
  row := by
    rw [h.db]
    exact hd.row
  only := by
    intro w hw hne
    rcases h.writes w hw with hold | ⟨hi,-⟩
    · exact hd.only w hold hne
    · exact absurd hi hne

theorem lists {c : Uuid} {m : Message} (hl : s.Lists c m) : s'.Lists c m where
  settled := h.settledMessage hl.settled
  row := by
    rw [h.db]
    exact hl.row

end Quiet

theorem Owns.atHome {φ : ChatPhase} (ho : s.Owns i φ) : s.AtHome i φ.home := by
  cases φ with
  | idle | failing => exact ho.2
  | resolved | listed | deleted => exact fun x hx => nomatch hx
  | locked a => exact ho.2.home
  | numbered a n => exact ho.2.1.home
  | inserted a m => exact ho.2.placed.home
  | touched a m =>
    obtain ⟨-,-,hw⟩ := ho
    exact hw.placed.home
  | titled a m =>
    obtain ⟨-,-,-,hw⟩ := ho
    exact hw.placed.home
  | read a m history => exact ho.2.2.1.placed.home

/-- A transaction that is over. -/
theorem owns_over {home : Option Home} (hown : s.own i = []) (hh : s.AtHome i home) :
    s.Owns i (.idle home) ∧ s.Owns i (.failing home) := ⟨⟨hown,hh⟩,hown,hh⟩

theorem view_nil (h : s.own i = []) : s.view i = s.db := by
  unfold view
  rw [h]
  rfl

/-- In a deleting session the rows of the conversations are the committed ones. -/
theorem deletes_of_own {c : Uuid} (h : ∀ w ∈ s.own i, ∃ k, w = .deleteMessage k ∧ s.Deletes i c k) :
    ∃ ks : List Uuid, s.own i = ks.map .deleteMessage ∧ ∀ k ∈ ks, s.Deletes i c k := by
  generalize s.own i = ws at h
  induction ws with
  | nil => exact ⟨[],rfl,by simp⟩
  | cons w ws ih =>
    obtain ⟨ks,hks,hd⟩ := ih fun x hx => h x (List.mem_cons_of_mem _ hx)
    obtain ⟨k,rfl,hk⟩ := h w List.mem_cons_self
    refine ⟨k :: ks,by rw [hks]; rfl,?_⟩
    intro x hx
    rcases List.mem_cons.mp hx with rfl | hx
    · exact hk
    · exact hd x hx

theorem deleting_view {c : Uuid} {ks : List Uuid} (hown : s.own i = ks.map .deleteMessage)
    (hd : ∀ k ∈ ks, s.Deletes i c k) : (s.view i).conversations = s.db.conversations ∧
      ∀ k, (s.view i).messages.get k = if k ∈ ks then none else s.db.messages.get k := by
  have hframe := Db.deleteMessages_frame ks fun k hk m hm => by
    obtain ⟨m',hm',hc⟩ := (hd k hk).row
    rw [hm'] at hm
    cases hm
    exact hc
  unfold view
  rw [hown]
  exact ⟨hframe.1,hframe.2.1⟩

/-- A message in a conversation keeps the conversation there. -/
theorem Inv.attached (hs : s.Inv) {k : Uuid} {m : Message} (h : s.db.messages.get k = some m) :
    s.db.conversations.has m.conversationId = true := by
  have hmem : m ∈ s.db.transcript m.conversationId := Db.mem_transcript.mpr ⟨⟨k,h⟩,rfl⟩
  rw [hs.transcript] at hmem
  by_cases hh : s.db.conversations.has m.conversationId = true
  · exact hh
  · rw [if_neg hh] at hmem
    cases hmem

theorem own_lock (mode : LockMode) (id : Uuid) (w : ChatWrite) : ((s.lock i mode id).push i w).own i = s.own i ++ [w] :=
  own_push_self w

theorem locks_cons (l : RowLock) : s.locks ⊆ l :: s.locks := fun _ h => List.mem_cons_of_mem _ h

/-- What the row lookup finds before the message is in. -/
theorem opening_view {a : Append} (hown : s.own i = a.opening) : s.view i = s.db.applyChats a.opening := by
  unfold view
  rw [hown]

/-- The number an append gets. -/
theorem next_number (hs : s.Inv) {a : Append} (hown : s.own i = a.opening) (hp : s.Placed i a) (hl : s.Live a) :
    (s.view i).nextSeq a.id = (s.saidIn a.id).length := by
  have htr : (s.view i).transcript a.id = s.saidIn a.id := by
    rw [opening_view hown, ← live_transcript hs hp hl (by rw [hown]; exact fun _ h => h)]
    unfold Db.transcript
    rw [opening_messages]
  have hnum : ((s.view i).transcript a.id).map Message.seq = List.range ((s.view i).transcript a.id).length := by
    rw [htr]
    exact hs.numbered a.id
  rw [Db.nextSeq_of_numbered hnum, htr]

/-- A statement takes its session to the phase its answer leads to. -/
theorem Owns.step (hs : s.Inv) {φ φ' : ChatPhase} {op : ChatSql} {r} (ho : s.Owns i φ) (ha : SqlAllows φ op r φ')
    (hp : Performs s i op s' r) (hc : op ≠ .commit) : s'.Owns i φ' := by
  have hq := hp.quiet
  have hhome : s'.AtHome i φ.home := hq.atHome ho.atHome
  cases ha with
  | commit => exact absurd rfl hc
  | rollback =>
    cases hp with
    | rollback => exact (owns_over own_forget_self hhome).2
    | refused e he => exact (owns_over (hs.aborted i he) hhome).2
    | failed e => exact (owns_over own_abort_self hhome).2
  | close =>
    cases hp with
    | close => exact (owns_over own_forget_self hhome).1
    | refused e he => exact (owns_over (hs.aborted i he) hhome).1
    | failed e => exact (owns_over own_abort_self hhome).1
  | create r =>
    cases r with
    | error e => exact (owns_over (hp.error hs) hhome).2
    | ok c =>
      cases hp with
      | created c hna hf htitle =>
        have hnone : s.db.conversations.get c.id = none := by
          cases hg : s.db.conversations.get c.id with
          | none => rfl
          | some x => exact absurd (hs.settled c.id (Table.has_iff.mpr ⟨x,hg⟩)).known hf
        refine ⟨?_,fun _ => ⟨htitle,hnone,List.mem_cons_self,?_⟩,by simp⟩
        · exact (own_push_self (.create c)).trans (by rw [ho.1]; rfl)
        · intro w hw c' hc' hid
          rcases hq.writes w hw with hold | ⟨hi,-⟩
          · exact absurd (hid ▸ hs.pendingCreate w hold c' hc') hf
          · exact hi
  | get id r =>
    cases r with
    | error e => exact (owns_over (hp.error hs) hhome).2
    | ok found =>
      cases hp with
      | got =>
        rw [view_nil ho.1]
        cases hg : s.db.conversations.get id with
        | none => exact (owns_over ho.1 hhome).2
        | some c =>
          refine ⟨ho.1,by simp,fun _ => ?_⟩
          have hid := hs.conversationKey id c hg
          rw [hid]
          exact hs.settled id (Table.has_iff.mpr ⟨c,hg⟩)
  | @lock c created content r =>
    cases r with
    | error e => exact (owns_over (hp.error hs) hhome).2
    | ok u =>
      obtain ⟨hown,hcr,hset⟩ := ho
      have hopening : s.own i = Append.opening ⟨c.id,if created then some c else none,.user,content,none⟩ := by
        rw [hown]
        cases created <;> rfl
      have hplaced : ∀ t : ChatStore, Quiet i s t →
          (created = false → t.Holds i c.id ∨ t.db.conversations.has c.id = false) →
          t.Placed i ⟨c.id,if created then some c else none,.user,content,none⟩ := by
        intro t hqt hkeep
        refine ⟨?_,?_,.inl ⟨rfl,rfl⟩,by simp [AtHome]⟩
        · intro c' hc'
          cases created with
          | false => cases hc'
          | true =>
            cases hc'
            exact ⟨rfl,hqt.creates (hcr rfl)⟩
        · intro hc'
          cases created with
          | true => cases hc'
          | false => exact ⟨hqt.settled (hset rfl),hkeep rfl⟩
      cases hp with
      | unlocked hh =>
        refine ⟨hopening,hplaced s hq fun hcreated => .inr ?_⟩
        rw [hcreated] at hown
        rwa [view_nil hown] at hh
      | locked hna hh hb => exact ⟨hopening,hplaced _ hq fun _ => .inl List.mem_cons_self⟩
  | @lockHome h content r =>
    cases r with
    | error e => exact (owns_over (hp.error hs) hhome).2
    | ok u =>
      have hset : s.Settled h.conversation := (ho.2 h rfl).settled
      have hplaced : ∀ t : ChatStore, Quiet i s t → (t.Holds i h.conversation ∨ t.db.conversations.has h.conversation = false) →
          t.Placed i ⟨h.conversation,none,.assistant,content,some h⟩ := fun t hqt hkeep =>
        ⟨by simp,fun _ => ⟨hqt.settled hset,hkeep⟩,.inr ⟨rfl,rfl,h,rfl,rfl⟩,hqt.atHome ho.2⟩
      cases hp with
      | unlocked hh =>
        rw [view_nil ho.1] at hh
        exact ⟨ho.1,hplaced s hq (.inr hh)⟩
      | locked hna hh hb => exact ⟨ho.1,hplaced _ hq (.inl List.mem_cons_self)⟩
  | number r =>
    cases r with
    | error e => exact (owns_over (hp.error hs) hhome).2
    | ok n =>
      cases hp with
      | numbered => exact ⟨ho.1,ho.2,fun hl => next_number hs ho.1 ho.2 hl⟩
  | @insert a n r =>
    cases r with
    | error e => exact (owns_over (hp.error hs) hhome).2
    | ok m =>
      obtain ⟨hown,hplaced,hn⟩ := ho
      cases hp with
      | inserted m hna hf hconv hrole hcontent hseq hh hb =>
        have hlive : s.Live a := by
          rw [opening_view hown] at hh
          exact opening_has hh
        refine ⟨(own_push_self (.insert m)).trans (by rw [← hown]; rfl),hq.placed (locks_cons _) hplaced,
          (hq.live a).mpr hlive,?_⟩
        refine ⟨hconv,hrole,hcontent,?_,List.mem_cons_self,?_,?_⟩
        · rw [hseq, hn hlive, saidIn_congr hq.said]
        · change s.db.messages.get m.id = none
          cases hg : s.db.messages.get m.id with
          | none => rfl
          | some x => exact absurd (hs.settledMessage m.id (Table.has_iff.mpr ⟨x,hg⟩)).known hf
        · intro w hw m' hm' hid
          rcases hq.writes w hw with hold | ⟨hi,-⟩
          · exact absurd (hid ▸ hs.pendingInsert w hold m' hm') hf
          · exact hi
  | @touch a m r =>
    cases r with
    | error e => exact (owns_over (hp.error hs) hhome).2
    | ok u =>
      obtain ⟨hown,hw⟩ := ho
      have hsub : a.opening ⊆ s.own i := by
        rw [hown]
        exact List.subset_append_left _ _
      cases hp with
      | touchedNone hh =>
        obtain ⟨row,hrow,-⟩ := (inserted_appended hs hw hsub).row
        have hview : s.view i = s.db.applyChats (a.opening ++ [.insert m]) := by
          unfold view
          rw [hown]
        rw [hview] at hh
        rw [Table.has_iff.mpr ⟨row,hrow⟩] at hh
        cases hh
      | touched now hna hh hb =>
        refine ⟨now,?_,hq.writing (locks_cons _) hw⟩
        rw [own_lock, hown]
        simp
  | @title a m r hnone =>
    cases r with
    | error e => exact (owns_over (hp.error hs) hhome).2
    | ok u =>
      obtain ⟨t,hown,hw⟩ := ho
      have hsub : a.opening ⊆ s.own i := by
        rw [hown]
        exact List.subset_append_left _ _
      obtain ⟨row,hrow,-,htitle⟩ := (touched_appended (t := t) hs hw hsub).row
      have hview : s.view i = s.db.applyChats (a.opening ++ [.insert m,.touch a.id t]) := by
        unfold view
        rw [hown]
      have hopen : ((s.view i).conversations.get a.id).any (fun c => c.title.isNone) =
          (openingTitle (s.saidIn a.id)).isNone := by
        rw [hview, hrow, Option.any_some, htitle]
      cases hp with
      | untitled hset =>
        rw [hopen] at hset
        refine ⟨hnone,t,?_,hw⟩
        have hsaid : s.saidIn a.id ≠ [] := by
          intro hnil
          rw [hnil] at hset
          cases hset
        unfold ChatStore.heading
        rw [if_neg hsaid, List.append_nil]
        exact hown
      | titled hna hset hb =>
        rw [hopen] at hset
        refine ⟨hnone,t,?_,hq.writing (locks_cons _) hw⟩
        have hsaid : s.saidIn a.id = [] := by
          cases hl : s.saidIn a.id with
          | nil => rfl
          | cons x xs =>
            rw [hl] at hset
            cases hset
        rw [own_lock, hq.heading, hown]
        unfold ChatStore.heading
        rw [if_pos hsaid]
  | @read a m r =>
    cases r with
    | error e => exact (owns_over (hp.error hs) hhome).2
    | ok history =>
      obtain ⟨hnone,t,hown,hw⟩ := ho
      have hsub : a.opening ⊆ s.own i := by
        rw [hown, List.append_assoc]
        exact List.subset_append_left _ _
      cases hp with
      | read =>
        refine ⟨hnone,⟨t,hown⟩,hw,?_⟩
        have happ := (titled_appended (t := t) hs hw hsub).transcript
        unfold view
        rw [hown, happ, live_transcript hs hw.placed hw.live hsub]
  | @list c r =>
    cases r with
    | error e => exact (owns_over (hp.error hs) hhome).2
    | ok ms =>
      obtain ⟨hown,-,hset⟩ := ho
      cases hp with
      | read =>
        refine ⟨fun w hw => ?_,hset rfl,fun m hm => ?_⟩
        · rw [hown] at hw
          cases hw
        · rw [view_nil hown] at hm
          obtain ⟨⟨k,hk⟩,hconv⟩ := Db.mem_transcript.mp hm
          have hid := hs.messageKey k m hk
          subst hid
          refine ⟨hs.settledMessage _ (Table.has_iff.mpr ⟨m,hk⟩),fun m' hm' => ?_⟩
          rw [hk] at hm'
          cases hm'
          exact hconv
  | @drop id ms m r hmem =>
    cases r with
    | error e => exact (owns_over (hp.error hs) hhome).2
    | ok u =>
      obtain ⟨hown,hset,hlist⟩ := ho
      cases hp with
      | droppedNone hh => exact ⟨hown,hset,hlist⟩
      | dropped hna hh hfree =>
        have hsub : s.own i ⊆ (s.push i (.deleteMessage m.id)).own i := by
          rw [own_push_self]
          exact List.subset_append_left _ _
        obtain ⟨ks,hks,hd⟩ := deletes_of_own hown
        obtain ⟨x,hx⟩ := Table.has_iff.mp hh
        rw [(deleting_view hks hd).2] at hx
        split at hx
        · cases hx
        · have hconv := (hlist m hmem).row x hx
          refine ⟨fun w hw => ?_,hq.settled hset,fun m hm => hq.lists (hlist m hm)⟩
          rw [own_push_self] at hw
          rcases List.mem_append.mp hw with hw | hw
          · obtain ⟨k,rfl,hk⟩ := hown w hw
            exact ⟨k,rfl,hq.deletes hsub hk⟩
          · rw [List.mem_singleton.mp hw]
            refine ⟨m.id,rfl,?_,⟨x,hx,hconv⟩,?_⟩
            · rw [own_push_self]
              simp
            · intro w hw hne
              rcases hq.writes w hw with hold | ⟨hi,-⟩
              · unfold deletedByOther at hfree
                rw [List.any_eq_false] at hfree
                have hno := hfree w hold
                constructor
                · intro he
                  simp [hne,he] at hno
                · intro he
                  simp [hne,he,hx,hconv] at hno
              · exact absurd hi hne
  | @dropConversation id ms r =>
    cases r with
    | error e => exact (owns_over (hp.error hs) hhome).2
    | ok u =>
      obtain ⟨hown,hset,hlist⟩ := ho
      obtain ⟨ks,hks,hd⟩ := deletes_of_own hown
      obtain ⟨hconvs,-⟩ := deleting_view hks hd
      cases hp with
      | deletedNone hh =>
        left
        rw [hconvs] at hh
        rw [hks]
        cases ks with
        | nil => rfl
        | cons k ks =>
          obtain ⟨x,hx,hconv⟩ := (hd k List.mem_cons_self).row
          have hthere := hs.attached hx
          rw [hconv, hh] at hthere
          cases hthere
      | deleted hna hh hb hfree =>
        right
        rw [hconvs] at hh
        have hsub : s.own i ⊆ ((s.lock i .update id).push i (.deleteConversation id)).own i := by
          rw [own_lock]
          exact List.subset_append_left _ _
        refine ⟨ks,by rw [own_lock, hks],fun k hk => hq.deletes hsub (hd k hk),?_⟩
        refine ⟨by rw [own_lock]; simp,List.mem_cons_self,hh,?_⟩
        intro w hw hne k m hk hm hc
        rcases hq.writes w hw with hold | ⟨hi,-⟩
        · unfold childDeletedByOther at hfree
          rw [List.any_eq_false] at hfree
          have hno := hfree w hold
          have hm' : s.db.messages.get k = some m := hm
          simp [hne,hk,hm',hc] at hno
        · exact hne hi

/-- After its commit a turn is where its message went. -/
theorem Owns.commit {φ : ChatPhase} {home : Option Home} (ho : s.Owns i φ) (h : φ.settles home) :
    (s.commit i).AtHome i home ∧ (s.commit i).AtHome i φ.home := by
  have hold : ∀ {x}, s.Committed i x → (s.commit i).Committed i x := fun hx =>
    ⟨hx.settled.commit,hx.history.trans (saidIn_grows said_commit_grows _),hx.last,said_commit_grows.subset hx.said,
      hx.role,hx.content⟩
  have hkept : (s.commit i).AtHome i φ.home := fun x hx => hold (ho.atHome x hx)
  refine ⟨?_,hkept⟩
  cases φ with
  | resolved c created => exact fun x hx => nomatch h.symm.trans hx
  | deleted c => exact fun x hx => nomatch h.symm.trans hx
  | touched a m => exact h.1 ▸ hkept
  | read a m history =>
    obtain ⟨hnone,⟨t,hown⟩,hw,hhist⟩ := ho
    intro x hx
    have hx' := h.symm.trans hx
    cases hx'
    have hm : (s.own i).filterMap ChatWrite.message = [m] := by
      rw [hown, List.filterMap_append, List.filterMap_append, opening_message, heading_message]
      rfl
    have hrole : m.role = .user := by
      rcases hw.placed.author with ⟨hrole,-⟩ | ⟨hrole,-,y,hy,-⟩
      · exact hw.entry.role.trans hrole
      · rw [hnone] at hy
        cases hy
    refine ⟨hw.settled,?_,?_,?_,hrole,hw.entry.content⟩
    · rw [saidIn_commit_appended hw.entry.conversation hm, if_pos rfl, hhist]
    · rw [hhist]
      simp
    · simp [ChatStore.commit,hm]
  | _ => exact absurd h (by simp [ChatPhase.settles])

end ChatStore

end InferenceLogger
