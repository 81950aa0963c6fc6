import InferenceLogger.Ingestion.Batch

/-! # Runs

The stores' invariant through every action of the system, with the worker programs still to
run. Conversations and messages come and go beside ingestion: what that does to the log rows
is what the foreign keys say.
-/
namespace InferenceLogger
open PyText PyJson AsyncTask KeyedTable RelyGuarantee Cluster Transition

/-! ## Conversations and messages -/

/-- A change of the conversations and messages, with the ids known after it. -/
structure Reshaped (s : Store) (db : Db) (cs ms : List Uuid) : Prop where
  raw : db.eventsRaw = s.db.eventsRaw
  logs : ∀ id, s.db.inferenceLogs.has id = true → db.inferenceLogs.has id = true
  severed : ∀ id log, db.inferenceLogs.get id = some log → ∃ old, s.db.inferenceLogs.get id = some old ∧
    ∀ row, s.Knows row → old.fields = s.db.severed row → log.fields = db.severed row
  refersOk : ∀ i row now, (i,.insertLog row now) ∈ s.cluster.writes → s.db.refersOk row = true →
    db.refersOk row = true
  conversations : ∀ c, db.conversations.has c = true → c ∈ cs
  messages : ∀ m, db.messages.has m = true → m ∈ ms
  known : (∀ c ∈ s.knownConversations, c ∈ cs) ∧ ∀ m ∈ s.knownMessages, m ∈ ms

namespace Reshaped
variable {d : Deployment} {healthy : Bool} {s : Store} {db : Db} {cs ms : List Uuid}

/-- The store after the change. -/
def after (s : Store) (db : Db) (cs ms : List Uuid) : Store :=
  {s with
    cluster := {s.cluster with db := db}
    knownConversations := cs
    knownMessages := ms}

theorem keeps (h : Reshaped s db cs ms) : s.db.Keeps db := by
  refine ⟨fun id hid => ?_,h.logs⟩
  rw [h.raw]
  exact hid

theorem rely (h : Reshaped s db cs ms) (j : ℕ) : Rely j s (after s db cs ms) :=
  ⟨⟨fun _ he => he,h.keeps,fun _ hl => hl⟩,rfl,Iff.rfl,rfl⟩

theorem inv (h : Reshaped s db cs ms) (hi : Inv d healthy s) :
    Inv d healthy (after s db cs ms) where
  ordered := hi.ordered
  positive := hi.positive
  bounded := hi.bounded
  retained := hi.retained
  acked := by
    intro id hack
    obtain ⟨e,he,hid,hrec⟩ := hi.acked id hack
    exact ⟨e,he,hid,hrec.mono h.keeps fun _ hl => hl⟩
  raw := by
    intro id row hrow
    exact (hi.raw id row (h.raw ▸ hrow)).mono (fun _ he => he) h.keeps
  logs := by
    intro id log hlog
    obtain ⟨old,hold,hsevered⟩ := h.severed id log hlog
    obtain ⟨e,he,id',payload,event,hd,hid,hk,hf⟩ := hi.logs id old hold
    exact ⟨e,he,id',payload,event,hd,hid,
      ⟨fun c hc => h.known.1 c (hk.conversation c hc),fun m hm => h.known.2 m (hk.message m hm)⟩,hsevered _ hk hf⟩
  pending := fun i row now hm => h.refersOk i row now hm (hi.pending i row now hm)
  conversations := h.conversations
  messages := h.messages
  fits := hi.fits

end Reshaped

/-- New rows beside the old ones: no reference comes back to life. -/
theorem reshaped_grown {d : Deployment} {healthy : Bool} {s : Store} (db : Db) (cs ms : List Uuid)
    (hi : Inv d healthy s) (hraw : db.eventsRaw = s.db.eventsRaw) (hlogs : db.inferenceLogs = s.db.inferenceLogs)
    (hc : ∀ c, db.conversations.has c = true ↔ s.db.conversations.has c = true ∨ c ∈ cs)
    (hm : ∀ m, db.messages.has m = true ↔ s.db.messages.has m = true ∨ m ∈ ms)
    (hcs : ∀ c ∈ cs, s.db.conversations.has c = true ∨ c ∉ s.knownConversations)
    (hms : ∀ m ∈ ms, m ∉ s.knownMessages) :
    Reshaped s db (cs ++ s.knownConversations) (ms ++ s.knownMessages) := by
  have hconv : ∀ c, s.db.conversations.has c = true → db.conversations.has c = true := fun c h => (hc c).mpr (.inl h)
  have hmess : ∀ m, s.db.messages.has m = true → db.messages.has m = true := fun m h => (hm m).mpr (.inl h)
  refine ⟨hraw,fun id h => by rw [hlogs]; exact h,?_,?_,?_,?_,?_⟩
  · intro id log hlog
    rw [hlogs] at hlog
    refine ⟨log,hlog,fun row hk hf => ?_⟩
    rw [hf]
    have hsame : ∀ c, row.conversationId = some c → s.db.conversations.has c = db.conversations.has c := by
      intro c hrow
      rw [Bool.eq_iff_iff, hc]
      constructor
      · exact .inl
      · rintro (h | h)
        · exact h
        · exact (hcs c h).resolve_right fun hn => hn (hk.conversation c hrow)
    have hsame' : ∀ m, row.messageId = some m → s.db.messages.has m = db.messages.has m := by
      intro m hrow
      rw [Bool.eq_iff_iff, hm]
      constructor
      · exact .inl
      · rintro (h | h)
        · exact h
        · exact absurd (hk.message m hrow) (hms m h)
    unfold Db.severed
    congr 1
    · cases hrow : row.conversationId with
      | none => rfl
      | some c => simp [Option.filter,hsame c hrow]
    · cases hrow : row.messageId with
      | none => rfl
      | some m => simp [Option.filter,hsame' m hrow]
  · intro i row now _ hrefs
    unfold Db.refersOk at hrefs ⊢
    rw [Bool.and_eq_true, Option.all_eq_true, Option.all_eq_true] at hrefs ⊢
    exact ⟨fun c h => hconv c (hrefs.1 c h),fun m h => hmess m (hrefs.2 m h)⟩
  · intro c h
    rcases (hc c).mp h with h | h
    · exact List.mem_append_right _ (hi.conversations c h)
    · exact List.mem_append_left _ h
  · intro m h
    rcases (hm m).mp h with h | h
    · exact List.mem_append_right _ (hi.messages m h)
    · exact List.mem_append_left _ h
  · exact ⟨fun c h => List.mem_append_right _ h,fun m h => List.mem_append_right _ h⟩

theorem reshaped_deleted {d : Deployment} {healthy : Bool} {s : Store} {id : Uuid} (hi : Inv d healthy s)
    (hfree : s.cluster.writes.any (fun w => s.cluster.keepsConversation id w.2) = false) :
    Reshaped s (s.db.deleteConversation id) s.knownConversations s.knownMessages := by
  have hconv : ∀ c, (s.db.deleteConversation id).conversations.has c = (s.db.conversations.has c && decide (c ≠ id)) := by
    intro c
    unfold Table.has Db.deleteConversation
    rw [Table.get_erase]
    by_cases h : c = id <;> simp [h]
  have hmess : ∀ m, (s.db.deleteConversation id).messages.has m =
      ((s.db.messages.get m).any fun m => decide (m.conversationId ≠ id)) := by
    intro m
    unfold Table.has Db.deleteConversation
    rw [Table.get_filter]
    cases s.db.messages.get m with
    | none => rfl
    | some row =>
      by_cases h : row.conversationId = id <;> simp [h]
  refine ⟨rfl,?_,?_,?_,?_,?_,⟨fun _ h => h,fun _ h => h⟩⟩
  · intro k hk
    obtain ⟨log,hlog⟩ := Table.has_iff.mp hk
    refine Table.has_iff.mpr ?_
    unfold Db.deleteConversation
    rw [Table.get_update, hlog]
    exact ⟨_,rfl⟩
  · intro k log hlog
    unfold Db.deleteConversation at hlog
    rw [Table.get_update] at hlog
    obtain ⟨old,hold,rfl⟩ := Option.map_eq_some_iff.mp hlog
    refine ⟨old,hold,fun row hk hf => ?_⟩
    have hconv' : (row.conversationId.filter s.db.conversations.has).filter (fun c => decide (c ≠ id)) =
        row.conversationId.filter (s.db.deleteConversation id).conversations.has := by
      rw [Option.filter_filter]
      exact congrArg₂ Option.filter (funext fun c => (hconv c).symm) rfl
    have hmess' : (row.messageId.filter s.db.messages.has).filter (fun m =>
          !(s.db.messages.get m).any fun m => decide (m.conversationId = id)) =
        row.messageId.filter (s.db.deleteConversation id).messages.has := by
      rw [Option.filter_filter]
      refine congrArg₂ Option.filter (funext fun m => ?_) rfl
      rw [hmess]
      unfold Table.has
      cases s.db.messages.get m <;> simp
    unfold Db.orphan
    rw [hf]
    unfold Db.severed
    rw [← hconv', ← hmess']
  · intro i row now hmem hrefs
    have hkeeps := List.any_eq_false.mp hfree _ hmem
    unfold Cluster.keepsConversation at hkeeps
    unfold Db.refersOk at hrefs ⊢
    rw [Bool.and_eq_true, Option.all_eq_true, Option.all_eq_true] at hrefs ⊢
    simp only [Bool.or_eq_true, decide_eq_true_eq, not_or] at hkeeps
    refine ⟨fun c hc => ?_,fun m hm => ?_⟩
    · have hne : c ≠ id := by
        rintro rfl
        exact hkeeps.1 hc
      rw [hconv, hrefs.1 c hc]
      simp [hne]
    · have hhas := hrefs.2 m hm
      have hnot := hkeeps.2
      rw [hm] at hnot
      rw [hmess]
      unfold Table.has at hhas
      cases hg : s.db.messages.get m with
      | none => simp [hg] at hhas
      | some row => simpa [hg] using hnot
  · intro c h
    rw [hconv, Bool.and_eq_true] at h
    exact hi.conversations c h.1
  · intro m h
    rw [hmess] at h
    refine hi.messages m ?_
    unfold Table.has
    cases hg : s.db.messages.get m with
    | none => simp [hg] at h
    | some row => rfl

/-! ## The system -/

/-- The invariant of the system: the stores', every program's judgement, and nothing held where
no worker runs. -/
structure SystemInv (d : Deployment) (healthy : Bool) (s : System) : Prop where
  store : Inv d healthy s.store
  running : ∀ i p, s.workers i = some p → Works d healthy i p.task (ended healthy i) s.store
  absent : ∀ i, s.workers i = none → Idle i s.store

/-- A step of a healthy run: what a worker does goes smoothly, and what is published fits. -/
def Deployment.Calm (d : Deployment) (s : System) : Action → Prop
  | .turn i choice => ∀ starting op k, s.workers i = some ⟨starting,.await op k⟩ → Smoothly s.store op choice
  | .publish e => d.Fits e
  | _ => True

/-- The operation a worker takes goes smoothly. -/
def smoothTurn (s : System) (i : ℕ) (choice : Choice) : Bool :=
  match s.workers i with
  | some ⟨_,.await op _⟩ => decide (Smoothly s.store op choice)
  | _ => true

theorem smoothTurn_smoothly {s : System} {i : ℕ} {choice : Choice} (h : smoothTurn s i choice = true) :
    ∀ starting op k, s.workers i = some ⟨starting,.await op k⟩ → Smoothly s.store op choice := by
  intro starting op k hp
  unfold smoothTurn at h
  rw [hp] at h
  exact of_decide_eq_true h

theorem healthyExec_of {pg : Postgres} {healthy : Bool} {me : ℕ} {s : Store} {op : IngestOp} {c : Choice}
    (h : healthy = true → Smoothly s op c) : healthyExec pg healthy me s op c = ingestExec pg me s op c := by
  unfold healthyExec
  rw [if_pos h]

section
variable {d : Deployment} {healthy : Bool} {s t : System}

/-- The others are undisturbed, so that one worker's program is all there is to show. -/
theorem SystemInv.interfere (h : SystemInv d healthy s) {i : ℕ} {store : Store} {p : Option Process}
    (hi : Inv d healthy store) (hrely : ∀ j, j ≠ i → Rely j s.store store)
    (hrun : ∀ q, p = some q → Works d healthy i q.task (ended healthy i) store)
    (habsent : p = none → Idle i store) :
    SystemInv d healthy {store := store, workers := Function.update s.workers i p} where
  store := hi
  running := by
    intro j q hq
    change Function.update s.workers i p j = some q at hq
    by_cases hj : j = i
    · subst hj
      rw [Function.update_self] at hq
      exact hrun q hq
    · rw [Function.update_of_ne hj] at hq
      exact (h.running j q hq).stable (hrely j hj)
  absent := by
    intro j hq
    change Function.update s.workers i p j = none at hq
    by_cases hj : j = i
    · subst hj
      rw [Function.update_self] at hq
      exact habsent hq
    · rw [Function.update_of_ne hj] at hq
      exact At.stable lasting_true _ _ (hrely j hj) (h.absent j hq)

/-- A step of the environment, which every worker tolerates. -/
theorem SystemInv.environment (h : SystemInv d healthy s) {store : Store} (hi : Inv d healthy store)
    (hrely : ∀ j, Rely j s.store store) : SystemInv d healthy {s with store := store} where
  store := hi
  running := fun i p hp => (h.running i p hp).stable (hrely i)
  absent := fun i hp => At.stable lasting_true _ _ (hrely i) (h.absent i hp)

theorem Inv.withHand {s : Store} (h : Inv d healthy s) (i : ℕ) (ids : List ℕ) : Inv d healthy (s.withHand i ids) :=
  ⟨h.ordered,h.positive,h.bounded,h.retained,h.acked,
    fun id row hr => (h.raw id row hr).mono (fun _ he => he) (.refl _),
    fun id log hl => (h.logs id log hl).mono (fun _ he => he) rfl rfl rfl,
    h.pending,h.conversations,h.messages,h.fits⟩

theorem rely_withHand (s : Store) (i : ℕ) (ids : List ℕ) : ∀ j, j ≠ i → Rely j s (s.withHand i ids) :=
  fun _ hj => ⟨⟨fun _ he => he,.refl _,fun _ hl => hl⟩,rfl,Iff.rfl,Function.update_of_ne hj _ _⟩

theorem idle_withHand {s : Store} {i : ℕ} (h : Holds i [] s) : Idle i (s.withHand i []) :=
  ⟨h.own,h.alive,fun id hid => by simp [Store.withHand] at hid,trivial⟩

theorem SystemInv.kill (h : SystemInv d healthy s) (i : ℕ) :
    SystemInv d healthy (s.kill i) ∧ Grows s.store (s.kill i).store := by
  have hquiet : Quiet i s.store {s.store with cluster := s.store.cluster.forget i} := .cluster rfl frame_forget
  have hinv : Inv d healthy {s.store with cluster := s.store.cluster.forget i} :=
    hquiet.inv h.store (fun j row now hm => h.store.pending j row now (mem_writes_forget hm)) fun _ hm => .inl hm
  refine ⟨h.interfere (hinv.withHand i []) (fun j hj => ?_) (fun q hq => by cases hq) fun _ => ?_,
    hquiet.grows.published,hquiet.grows.keeps,hquiet.grows.letters⟩
  · exact (hquiet.guar.others j hj).trans (rely_withHand _ i [] j hj)
  · refine idle_withHand ⟨own_forget_self,fun ha => ?_⟩
    exact (mem_aborted_forget.mp ha).2 rfl

/-- One operation of one worker. -/
theorem SystemInv.turn (h : SystemInv d healthy s) {i : ℕ} {choice : Choice} {starting : Bool} {op : IngestOp}
    {k : Except Exc (ingestSignature.Answer op) → IngestTask BatchOutcome}
    {r : Store × Except Exc (ingestSignature.Answer op)} (hp : s.workers i = some ⟨starting,.await op k⟩)
    (hs : healthy = true → Smoothly s.store op choice) (he : ingestExec d.pg i s.store op choice = some r) :
    Guar i s.store r.1 ∧ SystemInv d healthy (({s with store := r.1} : System).setWorker i (some ⟨starting,k r.2⟩)) := by
  have hsat := h.running i _ hp
  rw [← healthyExec_of hs] at he
  obtain ⟨hguar,hinv,hnext⟩ := Sat.step hsat h.store he
  refine ⟨hguar,h.interfere hinv hguar.others (fun q hq => ?_) fun hq => by cases hq⟩
  cases hq
  exact hnext

theorem SystemInv.publish (h : SystemInv d healthy s) {e : Entry} (hnew : s.store.redis.lastId < e.id)
    (hfit : healthy = true → d.Fits e) : SystemInv d healthy {s with store := {s.store with
      redis := s.store.redis.add e, published := s.store.published ++ [e]}} := by
  have hi := h.store
  have hsub : ∀ x ∈ s.store.published, x ∈ s.store.published ++ [e] := fun x hx => List.mem_append_left _ hx
  refine h.environment ?_ fun j => ⟨⟨hsub,.refl _,fun _ hl => hl⟩,rfl,Iff.rfl,rfl⟩
  refine ⟨?_,?_,?_,?_,?_,?_,?_,hi.pending,hi.conversations,hi.messages,?_⟩
  · refine List.pairwise_append.mpr ⟨hi.ordered,List.pairwise_singleton _ _,fun a ha b hb => ?_⟩
    rw [List.mem_singleton.mp hb]
    have hle := hi.bounded a ha
    omega
  · intro x hx
    rcases List.mem_append.mp hx with hx | hx
    · exact hi.positive x hx
    · rw [List.mem_singleton.mp hx]
      omega
  · intro x hx
    change x.id ≤ e.id
    rcases List.mem_append.mp hx with hx | hx
    · have hle := hi.bounded x hx
      omega
    · rw [List.mem_singleton.mp hx]
  · obtain ⟨dropped,hd⟩ := hi.retained
    refine ⟨dropped,?_⟩
    change dropped ++ (s.store.redis.entries ++ [e]) = _
    rw [← List.append_assoc, hd]
  · intro id hack
    obtain ⟨x,hx,hid,hrec⟩ := hi.acked id hack
    exact ⟨x,hsub x hx,hid,hrec.mono (.refl _) fun _ hl => hl⟩
  · exact fun id row hrow => (hi.raw id row hrow).mono hsub (.refl _)
  · exact fun id log hlog => (hi.logs id log hlog).mono hsub rfl rfl rfl
  · intro hh x hx
    rcases List.mem_append.mp hx with hx | hx
    · exact hi.fits hh x hx
    · rw [List.mem_singleton.mp hx]
      exact hfit hh

theorem SystemInv.onStream (h : SystemInv d healthy s) {r : Redis} (hentries : r.entries <:+ s.store.redis.entries)
    (hlast : r.lastId = s.store.redis.lastId) (hletters : r.deadLetters = s.store.redis.deadLetters) :
    SystemInv d healthy {s with store := {s.store with redis := r}} := by
  have hi := h.store
  have hmem : ∀ l ∈ s.store.redis.deadLetters, l ∈ r.deadLetters := by
    rw [hletters]
    exact fun _ hl => hl
  refine h.environment ?_ fun j => ⟨⟨fun _ he => he,.refl _,hmem⟩,rfl,Iff.rfl,rfl⟩
  refine ⟨hi.ordered,hi.positive,?_,hentries.trans hi.retained,?_,
    fun id row hrow => (hi.raw id row hrow).mono (fun _ he => he) (.refl _),
    fun id log hlog => (hi.logs id log hlog).mono (fun _ he => he) rfl rfl rfl,
    hi.pending,hi.conversations,hi.messages,hi.fits⟩
  · intro e he
    change e.id ≤ r.lastId
    rw [hlast]
    exact hi.bounded e he
  · intro id hack
    obtain ⟨e,he,hid,hrec⟩ := hi.acked id hack
    exact ⟨e,he,hid,hrec.mono (.refl _) hmem⟩

/-- Every action keeps the invariant and takes nothing back; healthy runs need calm ones. -/
theorem SystemInv.advance (h : SystemInv d healthy s) {a : Action} (hcalm : healthy = true → d.Calm s a)
    (ht : System.step d s a = some t) : SystemInv d healthy t ∧ Grows s.store t.store := by
  have hi := h.store
  cases a with
  | spawn i =>
    simp only [System.step] at ht
    split at ht
    · rename_i habsent
      cases ht
      refine ⟨h.interfere hi (fun j _ => .refl j _) (fun q hq => ?_) (fun hq => by cases hq),.refl _⟩
      cases hq
      exact works_startUp hi (h.absent i habsent)
    · cases ht
  | turn i choice =>
    simp only [System.step] at ht
    split at ht
    · rename_i starting op k hp
      obtain ⟨r,hr,rfl⟩ := Option.map_eq_some_iff.mp ht
      obtain ⟨hguar,hnext⟩ := h.turn hp (fun hh => hcalm hh starting op k hp) hr
      exact ⟨hnext,(hguar.others (i + 1) (by omega)).grows⟩
    · cases ht
  | next i =>
    simp only [System.step] at ht
    split at ht
    · rename_i starting outcome hp
      cases ht
      have hidle : Idle i s.store := h.running i _ hp s.store (.refl i _) hi
      refine ⟨h.interfere hi (fun j _ => .refl j _) (fun q hq => ?_) (fun hq => by cases hq),.refl _⟩
      cases hq
      exact works_processBatch hi hidle
    · rename_i e hp
      split at ht
      · cases ht
        have hholds : Holds i [] s.store := (h.running i _ hp s.store (.refl i _) hi).1
        have hgrows : Grows s.store (s.store.withHand i []) := ⟨fun _ he => he,.refl _,fun _ hl => hl⟩
        refine ⟨h.interfere (hi.withHand i []) (rely_withHand _ i []) (fun q hq => ?_) (fun hq => by cases hq),hgrows⟩
        cases hq
        exact works_processBatch (hi.withHand i []) (idle_withHand hholds)
      · cases ht
    · cases ht
  | exit i =>
    simp only [System.step] at ht
    split at ht
    · cases ht
      exact h.kill i
    · cases ht
      exact h.kill i
    · cases ht
  | crash i =>
    cases ht
    exact h.kill i
  | publish e =>
    simp only [System.step] at ht
    split at ht
    · rename_i hnew
      cases ht
      exact ⟨h.publish hnew hcalm,fun x hx => List.mem_append_left _ hx,.refl _,fun _ hl => hl⟩
    · cases ht
  | trim n =>
    cases ht
    exact ⟨h.onStream (List.drop_suffix n _) rfl rfl,fun _ he => he,.refl _,fun _ hl => hl⟩
  | dropGroup =>
    cases ht
    exact ⟨h.onStream (List.suffix_refl _) rfl rfl,fun _ he => he,.refl _,fun _ hl => hl⟩
  | createConversation c =>
    simp only [System.step] at ht
    split at ht
    · cases ht
    · rename_i hnew
      cases ht
      have hreshaped := reshaped_grown {s.store.db with conversations := s.store.db.conversations.insertNew c.id c}
        [c.id] [] hi rfl rfl ?_ (by simp) (by simp [hnew]) (by simp)
      · exact ⟨h.environment (hreshaped.inv hi) hreshaped.rely,(hreshaped.rely 0).grows⟩
      · intro k
        rw [List.mem_singleton]
        exact Table.has_insertNew _ _ _ k
  | saveTurn c m =>
    simp only [System.step] at ht
    split at ht
    · rename_i hcond
      obtain ⟨hc,hm,hnew⟩ := hcond
      cases ht
      have hreshaped := reshaped_grown (s.store.db.saveTurn c m) [] [m.id] hi rfl rfl ?_ ?_ (by simp) (by simp [hnew])
      · exact ⟨h.environment (hreshaped.inv hi) hreshaped.rely,(hreshaped.rely 0).grows⟩
      · intro k
        refine (Table.has_set _ _ _ k).trans ⟨?_,fun hk => .inl (hk.resolve_right List.not_mem_nil)⟩
        rintro (hk | rfl)
        · exact .inl hk
        · exact .inl hc
      · intro k
        rw [List.mem_singleton]
        exact Table.has_insertNew _ _ _ k
    · cases ht
  | deleteConversation id =>
    simp only [System.step] at ht
    split at ht
    · cases ht
    · rename_i hfree
      cases ht
      have hreshaped := reshaped_deleted hi (by simpa using hfree)
      exact ⟨h.environment (hreshaped.inv hi) hreshaped.rely,(hreshaped.rely 0).grows⟩

theorem SystemInv.step (h : SystemInv d healthy s) {a : Action} (hcalm : healthy = true → d.Calm s a)
    (ht : System.step d s a = some t) : SystemInv d healthy t := (h.advance hcalm ht).1

/-- Only a publication adds an entry. -/
theorem SystemInv.published_step (h : SystemInv d healthy s) {a : Action} (hcalm : healthy = true → d.Calm s a)
    (ht : System.step d s a = some t) :
    t.store.published = s.store.published ∨
      ∃ e, a = .publish e ∧ t.store.published = s.store.published ++ [e] := by
  cases a with
  | turn i choice =>
    simp only [System.step] at ht
    split at ht
    · rename_i starting op k hp
      obtain ⟨r,hr,rfl⟩ := Option.map_eq_some_iff.mp ht
      exact .inl (h.turn hp (fun hh => hcalm hh starting op k hp) hr).1.beside.published
    · cases ht
  | next i =>
    simp only [System.step] at ht
    split at ht
    · cases ht
      exact .inl rfl
    · split at ht <;> cases ht
      exact .inl rfl
    · cases ht
  | exit i =>
    simp only [System.step] at ht
    split at ht <;> cases ht <;> exact .inl rfl
  | publish e =>
    simp only [System.step] at ht
    split at ht <;> cases ht
    exact .inr ⟨e,rfl,rfl⟩
  | crash i =>
    cases ht
    exact .inl rfl
  | trim n =>
    cases ht
    exact .inl rfl
  | dropGroup =>
    cases ht
    exact .inl rfl
  | _ =>
    simp only [System.step] at ht
    split at ht <;> cases ht
    exact .inl rfl

/-- What holds of every published entry goes on to. -/
theorem SystemInv.entries_step {Q : Entry → Prop} (h : SystemInv d healthy s) (hq : ∀ e ∈ s.store.published, Q e) {a : Action}
    (hcalm : healthy = true → d.Calm s a) (hpublish : ∀ e, a = .publish e → Q e) (ht : System.step d s a = some t) :
    ∀ e ∈ t.store.published, Q e := by
  rcases h.published_step hcalm ht with hsame | ⟨e,he,hmore⟩
  · rw [hsame]
    exact hq
  · rw [hmore]
    intro x hx
    rcases List.mem_append.mp hx with hx | hx
    · exact hq x hx
    · rw [List.mem_singleton.mp hx]
      exact hpublish e he

/-- The worker an action is about. -/
def Action.worker : Action → Option ℕ
  | .spawn i => some i
  | .turn i _ => some i
  | .next i => some i
  | .exit i => some i
  | .crash i => some i
  | _ => none

/-- The other processes stay where they are. -/
theorem step_others {a : Action} (ht : System.step d s a = some t) {j : ℕ} (hj : a.worker ≠ some j) :
    t.workers j = s.workers j := by
  have hne : ∀ {i}, a.worker = some i → j ≠ i := by
    rintro i hi rfl
    exact hj hi
  cases a with
  | spawn i =>
    simp only [System.step] at ht
    split at ht <;> cases ht
    exact Function.update_of_ne (hne rfl) _ _
  | turn i choice =>
    simp only [System.step] at ht
    split at ht
    · obtain ⟨r,hr,rfl⟩ := Option.map_eq_some_iff.mp ht
      exact Function.update_of_ne (hne rfl) _ _
    · cases ht
  | next i =>
    simp only [System.step] at ht
    split at ht
    · cases ht
      exact Function.update_of_ne (hne rfl) _ _
    · split at ht <;> cases ht
      exact Function.update_of_ne (hne rfl) _ _
    · cases ht
  | exit i =>
    simp only [System.step] at ht
    split at ht <;> cases ht <;> exact Function.update_of_ne (hne rfl) _ _
  | crash i =>
    cases ht
    exact Function.update_of_ne (hne rfl) _ _
  | trim n =>
    cases ht
    rfl
  | dropGroup =>
    cases ht
    rfl
  | _ =>
    simp only [System.step] at ht
    split at ht <;> cases ht
    rfl

theorem initial_inv (d : Deployment) (healthy : Bool) : SystemInv d healthy System.initial where
  store := by
    have hnone : ∀ {V : Type} (k : Uuid), (Table.empty : Table Uuid V).has k ≠ true := by
      intro V k h
      obtain ⟨v,hv⟩ := Table.has_iff.mp h
      cases hv
    refine ⟨.nil,?_,?_,List.nil_suffix,?_,?_,?_,?_,?_,?_,?_⟩
    · exact fun _ he => absurd he List.not_mem_nil
    · exact fun _ he => absurd he List.not_mem_nil
    · exact fun _ he => absurd he List.not_mem_nil
    · exact fun _ _ h => by cases h
    · exact fun _ _ h => by cases h
    · exact fun _ _ _ h => absurd h List.not_mem_nil
    · exact fun c h => absurd h (hnone c)
    · exact fun m h => absurd h (hnone m)
    · exact fun _ _ he => absurd he List.not_mem_nil
  running := fun _ _ h => by cases h
  absent := fun _ _ => ⟨rfl,List.not_mem_nil,fun _ h => absurd h List.not_mem_nil,trivial⟩

/-- In every run the invariant holds, whatever fails. -/
theorem reach_inv (h : Reach (System.step d) System.initial s) : SystemInv d false s :=
  h.invariant (initial_inv d false) fun _ _ _ hs _ ht => hs.step (by simp) ht

/-- And nothing that is recorded is lost. -/
theorem reach_grows (hs : Reach (System.step d) System.initial s) (h : Reach (System.step d) s t) :
    Grows s.store t.store := by
  induction h with
  | refl => exact .refl _
  | @step t' u a hrun _ ht ih =>
    exact ih.trans ((reach_inv (hs.trans hrun)).advance (by simp) ht).2

end
end InferenceLogger
