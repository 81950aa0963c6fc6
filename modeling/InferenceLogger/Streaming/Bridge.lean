import InferenceLogger.Api.Sse

/-! # The bridge loses no frame

The frames pulled from the source are, in order, those the response has received,
those on the queue, and the one a suspended `put` holds. The end marker follows the
last frame, provided the queue has room when the source ends.
-/
namespace InferenceLogger.Sse
open Transition
variable {α : Type}

def frames (q : List (Slot α)) : List α := q.filterMap Slot.frame?

def Producer.held : Producer α → List α
  | .putting a => [a]
  | _ => []

@[simp] theorem frames_nil : frames ([] : List (Slot α)) = [] := rfl
@[simp] theorem frames_cons_frame (a : α) (q : List (Slot α)) :
    frames (.frame a :: q) = a :: frames q := rfl
@[simp] theorem frames_cons_marker (q : List (Slot α)) : frames (.marker :: q) = frames q := rfl
@[simp] theorem frames_append (p q : List (Slot α)) : frames (p ++ q) = frames p ++ frames q :=
  List.filterMap_append
@[simp] theorem frames_map (as : List α) : frames (as.map Slot.frame) = as := by
  induction as with
  | nil => rfl
  | cons a as ih => simp [ih]

@[simp] theorem finish_frames (s : Bridge α) (how : End) :
    frames (finish s how).queue = frames s.queue := by
  unfold finish
  dsimp only
  split <;> simp
@[simp] theorem finish_pulled (s : Bridge α) (how : End) : (finish s how).pulled = s.pulled := rfl
@[simp] theorem finish_yielded (s : Bridge α) (how : End) : (finish s how).yielded = s.yielded := rfl
@[simp] theorem finish_producer (s : Bridge α) (how : End) :
    (finish s how).producer = .finished how := rfl
@[simp] theorem finish_consumer (s : Bridge α) (how : End) :
    (finish s how).consumer = s.consumer := rfl

/-- Every frame pulled is accounted for; only a cancelled `put` drops one. -/
def Accounted (s : Bridge α) : Prop :=
  ∃ dropped, s.pulled = s.yielded ++ frames s.queue ++ s.producer.held ++ dropped ∧
    (dropped ≠ [] → s.producer = .finished .cancelled)

theorem start_accounted : Accounted (start α) := ⟨[],rfl,fun h => absurd rfl h⟩

/-- Before its `finally` the producer has dropped nothing. -/
theorem Accounted.unfinished {s : Bridge α} (hs : Accounted s)
    (hf : s.producer ≠ .finished .cancelled) :
    s.pulled = s.yielded ++ frames s.queue ++ s.producer.held := by
  obtain ⟨dropped,hp,hd⟩ := hs
  have hnil : dropped = [] := by
    by_contra h
    exact hf (hd h)
  rw [hp, hnil, List.append_nil]

theorem Accounted.exact {s : Bridge α}
    (hp : s.pulled = s.yielded ++ frames s.queue ++ s.producer.held) : Accounted s :=
  ⟨[],by rw [hp, List.append_nil],fun h => absurd rfl h⟩

/-- The accounting looks at the frames and the producer only. -/
theorem Accounted.congr {s t : Bridge α} (hs : Accounted s) (hpulled : t.pulled = s.pulled)
    (hmoved : t.yielded ++ frames t.queue = s.yielded ++ frames s.queue)
    (hproducer : t.producer = s.producer) : Accounted t := by
  obtain ⟨dropped,hp,hd⟩ := hs
  exact ⟨dropped,by rw [hpulled, hp, hmoved, hproducer],fun h => by rw [hproducer, hd h]⟩

theorem step_accounted {s t : Bridge α} {act : Action α} (hs : Accounted s)
    (he : step s act = some t) : Accounted t := by
  cases act with
  | sourceYields a =>
    cases hprod : s.producer with
    | pulling =>
      have hp := hs.unfinished (by simp [hprod])
      simp only [step, hprod] at he
      split at he <;> cases he <;> exact .exact (by simp [hp,hprod,Producer.held])
    | putting b => simp [step,hprod] at he
    | finished how => simp [step,hprod] at he
  | sourceEnds how =>
    cases hprod : s.producer with
    | pulling =>
      have hp := hs.unfinished (by simp [hprod])
      simp only [step, hprod] at he
      cases he
      exact .exact (by simp [hp,hprod,Producer.held])
    | putting b => simp [step,hprod] at he
    | finished how => simp [step,hprod] at he
  | putResumes =>
    cases hprod : s.producer with
    | pulling => simp [step,hprod] at he
    | putting b =>
      have hp := hs.unfinished (by simp [hprod])
      simp only [step, hprod] at he
      split at he <;> cases he
      exact .exact (by simp [hp,hprod,Producer.held])
    | finished how => simp [step,hprod] at he
  | putCancelled =>
    cases hprod : s.producer with
    | pulling => simp [step,hprod] at he
    | putting b =>
      have hp := hs.unfinished (by simp [hprod])
      simp only [step, hprod] at he
      split at he <;> cases he
      exact ⟨[b],by simp [hp,hprod,Producer.held],fun _ => rfl⟩
    | finished how => simp [step,hprod] at he
  | get =>
    cases hcons : s.consumer with
    | getting =>
      cases hq : s.queue with
      | nil => simp [step,hcons,hq] at he
      | cons x q =>
        cases x <;> simp only [step, hcons, hq] at he <;> cases he <;>
          exact hs.congr rfl (by simp [close,hq]) rfl
    | yielding b => simp [step,hcons] at he
    | closing => simp [step,hcons] at he
    | «over» => simp [step,hcons] at he
  | resume =>
    cases hcons : s.consumer <;> simp only [step, hcons] at he <;> cases he
    exact hs.congr rfl rfl rfl
  | consumerClosed =>
    cases hcons : s.consumer <;> simp only [step, hcons] at he <;> cases he <;>
      exact hs.congr rfl rfl rfl
  | consumerEnds =>
    simp only [step] at he
    split at he
    · split at he <;> cases he
      exact hs.congr rfl rfl rfl
    · cases he
  | watcherChecks disconnected =>
    simp only [step] at he
    split at he
    · cases he
      exact hs.congr rfl rfl rfl
    · split at he <;> cases he <;> exact hs.congr rfl rfl rfl
    · cases he
  | watcherWakes =>
    cases hw : s.watcher <;> simp only [step, hw] at he <;> cases he
    exact hs.congr rfl rfl rfl
  | watcherStopped =>
    simp only [step] at he
    split at he <;> cases he
    exact hs.congr rfl rfl rfl

theorem reach_accounted {s : Bridge α} {guard : Bridge α → Action α → Prop}
    (h : Guarded step guard (start α) s) : Accounted s :=
  h.invariant start_accounted (fun _ _ _ hs _ he => step_accounted hs he)

/-- What follows the frames on the queue once the producer is this far. -/
def Producer.trailer : Producer α → List (Slot α)
  | .finished _ => [.marker]
  | _ => []

/-- While the response reads, the queue holds frames, and the marker behind them once
the producer is through its `finally`. -/
def Terminated (s : Bridge α) : Prop :=
  s.producer.trailer = [] ∨ s.consumer.isOpen = true →
    ∃ as : List α, s.queue = as.map Slot.frame ++ s.producer.trailer

theorem start_terminated : Terminated (start α) := fun _ => ⟨[],rfl⟩

/-- The shape is kept when only the two tasks' flags or the reading side move on. -/
theorem Terminated.congr {s t : Bridge α} (hs : Terminated s) (hproducer : t.producer = s.producer)
    (hqueue : t.queue = s.queue) (hopen : t.consumer.isOpen = true → s.consumer.isOpen = true) :
    Terminated t := by
  unfold Terminated at hs ⊢
  rw [hproducer, hqueue]
  exact fun h => hs (h.imp_right hopen)

theorem Terminated.pulling {s : Bridge α} (hs : Terminated s) (ht : s.producer.trailer = []) :
    ∃ as : List α, s.queue = as.map Slot.frame := by
  obtain ⟨as,has⟩ := hs (Or.inl ht)
  exact ⟨as,by rw [has, ht, List.append_nil]⟩

theorem finish_terminated {s : Bridge α} (how : End) (hs : Terminated s) (ht : s.producer.trailer = [])
    (hroom : s.consumer.isOpen = true → room s.queue = true) : Terminated (finish s how) := by
  intro ho
  obtain ⟨as,has⟩ := hs.pulling ht
  have hr := hroom (by simpa [Producer.trailer] using ho)
  refine ⟨as,?_⟩
  rw [has] at hr
  simp [finish,has,hr,Producer.trailer]

/-- Behind a frame at the head of the queue the shape goes on. -/
theorem trailer_tail {p : Producer α} {a : α} {q : List (Slot α)} {as : List α}
    (h : Slot.frame a :: q = as.map Slot.frame ++ p.trailer) :
    ∃ bs : List α, q = bs.map Slot.frame ++ p.trailer := by
  cases as with
  | nil => cases p <;> simp [Producer.trailer] at h
  | cons b bs => exact ⟨bs,(List.cons.inj h).2⟩

theorem step_terminated {s t : Bridge α} {act : Action α} (hs : Terminated s)
    (hroom : RoomAtEnd s act) (he : step s act = some t) : Terminated t := by
  cases act with
  | sourceYields a =>
    cases hprod : s.producer with
    | pulling =>
      obtain ⟨as,has⟩ := hs.pulling (by simp [hprod,Producer.trailer])
      simp only [step, hprod] at he
      split at he <;> cases he
      · exact fun _ => ⟨as ++ [a],by simp [has,Producer.trailer]⟩
      · exact fun _ => ⟨as,by simp [has,Producer.trailer]⟩
    | putting b => simp [step,hprod] at he
    | finished how => simp [step,hprod] at he
  | sourceEnds how =>
    cases hprod : s.producer with
    | pulling =>
      simp only [step, hprod] at he
      cases he
      exact finish_terminated how hs (by simp [hprod,Producer.trailer]) (hroom rfl)
    | putting b => simp [step,hprod] at he
    | finished how => simp [step,hprod] at he
  | putResumes =>
    cases hprod : s.producer with
    | pulling => simp [step,hprod] at he
    | putting b =>
      obtain ⟨as,has⟩ := hs.pulling (by simp [hprod,Producer.trailer])
      simp only [step, hprod] at he
      split at he <;> cases he
      exact fun _ => ⟨as ++ [b],by simp [has,Producer.trailer]⟩
    | finished how => simp [step,hprod] at he
  | putCancelled =>
    cases hprod : s.producer with
    | pulling => simp [step,hprod] at he
    | putting b =>
      simp only [step, hprod] at he
      split at he <;> cases he
      exact finish_terminated .cancelled hs (by simp [hprod,Producer.trailer]) (hroom rfl)
    | finished how => simp [step,hprod] at he
  | get =>
    cases hcons : s.consumer with
    | getting =>
      obtain ⟨as,has⟩ := hs (Or.inr (by simp [hcons,Consumer.isOpen]))
      cases hq : s.queue with
      | nil => simp [step,hcons,hq] at he
      | cons x q =>
        rw [hq] at has
        cases x with
        | frame a =>
          simp only [step, hcons, hq] at he
          cases he
          exact fun _ => trailer_tail has
        | marker =>
          simp only [step, hcons, hq] at he
          cases he
          -- The marker closes the reading side, and it is there only after the `finally`.
          rintro (ht | ho)
          · rw [show s.producer.trailer = [] from ht, List.append_nil] at has
            cases as <;> simp at has
          · simp [close,Consumer.isOpen] at ho
    | yielding b => simp [step,hcons] at he
    | closing => simp [step,hcons] at he
    | «over» => simp [step,hcons] at he
  | resume =>
    cases hcons : s.consumer <;> simp only [step, hcons] at he <;> cases he
    exact hs.congr rfl rfl (fun _ => by simp [hcons,Consumer.isOpen])
  | consumerClosed =>
    cases hcons : s.consumer <;> simp only [step, hcons] at he <;> cases he <;>
      exact hs.congr rfl rfl (fun h => by simp [close,Consumer.isOpen] at h)
  | consumerEnds =>
    simp only [step] at he
    split at he
    · split at he <;> cases he
      exact hs.congr rfl rfl (fun h => by simp [Consumer.isOpen] at h)
    · cases he
  | watcherChecks disconnected =>
    simp only [step] at he
    split at he
    · cases he
      exact hs.congr rfl rfl id
    · split at he <;> cases he <;> exact hs.congr rfl rfl id
    · cases he
  | watcherWakes =>
    cases hw : s.watcher <;> simp only [step, hw] at he <;> cases he
    exact hs.congr rfl rfl id
  | watcherStopped =>
    simp only [step] at he
    split at he <;> cases he
    exact hs.congr rfl rfl id

theorem guarded_terminated {s : Bridge α} (h : Guarded step RoomAtEnd (start α) s) : Terminated s :=
  h.invariant start_terminated (fun _ _ _ hs hg he => step_terminated hs hg he)

/-- The actions that are left when the producer is done and the client reads on. -/
def Action.isDraining : Action α → Bool
  | .get => true
  | .resume => true
  | .watcherStopped => true
  | .consumerEnds => true
  | _ => false

/-- After the marker the response generator stops the watcher and ends. -/
theorem closing_ends {s : Bridge α} {how : End} (hp : s.producer = .finished how)
    (hc : s.consumer = .closing) (hw : s.watcherCancelled = true) :
    ∃ acts t, (∀ act ∈ acts, Action.isDraining act = true) ∧ play step s acts = some t ∧
      t.consumer = .over ∧ t.yielded = s.yielded := by
  by_cases hf : s.watcher = .finished
  · exact ⟨[.consumerEnds],{ s with consumer := .over },by simp [Action.isDraining],
      by simp [play,step,hc,hp,hf],rfl,rfl⟩
  · exact ⟨[.watcherStopped,.consumerEnds],{ s with watcher := .finished, consumer := .over },
      by simp [Action.isDraining],by simp [play,step,hc,hp,hf,hw],rfl,rfl⟩

/-- With frames and the marker on the queue the reading side delivers them all and ends. -/
theorem drain {s : Bridge α} {how : End} (as : List α) (hp : s.producer = .finished how)
    (hc : s.consumer = .getting) (hq : s.queue = as.map Slot.frame ++ [.marker]) :
    ∃ acts t, (∀ act ∈ acts, Action.isDraining act = true) ∧ play step s acts = some t ∧
      t.consumer = .over ∧ t.yielded = s.yielded ++ as := by
  induction as generalizing s with
  | nil =>
    have hg : step s .get = some (close { s with queue := [] }) := by simp [step,hc,hq]
    obtain ⟨acts,t,ha,ht,ho,hy⟩ := closing_ends (s := close { s with queue := [] }) hp rfl rfl
    refine ⟨.get :: acts,t,?_,by simp [play,hg,ht],ho,by simpa [close] using hy⟩
    intro act hact
    rcases List.mem_cons.mp hact with rfl | hact
    · rfl
    · exact ha act hact
  | cons a as ih =>
    let next : Bridge α :=
      { s with queue := as.map Slot.frame ++ [.marker], consumer := .getting, yielded := s.yielded ++ [a] }
    have hg : play step s [.get,.resume] = some next := by simp [play,step,hc,hq,next]
    obtain ⟨acts,t,ha,ht,ho,hy⟩ := ih (s := next) hp rfl rfl
    refine ⟨[.get,.resume] ++ acts,t,?_,play_append hg ht,ho,by simpa [next] using hy⟩
    intro act hact
    rcases List.mem_append.mp hact with hact | hact
    · simp only [List.mem_cons, List.not_mem_nil, or_false] at hact
      rcases hact with rfl | rfl <;> rfl
    · exact ha act hact

/-- Runs of the bridge with room for the marker: frames arrive in order, the response never
waits for a producer that is gone, and once the source has ended by itself the response can
read on to the end of everything the source gave. -/
theorem bridge_delivers :
    (∀ s, Reach step (start α) s → s.yielded <+: s.pulled) ∧
    (∀ s, Guarded step RoomAtEnd (start α) s →
      ¬ Hung s ∧
      ∀ how, s.producer = .finished how → how ≠ .cancelled → s.consumer.isOpen = true →
        ∃ acts t, (∀ act ∈ acts, Action.isDraining act = true) ∧ play step s acts = some t ∧
          t.consumer = .over ∧ t.yielded = s.pulled) := by
  constructor
  · intro s hs
    obtain ⟨dropped,hp,_⟩ := reach_accounted hs
    exact ⟨frames s.queue ++ s.producer.held ++ dropped,by simp [hp]⟩
  · intro s hs
    have hterm := guarded_terminated hs
    constructor
    · rintro ⟨⟨how,hp⟩,hc,hq⟩
      obtain ⟨as,has⟩ := hterm (Or.inr (by simp [hc,Consumer.isOpen]))
      simp [hq,hp,Producer.trailer] at has
    · intro how hp hhow hopen
      have hacc := (reach_accounted hs).unfinished (by simpa [hp] using hhow)
      obtain ⟨as,has⟩ := hterm (Or.inr hopen)
      simp only [hp, Producer.trailer] at has
      have hpulled : s.pulled = s.yielded ++ as := by
        simpa [hp,has,Producer.held] using hacc
      cases hc : s.consumer with
      | getting =>
        rw [hpulled]
        exact drain as hp hc has
      | yielding a =>
        obtain ⟨acts,t,ha,ht,ho,hy⟩ := drain (s := { s with consumer := .getting }) as hp rfl has
        refine ⟨.resume :: acts,t,?_,by simp [play,step,hc,ht],ho,by rw [hpulled]; exact hy⟩
        intro act hact
        rcases List.mem_cons.mp hact with rfl | hact
        · rfl
        · exact ha act hact
      | closing => simp [hc,Consumer.isOpen] at hopen
      | «over» => simp [hc,Consumer.isOpen] at hopen

/-- A reader that is slower than the source: the queue fills, the source ends, and the
marker is lost. -/
def fullQueueRun : List (Action Unit) :=
  List.replicate queueSize (.sourceYields ()) ++ [.sourceEnds .returned] ++
    (List.replicate queueSize [.get,.resume]).flatten

def Producer.isFinished {α : Type} : Producer α → Bool
  | .finished _ => true
  | _ => false

def Consumer.isGetting {α : Type} : Consumer α → Bool
  | .getting => true
  | _ => false

theorem full_queue_hangs :
    ∃ s, play step (start Unit) fullQueueRun = some s ∧ Reach step (start Unit) s ∧ Hung s := by
  have h : (play step (start Unit) fullQueueRun).any (fun s =>
      s.producer.isFinished && s.consumer.isGetting && s.queue.isEmpty) = true := by
    decide
  obtain ⟨s,hs,hb⟩ := play_any h
  refine ⟨s,hs,play_reach hs,?_⟩
  simp only [Bool.and_eq_true, List.isEmpty_iff] at hb
  obtain ⟨⟨hp,hc⟩,hq⟩ := hb
  refine ⟨?_,?_,hq⟩
  · cases hprod : s.producer with
    | finished how => exact ⟨how,rfl⟩
    | pulling => simp [hprod,Producer.isFinished] at hp
    | putting a => simp [hprod,Producer.isFinished] at hp
  · cases hcons : s.consumer <;> simp [hcons,Consumer.isGetting] at hc ⊢

/-- One frame, read after the source has ended with room on the queue. -/
theorem bridge_delivers_one :
    ∃ s, Guarded step RoomAtEnd (start ℕ) s ∧ ¬ Hung s ∧ ∃ acts t,
      (∀ act ∈ acts, Action.isDraining act = true) ∧ play step s acts = some t ∧
      t.consumer = .over ∧ t.yielded = [7] := by
  let s₁ : Bridge ℕ := { start ℕ with pulled := [7], queue := [.frame 7] }
  have hrun : Guarded step RoomAtEnd (start ℕ) (finish s₁ .returned) :=
    ((Guarded.refl (start ℕ)).step (a := .sourceYields 7) (fun h => by cases h) rfl).step
      (a := .sourceEnds .returned) (fun _ _ => rfl) rfl
  have h := bridge_delivers.2 (finish s₁ .returned) hrun
  exact ⟨finish s₁ .returned,hrun,h.1,h.2 .returned rfl (by decide) rfl⟩

end InferenceLogger.Sse
