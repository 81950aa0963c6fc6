import InferenceLogger.Foundation.Task
import Mathlib.Data.Int.Order.Basic

/-! # Marks in a program

Operations that only mark how far a run has come: a program between two of them, what the marks
of a run add up to, and the program without them.
-/
namespace AsyncTask
variable {S B : Signature} {Y ε α β γ σ : Type}

/-- One mark before the program starts and one after it has ended, however it ended. -/
def bracket (enter : Task S ε β) (leave : Task S ε γ) (t : Task S ε α) : Task S ε α :=
  enter.resume fun _ => t.resume fun r => leave.resume fun _ => Task.ofExcept r

/-! ## Adding up -/

/-- What the operations of a trace add up to. -/
def weight (w : S.Op → ℤ) : Trace S ε → ℤ
  | [] => 0
  | e :: tr => w e.op + weight w tr

variable {w : S.Op → ℤ} {allowed : (op : S.Op) → Except ε (S.Answer op) → Prop}

@[simp] theorem weight_nil : weight w ([] : Trace S ε) = 0 := rfl

@[simp] theorem weight_cons (e : Event S ε) (tr : Trace S ε) : weight w (e :: tr) = w e.op + weight w tr := rfl

@[simp] theorem weight_append (tr₁ tr₂ : Trace S ε) : weight w (tr₁ ++ tr₂) = weight w tr₁ + weight w tr₂ := by
  induction tr₁ with
  | nil =>
    have hnil : weight w ([] : Trace S ε) = 0 := rfl
    rw [List.nil_append]
    omega
  | cons e tr₁ ih =>
    rw [List.cons_append, weight_cons, weight_cons, ih]
    omega

theorem weight_nonneg {tr : Trace S ε} (h : ∀ e ∈ tr, 0 ≤ w e.op) : 0 ≤ weight w tr := by
  induction tr with
  | nil => exact le_rfl
  | cons e tr ih =>
    have hhead := h e List.mem_cons_self
    have htail := ih fun x hx => h x (List.mem_cons_of_mem _ hx)
    rw [weight_cons]
    omega

/-- One mark that nothing makes up for. -/
theorem weight_pos {tr : Trace S ε} (h : ∀ e ∈ tr, 0 ≤ w e.op) {e : Event S ε} (he : e ∈ tr)
    (hpos : 0 < w e.op) : 0 < weight w tr := by
  obtain ⟨tr₁,tr₂,rfl⟩ := List.append_of_mem he
  have hfront : 0 ≤ weight w tr₁ := weight_nonneg fun x hx => h x (List.mem_append_left _ hx)
  have hback : 0 ≤ weight w tr₂ := weight_nonneg fun x hx => h x (List.mem_append_right _ (List.mem_cons_of_mem _ hx))
  rw [weight_append, weight_cons]
  omega

theorem weight_zero {tr : Trace S ε} (h : ∀ e ∈ tr, w e.op = 0) : weight w tr = 0 := by
  induction tr with
  | nil => rfl
  | cons e tr ih =>
    rw [weight_cons, h e List.mem_cons_self, ih fun x hx => h x (List.mem_cons_of_mem _ hx)]
    rfl

/-- Every complete run adds up to `d`. -/
def Weighs (allowed : (op : S.Op) → Except ε (S.Answer op) → Prop) (w : S.Op → ℤ) (d : ℤ) (t : Task S ε α) : Prop :=
  ∀ tr out, Run allowed t tr out → weight w tr = d

theorem weighs_ofExcept (r : Except ε α) : Weighs allowed w 0 (Task.ofExcept r : Task S ε α) := by
  intro tr out h
  obtain ⟨rfl,-⟩ := Run.ofExcept_iff.mp h
  rfl

theorem weighs_raise (e : ε) : Weighs allowed w 0 (.raise e : Task S ε α) := weighs_ofExcept (.error e)

theorem weighs_call (op : S.Op) : Weighs allowed w (w op) (Task.call (ε := ε) op) := by
  intro tr out h
  obtain ⟨rfl,-⟩ := Run.call_iff.mp h
  simp

theorem Weighs.resume {d d' : ℤ} {t : Task S ε α} {f : Except ε α → Task S ε β} (ht : Weighs allowed w d t)
    (hf : ∀ r, Weighs allowed w d' (f r)) : Weighs allowed w (d + d') (t.resume f) := by
  intro tr out h
  obtain ⟨tr₁,r,tr₂,rfl,h₁,h₂⟩ := Run.resume_iff.mp h
  rw [weight_append, ht _ _ h₁, hf r _ _ h₂]

theorem Weighs.bind {t : Task S ε α} {f : α → Task S ε β} (ht : Weighs allowed w 0 t) (hf : ∀ a, Weighs allowed w 0 (f a)) :
    Weighs allowed w 0 (t >>= f) := by
  have hsum : (0 : ℤ) = 0 + 0 := rfl
  rw [Task.bind_def, hsum]
  apply ht.resume
  intro r
  cases r with
  | ok a => exact hf a
  | error e => exact weighs_raise e

/-- Behind a program that raises nothing the rest always follows. -/
theorem Weighs.bind_ok {d d' : ℤ} {t : Task S ε α} {f : α → Task S ε β} (ht : Weighs allowed w d t)
    (hok : ∀ tr out, Run allowed t tr out → ∃ a, out = .ok a) (hf : ∀ a, Weighs allowed w d' (f a)) :
    Weighs allowed w (d + d') (t >>= f) := by
  intro tr out h
  rcases Run.bind_iff.mp h with ⟨tr₁,a,tr₂,rfl,h₁,h₂⟩ | ⟨e,-,h₁⟩
  · rw [weight_append, ht _ _ h₁, hf a _ _ h₂]
  · obtain ⟨a,ha⟩ := hok _ _ h₁
    cases ha

theorem Weighs.attempt {d : ℤ} {t : Task S ε α} (ht : Weighs allowed w d t) : Weighs allowed w d t.attempt := by
  intro tr out h
  obtain ⟨r,-,hr⟩ := Run.attempt_iff.mp h
  exact ht _ _ hr

/-- A bracket adds its two marks to what is between them. -/
theorem Weighs.bracket {a b d : ℤ} {enter : Task S ε β} {leave : Task S ε γ} {t : Task S ε α} (he : Weighs allowed w a enter)
    (ht : Weighs allowed w d t) (hl : Weighs allowed w b leave) : Weighs allowed w (a + d + b) (bracket enter leave t) := by
  have hinner := ht.resume fun r => hl.resume fun _ => weighs_ofExcept r
  have hall := he.resume fun _ => hinner
  have hsum : a + (d + (b + 0)) = a + d + b := by omega
  rw [hsum] at hall
  exact hall

/-- A loop whose body always goes on adds up to what the generator it reads adds up to. -/
theorem weighs_asyncFor {allowedB : (op : GenOp B Y) → Except ε ((genSignature B Y).Answer op) → Prop} {v : GenOp B Y → ℤ}
    {lift : (op : B.Op) → Task S ε (B.Answer op)} {body : σ → Y → Task S ε (σ × Except ε Unit)}
    (hlift : ∀ op tr r, Run allowed (lift op) tr r → weight w tr = v (.base op) ∧ allowedB (.base op) r)
    (hyield : ∀ y, v (.yield y) = 0 ∧ allowedB (.yield y) (.ok ()))
    (hbody : ∀ s y tr out, Run allowed (body s y) tr out → weight w tr = 0 ∧ ∃ s', out = .ok (s',.ok ()))
    {gen : Gen B Y ε Unit} {d : ℤ} (hgen : Weighs allowedB v d gen) (s : σ) : Weighs allowed w d (asyncFor lift gen s body) := by
  induction gen generalizing d s with
  | done a =>
    intro tr out h
    obtain ⟨rfl,-⟩ := Run.done_iff.mp h
    exact hgen [] _ (.done a)
  | raise e =>
    intro tr out h
    obtain ⟨rfl,-⟩ := Run.done_iff.mp h
    exact hgen [] _ (.raise e)
  | await op k ih =>
    cases op with
    | base op =>
      intro tr out h
      obtain ⟨tr₁,r,tr₂,rfl,h₁,h₂⟩ := Run.resume_iff.mp h
      obtain ⟨hw,ha⟩ := hlift op tr₁ r h₁
      have hrest : Weighs allowedB v (d - v (.base op)) (k r) := by
        intro tr' out' h'
        have hall := hgen _ _ (Run.await_iff.mpr ⟨r,tr',rfl,ha,h'⟩)
        have hcons : weight v ((⟨.base op,r⟩ : Event (genSignature B Y) ε) :: tr') =
            v (.base op) + weight v tr' := weight_cons _ _
        omega
      have htail := ih r hrest s tr₂ out h₂
      rw [weight_append, hw, htail]
      omega
    | «yield» y =>
      intro tr out h
      obtain ⟨tr₁,r,tr₂,rfl,h₁,h₂⟩ := Run.resume_iff.mp h
      obtain ⟨hw,s',rfl⟩ := hbody s y tr₁ r h₁
      obtain ⟨hv,ha⟩ := hyield y
      have hrest : Weighs allowedB v d (k (.ok ())) := by
        intro tr' out' h'
        have hall := hgen _ _ (Run.await_iff.mpr ⟨.ok (),tr',rfl,ha,h'⟩)
        have hcons : weight v ((⟨.yield y,.ok ()⟩ : Event (genSignature B Y) ε) :: tr') =
            v (.yield y) + weight v tr' := weight_cons _ _
        omega
      have htail := ih (.ok ()) hrest s' tr₂ out h₂
      rw [weight_append, hw, htail]
      omega

/-! ## A level up -/

/-- The marks of the base among the operations of a generator. -/
def GenOp.onBase (silent : B.Op → Prop) : GenOp B Y → Prop
  | .base op => silent op
  | .yield _ => False

/-- The weights of the base among the operations of a generator. -/
def GenOp.weighed (v : B.Op → ℤ) : GenOp B Y → ℤ
  | .base op => v op
  | .yield _ => 0

theorem weighs_ofBase {allowedB : (op : B.Op) → Except ε (B.Answer op) → Prop} {v : B.Op → ℤ} {d : ℤ} {t : Task B ε α}
    (h : Weighs allowedB v d t) : Weighs (Drained (Y := Y) allowedB) (GenOp.weighed v) d (Gen.ofBase t) := by
  intro tr out hr
  obtain ⟨base,rfl,hb⟩ := Run.ofBase_iff.mp hr
  rw [← h base out hb]
  clear hr hb
  induction base with
  | nil => rfl
  | cons e base ih =>
    rw [List.map_cons, weight_cons, weight_cons, ih]
    rfl

theorem weighs_yield {allowedB : (op : B.Op) → Except ε (B.Answer op) → Prop} {v : B.Op → ℤ} (y : Y) :
    Weighs (Drained (Y := Y) allowedB) (GenOp.weighed v) 0 (Gen.yield (ε := ε) y) :=
  weighs_call (S := genSignature B Y) (.yield y)

/-! ## Leaving the marks out -/

/-- The second program is the first one with some of its silent operations left out. -/
inductive Erases (silent : S.Op → Prop) : Task S ε α → Task S ε α → Prop where
  | done (a : α) : Erases silent (.done a) (.done a)
  | raise (e : ε) : Erases silent (.raise e) (.raise e)
  | silent {op : S.Op} {k : Except ε (S.Answer op) → Task S ε α} {t : Task S ε α} :
      silent op → (∀ r, Erases silent (k r) t) → Erases silent (.await op k) t
  | await {op : S.Op} {k k' : Except ε (S.Answer op) → Task S ε α} :
      (∀ r, Erases silent (k r) (k' r)) → Erases silent (.await op k) (.await op k')

variable {silent : S.Op → Prop}

theorem Erases.refl (t : Task S ε α) : Erases silent t t := by
  induction t with
  | done a => exact .done a
  | raise e => exact .raise e
  | await op k ih => exact .await ih

theorem Erases.resume {t t' : Task S ε α} {f f' : Except ε α → Task S ε β} (h : Erases silent t t')
    (hf : ∀ r, Erases silent (f r) (f' r)) : Erases silent (t.resume f) (t'.resume f') := by
  induction h with
  | done a => exact hf (.ok a)
  | raise e => exact hf (.error e)
  | silent hs _ ih => exact .silent hs ih
  | await _ ih => exact .await ih

theorem Erases.bind {t t' : Task S ε α} {f f' : α → Task S ε β} (h : Erases silent t t') (hf : ∀ a, Erases silent (f a) (f' a)) :
    Erases silent (t >>= f) (t' >>= f') := by
  rw [Task.bind_def, Task.bind_def]
  apply h.resume
  intro r
  cases r with
  | ok a => exact hf a
  | error e => exact .raise e

/-- A silent operation in front of a program. -/
theorem erases_call (op : S.Op) (hs : silent op) {k : Except ε (S.Answer op) → Task S ε α} {t : Task S ε α}
    (hk : ∀ r, Erases silent (k r) t) : Erases silent ((Task.call op).resume k) t := by
  apply Erases.silent hs
  intro r
  cases r with
  | ok a => exact hk (.ok a)
  | error e => exact hk (.error e)

/-- A bracket without its two marks is what is between them. -/
theorem erases_bracket (enter leave : S.Op) (he : silent enter) (hl : silent leave) {t t' : Task S ε α}
    (h : Erases silent t t') : Erases silent (bracket (Task.call enter) (Task.call leave) t) t' := by
  have hinner : Erases silent (t.resume fun r => (Task.call leave).resume fun _ => Task.ofExcept r) (t'.resume Task.ofExcept) :=
    h.resume fun r => erases_call leave hl fun _ => .refl _
  rw [Task.resume_ofExcept] at hinner
  exact erases_call enter he fun _ => hinner

/-- A loop over a generator without its marks. -/
theorem erases_asyncFor {silentB : (genSignature B Y).Op → Prop} {lift : (op : B.Op) → Task S ε (B.Answer op)}
    (hlift : ∀ op, silentB (.base op) → ∀ (k : Except ε (B.Answer op) → Task S ε (σ × Except ε Unit)) t,
      (∀ r, Erases silent (k r) t) → Erases silent ((lift op).resume k) t)
    (hyield : ∀ y, ¬ silentB (.yield y)) {gen gen' : Gen B Y ε Unit} (h : Erases silentB gen gen') (s : σ)
    (body : σ → Y → Task S ε (σ × Except ε Unit)) :
    Erases silent (asyncFor lift gen s body) (asyncFor lift gen' s body) := by
  induction h generalizing s with
  | done a => exact .refl _
  | raise e => exact .refl _
  | @silent op k t hs _ ih =>
    cases op with
    | base op => exact hlift op hs _ _ fun r => ih r s
    | «yield» y => exact absurd hs (hyield y)
  | @await op k k' _ ih =>
    cases op with
    | base op => exact Erases.resume (.refl _) fun r => ih r s
    | «yield» y =>
      apply Erases.resume (.refl _)
      intro r
      match r with
      | .ok (next,.ok ()) => exact ih (.ok ()) next
      | .ok (next,.error e) => exact .done _
      | .error e => exact .raise e

/-- A run without the marks: what is not silent is still there. -/
theorem Erases.run {t t' : Task S ε α} (h : Erases silent t t') {tr : Trace S ε} {out : Except ε α} (hr : Run allowed t tr out) :
    ∃ tr', Run allowed t' tr' out ∧
      ∀ {γ : Type} (f : Event S ε → Option γ), (∀ e, silent e.op → f e = none) → tr'.filterMap f = tr.filterMap f := by
  induction h generalizing tr with
  | done a =>
    obtain ⟨rfl,rfl⟩ := Run.done_iff.mp hr
    exact ⟨[],.done a,fun _ _ => rfl⟩
  | raise e =>
    obtain ⟨rfl,rfl⟩ := Run.raise_iff.mp hr
    exact ⟨[],.raise e,fun _ _ => rfl⟩
  | @silent op k t hs _ ih =>
    obtain ⟨r,rest,rfl,-,hrest⟩ := Run.await_iff.mp hr
    obtain ⟨tr',hrun,hsame⟩ := ih r hrest
    refine ⟨tr',hrun,fun f hf => ?_⟩
    rw [List.filterMap_cons_none (hf ⟨op,r⟩ hs)]
    exact hsame f hf
  | @await op k k' _ ih =>
    obtain ⟨r,rest,rfl,ha,hrest⟩ := Run.await_iff.mp hr
    obtain ⟨tr',hrun,hsame⟩ := ih r hrest
    refine ⟨⟨op,r⟩ :: tr',.await ha hrun,fun f hf => ?_⟩
    rw [List.filterMap_cons, List.filterMap_cons, hsame f hf]

end AsyncTask
