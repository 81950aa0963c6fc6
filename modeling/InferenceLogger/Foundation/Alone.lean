import InferenceLogger.Foundation.RelyGuarantee

/-! # One program alone with its state

The operations of a run, executed one after another by one party with nobody in between.
-/
namespace RelyGuarantee
open AsyncTask

variable {S S' : Signature} {ε α σ κ κ' P : Type}

/-- The state the operations of a trace lead to, each answered as the trace says. -/
inductive Executes (exec : Executor P S ε σ κ) (me : P) : σ → Trace S ε → σ → Prop where
  | nil (s : σ) : Executes exec me s [] s
  | cons {s s₁ s₂ : σ} {op : S.Op} {r : Except ε (S.Answer op)} {tr : Trace S ε} (c : κ) :
      exec me s op c = some (s₁,r) → Executes exec me s₁ tr s₂ → Executes exec me s (⟨op,r⟩ :: tr) s₂

namespace Executes
variable {exec : Executor P S ε σ κ} {me : P}

theorem nil_iff {s t : σ} : Executes exec me s [] t ↔ t = s := by
  constructor
  · intro h
    cases h
    rfl
  · rintro rfl
    exact .nil _

theorem cons_iff {s t : σ} {op : S.Op} {r : Except ε (S.Answer op)} {tr : Trace S ε} :
    Executes exec me s (⟨op,r⟩ :: tr) t ↔ ∃ c s₁, exec me s op c = some (s₁,r) ∧ Executes exec me s₁ tr t := by
  constructor
  · intro h
    cases h with
    | cons c hc h => exact ⟨c,_,hc,h⟩
  · rintro ⟨c,s₁,hc,h⟩
    exact .cons c hc h

theorem append_iff {s t : σ} {tr₁ tr₂ : Trace S ε} :
    Executes exec me s (tr₁ ++ tr₂) t ↔ ∃ u, Executes exec me s tr₁ u ∧ Executes exec me u tr₂ t := by
  induction tr₁ generalizing s with
  | nil =>
    constructor
    · exact fun h => ⟨s,.nil s,h⟩
    · rintro ⟨u,hu,h⟩
      rwa [nil_iff.mp hu] at h
  | cons e tr₁ ih =>
    rw [List.cons_append, cons_iff]
    constructor
    · rintro ⟨c,s₁,hc,h⟩
      obtain ⟨u,hu,h⟩ := ih.mp h
      exact ⟨u,.cons c hc hu,h⟩
    · rintro ⟨u,hu,h⟩
      obtain ⟨c,s₁,hc,hu⟩ := cons_iff.mp hu
      exact ⟨c,s₁,hc,ih.mpr ⟨u,hu,h⟩⟩

/-- What every operation of the trace keeps. -/
theorem keeps {I : σ → Prop} {s t : σ} {tr : Trace S ε} (h : Executes exec me s tr t)
    (hstep : ∀ e ∈ tr, ∀ {s s₁ c}, exec me s e.op c = some (s₁,e.answer) → I s → I s₁) (hs : I s) : I t := by
  induction h with
  | nil s => exact hs
  | cons c hc _ ih =>
    refine ih (fun e he => hstep e (List.mem_cons_of_mem _ he)) ?_
    exact hstep _ List.mem_cons_self hc hs

/-- A trace of the operations of one executor is one of another that acts on them alike. -/
theorem map {exec' : Executor P S' ε σ κ'} {lift : Event S ε → Event S' ε} {s t : σ} {tr : Trace S ε}
    (h : Executes exec' me s (tr.map lift) t)
    (hexec : ∀ e {s s₁ c'}, exec' me s (lift e).op c' = some (s₁,(lift e).answer) →
      ∃ c, exec me s e.op c = some (s₁,e.answer)) : Executes exec me s tr t := by
  induction tr generalizing s with
  | nil =>
    rw [nil_iff.mp h]
    exact .nil s
  | cons e tr ih =>
    obtain ⟨c,s₁,hc,h⟩ := cons_iff.mp h
    obtain ⟨c,hc⟩ := hexec e hc
    exact .cons c hc (ih h)

end Executes

/-- A loop whose body returns each time, given as what holds when these items are left. -/
theorem Executes.foldlM {β γ : Type} {allowed : (op : S.Op) → Except ε (S.Answer op) → Prop} {exec : Executor P S ε σ κ}
    {me : P} {f : β → γ → Task S ε β} {items : List γ} {b c : β} {s t : σ} {tr : Trace S ε} (loop : List γ → β → σ → Prop)
    (h : Run allowed (items.foldlM f b) tr (.ok c)) (hex : Executes exec me s tr t) (hs : loop items b s)
    (hstep : ∀ x rest b b' s s' tr, Run allowed (f b x) tr (.ok b') → Executes exec me s tr s' → loop (x :: rest) b s →
      loop rest b' s') : loop [] c t := by
  induction items generalizing b s tr with
  | nil =>
    obtain ⟨rfl,hc⟩ := Run.done_iff.mp h
    cases hc
    rw [nil_iff.mp hex]
    exact hs
  | cons x items ih =>
    rw [List.foldlM_cons] at h
    rcases Run.bind_iff.mp h with ⟨tr₁,b',tr₂,rfl,h₁,h₂⟩ | ⟨e,he,-⟩
    · obtain ⟨u,hex₁,hex₂⟩ := append_iff.mp hex
      exact ih h₂ hex₂ (hstep x items b b' s u tr₁ h₁ hex₁ hs)
    · cases he

/-- The run of a program whose operations meet these choices, numbered as they come; `none` where
one of them has to wait. -/
def alone (exec : Executor P S ε σ κ) (me : P) (choose : ℕ → κ) :
    ℕ → σ → Task S ε α → Option (Trace S ε × σ × Except ε α)
  | _, s, .done a => some ([],s,.ok a)
  | _, s, .raise e => some ([],s,.error e)
  | n, s, .await op k => (exec me s op (choose n)).bind fun step =>
    (alone exec me choose (n + 1) step.1 (k step.2)).map fun rest => (⟨op,step.2⟩ :: rest.1,rest.2)

theorem alone_executes {exec : Executor P S ε σ κ} {me : P} {choose : ℕ → κ} {n : ℕ} {s : σ} {t : Task S ε α}
    {allowed : (op : S.Op) → Except ε (S.Answer op) → Prop} {run : Trace S ε × σ × Except ε α}
    (ha : ∀ {n s op step}, exec me s op (choose n) = some step → allowed op step.2)
    (h : alone exec me choose n s t = some run) :
    Run allowed t run.1 run.2.2 ∧ Executes exec me s run.1 run.2.1 := by
  induction t generalizing n s run with
  | done a =>
    cases h
    exact ⟨.done a,.nil s⟩
  | raise e =>
    cases h
    exact ⟨.raise e,.nil s⟩
  | await op k ih =>
    obtain ⟨⟨s₁,r⟩,hstep,h⟩ := Option.bind_eq_some_iff.mp h
    obtain ⟨rest,hrest,rfl⟩ := Option.map_eq_some_iff.mp h
    obtain ⟨hrun,hex⟩ := ih r hrest
    exact ⟨.await (ha hstep) hrun,.cons _ hstep hex⟩

/-! ## Noting what happens -/

/-- The same operations, and a note of whether one of a kind has happened. -/
def noting (exec : Executor P S ε σ κ) (notes : S.Op → κ → Bool) : Executor P S ε (σ × Bool) κ := fun me s op c =>
  (exec me s.1 op c).map fun r => ((r.1,s.2 || notes op c),r.2)

section
variable {exec : Executor P S ε σ κ} {notes : S.Op → κ → Bool} {me : P} {tr : Trace S ε}

theorem noting_some {s u : σ × Bool} {op : S.Op} {c : κ} {r : Except ε (S.Answer op)}
    (h : noting exec notes me s op c = some (u,r)) :
    ∃ s', exec me s.1 op c = some (s',r) ∧ u = (s',s.2 || notes op c) := by
  obtain ⟨⟨s',r'⟩,hexec,heq⟩ := Option.map_eq_some_iff.mp h
  cases heq
  exact ⟨s',hexec,rfl⟩

theorem Executes.unnoted {s u : σ × Bool} (h : Executes (noting exec notes) me s tr u) : Executes exec me s.1 tr u.1 := by
  induction h with
  | nil s => exact .nil s.1
  | cons c hc _ ih =>
    obtain ⟨s',hexec,rfl⟩ := noting_some hc
    exact .cons c hexec ih

theorem Executes.noted {s t : σ} (h : Executes exec me s tr t) (seen : Bool) :
    ∃ seen', Executes (noting exec notes) me (s,seen) tr (t,seen') := by
  induction h generalizing seen with
  | nil s => exact ⟨seen,.nil _⟩
  | @cons s s₁ s₂ op r tr c hc _ ih =>
    obtain ⟨seen',h⟩ := ih (seen || notes op c)
    refine ⟨seen',.cons c ?_ h⟩
    unfold noting
    rw [hc]
    rfl

end

/-! ## A program judged alone -/

/-- Nobody else acts, and nothing is asked of the program. -/
def solitary (σ : Type) : Contract σ where
  inv _ := True
  rely := Eq
  guar _ _ := True
  rely_refl _ := rfl
  rely_trans h h' := h.trans h'

/-- What is judged of a program alone holds at the end of each of its runs. -/
theorem Sat.sound {exec : Executor P S ε σ κ} {me : P} {t : Task S ε α} {post : Except ε α → σ → Prop}
    {allowed : (op : S.Op) → Except ε (S.Answer op) → Prop} {s s' : σ} {tr : Trace S ε} {out : Except ε α}
    (h : Sat exec (solitary σ) me t post s) (hrun : Run allowed t tr out) (hex : Executes exec me s tr s') :
    post out s' := by
  induction t generalizing s tr with
  | done a =>
    obtain ⟨rfl,rfl⟩ := Run.done_iff.mp hrun
    rw [Executes.nil_iff.mp hex]
    exact h s rfl trivial
  | raise e =>
    obtain ⟨rfl,rfl⟩ := Run.raise_iff.mp hrun
    rw [Executes.nil_iff.mp hex]
    exact h s rfl trivial
  | await op k ih =>
    obtain ⟨r,rest,rfl,-,hrest⟩ := Run.await_iff.mp hrun
    obtain ⟨c,s₁,hc,hex⟩ := Executes.cons_iff.mp hex
    exact ih r (h s rfl trivial c s₁ r hc).2.2 hrest hex

namespace Sat
variable {exec : Executor P S ε σ κ} {me : P} {β : Type} {s : σ}

theorem alone_return {a : α} {post : Except ε α → σ → Prop} (h : post (.ok a) s) :
    Sat exec (solitary σ) me (.done a : Task S ε α) post s := by
  rintro s rfl -
  exact h

theorem alone_raise {e : ε} {post : Except ε α → σ → Prop} (h : post (.error e) s) :
    Sat exec (solitary σ) me (.raise e : Task S ε α) post s := by
  rintro s rfl -
  exact h

theorem alone_call {op : S.Op} {post : Except ε (S.Answer op) → σ → Prop}
    (h : ∀ c s' r, exec me s op c = some (s',r) → post r s') :
    Sat exec (solitary σ) me (Task.call op : Task S ε (S.Answer op)) post s := by
  refine Sat.call ?_
  rintro s rfl - c s' r hexec
  refine ⟨trivial,trivial,?_⟩
  rintro s' rfl -
  exact h c _ r hexec

theorem alone_noting {notes : S.Op → κ → Bool} {op : S.Op} {post : Except ε (S.Answer op) → σ × Bool → Prop} {s : σ × Bool}
    (h : ∀ c s' r, exec me s.1 op c = some (s',r) → post r (s',s.2 || notes op c)) :
    Sat (noting exec notes) (solitary (σ × Bool)) me (Task.call op : Task S ε (S.Answer op)) post s := by
  refine alone_call fun c u r hexec => ?_
  obtain ⟨s',hs,rfl⟩ := noting_some hexec
  exact h c s' r hs

/-- One after the other, where an exception of the first is left as it is. -/
theorem alone_bind {t : Task S ε α} {f : α → Task S ε β} {q : Except ε α → σ → Prop} {post : Except ε β → σ → Prop}
    (h : Sat exec (solitary σ) me t q s) (hok : ∀ a s, q (.ok a) s → Sat exec (solitary σ) me (f a) post s)
    (herror : ∀ e s, q (.error e) s → post (.error e) s) : Sat exec (solitary σ) me (t >>= f) post s := by
  refine Sat.bind (h.mono fun r s _ hr => ?_) trivial
  cases r with
  | ok a => exact hok a s hr
  | error e => exact alone_raise (herror e s hr)

end Sat

/-- Where no operation has to wait, there is a run. -/
theorem Executes.exists_run {exec : Executor P S ε σ κ} {me : P} {I : σ → Prop} (c : κ)
    (hgo : ∀ s op, I s → ∃ s' r, exec me s op c = some (s',r) ∧ I s') (t : Task S ε α) {s : σ} (hs : I s) :
    ∃ tr out s', Run Whatever t tr out ∧ Executes exec me s tr s' := by
  induction t generalizing s with
  | done a => exact ⟨[],.ok a,s,.done a,.nil s⟩
  | raise e => exact ⟨[],.error e,s,.raise e,.nil s⟩
  | await op k ih =>
    obtain ⟨s₁,r,hexec,hs₁⟩ := hgo s op hs
    obtain ⟨tr,out,s',hrun,hex⟩ := ih r hs₁
    exact ⟨⟨op,r⟩ :: tr,out,s',.await trivial hrun,.cons c hexec hex⟩

/-- The program returns exactly when `fit` holds, and then with this. -/
def Decides (fit : Prop) (p : α → σ → Prop) : Except ε α → σ → Prop
  | .ok a, s => fit ∧ p a s
  | .error _, _ => ¬ fit

section
variable {exec : Executor P S ε σ κ} {me : P} {β : Type} {fit fit' : Prop} {p : α → σ → Prop} {q : β → σ → Prop} {s : σ}

theorem decides_done {a : α} (h : p a s) :
    Sat exec (solitary σ) me (.done a : Task S ε α) (Decides True p) s := Sat.alone_return ⟨trivial,h⟩

theorem decides_raise {e : ε} (h : ¬ fit) :
    Sat exec (solitary σ) me (.raise e : Task S ε α) (Decides fit p) s := Sat.alone_raise h

theorem decides_iff {t : Task S ε α} (h : Sat exec (solitary σ) me t (Decides fit p) s) (hfit : fit ↔ fit') :
    Sat exec (solitary σ) me t (Decides fit' p) s := by
  rwa [propext hfit] at h

theorem decides_mono {t : Task S ε α} {p' : α → σ → Prop} (h : Sat exec (solitary σ) me t (Decides fit p) s)
    (hp : ∀ a s, fit → p a s → p' a s) : Sat exec (solitary σ) me t (Decides fit p') s := by
  refine h.mono fun r s _ hr => ?_
  cases r with
  | ok a => exact ⟨hr.1,hp a s hr.1 hr.2⟩
  | error e => exact hr

/-- One after the other: both have to be fit. -/
theorem decides_bind {t : Task S ε α} {f : α → Task S ε β} (h : Sat exec (solitary σ) me t (Decides fit p) s)
    (hf : ∀ a s, fit → p a s → Sat exec (solitary σ) me (f a) (Decides fit' q) s) :
    Sat exec (solitary σ) me (t >>= f) (Decides (fit ∧ fit') q) s := by
  refine Sat.bind (h.mono ?_) trivial
  intro r s _ hr
  cases r with
  | ok a => exact decides_iff (hf a s hr.1 hr.2) (and_iff_right hr.1).symm
  | error e => exact decides_raise fun h => hr h.1

/-- What raises in the end returns never. -/
theorem decides_bind_raise {t : Task S ε α} {f : α → Task S ε β} (h : Sat exec (solitary σ) me t (Decides fit p) s)
    (hf : ∀ a, ∃ e, f a = .raise e) : Sat exec (solitary σ) me (t >>= f) (Decides False q) s := by
  have hboth : Sat exec (solitary σ) me (t >>= f) (Decides (fit ∧ False) q) s := by
    refine decides_bind h fun a s _ _ => ?_
    obtain ⟨e,he⟩ := hf a
    rw [he]
    exact decides_raise fun h => h
  exact decides_iff hboth (by simp)

/-- An operation goes through exactly when `fit` holds. -/
theorem decides_call {op : S.Op} {p : S.Answer op → σ → Prop}
    (h : ∀ c s' r, exec me s op c = some (s',r) → Decides fit p r s') :
    Sat exec (solitary σ) me (Task.call op : Task S ε (S.Answer op)) (Decides fit p) s := Sat.alone_call h

end

end RelyGuarantee
