import InferenceLogger.Foundation.Task

/-! # Concurrent programs over a shared state

Several programs run against one shared state; a step executes the next operation of
one of them. A program is judged against a contract: what the others may do to the
state, what it may do itself, and an invariant both sides keep. The judgement looks at
one program alone, and is stable under what the others may do.
-/
namespace RelyGuarantee
open AsyncTask

variable {S : Signature} {ε α β σ κ P : Type}

/-- How an operation issued by a given party acts on the shared state. The last argument
is the environment's choice (a fault, for instance); `none` means it must wait. -/
abbrev Executor (P : Type) (S : Signature) (ε σ κ : Type) :=
  P → σ → (op : S.Op) → κ → Option (σ × Except ε (S.Answer op))

/-- What one party relies on from the others, what it guarantees, and the invariant. -/
structure Contract (σ : Type) where
  inv : σ → Prop
  rely : σ → σ → Prop
  guar : σ → σ → Prop
  rely_refl : ∀ s, rely s s
  rely_trans : ∀ {a b c}, rely a b → rely b c → rely a c

variable (exec : Executor P S ε σ κ) (C : Contract σ) (me : P)

/-- From this state the program keeps the contract and ends in the postcondition, whatever
the others do in between. -/
def Sat : Task S ε α → (Except ε α → σ → Prop) → σ → Prop
  | .done a, post, s => ∀ s₁, C.rely s s₁ → C.inv s₁ → post (.ok a) s₁
  | .raise e, post, s => ∀ s₁, C.rely s s₁ → C.inv s₁ → post (.error e) s₁
  | .await op k, post, s => ∀ s₁, C.rely s s₁ → C.inv s₁ → ∀ c s₂ r,
      exec me s₁ op c = some (s₂,r) → C.guar s₁ s₂ ∧ C.inv s₂ ∧ Sat (k r) post s₂

variable {exec C me}

namespace Sat

/-- The judgement survives interference. -/
theorem stable {t : Task S ε α} {post : Except ε α → σ → Prop} {s s₁ : σ}
    (h : Sat exec C me t post s) (hr : C.rely s s₁) : Sat exec C me t post s₁ := by
  cases t with
  | done a => exact fun s₂ h₂ hi => h s₂ (C.rely_trans hr h₂) hi
  | raise e => exact fun s₂ h₂ hi => h s₂ (C.rely_trans hr h₂) hi
  | await op k => exact fun s₂ h₂ hi => h s₂ (C.rely_trans hr h₂) hi

/-- One step of the judged program. -/
theorem step {op : S.Op} {k : Except ε (S.Answer op) → Task S ε α} {post : Except ε α → σ → Prop}
    {s s₁ : σ} {c : κ} {r : Except ε (S.Answer op)} (h : Sat exec C me (.await op k) post s)
    (hi : C.inv s) (he : exec me s op c = some (s₁,r)) :
    C.guar s s₁ ∧ C.inv s₁ ∧ Sat exec C me (k r) post s₁ :=
  h s (C.rely_refl s) hi c s₁ r he

theorem resume {t : Task S ε α} {f : Except ε α → Task S ε β} {post : Except ε β → σ → Prop} {s : σ}
    (h : Sat exec C me t (fun r s => Sat exec C me (f r) post s) s) (hi : C.inv s) :
    Sat exec C me (t.resume f) post s := by
  induction t generalizing s with
  | done a => exact h s (C.rely_refl s) hi
  | raise e => exact h s (C.rely_refl s) hi
  | await op k ih =>
    intro s₁ hr hi₁ c s₂ r he
    obtain ⟨hg,hi₂,hk⟩ := h s₁ hr hi₁ c s₂ r he
    exact ⟨hg,hi₂,ih r hk hi₂⟩

theorem mono {t : Task S ε α} {post post' : Except ε α → σ → Prop} {s : σ}
    (h : Sat exec C me t post s) (hp : ∀ r s, C.inv s → post r s → post' r s) :
    Sat exec C me t post' s := by
  induction t generalizing s with
  | done a => exact fun s₁ hr hi => hp _ _ hi (h s₁ hr hi)
  | raise e => exact fun s₁ hr hi => hp _ _ hi (h s₁ hr hi)
  | await op k ih =>
    intro s₁ hr hi c s₂ r he
    obtain ⟨hg,hi₂,hk⟩ := h s₁ hr hi c s₂ r he
    exact ⟨hg,hi₂,ih r hk⟩

theorem bind {t : Task S ε α} {f : α → Task S ε β} {post : Except ε β → σ → Prop} {s : σ}
    (h : Sat exec C me t (fun r s => match r with
      | .ok a => Sat exec C me (f a) post s
      | .error e => Sat exec C me (.raise e : Task S ε β) post s) s) (hi : C.inv s) :
    Sat exec C me (t >>= f) post s := by
  rw [Task.bind_def]
  refine resume (mono h ?_) hi
  intro r s hs h
  cases r <;> exact h

/-- A loop over a list keeps its invariant, given as a predicate of what is left. -/
theorem foldlM {γ : Type} {f : β → γ → Task S ε β} {post : Except ε β → σ → Prop}
    (loop : List γ → β → σ → Prop) (items : List γ) {b : β} {s : σ} (hi : C.inv s)
    (h : loop items b s)
    (hstep : ∀ x rest b s, C.inv s → loop (x :: rest) b s →
      Sat exec C me (f b x) (fun r s => match r with
        | .ok b => loop rest b s
        | .error e => Sat exec C me (.raise e : Task S ε β) post s) s)
    (hend : ∀ b s, C.inv s → loop [] b s → Sat exec C me (.done b) post s) :
    Sat exec C me (items.foldlM f b) post s := by
  induction items generalizing b s with
  | nil => exact hend b s hi h
  | cons x rest ih =>
    rw [List.foldlM_cons]
    refine bind (mono (hstep x rest b s hi h) ?_) hi
    intro r s hs h
    cases r with
    | ok b => exact ih hs h
    | error e => exact h

theorem call {op : S.Op} {post : Except ε (S.Answer op) → σ → Prop} {s : σ}
    (h : ∀ s₁, C.rely s s₁ → C.inv s₁ → ∀ c s₂ r, exec me s₁ op c = some (s₂,r) →
      C.guar s₁ s₂ ∧ C.inv s₂ ∧ ∀ s₃, C.rely s₂ s₃ → C.inv s₃ → post r s₃) :
    Sat exec C me (Task.call op) post s := by
  intro s₁ hr hi c s₂ r he
  obtain ⟨hg,hi₂,hp⟩ := h s₁ hr hi c s₂ r he
  refine ⟨hg,hi₂,?_⟩
  cases r with
  | ok a => exact hp
  | error e => exact hp

end Sat

end RelyGuarantee
