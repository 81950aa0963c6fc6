import InferenceLogger.Core.Errors
import InferenceLogger.Foundation.Task

/-! # One unit of work

`Database.session()`: the body runs between the creation of a session and its commit, an
`Exception` rolls back, and the session is closed in every case. The three operations are
those of whichever signature the body awaits.
-/
namespace InferenceLogger
open AsyncTask

structure SessionOps (S : Signature) where
  commit : Task S Exc Unit
  rollback : Task S Exc Unit
  close : Task S Exc Unit

variable {S : Signature} {α : Type}

/-- The `try` inside the context manager. -/
def SessionOps.transact (ops : SessionOps S) (body : Task S Exc α) : Task S Exc α :=
  (do
    let a ← body
    ops.commit
    return a : Task S Exc α).resume fun
    | .ok a => .done a
    | .error e => if e.isException then do
        ops.rollback
        throw e
      else throw e

/-- A failure to close replaces what the session ended with. -/
def SessionOps.session (ops : SessionOps S) (body : Task S Exc α) : Task S Exc α :=
  (ops.transact body).resume fun r => do
    ops.close
    Task.ofExcept r

/-- What a session relies on: its three operations raise only what they are answered. -/
structure SessionOps.Plain (ops : SessionOps S) : Prop where
  commit : Candid ops.commit
  rollback : Candid ops.rollback
  rollback_ok : Faultless ops.rollback
  close : Candid ops.close
  close_ok : Faultless ops.close

variable {ops : SessionOps S} {body : Task S Exc α}

theorem SessionOps.candid_transact (ho : ops.Plain) (hb : Candid body) : Candid (ops.transact body) := by
  refine (hb.bind fun a => ho.commit.bind fun _ => candid_done a).resume ?_ ?_
  · intro r
    cases r with
    | ok a => exact candid_done a
    | error x =>
      change Candid (if x.isException = true then (ops.rollback >>= fun _ => throw x) else throw x)
      split
      · exact ho.rollback.bind fun _ => candid_raise x
      · exact candid_raise x
  · intro x allowed tr out h hs
    change Run allowed (if x.isException = true then (ops.rollback >>= fun _ => throw x) else throw x) tr out at h
    split at h
    · rcases Run.bind_iff.mp h with ⟨tr₁,u,tr₂,rfl,-,h₂⟩ | ⟨y,rfl,h₁⟩
      · exact (Run.raise_iff.mp h₂).2
      · obtain ⟨u,hu⟩ := ho.rollback_ok _ _ _ h₁ hs
        cases hu
    · exact (Run.raise_iff.mp h).2

theorem SessionOps.candid_session (ho : ops.Plain) (hb : Candid body) : Candid (ops.session body) := by
  refine (candid_transact ho hb).resume ?_ ?_
  · intro r
    refine ho.close.bind fun _ => ?_
    cases r with
    | ok a => exact candid_done a
    | error x => exact candid_raise x
  · intro x allowed tr out h hs
    rcases Run.bind_iff.mp h with ⟨tr₁,u,tr₂,rfl,-,h₂⟩ | ⟨y,rfl,h₁⟩
    · exact (Run.raise_iff.mp h₂).2
    · obtain ⟨u,hu⟩ := ho.close_ok _ _ _ h₁ hs
      cases hu

theorem SessionOps.awaits_session {p : S.Op → Prop} (hb : Awaits p body) (hc : Awaits p ops.commit)
    (hr : Awaits p ops.rollback) (hl : Awaits p ops.close) : Awaits p (ops.session body) := by
  have htransact : Awaits p (ops.transact body) := by
    refine (hb.bind fun a => hc.bind fun _ => awaits_done a).resume fun r => ?_
    cases r with
    | ok a => exact awaits_done a
    | error x =>
      change Awaits p (if x.isException = true then (ops.rollback >>= fun _ => throw x) else throw x)
      split
      · exact hr.bind fun _ => awaits_raise x
      · exact awaits_raise x
  refine htransact.resume fun r => hl.bind fun _ => ?_
  cases r with
  | ok a => exact awaits_done a
  | error x => exact awaits_raise x

/-- How a session can go: the body and the commit succeed and the session is closed, or it is
left with an exception after whatever was awaited to clean up. -/
inductive SessionRun (allowed : (op : S.Op) → Except Exc (S.Answer op) → Prop) (ops : SessionOps S)
    (body : Task S Exc α) : Trace S Exc → Except Exc α → Prop where
  | committed {tb tc tl : Trace S Exc} {a : α} {r : Except Exc Unit} :
      Run allowed body tb (.ok a) → Run allowed ops.commit tc (.ok ()) → Run allowed ops.close tl r →
      SessionRun allowed ops body (tb ++ tc ++ tl) (r.map fun _ => a)
  | commitFailed {tb tc tr tl : Trace S Exc} {a : α} {x y : Exc} {r : Except Exc Unit} :
      Run allowed body tb (.ok a) → Run allowed ops.commit tc (.error x) →
      (tr = [] ∨ ∃ q, Run allowed ops.rollback tr q) → Run allowed ops.close tl r →
      SessionRun allowed ops body (tb ++ tc ++ tr ++ tl) (.error y)
  | bodyFailed {tb tr tl : Trace S Exc} {x y : Exc} {r : Except Exc Unit} :
      Run allowed body tb (.error x) →
      (tr = [] ∨ ∃ q, Run allowed ops.rollback tr q) → Run allowed ops.close tl r →
      (Smooth (tr ++ tl) → y = x) → SessionRun allowed ops body (tb ++ tr ++ tl) (.error y)

theorem SessionOps.session_run {allowed : (op : S.Op) → Except Exc (S.Answer op) → Prop}
    {tr : Trace S Exc} {out : Except Exc α} (ho : ops.Plain) (h : Run allowed (ops.session body) tr out) :
    SessionRun allowed ops body tr out := by
  obtain ⟨tt,r,tl,rfl,h₁,h₂⟩ := Run.resume_iff.mp h
  have hclose : ∃ rc, Run allowed ops.close tl rc ∧
      out = (match rc with | .ok _ => r | .error x => .error x) := by
    rcases Run.bind_iff.mp h₂ with ⟨tl₁,u,tl₂,rfl,hc,ho⟩ | ⟨x,rfl,hc⟩
    · obtain ⟨rfl,rfl⟩ := Run.ofExcept_iff.mp ho
      exact ⟨.ok u,by simpa using hc,rfl⟩
    · exact ⟨.error x,hc,rfl⟩
  obtain ⟨rc,hc,hout⟩ := hclose
  obtain ⟨td,q,te,rfl,hbody,hafter⟩ := Run.resume_iff.mp h₁
  have hclosed : ∀ {z}, r = .error z → ∃ y, out = .error y ∧ (Smooth tl → y = z) := by
    rintro z rfl
    cases rc with
    | ok u => exact ⟨z,hout,fun _ => rfl⟩
    | error y =>
      refine ⟨y,hout,fun hs => ?_⟩
      obtain ⟨u,hu⟩ := ho.close_ok _ _ _ hc hs
      cases hu
  have hfail : ∀ x, q = .error x → (te = [] ∨ ∃ q, Run allowed ops.rollback te q) ∧
      ∃ y, out = .error y ∧ (Smooth (te ++ tl) → y = x) := by
    rintro x rfl
    change Run allowed (if x.isException = true then (ops.rollback >>= fun _ => throw x) else throw x) te r at hafter
    split at hafter
    · rcases Run.bind_iff.mp hafter with ⟨t₁,u,t₂,rfl,hr,hx⟩ | ⟨z,rfl,hr⟩
      · obtain ⟨rfl,rfl⟩ := Run.raise_iff.mp hx
        obtain ⟨y,hy,hyx⟩ := hclosed rfl
        exact ⟨.inr ⟨_,by simpa using hr⟩,y,hy,fun hs => hyx (smooth_append.mp hs).2⟩
      · obtain ⟨y,hy,-⟩ := hclosed rfl
        refine ⟨.inr ⟨_,hr⟩,y,hy,fun hs => ?_⟩
        obtain ⟨u,hu⟩ := ho.rollback_ok _ _ _ hr (smooth_append.mp hs).1
        cases hu
    · obtain ⟨rfl,rfl⟩ := Run.raise_iff.mp hafter
      obtain ⟨y,hy,hyx⟩ := hclosed rfl
      exact ⟨.inl rfl,y,hy,fun hs => hyx (smooth_append.mp hs).2⟩
  rcases Run.bind_iff.mp hbody with ⟨tb,a,tc,rfl,hb,hcommit⟩ | ⟨x,rfl,hb⟩
  · rcases Run.bind_iff.mp hcommit with ⟨tc₁,u,tc₂,rfl,hc₁,hc₂⟩ | ⟨x,rfl,hc₁⟩
    · obtain ⟨rfl,rfl⟩ := Run.done_iff.mp hc₂
      obtain ⟨rfl,rfl⟩ := Run.done_iff.mp hafter
      have hmap : out = rc.map fun _ => a := by
        rw [hout]
        cases rc <;> rfl
      rw [hmap]
      simpa using SessionRun.committed hb hc₁ hc
    · obtain ⟨hclean,y,rfl,-⟩ := hfail x rfl
      simpa using SessionRun.commitFailed (y := y) hb hc₁ hclean hc
  · obtain ⟨hclean,y,rfl,hyx⟩ := hfail x rfl
    exact .bodyFailed hb hclean hc hyx

end InferenceLogger
