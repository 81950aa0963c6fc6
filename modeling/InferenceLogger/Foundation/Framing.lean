import Mathlib.Data.List.Basic

/-! # Splitting a stream at a separator

`split` follows `String.prototype.split`: occurrences are taken from left to right and do not
overlap, and there is always a last piece. Splitting a text that arrives in parts gives what
splitting the whole text gives.
-/
namespace Framing

/-- A separator has a first character. -/
structure Separator (α : Type) where
  head : α
  tail : List α

variable {α : Type}

def Separator.toList (sep : Separator α) : List α := sep.head :: sep.tail

/-- The character goes to the front of the first piece. -/
def push (x : α) : List (List α) → List (List α)
  | [] => [[x]]
  | piece :: pieces => (x :: piece) :: pieces

variable [DecidableEq α] (sep : Separator α)

/-- The pieces of a text whose first `skip` characters belong to a separator. -/
def splitAfter : ℕ → List α → List (List α)
  | _, [] => [[]]
  | skip + 1, _ :: xs => splitAfter skip xs
  | 0, x :: xs =>
    if sep.toList.isPrefixOf (x :: xs) then [] :: splitAfter sep.tail.length xs
    else push x (splitAfter 0 xs)

def split (t : List α) : List (List α) := splitAfter sep 0 t

/-- The piece that is not yet closed by a separator. -/
def pending (t : List α) : List α := (split sep t).getLastD []

/-- The pieces a separator follows. -/
def frames (t : List α) : List (List α) := (split sep t).dropLast

example : frames (⟨1,[1]⟩ : Separator ℕ) [0,1,1,1,2,1,1,3] = [[0],[1,2]] := by decide
example : pending (⟨1,[1]⟩ : Separator ℕ) [0,1,1,1,2,1,1,3] = [3] := by decide

variable {sep}

omit [DecidableEq α] in
theorem push_ne_nil (x : α) (pieces : List (List α)) : push x pieces ≠ [] := by
  cases pieces <;> simp [push]

theorem splitAfter_ne_nil (skip : ℕ) (t : List α) : splitAfter sep skip t ≠ [] := by
  fun_induction splitAfter sep skip t with
  | case1 => simp
  | case2 skip x xs ih => exact ih
  | case3 x xs h ih => simp
  | case4 x xs h ih => exact push_ne_nil x _

/-- A text in one piece is that piece. -/
theorem splitAfter_single {skip : ℕ} {t piece : List α} (h : splitAfter sep skip t = [piece]) :
    piece = t.drop skip := by
  fun_induction splitAfter sep skip t generalizing piece with
  | case1 => simp_all
  | case2 skip x xs ih => exact ih h
  | case3 x xs hp ih =>
    injection h with _ htail
    exact absurd htail (splitAfter_ne_nil _ _)
  | case4 x xs hp ih =>
    cases hs : splitAfter sep 0 xs with
    | nil => exact absurd hs (splitAfter_ne_nil _ _)
    | cons p ps =>
      rw [hs] at h
      simp only [push, List.cons.injEq] at h
      obtain ⟨rfl,rfl⟩ := h
      rw [ih hs]
      rfl

/-- A text in several pieces is long enough for a separator. -/
theorem splitAfter_length {skip : ℕ} {t p q : List α} {ps : List (List α)}
    (h : splitAfter sep skip t = p :: q :: ps) : sep.toList.length ≤ t.length := by
  fun_induction splitAfter sep skip t generalizing p with
  | case1 => simp at h
  | case2 skip x xs ih =>
    have hlen := ih h
    simp only [List.length_cons]
    omega
  | case3 x xs hp ih => exact (List.isPrefixOf_iff_prefix.mp hp).length_le
  | case4 x xs hp ih =>
    cases hs : splitAfter sep 0 xs with
    | nil => exact absurd hs (splitAfter_ne_nil _ _)
    | cons p' ps' =>
      rw [hs] at h
      simp only [push, List.cons.injEq] at h
      obtain ⟨-,rfl⟩ := h
      have hlen := ih hs
      simp only [List.length_cons]
      omega

/-- Splitting goes on with the open piece when more of the text arrives. -/
theorem splitAfter_append {skip : ℕ} (t u : List α) (hk : skip ≤ t.length) :
    splitAfter sep skip (t ++ u) =
      (splitAfter sep skip t).dropLast ++ splitAfter sep 0 ((splitAfter sep skip t).getLastD [] ++ u) := by
  fun_induction splitAfter sep skip t with
  | case1 skip =>
    have hz : skip = 0 := by simpa using hk
    subst hz
    simp
  | case2 skip x xs ih =>
    rw [List.length_cons] at hk
    simp only [List.cons_append, splitAfter]
    exact ih (by omega)
  | case3 x xs hp ih =>
    have hpre := List.isPrefixOf_iff_prefix.mp hp
    have hlen := hpre.length_le
    have hext : sep.toList.isPrefixOf (x :: (xs ++ u)) = true :=
      List.isPrefixOf_iff_prefix.mpr (hpre.trans (List.prefix_append (x :: xs) u))
    simp only [Separator.toList, List.length_cons] at hlen
    simp only [List.cons_append, splitAfter, if_pos hext]
    rw [ih (by omega), List.dropLast_cons_of_ne_nil (splitAfter_ne_nil _ _)]
    cases hs : splitAfter sep sep.tail.length xs with
    | nil => exact absurd hs (splitAfter_ne_nil _ _)
    | cons p ps => simp
  | case4 x xs hp ih =>
    cases hs : splitAfter sep 0 xs with
    | nil => exact absurd hs (splitAfter_ne_nil _ _)
    | cons p ps =>
      cases ps with
      | nil =>
        have hall : p = xs := by simpa using splitAfter_single hs
        simp [push,hall]
      | cons q ps =>
        have hlen := splitAfter_length hs
        have hext : ¬ sep.toList.isPrefixOf (x :: (xs ++ u)) = true := by
          intro hext
          have hpre := List.isPrefixOf_iff_prefix.mp hext
          have hlong : sep.toList.length ≤ (x :: xs).length := by
            rw [List.length_cons]
            omega
          exact hp (List.isPrefixOf_iff_prefix.mpr
            (List.prefix_of_prefix_length_le hpre (List.prefix_append (x :: xs) u) hlong))
        simp only [List.cons_append, splitAfter, if_neg hext]
        rw [ih (by simp), hs]
        simp [push]

theorem split_append (t u : List α) : split sep (t ++ u) = frames sep t ++ split sep (pending sep t ++ u) :=
  splitAfter_append t u (by simp)

theorem frames_append (t u : List α) : frames sep (t ++ u) = frames sep t ++ frames sep (pending sep t ++ u) := by
  have hne : split sep (pending sep t ++ u) ≠ [] := splitAfter_ne_nil 0 _
  change (split sep (t ++ u)).dropLast = _
  rw [split_append, List.dropLast_append_of_ne_nil hne]
  rfl

/-- A piece whose only separator is the one that closes it. -/
def Closed (sep : Separator α) (piece : List α) : Prop := split sep (piece ++ sep.toList) = [piece,[]]

/-- What is framed is what was sent. -/
theorem frames_flatMap {pieces : List (List α)} (h : ∀ piece ∈ pieces, Closed sep piece) :
    frames sep (pieces.flatMap (· ++ sep.toList)) = pieces := by
  induction pieces with
  | nil => rfl
  | cons piece pieces ih =>
    have hone := h piece List.mem_cons_self
    have hframes : frames sep (piece ++ sep.toList) = [piece] := by
      unfold frames
      rw [show split sep (piece ++ sep.toList) = [piece,[]] from hone]
      rfl
    have hpending : pending sep (piece ++ sep.toList) = [] := by
      unfold pending
      rw [show split sep (piece ++ sep.toList) = [piece,[]] from hone]
      rfl
    rw [List.flatMap_cons, frames_append, hframes, hpending, List.nil_append,
      ih (fun p hp => h p (List.mem_cons_of_mem _ hp))]
    rfl

/-- Characters that start no separator go to the front of the first piece. -/
theorem split_free {a t piece : List α} {pieces : List (List α)} (ha : sep.head ∉ a) (ht : split sep t = piece :: pieces) :
    split sep (a ++ t) = (a ++ piece) :: pieces := by
  induction a with
  | nil => exact ht
  | cons x a ih =>
    have hx : sep.toList.isPrefixOf (x :: (a ++ t)) = false := by
      have hne : sep.head ≠ x := fun he => ha (he ▸ List.mem_cons_self)
      simp [Separator.toList,List.isPrefixOf,hne]
    have hrest := ih (fun h => ha (List.mem_cons_of_mem _ h))
    change splitAfter sep 0 (x :: (a ++ t)) = _
    rw [splitAfter, hx]
    change push x (split sep (a ++ t)) = _
    rw [hrest]
    rfl

theorem split_two {n : α} {a b : List α} (ha : n ∉ a) (hb : n ∉ b) : split ⟨n,[]⟩ (a ++ n :: b) = [a,b] := by
  have hlast : split ⟨n,[]⟩ b = [b] := by
    have hfree : split ⟨n,[]⟩ (b ++ []) = (b ++ []) :: [] := split_free hb rfl
    simpa using hfree
  have htail : split ⟨n,[]⟩ (n :: b) = [[],b] := by
    change splitAfter ⟨n,[]⟩ 0 (n :: b) = _
    rw [splitAfter, if_pos (by simp [Separator.toList,List.isPrefixOf])]
    exact congrArg ([] :: ·) hlast
  have hall : split ⟨n,[]⟩ (a ++ n :: b) = (a ++ []) :: [b] := split_free ha htail
  simpa using hall

/-- Two lines, the second one not empty, are closed by an empty line. -/
theorem closed_two {n : α} {a b : List α} (ha : n ∉ a) (hb : n ∉ b) (hne : b ≠ []) : Closed ⟨n,[n]⟩ (a ++ n :: b) := by
  obtain ⟨x,xs,rfl⟩ := List.exists_cons_of_ne_nil hne
  have hx : n ≠ x := fun he => hb (he ▸ List.mem_cons_self)
  have hend : split ⟨n,[n]⟩ [n,n] = [[],[]] := by
    change splitAfter ⟨n,[n]⟩ 0 [n,n] = _
    rw [splitAfter, if_pos (by simp [Separator.toList,List.isPrefixOf])]
    rfl
  have hsecond : split ⟨n,[n]⟩ ((x :: xs) ++ [n,n]) = [x :: xs,[]] := by
    have hfree : split ⟨n,[n]⟩ ((x :: xs) ++ [n,n]) = ((x :: xs) ++ []) :: [[]] := split_free hb hend
    simpa using hfree
  have hline : split ⟨n,[n]⟩ (n :: ((x :: xs) ++ [n,n])) = [n :: x :: xs,[]] := by
    change splitAfter ⟨n,[n]⟩ 0 (n :: ((x :: xs) ++ [n,n])) = _
    rw [splitAfter, if_neg (by simp [Separator.toList,List.isPrefixOf,hx])]
    change push n (split ⟨n,[n]⟩ _) = _
    rw [hsecond]
    rfl
  have hall : split ⟨n,[n]⟩ (a ++ (n :: ((x :: xs) ++ [n,n]))) = (a ++ (n :: x :: xs)) :: [[]] := split_free ha hline
  unfold Closed
  simpa [Separator.toList] using hall

/-- A second line that only one separator character follows is still open. -/
theorem open_two {n : α} {a b : List α} (ha : n ∉ a) (hb : n ∉ b) (hne : b ≠ []) :
    frames ⟨n,[n]⟩ (a ++ n :: b ++ [n]) = [] := by
  obtain ⟨x,xs,rfl⟩ := List.exists_cons_of_ne_nil hne
  have hx : n ≠ x := fun he => hb (he ▸ List.mem_cons_self)
  have hend : split ⟨n,[n]⟩ [n] = [[n]] := by
    change splitAfter ⟨n,[n]⟩ 0 [n] = _
    rw [splitAfter, if_neg (by simp [Separator.toList,List.isPrefixOf])]
    rfl
  have hsecond : split ⟨n,[n]⟩ ((x :: xs) ++ [n]) = [(x :: xs) ++ [n]] := split_free hb hend
  have hline : split ⟨n,[n]⟩ (n :: ((x :: xs) ++ [n])) = [n :: ((x :: xs) ++ [n])] := by
    change splitAfter ⟨n,[n]⟩ 0 (n :: ((x :: xs) ++ [n])) = _
    rw [splitAfter, if_neg (by simp [Separator.toList,List.isPrefixOf,hx])]
    change push n (split ⟨n,[n]⟩ _) = _
    rw [hsecond]
    rfl
  have hall : split ⟨n,[n]⟩ (a ++ (n :: ((x :: xs) ++ [n]))) = (a ++ (n :: ((x :: xs) ++ [n]))) :: [] := split_free ha hline
  unfold frames
  rw [List.append_assoc, List.cons_append, hall]
  rfl

/-! ## What has arrived -/

theorem frames_mono {t u : List α} (h : t <+: u) : frames sep t <+: frames sep u := by
  obtain ⟨v,rfl⟩ := h
  rw [frames_append]
  exact List.prefix_append _ _

/-- Behind pieces that are closed the framing starts afresh. -/
theorem frames_flatMap_append {pieces : List (List α)} (h : ∀ piece ∈ pieces, Closed sep piece) (t : List α) :
    frames sep (pieces.flatMap (· ++ sep.toList) ++ t) = pieces ++ frames sep t := by
  induction pieces with
  | nil => rfl
  | cons piece pieces ih =>
    have hone : split sep (piece ++ sep.toList) = [piece,[]] := h piece List.mem_cons_self
    have hrest := ih fun p hp => h p (List.mem_cons_of_mem _ hp)
    rw [List.flatMap_cons, List.append_assoc, frames_append]
    simp only [frames, pending, hone] at hrest ⊢
    simp [hrest]

omit [DecidableEq α] in
/-- What has come of a sequence of parts: some of them whole, and less than the next one. -/
theorem flatten_mono {parts : List (List α)} {p : List α} (h : p <+: parts.flatten) :
    ∃ m, (parts.take m).flatten <+: p ∧ ((parts.length ≤ m ∧ p = parts.flatten) ∨
      ∃ part, parts[m]? = some part ∧ p <+: (parts.take m).flatten ++ part ∧
        p.length < ((parts.take m).flatten ++ part).length) := by
  induction parts generalizing p with
  | nil => exact ⟨0,List.nil_prefix,.inl ⟨Nat.le_refl _,List.prefix_nil.mp h⟩⟩
  | cons part parts ih =>
    rw [List.flatten_cons] at h
    by_cases hlen : p.length < part.length
    · refine ⟨0,List.nil_prefix,.inr ⟨part,rfl,?_,hlen⟩⟩
      exact List.prefix_of_prefix_length_le h (List.prefix_append part _) (Nat.le_of_lt hlen)
    · obtain ⟨q,rfl⟩ := List.prefix_of_prefix_length_le (List.prefix_append part _) h (by omega)
      obtain ⟨m,hm,hrest⟩ := ih ((List.prefix_append_right_inj part).mp h)
      refine ⟨m + 1,?_,?_⟩
      · rw [List.take_succ_cons, List.flatten_cons]
        exact (List.prefix_append_right_inj part).mpr hm
      · rcases hrest with ⟨hall,rfl⟩ | ⟨next,hnext,hq,hshort⟩
        · exact .inl ⟨Nat.succ_le_succ hall,rfl⟩
        · refine .inr ⟨next,hnext,?_,?_⟩
          · rw [List.take_succ_cons, List.flatten_cons, List.append_assoc]
            exact (List.prefix_append_right_inj part).mpr hq
          · rw [List.take_succ_cons, List.flatten_cons, List.append_assoc]
            simp only [List.length_append] at hshort ⊢
            omega

end Framing
