import InferenceLogger.Events.RedisStream

/-! # What a group can still hand out

Polling a group goes through the entries behind its cursor in order. An entry behind the cursor
is out of reach for good, unless the group is lost and created again.
-/
namespace InferenceLogger
namespace Redis

/-- Some later poll returns the entry, when nothing but polling happens: a missing group is
created by the poll that misses it. -/
inductive Returns (n : ℕ) : Redis → Entry → Prop where
  | now {r : Redis} {e : Entry} {batch : List Entry} : (r.readGroup n).2 = .ok batch → e ∈ batch → Returns n r e
  | later {r : Redis} {e : Entry} {batch : List Entry} : (r.readGroup n).2 = .ok batch →
      Returns n (r.readGroup n).1 e → Returns n r e
  | created {r : Redis} {e : Entry} : r.group = none → Returns n r.createGroup.1 e → Returns n r e

/-- The cursor has not passed the entry. -/
def Ahead (r : Redis) (e : Entry) : Prop := ∀ g, r.group = some g → g.lastDelivered < e.id

instance (r : Redis) (e : Entry) : Decidable (r.Ahead e) :=
  match h : r.group with
  | none => isTrue fun g hg => by rw [h] at hg; cases hg
  | some g => decidable_of_iff (g.lastDelivered < e.id)
      ⟨fun hlt g' hg => by rw [h] at hg; cases hg; exact hlt,fun ha => ha g h⟩

/-- Ids increase along the stream, and the first is not zero. -/
structure Ordered (r : Redis) : Prop where
  increasing : r.entries.Pairwise fun a b => a.id < b.id
  positive : ∀ e ∈ r.entries, 0 < e.id

variable {r : Redis} {n : ℕ} {e : Entry}

theorem readGroup_some {g : ConsumerGroup} (hg : r.group = some g) :
    r.readGroup n = ({r with group := some {
      lastDelivered := (((r.undelivered g).take n).getLast?.map Entry.id).getD g.lastDelivered
      pending := g.pending ++ ((r.undelivered g).take n).map Entry.id}},.ok ((r.undelivered g).take n)) := by
  unfold readGroup
  rw [hg]

theorem readGroup_none (hg : r.group = none) : ∃ x, r.readGroup n = (r,.error x) := by
  unfold readGroup
  rw [hg]
  exact ⟨_,rfl⟩

/-- Behind the last entry of a part of the stream comes the rest. -/
theorem filter_behind {front rest : List Entry} {last : Entry} (h : (front ++ rest).Pairwise fun a b => a.id < b.id)
    (hlast : front.getLast? = some last) :
    (front ++ rest).filter (fun e => decide (last.id < e.id)) = rest := by
  obtain ⟨before,rfl⟩ := List.getLast?_eq_some_iff.mp hlast
  obtain ⟨hfront,-,hcross⟩ := List.pairwise_append.mp h
  obtain ⟨-,-,hbefore⟩ := List.pairwise_append.mp hfront
  have hnone : (before ++ [last]).filter (fun e => decide (last.id < e.id)) = [] := by
    refine List.filter_eq_nil_iff.mpr fun a ha => ?_
    rw [decide_eq_true_eq]
    rcases List.mem_append.mp ha with ha | ha
    · have hlt := hbefore a ha last (List.mem_singleton_self last)
      omega
    · rw [List.mem_singleton.mp ha]
      omega
  have hall : rest.filter (fun e => decide (last.id < e.id)) = rest := by
    refine List.filter_eq_self.mpr fun b hb => decide_eq_true ?_
    exact hcross last (List.mem_append_right _ (List.mem_singleton_self last)) b hb
  rw [List.filter_append, hnone, hall, List.nil_append]

/-- A poll hands out the next entries and leaves the rest. -/
theorem readGroup_undelivered {g : ConsumerGroup} (h : r.Ordered) (hg : r.group = some g) :
    ∃ g', (r.readGroup n).1.group = some g' ∧ (r.readGroup n).1.undelivered g' = (r.undelivered g).drop n := by
  rw [readGroup_some hg]
  refine ⟨_,rfl,?_⟩
  have hsorted : (r.undelivered g).Pairwise fun a b => a.id < b.id := h.increasing.filter _
  have hsplit := List.take_append_drop n (r.undelivered g)
  cases hlast : ((r.undelivered g).take n).getLast? with
  | none =>
    have htake := List.getLast?_eq_none_iff.mp hlast
    change r.undelivered g = _
    rw [htake, List.nil_append] at hsplit
    exact hsplit.symm
  | some last =>
    rw [← hsplit] at hsorted
    have hbehind := filter_behind hsorted hlast
    rw [hsplit] at hbehind
    have hmem : last ∈ r.undelivered g := List.mem_of_mem_take (List.mem_of_getLast? hlast)
    have hlt : g.lastDelivered < last.id := of_decide_eq_true (List.mem_filter.mp hmem).2
    change r.entries.filter (fun e => decide (last.id < e.id)) = _
    rw [← hbehind]
    unfold undelivered
    rw [List.filter_filter]
    refine List.filter_congr fun a _ => ?_
    by_cases ha : last.id < a.id
    · have hafter : g.lastDelivered < a.id := by omega
      simp [ha,hafter]
    · simp [ha]

/-- A poll either hands the entry out or leaves it ahead of the cursor. -/
theorem readGroup_ahead {g : ConsumerGroup} (h : r.Ordered) (hg : r.group = some g)
    (he : e ∈ r.entries) (ha : r.Ahead e) : e ∈ (r.undelivered g).take n ∨ (r.readGroup n).1.Ahead e := by
  have hmem : e ∈ r.undelivered g := List.mem_filter.mpr ⟨he,decide_eq_true (ha g hg)⟩
  rw [← List.take_append_drop n (r.undelivered g)] at hmem
  rcases List.mem_append.mp hmem with hmem | hmem
  · exact .inl hmem
  · obtain ⟨g',hg',hrest⟩ := readGroup_undelivered h hg
    rw [← hrest] at hmem
    refine .inr fun g'' hg'' => ?_
    cases hg'.symm.trans hg''
    exact of_decide_eq_true (List.mem_filter.mp hmem).2

theorem Ordered.readGroup (h : r.Ordered) : (r.readGroup n).1.Ordered := by
  unfold Redis.readGroup
  split <;> exact ⟨h.increasing,h.positive⟩

/-- The cursor is on an entry that has been added, or at the start. -/
def Bounded (r : Redis) : Prop := ∀ g, r.group = some g → g.lastDelivered ≤ r.lastId

theorem Bounded.readGroup (h : r.Bounded) (hids : ∀ e ∈ r.entries, e.id ≤ r.lastId) :
    (r.readGroup n).1.Bounded := by
  cases hg : r.group with
  | none =>
    obtain ⟨x,hx⟩ := readGroup_none (n := n) hg
    rw [hx]
    exact h
  | some g =>
    rw [readGroup_some hg]
    intro g' hg'
    cases hg'
    change (((r.undelivered g).take n).getLast?.map Entry.id).getD g.lastDelivered ≤ r.lastId
    cases hlast : ((r.undelivered g).take n).getLast? with
    | none => exact h g hg
    | some last =>
      have hmem : last ∈ r.undelivered g := List.mem_of_mem_take (List.mem_of_getLast? hlast)
      exact hids last (List.mem_of_mem_filter hmem)

theorem Ordered.createGroup (h : r.Ordered) : r.createGroup.1.Ordered := by
  unfold Redis.createGroup
  split <;> exact ⟨h.increasing,h.positive⟩

/-- A later poll returns exactly the retained entries the cursor has not passed. -/
theorem returns_iff (h : r.Ordered) (hn : 0 < n) : Returns n r e ↔ e ∈ r.entries ∧ r.Ahead e := by
  constructor
  · intro hr
    induction hr with
    | @now r e batch hbatch hmem =>
      cases hg : r.group with
      | none =>
        obtain ⟨x,hx⟩ := readGroup_none (n := n) hg
        rw [hx] at hbatch
        cases hbatch
      | some g =>
        rw [readGroup_some hg] at hbatch
        cases hbatch
        obtain ⟨he,hlt⟩ := List.mem_filter.mp (List.mem_of_mem_take hmem)
        refine ⟨he,fun g' hg' => ?_⟩
        cases hg.symm.trans hg'
        exact of_decide_eq_true hlt
    | @later r e batch hbatch _ ih =>
      obtain ⟨he,ha⟩ := ih h.readGroup
      cases hg : r.group with
      | none =>
        obtain ⟨x,hx⟩ := readGroup_none (n := n) hg
        rw [hx] at hbatch
        cases hbatch
      | some g =>
        obtain ⟨g',hg',hrest⟩ := readGroup_undelivered h hg
        have hmem : e ∈ (r.readGroup n).1.undelivered g' := List.mem_filter.mpr ⟨he,decide_eq_true (ha g' hg')⟩
        rw [hrest] at hmem
        obtain ⟨he,hlt⟩ := List.mem_filter.mp (List.mem_of_mem_drop hmem)
        refine ⟨he,fun g'' hg'' => ?_⟩
        cases hg.symm.trans hg''
        exact of_decide_eq_true hlt
    | @created r e hg _ ih =>
      obtain ⟨he,-⟩ := ih h.createGroup
      unfold Redis.createGroup at he
      rw [hg] at he
      refine ⟨he,fun g hg' => ?_⟩
      cases hg.symm.trans hg'
  · rintro ⟨he,ha⟩
    -- by induction on how many entries the group has left
    have hgroup : ∀ (k : ℕ) (r : Redis) (g : ConsumerGroup), r.Ordered → r.group = some g →
        (r.undelivered g).length ≤ k → e ∈ r.entries → r.Ahead e → Returns n r e := by
      intro k
      induction k with
      | zero =>
        intro r g _ hg hlen he ha
        have hmem : e ∈ r.undelivered g := List.mem_filter.mpr ⟨he,decide_eq_true (ha g hg)⟩
        have hnil : r.undelivered g = [] := List.eq_nil_of_length_eq_zero (by omega)
        rw [hnil] at hmem
        cases hmem
      | succ k ih =>
        intro r g h hg hlen he ha
        have hread : (r.readGroup n).2 = .ok ((r.undelivered g).take n) := by
          rw [readGroup_some hg]
        rcases readGroup_ahead h hg he ha with hmem | hahead
        · exact .now hread hmem
        · obtain ⟨g',hg',hrest⟩ := readGroup_undelivered h hg
          have hentries : (r.readGroup n).1.entries = r.entries := by
            rw [readGroup_some hg]
          refine .later hread (ih _ g' h.readGroup hg' ?_ (by rw [hentries]; exact he) hahead)
          rw [hrest, List.length_drop]
          omega
    cases hg : r.group with
    | some g => exact hgroup _ r g h hg le_rfl he ha
    | none =>
      refine .created hg ?_
      have hcreated : r.createGroup.1 = {r with group := some ⟨0,[]⟩} := by
        unfold Redis.createGroup
        rw [hg]
      have hordered := h.createGroup
      rw [hcreated] at hordered ⊢
      refine hgroup _ _ ⟨0,[]⟩ hordered rfl le_rfl he fun g hg' => ?_
      cases hg'
      exact h.positive e he

end Redis
end InferenceLogger
