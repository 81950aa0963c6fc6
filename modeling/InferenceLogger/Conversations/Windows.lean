import InferenceLogger.Foundation.Budget
import InferenceLogger.Services.Chat

/-! # The window of a history

`recent_window` walks the history newest first. What it returns is the longest suffix within
the two bounds, where the newest message is exempt from the second one.
-/
namespace InferenceLogger
open Budget Grouping

def contentLength (m : Message) : ℤ := m.content.length

theorem contentLength_nonneg (m : Message) : 0 ≤ contentLength m := Int.natCast_nonneg _

/-- Within both bounds; a single message is of any size. -/
structure Admissible (maxMessages : ℕ) (maxChars : ℤ) (s : List Message) : Prop where
  count : s.length ≤ maxMessages
  size : s.length = 1 ∨ total contentLength s ≤ maxChars

/-- Once a message is kept, the loop keeps what the rest of the budget affords. -/
theorem keepWithin_kept (budget : ℤ) {kept : List Message} (hk : kept ≠ []) (older : List Message) :
    keepWithin budget kept older = (afforded contentLength budget older).reverse ++ kept := by
  induction older generalizing budget kept with
  | nil => rfl
  | cons m older ih =>
    rw [keepWithin, afforded, ← contentLength]
    by_cases h : 0 ≤ budget - contentLength m
    · rw [if_pos (.inr h), if_pos h, ih _ (List.cons_ne_nil m kept), List.reverse_cons, List.append_assoc,
        List.singleton_append]
    · rw [if_neg (not_or.mpr ⟨hk,h⟩), if_neg h, List.reverse_nil, List.nil_append]

/-- The newest message is kept whatever its size. -/
theorem keepWithin_newest (budget : ℤ) (m : Message) (older : List Message) :
    keepWithin budget [] (m :: older) =
      (m :: afforded contentLength (budget - contentLength m) older).reverse := by
  rw [keepWithin, if_pos (.inl rfl), keepWithin_kept _ (List.cons_ne_nil m []), List.reverse_cons]
  rfl

theorem recentWindow_reverse (history : List Message) (maxMessages : ℕ) (maxChars : ℤ) :
    recentWindow history maxMessages maxChars = keepWithin maxChars [] (history.reverse.take maxMessages) := by
  rw [List.take_reverse]
  rfl

/-- The window over the history read backwards. -/
theorem recentWindow_newest {history : List Message} {m : Message} {older : List Message}
    (h : history.reverse = m :: older) {maxMessages : ℕ} (hn : 1 ≤ maxMessages) (maxChars : ℤ) :
    recentWindow history maxMessages maxChars =
      (m :: afforded contentLength (maxChars - contentLength m) (older.take (maxMessages - 1))).reverse := by
  obtain ⟨n,rfl⟩ := Nat.exists_eq_add_of_le' hn
  rw [recentWindow_reverse, h, List.take_succ_cons, keepWithin_newest, Nat.add_sub_cancel]

theorem recentWindow_suffix (history : List Message) (maxMessages : ℕ) (maxChars : ℤ) :
    recentWindow history maxMessages maxChars <:+ history := by
  rw [recentWindow_reverse, ← List.reverse_prefix]
  refine .trans ?_ (List.take_prefix maxMessages history.reverse)
  cases history.reverse.take maxMessages with
  | nil => exact List.prefix_refl []
  | cons m older =>
    rw [keepWithin_newest, List.reverse_reverse]
    exact List.cons_prefix_cons.mpr ⟨rfl,afforded_initial _ _ _⟩

theorem recentWindow_last {history : List Message} {maxMessages : ℕ} (maxChars : ℤ) (hn : 1 ≤ maxMessages) :
    (recentWindow history maxMessages maxChars).getLast? = history.getLast? := by
  rw [← List.head?_reverse, ← List.head?_reverse]
  cases h : history.reverse with
  | nil =>
    rw [recentWindow_reverse, h, List.take_nil]
    rfl
  | cons m older =>
    rw [recentWindow_newest h hn, List.reverse_reverse, List.head?_cons, List.head?_cons]

theorem recentWindow_admissible {history : List Message} (hne : history ≠ []) {maxMessages : ℕ} (hn : 1 ≤ maxMessages)
    (maxChars : ℤ) : Admissible maxMessages maxChars (recentWindow history maxMessages maxChars) := by
  obtain ⟨m,older,h⟩ := List.exists_cons_of_ne_nil (List.reverse_ne_nil_iff.mpr hne)
  rw [recentWindow_newest h hn]
  have hinitial := afforded_initial contentLength (maxChars - contentLength m) (older.take (maxMessages - 1))
  have hlength := hinitial.length_le
  rw [List.length_take] at hlength
  constructor
  · rw [List.length_reverse, List.length_cons]
    omega
  · by_cases hleft : 0 ≤ maxChars - contentLength m
    · right
      have htotal := afforded_total contentLength (older.take (maxMessages - 1)) hleft
      rw [total_perm (List.reverse_perm _), total]
      omega
    · left
      rw [afforded_overdrawn contentLength contentLength_nonneg (by omega)]
      rfl

/-- Every admissible suffix lies within the window: its messages before the newest one are
paid from what the newest one leaves. -/
theorem recentWindow_longest {history : List Message} {maxMessages : ℕ} {maxChars : ℤ} {s : List Message}
    (hs : s <:+ history) (ha : Admissible maxMessages maxChars s) :
    s.length ≤ (recentWindow history maxMessages maxChars).length := by
  rw [← List.length_reverse]
  have hinitial := List.reverse_prefix.mpr hs
  cases hr : s.reverse with
  | nil => exact Nat.zero_le _
  | cons m newer =>
    rw [hr] at hinitial
    obtain ⟨m',older,h⟩ := List.exists_cons_of_ne_nil (hinitial.ne_nil (List.cons_ne_nil m newer))
    rw [h] at hinitial
    obtain ⟨rfl,hnewer⟩ := List.cons_prefix_cons.mp hinitial
    have hlength : s.length = newer.length + 1 := by rw [← List.length_reverse, hr, List.length_cons]
    have hcount := ha.count
    rw [recentWindow_newest h (by omega), List.length_reverse]
    refine Nat.succ_le_succ ?_
    rcases ha.size with h1 | hsize
    · have hnil : newer.length = 0 := by omega
      rw [hnil]
      exact Nat.zero_le _
    · have htotal := total_perm (List.reverse_perm s) contentLength
      rw [hr, total] at htotal
      apply afforded_longest contentLength contentLength_nonneg
      · exact List.prefix_take_iff.mpr ⟨hnewer,by omega⟩
      · omega

theorem recentWindow_eq_longest {history : List Message} (hne : history ≠ []) {maxMessages : ℕ} (hn : 1 ≤ maxMessages)
    (maxChars : ℤ) : LongestSuffix (Admissible maxMessages maxChars) history (recentWindow history maxMessages maxChars) where
  suffix := recentWindow_suffix history maxMessages maxChars
  holds := recentWindow_admissible hne hn maxChars
  longest _ hs ha := recentWindow_longest hs ha

/-- Whatever the size bound, and where at least one message may be kept (the settings admit
fewer values of both), the window is the longest suffix of the history within the bounds, and
there is no other; it is not empty and ends with the newest message. -/
theorem recentWindow_optimal {history : List Message} (hne : history ≠ []) {maxMessages : ℕ} (hn : 1 ≤ maxMessages)
    (maxChars : ℤ) :
    (∀ s, LongestSuffix (Admissible maxMessages maxChars) history s ↔ s = recentWindow history maxMessages maxChars) ∧
    recentWindow history maxMessages maxChars ≠ [] ∧
    (recentWindow history maxMessages maxChars).getLast? = history.getLast? := by
  have hlongest := recentWindow_eq_longest hne hn maxChars
  have hlast := @recentWindow_last history maxMessages maxChars hn
  refine ⟨fun s => ⟨fun hs => hs.unique hlongest,?_⟩,?_,hlast⟩
  · rintro rfl
    exact hlongest
  · intro hnil
    rw [hnil, List.getLast?_nil] at hlast
    exact hne (List.getLast?_eq_none_iff.mp hlast.symm)

/-- Four messages, the newest and an empty one among them, under the least bounds. -/
def fourMessages : List Message :=
  [⟨1,0,.user,List.replicate 600 0x61,0,0⟩,⟨2,0,.assistant,List.replicate 600 0x61,1,0⟩,⟨3,0,.user,[],2,0⟩,
    ⟨4,0,.user,List.replicate 400 0x61,3,0⟩]

theorem recentWindow_optimal_four :
    LongestSuffix (Admissible 3 1000) fourMessages (recentWindow fourMessages 3 1000) ∧
    recentWindow fourMessages 3 1000 ≠ [] ∧
    (recentWindow fourMessages 3 1000).getLast? = fourMessages.getLast? := by
  obtain ⟨hunique,hne,hlast⟩ := @recentWindow_optimal fourMessages (List.cons_ne_nil _ _) 3 (by decide) 1000
  exact ⟨(hunique _).mpr rfl,hne,hlast⟩

end InferenceLogger
