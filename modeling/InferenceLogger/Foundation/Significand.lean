import Mathlib.Data.Int.Log
import Mathlib.Algebra.Order.Round
import Mathlib.Data.Rat.Floor
import Mathlib.Tactic.Linarith
import Mathlib.Tactic.Positivity

/-! # Rounding to a significand

A number is rounded to `p` binary digits by rounding it to the nearest multiple of the unit in
its last place, ties going to the even multiple. Exponents are unbounded.
-/
namespace Significand
variable {K : Type} [Field K] [LinearOrder K] [FloorRing K]

/-- The nearest integer; a tie goes to the even one. -/
def nearest (x : K) : ℤ :=
  if 2 * Int.fract x < 1 ∨ 2 * Int.fract x = 1 ∧ Even ⌊x⌋ then ⌊x⌋ else ⌊x⌋ + 1

/-- The unit in the last of `p` digits. -/
def ulp (p : ℕ) (x : K) : K := 2 ^ (Int.log 2 |x| + 1 - p)

def round (p : ℕ) (x : K) : K := nearest (x / ulp p x) * ulp p x

/-- Towards zero. -/
def truncate (x : K) : ℤ := if 0 ≤ x then ⌊x⌋ else ⌈x⌉

variable {p : ℕ} {x y : K}

theorem floor_le_nearest : ⌊x⌋ ≤ nearest x := by
  unfold nearest
  split <;> omega

theorem nearest_le_floor_add_one : nearest x ≤ ⌊x⌋ + 1 := by
  unfold nearest
  split <;> omega

theorem truncate_nonneg (h : 0 ≤ x) : 0 ≤ truncate x := by
  rw [truncate, if_pos h]
  exact Int.floor_nonneg.mpr h

theorem truncate_mono (hx : 0 ≤ x) (h : x ≤ y) : truncate x ≤ truncate y := by
  rw [truncate, truncate, if_pos hx, if_pos (hx.trans h)]
  exact Int.floor_mono h

variable [IsStrictOrderedRing K]

@[simp] theorem nearest_intCast (n : ℤ) : nearest (n : K) = n := by
  simp [nearest]

theorem nearest_mono (h : x ≤ y) : nearest x ≤ nearest y := by
  rcases (Int.floor_mono h).lt_or_eq with hlt | heq
  · calc nearest x ≤ ⌊x⌋ + 1 := nearest_le_floor_add_one
      _ ≤ ⌊y⌋ := hlt
      _ ≤ nearest y := floor_le_nearest
  · have hfract : Int.fract x ≤ Int.fract y := by
      rw [Int.fract, Int.fract, heq]
      exact sub_le_sub_right h _
    unfold nearest
    rw [heq]
    split
    · split <;> omega
    · rename_i hx
      rw [if_neg]
      rintro (hy | ⟨hy,heven⟩)
      · exact hx (.inl (by linarith))
      · rcases hfract.lt_or_eq with hf | hf
        · exact hx (.inl (by linarith))
        · exact hx (.inr ⟨hf ▸ hy,heven⟩)

theorem ulp_pos : 0 < ulp p x := zpow_pos two_pos _

theorem pow_mul_ulp (j : ℕ) : ((2 ^ j : ℤ) : K) * ulp p x = 2 ^ (Int.log 2 |x| + 1 - p + j) := by
  have hne : (2 : K) ≠ 0 := two_pos.ne'
  rw [ulp, zpow_add₀ hne, zpow_natCast, mul_comm]
  push_cast
  rfl

/-- Rounding does not cross a multiple of the unit in the last place. -/
theorem le_round_of {n : ℤ} (h : n * ulp p x ≤ x) : n * ulp p x ≤ round p x := by
  have hnearest := nearest_mono ((le_div_iff₀ ulp_pos).mpr h)
  rw [nearest_intCast] at hnearest
  exact mul_le_mul_of_nonneg_right (by exact_mod_cast hnearest) ulp_pos.le

theorem round_le_of {n : ℤ} (h : x ≤ n * ulp p x) : round p x ≤ n * ulp p x := by
  have hnearest := nearest_mono ((div_le_iff₀ ulp_pos).mpr h)
  rw [nearest_intCast] at hnearest
  exact mul_le_mul_of_nonneg_right (by exact_mod_cast hnearest) ulp_pos.le

theorem round_nonneg (h : 0 ≤ x) : 0 ≤ round p x := by
  have hzero : ((0 : ℤ) : K) * ulp p x = 0 := by simp
  rw [← hzero]
  exact le_round_of (hzero.trans_le h)

@[simp] theorem round_zero : round p (0 : K) = 0 := by
  have hzero : ((0 : ℤ) : K) * ulp p 0 = 0 := by simp
  exact le_antisymm ((round_le_of hzero.ge).trans_eq hzero) (round_nonneg le_rfl)

/-- A number with at most `p` digits is its own rounding. -/
theorem round_of_digits {m : ℕ} {e : ℤ} (hm : m < 2 ^ p) (hx : x = m * 2 ^ e) : round p x = x := by
  rcases Nat.eq_zero_or_pos m with rfl | hpos
  · simp [hx]
  have hx0 : 0 < x := by
    rw [hx]
    exact mul_pos (Nat.cast_pos.mpr hpos) (zpow_pos two_pos e)
  have hlog : Int.log 2 |x| < e + p := by
    rw [abs_of_pos hx0, ← Int.lt_zpow_iff_log_lt one_lt_two hx0, hx, Nat.cast_ofNat,
      zpow_add₀ two_ne_zero, mul_comm, zpow_natCast]
    exact mul_lt_mul_of_pos_left (by exact_mod_cast hm) (zpow_pos two_pos e)
  obtain ⟨k,hk⟩ : ∃ k : ℕ, e = Int.log 2 |x| + 1 - p + k := ⟨(e - (Int.log 2 |x| + 1 - p)).toNat,by omega⟩
  have hmultiple : ((m * 2 ^ k : ℤ) : K) * ulp p x = x := by
    calc ((m * 2 ^ k : ℤ) : K) * ulp p x = m * (((2 ^ k : ℤ) : K) * ulp p x) := by
          push_cast
          ring
      _ = m * 2 ^ e := by rw [pow_mul_ulp, ← hk]
      _ = x := hx.symm
  exact le_antisymm ((round_le_of hmultiple.ge).trans_eq hmultiple)
    (hmultiple.ge.trans (le_round_of hmultiple.le))

/-- Rounding stays within the powers of two around a number. -/
theorem round_bounds (hp : 0 < p) (hx : 0 < x) :
    (2 : K) ^ Int.log 2 x ≤ round p x ∧ round p x ≤ 2 ^ (Int.log 2 x + 1) := by
  have hlow : ((2 ^ (p - 1) : ℤ) : K) * ulp p x = 2 ^ Int.log 2 x := by
    rw [pow_mul_ulp, abs_of_pos hx]
    congr 1
    omega
  have hhigh : ((2 ^ p : ℤ) : K) * ulp p x = 2 ^ (Int.log 2 x + 1) := by
    rw [pow_mul_ulp, abs_of_pos hx]
    congr 1
    omega
  have hself : (2 : K) ^ Int.log 2 x ≤ x := by
    exact_mod_cast Int.zpow_log_le_self one_lt_two hx
  have hnext : x ≤ (2 : K) ^ (Int.log 2 x + 1) := by
    exact_mod_cast (Int.lt_zpow_succ_log_self one_lt_two x).le
  rw [← hlow, ← hhigh]
  exact ⟨le_round_of (hlow.trans_le hself),round_le_of (hnext.trans_eq hhigh.symm)⟩

/-- Within one binade the unit is the same; a power of two lies between different ones. -/
theorem round_mono (hp : 0 < p) (hx : 0 ≤ x) (h : x ≤ y) : round p x ≤ round p y := by
  rcases hx.lt_or_eq with hpos | rfl
  · have hy : 0 < y := hpos.trans_le h
    rcases (Int.log_mono_right (b := 2) hpos h).lt_or_eq with hlt | heq
    · calc round p x ≤ 2 ^ (Int.log 2 x + 1) := (round_bounds hp hpos).2
        _ ≤ 2 ^ Int.log 2 y := zpow_le_zpow_right₀ one_le_two hlt
        _ ≤ round p y := (round_bounds hp hy).1
    · have hulp : ulp p x = ulp p y := by
        rw [ulp, ulp, abs_of_pos hpos, abs_of_pos hy, heq]
      have hquot : x / ulp p x ≤ y / ulp p x := div_le_div_of_nonneg_right h ulp_pos.le
      rw [round, round, ← hulp]
      exact mul_le_mul_of_nonneg_right (by exact_mod_cast nearest_mono hquot) ulp_pos.le
  · rw [round_zero]
    exact round_nonneg h

end Significand
