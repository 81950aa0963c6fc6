import InferenceLogger.Foundation.Significand

/-! # Elapsed time

`time.monotonic()` is a float of seconds, and so are the difference of two readings and its
product with a thousand: each is rounded to 53 binary digits. A clock comes nowhere near
either end of a float's exponents, so they are left unbounded.
-/
namespace InferenceLogger

/-- The float nearest to a number. -/
def toFloat (x : ℚ) : ℚ := Significand.round 53 x

/-- `time.monotonic()` on a clock that stands at `ns` nanoseconds. -/
def monotonicSeconds (ns : ℕ) : ℚ := toFloat (toFloat ns / 10 ^ 9)

/-- `int((time.monotonic() - start) * 1000)`. -/
def elapsedMs (start stop : ℕ) : ℤ :=
  Significand.truncate (toFloat (toFloat (monotonicSeconds stop - monotonicSeconds start) * 1000))

theorem toFloat_nonneg {x : ℚ} (h : 0 ≤ x) : 0 ≤ toFloat x := Significand.round_nonneg h

theorem toFloat_mono {x y : ℚ} (hx : 0 ≤ x) (h : x ≤ y) : toFloat x ≤ toFloat y :=
  Significand.round_mono (by decide) hx h

theorem monotonicSeconds_mono {s t : ℕ} (h : s ≤ t) : monotonicSeconds s ≤ monotonicSeconds t := by
  have hs : (0 : ℚ) ≤ s := Nat.cast_nonneg s
  have hle : toFloat s ≤ toFloat t := toFloat_mono hs (by exact_mod_cast h)
  exact toFloat_mono (div_nonneg (toFloat_nonneg hs) (by norm_num))
    (div_le_div_of_nonneg_right hle (by norm_num))

/-- A reading of whole seconds is exact, with or without the division: the runtime's short
cut for such readings changes nothing before the clock has run for a hundred years. -/
theorem monotonicSeconds_whole {k : ℕ} (h : k * 5 ^ 9 < 2 ^ 53) : monotonicSeconds (k * 10 ^ 9) = k := by
  have hns : toFloat (k * 10 ^ 9 : ℕ) = (k * 10 ^ 9 : ℕ) := by
    refine Significand.round_of_digits (m := k * 5 ^ 9) (e := 9) h ?_
    push_cast
    ring
  have hsecs : toFloat k = k :=
    Significand.round_of_digits (m := k) (e := 0) (by omega) (by simp)
  rw [monotonicSeconds, hns, Nat.cast_mul, Nat.cast_pow, Nat.cast_ofNat,
    mul_div_cancel_right₀ _ (by norm_num), hsecs]

section Order
variable {start stop stop' : ℕ}

theorem elapsedSeconds_nonneg (h : start ≤ stop) : 0 ≤ monotonicSeconds stop - monotonicSeconds start :=
  sub_nonneg.mpr (monotonicSeconds_mono h)

theorem elapsedMs_nonneg (h : start ≤ stop) : 0 ≤ elapsedMs start stop := by
  have hseconds := toFloat_nonneg (elapsedSeconds_nonneg h)
  exact Significand.truncate_nonneg (toFloat_nonneg (mul_nonneg hseconds (by norm_num)))

theorem elapsedMs_mono (h : start ≤ stop) (h' : stop ≤ stop') : elapsedMs start stop ≤ elapsedMs start stop' := by
  have hnonneg := elapsedSeconds_nonneg h
  have hseconds := toFloat_mono hnonneg (sub_le_sub_right (monotonicSeconds_mono h') _)
  have hscaled : 0 ≤ toFloat (monotonicSeconds stop - monotonicSeconds start) * 1000 :=
    mul_nonneg (toFloat_nonneg hnonneg) (by norm_num)
  exact Significand.truncate_mono (toFloat_nonneg hscaled)
    (toFloat_mono hscaled (mul_le_mul_of_nonneg_right hseconds (by norm_num)))

end Order

/-- 1001 milliseconds after the clock's zero are `1000.9999999999999` in floats. -/
example : elapsedMs 0 1001000000 = 1000 := by decide +kernel

end InferenceLogger
