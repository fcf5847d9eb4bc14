import Mathlib.Data.Rat.Defs
import Mathlib.Algebra.Order.Ring.Rat
import Mathlib.Tactic.Linarith

/-!
# The backoff schedule (`app/fanout/backoff.py`)

Seconds as rationals. What remains of floating point is the range of `float`:
the conversion of `2 ** attempt` raises from `2 ^ 1024` on.
-/

namespace RestreamPlus

/-- `BACKOFF_BASE`. -/
def backoffBase : ℚ := 1

/-- `BACKOFF_CAP`. -/
def backoffCap : ℚ := 60

/-- `JITTER_PCT`. -/
def jitterPct : ℚ := 1 / 5

/-- Integers up to this exponent of two convert to `float`. -/
def floatMaxExponent : ℕ := 1024

/-- The delay before the jitter. -/
def rawBackoff (attempt : ℕ) : ℚ := min backoffCap (backoffBase * 2 ^ attempt)

/-- `compute_backoff` with the default base, cap and jitter; `draw` is what
`random()` returned. `none` is the `OverflowError`. -/
def computeBackoff (attempt : ℕ) (draw : ℚ) : Option ℚ :=
  if attempt < floatMaxExponent then
    let raw := rawBackoff attempt
    some (max 0 (raw + raw * jitterPct * (2 * draw - 1)))
  else none

theorem rawBackoff_nonneg (attempt : ℕ) : 0 ≤ rawBackoff attempt := by
  rw [rawBackoff, backoffCap, backoffBase]
  positivity

/-- Jitter takes at most a fifth away. -/
theorem le_computeBackoff {attempt : ℕ} {draw delay : ℚ} (hdraw : 0 ≤ draw)
    (h : computeBackoff attempt draw = some delay) : 4 / 5 * rawBackoff attempt ≤ delay := by
  rw [computeBackoff] at h
  split at h
  · obtain rfl := Option.some.inj h
    refine le_trans ?_ (le_max_right _ _)
    have hprod := mul_nonneg (rawBackoff_nonneg attempt) hdraw
    rw [jitterPct]
    linarith
  · cases h

/-- From the seventh delay on the exponential is past the cap. -/
theorem rawBackoff_of_le {attempt : ℕ} (h : 6 ≤ attempt) : rawBackoff attempt = backoffCap := by
  rw [rawBackoff, backoffCap, backoffBase, one_mul]
  refine min_eq_left ?_
  calc (60 : ℚ) ≤ 2 ^ 6 := by norm_num
    _ ≤ 2 ^ attempt := pow_le_pow_right₀ (by norm_num) h

/-- Longer delays come later. -/
theorem monotone_rawBackoff : Monotone rawBackoff := by
  intro m n hmn
  refine min_le_min_left _ ?_
  rw [backoffBase, one_mul, one_mul]
  exact pow_le_pow_right₀ (by norm_num) hmn

theorem rawBackoff_le (attempt : ℕ) : rawBackoff attempt ≤ backoffCap := min_le_left _ _

/-- Jitter adds at most a fifth. -/
theorem computeBackoff_le {attempt : ℕ} {draw delay : ℚ} (hdraw : draw ≤ 1)
    (h : computeBackoff attempt draw = some delay) : delay ≤ 6 / 5 * rawBackoff attempt := by
  rw [computeBackoff] at h
  split at h
  · obtain rfl := Option.some.inj h
    have hraw := rawBackoff_nonneg attempt
    refine max_le (by linarith) ?_
    have hprod := mul_le_mul_of_nonneg_left hdraw hraw
    rw [jitterPct]
    linarith
  · cases h

/-- The conversion to `float` is the only thing that can go wrong. -/
theorem exists_computeBackoff_iff {attempt : ℕ} {draw : ℚ} :
    (∃ delay, computeBackoff attempt draw = some delay) ↔ attempt < floatMaxExponent := by
  rw [computeBackoff]
  split
  · rename_i hlt
    exact iff_of_true ⟨_, rfl⟩ hlt
  · rename_i hge
    exact iff_of_false (by rintro ⟨delay, h⟩; cases h) hge

end RestreamPlus
