import Mathlib.Data.List.DropRight

/-!
# Bounded queues that drop the oldest entry

`push cap q x` puts `x` at the end of a queue that keeps at most `cap` entries.
A queue that was only ever pushed to holds the most recent entries of its
pushes (`rtake_push`), and its length together with the number of evictions is
the number of pushes.
-/

namespace DropOldest

universe u

variable {ε : Type u} {cap : ℕ} {q xs : List ε} {x : ε}

/-- `x` at the end, the oldest entries dropped down to `cap`. -/
def push (cap : ℕ) (q : List ε) (x : ε) : List ε := (q ++ [x]).rtake cap

/-- How many entries a push evicts from a queue that is not overfull. -/
def evicted (cap : ℕ) (q : List ε) : ℕ := if cap ≤ q.length then 1 else 0

theorem length_rtake : (xs.rtake cap).length = min cap xs.length := by
  simp only [List.rtake, List.length_drop]
  omega

/-- Forgetting early what a later push would evict makes no difference. -/
theorem rtake_push : push cap (xs.rtake cap) x = (xs ++ [x]).rtake cap := by
  cases cap with
  | zero => simp [push]
  | succ n =>
    rw [push, List.rtake_concat_succ, List.rtake_concat_succ]
    congr 1
    simp only [List.rtake, List.length_drop, List.drop_drop]
    congr 1
    omega

/-- Nothing is lost without being counted. -/
theorem length_push (hq : q.length ≤ cap) :
    (push cap q x).length + evicted cap q = q.length + 1 := by
  rw [push, length_rtake, List.length_append, List.length_singleton, evicted]
  split <;> omega

end DropOldest
