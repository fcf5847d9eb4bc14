import Mathlib.Data.Rat.Defs
import Mathlib.Algebra.Order.Ring.Rat
import RestreamPlus.Domain.WorkerState

/-!
# The circuit breaker (`app/domain/circuit_breaker.py`)

The failures within a sliding window, oldest first. Instants and spans are
seconds.
-/

namespace RestreamPlus

/-- `CircuitBreakerPolicy` with its defaults. -/
structure CircuitBreakerPolicy : Type where
  maxFailures : ℤ := 30
  window : ℚ := 300
  healthyResetAfter : ℚ := 60

/-- `CircuitBreaker`. -/
structure CircuitBreaker : Type where
  policy : CircuitBreakerPolicy
  /-- the deque, oldest first -/
  failures : List ℚ
  lastHealthySince : Option ℚ

namespace CircuitBreaker

/-- A breaker without history. -/
def init (policy : CircuitBreakerPolicy) : CircuitBreaker := ⟨policy, [], none⟩

/-- `_evict_old`: drop from the front what is older than the window. -/
def evictOld (b : CircuitBreaker) (now : ℚ) : CircuitBreaker :=
  { b with failures := b.failures.dropWhile (· < now - b.policy.window) }

/-- `record_failure`. -/
def recordFailure (b : CircuitBreaker) (now : ℚ) : CircuitBreaker :=
  { b.evictOld now with
    failures := (b.evictOld now).failures ++ [now]
    lastHealthySince := none }

/-- `record_healthy`. -/
def recordHealthy (b : CircuitBreaker) (now : ℚ) : CircuitBreaker :=
  match b.lastHealthySince with
  | none => { b with lastHealthySince := some now }
  | some since => if b.policy.healthyResetAfter ≤ now - since then { b with failures := [] } else b

/-- `should_open`, which evicts first. -/
def shouldOpen (b : CircuitBreaker) (now : ℚ) : CircuitBreaker × BreakerVerdict :=
  let b := b.evictOld now
  (b, if b.policy.maxFailures ≤ b.failures.length then .open else .closed)

/-- `failure_count_in_window`, which evicts first. -/
def failureCountInWindow (b : CircuitBreaker) (now : ℚ) : CircuitBreaker × ℕ :=
  (b.evictOld now, (b.evictOld now).failures.length)

/-- `reset`. -/
def reset (b : CircuitBreaker) : CircuitBreaker := { b with failures := [], lastHealthySince := none }

@[simp] theorem policy_evictOld (b : CircuitBreaker) (now : ℚ) :
    (b.evictOld now).policy = b.policy := rfl

theorem failures_evictOld_suffix (b : CircuitBreaker) (now : ℚ) :
    (b.evictOld now).failures <:+ b.failures := List.dropWhile_suffix _

/-- What is left in front is inside the window. -/
theorem head_evictOld {b : CircuitBreaker} {now t : ℚ} {l : List ℚ}
    (h : (b.evictOld now).failures = t :: l) : now - b.policy.window ≤ t := by
  have hhead := List.head?_dropWhile_not (fun t => decide (t < now - b.policy.window)) b.failures
  rw [show b.failures.dropWhile (fun t => decide (t < now - b.policy.window)) = t :: l from h] at hhead
  simpa using hhead

end CircuitBreaker

end RestreamPlus
