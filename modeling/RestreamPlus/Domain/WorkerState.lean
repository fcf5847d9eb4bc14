/-!
# The state of a worker (`app/domain/worker_state.py`)

The transition table of one worker. The reconnect path takes the verdict of the
circuit breaker, so the routing between RECONNECTING and FAILED_OPEN needs no
clock here. `none` is the `IllegalWorkerStateTransitionError` of the source.
-/

namespace RestreamPlus

/-- What the circuit breaker says about another attempt. -/
inductive BreakerVerdict : Type where
  | closed
  | open
  deriving DecidableEq

/-- The value of a `BreakerVerdict` as text. -/
def BreakerVerdict.value : BreakerVerdict → String
  | .closed => "closed"
  | .open => "open"

/-- The states of one worker. -/
inductive WorkerState : Type where
  | idle
  | starting
  | running
  | reconnecting
  | failedOpen
  | stopping
  deriving DecidableEq

/-- The events that move it. -/
inductive WorkerAction : Type where
  | start
  | processHealthy
  | processExited
  | reconnect
  | stopRequested
  | stopped
  | userReset
  deriving DecidableEq

namespace WorkerState

/-- The transition table `_TRANSITIONS`. -/
def table : WorkerState → WorkerAction → Option WorkerState
  | idle, .start => some starting
  | starting, .processHealthy => some running
  | starting, .processExited => some reconnecting
  | starting, .stopRequested => some stopping
  | running, .processExited => some reconnecting
  | running, .stopRequested => some stopping
  | reconnecting, .processHealthy => some running
  | reconnecting, .stopRequested => some stopping
  | stopping, .stopped => some idle
  | failedOpen, .userReset => some starting
  | failedOpen, .stopRequested => some stopping
  | _, _ => none

/-- `transition`: a verdict is needed for `reconnect` and ignored elsewhere. -/
def transition (s : WorkerState) (a : WorkerAction) (verdict : Option BreakerVerdict) :
    Option WorkerState :=
  if a = .reconnect then
    match s, verdict with
    | reconnecting, some .open => some failedOpen
    | reconnecting, some .closed => some reconnecting
    | _, _ => none
  else s.table a

/-- FAILED_OPEN is entered from RECONNECTING with an OPEN verdict only. -/
theorem transition_eq_failedOpen {s : WorkerState} {a : WorkerAction}
    {verdict : Option BreakerVerdict} (h : s.transition a verdict = some failedOpen) :
    s = reconnecting ∧ a = .reconnect ∧ verdict = some .open := by
  by_cases ha : a = .reconnect
  · subst ha
    cases s <;> rcases verdict with _ | _ | _ <;> first | exact ⟨rfl, rfl, rfl⟩ | cases h
  · simp only [transition, if_neg ha] at h
    cases s <;> cases a <;> cases h

end WorkerState

end RestreamPlus
