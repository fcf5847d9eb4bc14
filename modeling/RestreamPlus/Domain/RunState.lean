/-!
# The system-wide run state (`app/domain/run_state.py`)

The transition table of the run, as a partial function: `none` is the
`IllegalRunStateTransitionError` of the source.
-/

namespace RestreamPlus

/-- The state of the run as the dashboard shows it. -/
inductive RunState : Type where
  | offline
  | starting
  | armed
  | live
  | stopping
  | error
  deriving DecidableEq

/-- The events that move it. -/
inductive RunAction : Type where
  | startRequested
  | workersSpawned
  | obsPublishBegan
  | obsPublishEnded
  | stopRequested
  | workersDrained
  | unrecoverableFailed
  | errorCleared
  deriving DecidableEq

namespace RunState

/-- The transition table `_TRANSITIONS`. -/
def transition : RunState → RunAction → Option RunState
  | offline, .startRequested => some starting
  | starting, .workersSpawned => some armed
  | armed, .obsPublishBegan => some live
  | live, .obsPublishEnded => some armed
  | starting, .stopRequested => some stopping
  | armed, .stopRequested => some stopping
  | live, .stopRequested => some stopping
  | stopping, .workersDrained => some offline
  | error, .errorCleared => some offline
  | starting, .unrecoverableFailed => some error
  | armed, .unrecoverableFailed => some error
  | live, .unrecoverableFailed => some error
  | stopping, .unrecoverableFailed => some error
  | _, _ => none

/-- Whether an action is accepted in a state. -/
def isLegal (s : RunState) (a : RunAction) : Bool := (s.transition a).isSome

/-- The states in which targets may be started one by one. -/
def isActive : RunState → Bool
  | starting | armed | live => true
  | offline | stopping | error => false

/-- A run is requested from `offline` only. -/
theorem isLegal_startRequested (s : RunState) :
    s.isLegal .startRequested = true ↔ s = offline := by
  cases s <;> decide

end RunState

end RestreamPlus
