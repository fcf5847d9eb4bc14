import RestreamPlus.Domain.Target
import RestreamPlus.Domain.WorkerState

/-!
# What a target looks like (`app/domain/target.py`)

A `Target` keeps the last snapshot of each of its workers in its `worker_set`
and computes from it the state that the web client shows. Here the set stands
beside the target; `computeUiState` is the ladder of the source, read from top to
bottom. A set that nothing was ingested into shows no running worker
(`not_working_of_fresh`).
-/

namespace RestreamPlus

/-- The last progress frame of an ffmpeg process (`WorkerProgressSnapshot`). -/
structure WorkerProgressSnapshot : Type where
  bitrateKbps : ℚ
  fps : ℚ
  dropFrames : ℤ
  speed : ℚ
  time : ℚ
  deriving DecidableEq

/-- What a worker says about itself (`WorkerSnapshot`). -/
structure WorkerSnapshot : Type where
  role : WorkerRole
  state : WorkerState
  lastEventAt : ℚ
  lastError : Option Text
  breakerFailuresInWindow : ℕ
  lastProgress : Option WorkerProgressSnapshot
  deriving DecidableEq

/-- The last snapshot of each role (`WorkerSet`). -/
abbrev WorkerSet : Type := Dict WorkerRole WorkerSnapshot

/-- `TargetUiState`. -/
inductive TargetUiState : Type where
  | disabled
  | disabledMisconfigured
  | idle
  | starting
  | running
  | degraded
  | errored
  | failedOpen
  deriving DecidableEq

/-- The states that speak of a worker at work. -/
def TargetUiState.Working (s : TargetUiState) : Prop := s = .starting ∨ s = .running ∨ s = .degraded

instance (s : TargetUiState) : Decidable s.Working := by
  unfold TargetUiState.Working
  infer_instance

/-- `Target.ingest_snapshot`. -/
def WorkerSet.ingestSnapshot (ws : WorkerSet) (snapshot : WorkerSnapshot) : WorkerSet :=
  Dict.insert ws snapshot.role snapshot

/-- `Target.expected_worker_roles`; a set in the source. -/
def Target.expectedWorkerRoles (t : Target) : List WorkerRole :=
  if t.type = .youtube ∧ t.backupEnabled = true then [.primary, .backup] else [.primary]

/-- The snapshots of the expected roles, as they are sent to a client. -/
def Target.snapshotsByRole (t : Target) (ws : WorkerSet) : List WorkerSnapshot :=
  t.expectedWorkerRoles.filterMap (Dict.get? ws)

/-- `compute_ui_state`: the first rung that applies. -/
def computeUiState (t : Target) (ws : WorkerSet) : TargetUiState :=
  let snapshots := t.expectedWorkerRoles.map (Dict.get? ws)
  let states : List WorkerState := snapshots.map fun s => (s.map WorkerSnapshot.state).getD .idle
  if t.enabled = false then .disabled
  else if t.hasActiveCredential = false then .disabledMisconfigured
  else if ∀ s ∈ snapshots, s = none then .idle
  else if WorkerState.failedOpen ∈ states then .failedOpen
  else if WorkerState.starting ∈ states then .starting
  else if ∀ s ∈ states, s = WorkerState.running then .running
  -- one of two workers still delivers
  else if t.type = .youtube ∧ t.backupEnabled = true ∧ WorkerState.running ∈ states then .degraded
  else .errored

/-- Before the first snapshot no worker is shown at work. -/
theorem not_working_of_fresh (t : Target) : ¬ (computeUiState t ∅).Working := by
  have hnone : ∀ s ∈ t.expectedWorkerRoles.map (Dict.get? (∅ : WorkerSet)), s = none := by
    intro s hs
    obtain ⟨role, -, rfl⟩ := List.mem_map.mp hs
    rfl
  rw [computeUiState, if_pos hnone]
  split
  · simp [TargetUiState.Working]
  · split <;> simp [TargetUiState.Working]

/-- A YouTube target with one of two workers delivering. -/
example : computeUiState ⟨1, .youtube, [], [], true, true, true⟩
    (WorkerSet.ingestSnapshot (WorkerSet.ingestSnapshot ∅ ⟨.primary, .running, 0, none, 0, none⟩)
      ⟨.backup, .reconnecting, 0, none, 1, none⟩) = .degraded := by decide

end RestreamPlus
