import RestreamPlus.Api.Ws
import RestreamPlus.Fanout.RunExclusion

/-!
# Two projections of one state (`app/api/run.py`, `app/api/ws.py`)

A client that loads the page gets the state from `GET /api/run/state`, one that
connects a socket from `state.full`. Both build a `RunStateView` of the supervisor
and the bus, and each has a projection of a worker's snapshot of its own. The one
of the socket copies every field. The one of the request was written before
`last_progress`, which has a default, and leaves it out.

`projections_agree_iff`: they are the same state exactly when no worker that is
shown has had a progress frame.
-/

namespace RestreamPlus

namespace Schemas

/-! ## The schemas (`app/api/schemas.py`) -/

/-- `WorkerProgressView`. -/
structure WorkerProgressView : Type where
  bitrateKbps : ℚ
  fps : ℚ
  dropFrames : ℤ
  speed : ℚ
  time : ℚ
  deriving DecidableEq

/-- `WorkerSnapshotView`. -/
structure WorkerSnapshotView : Type where
  role : WorkerRole
  state : WorkerState
  lastEventAt : ℚ
  lastError : Option Text
  breakerFailuresInWindow : ℕ
  lastProgress : Option WorkerProgressView := none
  deriving DecidableEq

/-- `TargetSnapshot`, with the views of its workers. -/
structure TargetSnapshot : Type where
  targetId : TargetId
  uiState : TargetUiState
  snapshotsByRole : List WorkerSnapshotView
  deriving DecidableEq

/-- `RunStateView`. -/
structure RunStateView : Type where
  runState : RunState
  targets : List TargetSnapshot
  heartbeatAgeSeconds : ℚ
  droppedTotal : ℕ
  runStateChangedAt : Option ℚ
  deriving DecidableEq

/-! ## The projections -/

/-- `_snapshot_to_view`. -/
def snapshotToView (s : WorkerSnapshot) : WorkerSnapshotView where
  role := s.role
  state := s.state
  lastEventAt := s.lastEventAt
  lastError := s.lastError
  breakerFailuresInWindow := s.breakerFailuresInWindow
  lastProgress := s.lastProgress.map fun p =>
    { bitrateKbps := p.bitrateKbps
      fps := p.fps
      dropFrames := p.dropFrames
      speed := p.speed
      time := p.time }

/-- The view that `_project_target` builds. -/
def projectSnapshot (s : WorkerSnapshot) : WorkerSnapshotView where
  role := s.role
  state := s.state
  lastEventAt := s.lastEventAt
  lastError := s.lastError
  breakerFailuresInWindow := s.breakerFailuresInWindow

section Views

variable (project : WorkerSnapshot → WorkerSnapshotView)

/-- A target with the snapshots of its expected roles. -/
def targetSnapshot (v : Viewed) (t : Target) : TargetSnapshot :=
  ⟨t.id, v.uiState t, (t.snapshotsByRole (v.workerSet t.id)).map project⟩

/-- What both routes make of the supervisor, its clock and the bus. -/
def runStateView (v : Viewed) (runStateChangedAt : Option ℚ) (heartbeatAge : ℚ)
    (droppedTotal : ℕ) : RunStateView where
  runState := v.supervisor.runState
  targets := v.supervisor.targets.values.map (targetSnapshot project v)
  heartbeatAgeSeconds := heartbeatAge
  droppedTotal := droppedTotal
  runStateChangedAt := runStateChangedAt

end Views

/-- `get_state`, with `_project_target`. -/
def getState : Viewed → Option ℚ → ℚ → ℕ → RunStateView := runStateView projectSnapshot

/-- `_build_state_full`. -/
def buildStateFull : Viewed → Option ℚ → ℚ → ℕ → RunStateView := runStateView snapshotToView

/-- The same state; only the age of the heartbeat is of the moment. -/
def SameState (a b : RunStateView) : Prop :=
  a.runState = b.runState ∧ a.runStateChangedAt = b.runStateChangedAt ∧
    a.droppedTotal = b.droppedTotal ∧ a.targets = b.targets

instance (a b : RunStateView) : Decidable (SameState a b) := by
  unfold SameState
  infer_instance

/-! ## The copy of the socket -/

/-- The snapshot a view was made from. -/
def WorkerSnapshotView.toDomain (view : WorkerSnapshotView) : WorkerSnapshot where
  role := view.role
  state := view.state
  lastEventAt := view.lastEventAt
  lastError := view.lastError
  breakerFailuresInWindow := view.breakerFailuresInWindow
  lastProgress := view.lastProgress.map fun p => ⟨p.bitrateKbps, p.fps, p.dropFrames, p.speed, p.time⟩

/-- **A view mirrors its snapshot**: nothing is lost on the way there … -/
theorem toDomain_snapshotToView (s : WorkerSnapshot) : (snapshotToView s).toDomain = s := by
  obtain ⟨role, state, lastEventAt, lastError, failures, lastProgress⟩ := s
  cases lastProgress <;> rfl

/-- … and nothing added. -/
theorem snapshotToView_toDomain (view : WorkerSnapshotView) :
    snapshotToView view.toDomain = view := by
  obtain ⟨role, state, lastEventAt, lastError, failures, lastProgress⟩ := view
  cases lastProgress <;> rfl

/-- The message that the page folds is this one, snapshots for views. -/
theorem buildStateFull_eq (v : Viewed) (runStateChangedAt : Option ℚ) (heartbeatAge : ℚ)
    (droppedTotal : ℕ) : (buildStateFull v runStateChangedAt heartbeatAge droppedTotal).targets =
      (v.buildStateFull runStateChangedAt heartbeatAge droppedTotal).targets.map fun t =>
        ⟨t.targetId, t.uiState, t.snapshotsByRole.map snapshotToView⟩ := by
  rw [buildStateFull, runStateView, Viewed.buildStateFull, List.map_map]
  rfl

/-! ## The copy of the request -/

theorem projectSnapshot_eq_iff (s : WorkerSnapshot) :
    projectSnapshot s = snapshotToView s ↔ s.lastProgress = none := by
  refine ⟨fun h => ?_, fun h => ?_⟩
  · have hnone := congrArg WorkerSnapshotView.lastProgress h
    exact Option.map_eq_none_iff.mp hnone.symm
  · rw [projectSnapshot, snapshotToView, h]
    rfl

theorem targetSnapshot_eq_iff (v : Viewed) (t : Target) :
    targetSnapshot projectSnapshot v t = targetSnapshot snapshotToView v t ↔
      ∀ s ∈ t.snapshotsByRole (v.workerSet t.id), s.lastProgress = none := by
  rw [targetSnapshot, targetSnapshot, TargetSnapshot.mk.injEq]
  refine ⟨fun h s hs => ?_, fun h => ⟨rfl, rfl, ?_⟩⟩
  · exact (projectSnapshot_eq_iff s).mp (List.map_inj_left.mp h.2.2 s hs)
  · exact List.map_congr_left fun s hs => (projectSnapshot_eq_iff s).mpr (h s hs)

/-- No worker that is shown has had a progress frame. -/
def NoProgress (v : Viewed) : Prop :=
  ∀ t ∈ v.supervisor.targets.values, ∀ s ∈ t.snapshotsByRole (v.workerSet t.id),
    s.lastProgress = none

/-- **The two routes show the same state** exactly while nobody streams. -/
theorem projections_agree_iff (v : Viewed) (runStateChangedAt : Option ℚ)
    (heartbeatAge heartbeatAge' : ℚ) (droppedTotal : ℕ) :
    (SameState (getState v runStateChangedAt heartbeatAge droppedTotal)
        (buildStateFull v runStateChangedAt heartbeatAge' droppedTotal) ∧
      (∀ s, (snapshotToView s).toDomain = s) ∧ ∀ view, snapshotToView view.toDomain = view) ↔
    NoProgress v := by
  have htargets : SameState (getState v runStateChangedAt heartbeatAge droppedTotal)
      (buildStateFull v runStateChangedAt heartbeatAge' droppedTotal) ↔ NoProgress v := by
    refine ⟨fun h t ht => ?_, fun h => ⟨rfl, rfl, rfl, ?_⟩⟩
    · exact (targetSnapshot_eq_iff v t).mp (List.map_inj_left.mp h.2.2.2 t ht)
    · exact List.map_congr_left fun t ht => (targetSnapshot_eq_iff v t).mpr (h t ht)
  rw [htargets]
  exact and_iff_left ⟨toDomain_snapshotToView, snapshotToView_toDomain⟩

/-! ## A running worker -/

section Streaming

open Interleaving Supervisor

/-- A `start_run` with one target, whose worker then reports a frame. -/
def streamingRun : List (Monitor.Label Op Supervisor.Outcome Viewed.Env) :=
  [.call .startRun, .start 0, .resume 0 .ok, .resume 0 .ok, .resume 0 .ok, .resume 0 .ok,
    .resume 0 .ok, .resume 0 .ok,
    .external (.workerEvent ⟨7, .primary⟩
      ⟨.primary, .running, 5, none, 0, some ⟨6000, 30, 0, 1, 5⟩⟩)]

/-- The socket is told the bitrate, the request is not. -/
theorem projections_differ_streaming :
    ∃ c, Viewed.monitor.machine.run
        (Monitor.idle (Viewed.init (Supervisor.init "rtmp://127.0.0.1/live/k".toList
          .empty
          (some (deriveKeys "passphrase".toList [1])) leakDb))) streamingRun = some c ∧
      c.owner = none ∧ ¬ SameState (getState c.shared none 0 0) (buildStateFull c.shared none 0 0) := by
  refine ⟨_, rfl, rfl, ?_⟩
  decide

end Streaming

end Schemas

end RestreamPlus
