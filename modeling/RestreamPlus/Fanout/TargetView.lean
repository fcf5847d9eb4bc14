import RestreamPlus.Domain.UiState
import RestreamPlus.Fanout.SupervisorFrame

/-!
# What the supervisor shows of its targets

`Supervisor.targets()` is a map of aggregates that two operations write:
`start_run` replaces it and `enable_target` replaces one entry. A new aggregate
begins with an empty worker set; the event pump of a worker puts its snapshots
into the aggregate that is there at the moment. Nothing else touches either.

`Viewed` is the supervisor together with these worker sets, and `Viewed.monitor`
its operations around the same lock, with the pump among the steps that take no
lock. `rebuilt` names the stretches of an operation in which aggregates are built;
`targets_continueFrom` proves that no other stretch changes the map.
-/

namespace RestreamPlus

open Interleaving WorkerIndex

namespace Supervisor

/-- Which aggregates a stretch of an operation builds. -/
inductive Rebuilt : Type where
  | nothing
  /-- the map is replaced -/
  | all : List Runnable → Rebuilt
  /-- one entry is replaced -/
  | one : TargetId → Target → Rebuilt

/-- What becomes of the map. -/
def Rebuilt.targets (targets : Dict TargetId Target) : Rebuilt → Dict TargetId Target
  | nothing => targets
  | all pairs => Dict.ofList (pairs.map fun (r : Runnable) => (r.dom.id, r.dom))
  | one id t => targets.insert id t

/-- What becomes of the worker sets, where an absent one is empty. -/
def Rebuilt.workerSets (sets : Dict TargetId WorkerSet) : Rebuilt → Dict TargetId WorkerSet
  | nothing => sets
  | all _ => ∅
  | one id _ => sets.erase id

/-- Without a decrypt failure left to audit, the map is replaced. -/
def rebuiltByFlush (s : Supervisor) (pairs : List Runnable) : Rebuilt :=
  if s.decryptFailures = [] then .all pairs else .nothing

/-- The assignments to `_targets` in the stretch after this suspension. -/
def rebuilt (s : Supervisor) : Section → Outcome → Rebuilt
  | .listing _, .ok => if s.db.listEnabled = [] then s.rebuiltByFlush [] else .nothing
  | .loading kek t todo pairs, .ok =>
    if todo = [] then
      (s.readRunnable kek t).1.rebuiltByFlush (pairs ++ [(s.readRunnable kek t).2])
    else .nothing
  | .auditingFailures pairs, _ => s.rebuiltByFlush pairs
  | .reloadingCredential kek id row, .ok => .one id (readTarget s.db kek (id, row)).dom
  | _, _ => .nothing

section Targets

theorem Spawning.targets {s : Supervisor} {r : Supervisor × Option Section} (h : Spawning s r) :
    r.1.targets = s.targets := by
  obtain ⟨x, st, run, heq⟩ := h.eq
  rw [heq]

theorem Closing.targets {s : Supervisor} {r : Supervisor × Option Section} (h : Closing s r) :
    r.1.targets = s.targets := by
  obtain ⟨st, run, heq⟩ := h.eq
  rw [heq]

theorem targets_afterDrain (s : Supervisor) (reason : EndReason) :
    (s.afterDrain reason).1.targets = s.targets := by
  rw [afterDrain]
  split
  · exact (closing_afterWipe s reason).targets
  · rfl

theorem targets_setRunState_getD (s : Supervisor) (a : RunAction) :
    ((s.setRunState a).getD s).targets = s.targets := by
  obtain ⟨st, heq⟩ := setRunState_getD_eq s a
  rw [heq]

theorem targets_flushFailures (s : Supervisor) (pairs : List Runnable) :
    (s.flushFailures pairs).1.targets = (s.rebuiltByFlush pairs).targets s.targets := by
  rw [flushFailures, rebuiltByFlush]
  rcases s.decryptFailures with _ | ⟨id, rest⟩
  · exact (spawning_spawnPairs _ pairs).targets
  · rfl

theorem targets_loadNext (s : Supervisor) (kek : Key) (todo : List (TargetId × TargetRow))
    (pairs : List Runnable) : (s.loadNext kek todo pairs).1.targets =
      (if todo = [] then s.rebuiltByFlush pairs else .nothing).targets s.targets := by
  rcases todo with _ | ⟨t, todo⟩
  · exact targets_flushFailures s pairs
  · rfl

theorem targets_readRunnable (s : Supervisor) (kek : Key) (t : TargetId × TargetRow) :
    (s.readRunnable kek t).1.targets = s.targets := by
  rw [readRunnable]
  split <;> rfl

theorem targets_afterSpawn_enable (s : Supervisor) (r : Runnable) (key : Text)
    (roles : List WorkerRole) :
    (afterSpawn .enableTarget r key (s.spawnRoles r key roles)).1.targets = s.targets := by
  obtain ⟨x, e, heq, -, -⟩ := spawnRoles_grows s r key roles
  rw [heq]
  cases e <;> rfl

theorem targets_enableReloaded (s : Supervisor) (kek : Key) (id : TargetId) (row : TargetRow) :
    (s.enableReloaded kek id row).1.targets =
      s.targets.insert id (readTarget s.db kek (id, row)).dom := by
  rw [enableReloaded]
  split
  · exact targets_afterSpawn_enable _ _ _ _
  · rfl

theorem targets_workerStarted (s : Supervisor) (caller : Caller) (r : Runnable) (key : Text)
    (w : WorkerId) (roles : List WorkerRole) (out : Outcome) :
    (s.workerStarted caller r key w roles out).1.targets = s.targets := by
  rw [workerStarted]
  split
  · cases caller with
    | startRun rest => exact (spawning_afterSpawn s rest r key roles).targets
    | enableTarget => exact targets_afterSpawn_enable s r key roles
  · cases caller with
    | startRun rest => exact (spawning_rollBack _).targets
    | enableTarget => rfl

/-- Taking the lock builds nothing. -/
theorem targets_enter (s : Supervisor) (op : Op) : (s.enter op).1.targets = s.targets := by
  cases op with
  | startRun =>
    rw [enter, startRun]
    split
    · split
      · rfl
      · rename_i h
        obtain ⟨st, -, rfl⟩ := Option.map_eq_some_iff.mp h
        rfl
    · rfl
  | stopRun reason =>
    rw [enter, stopRun]
    split
    · rfl
    · split
      · rfl
      · rename_i h
        obtain ⟨st, -, rfl⟩ := Option.map_eq_some_iff.mp h
        split
        · exact targets_afterDrain _ reason
        · rfl
  | enableTarget id =>
    rw [enter, enableTarget]
    split <;> rfl
  | disableTarget id reversed =>
    rw [enter, disableTarget, fst_stopNext]

/-- **The map changes where `rebuilt` says and nowhere else.** -/
theorem targets_continueFrom (s : Supervisor) (sec : Section) (out : Outcome) :
    (s.continueFrom sec out).1.targets = (s.rebuilt sec out).targets s.targets := by
  cases sec with
  | opening =>
    cases out with
    | ok => rfl
    | raised => exact (spawning_rollBack s).targets
  | committingRun run =>
    cases out with
    | ok =>
      rw [continueFrom, loadRunnableTargets]
      split
      · exact (spawning_rollBack _).targets
      · rfl
    | raised => exact (spawning_rollBack s).targets
  | listing kek =>
    cases out with
    | ok => exact targets_loadNext s kek _ []
    | raised => exact (spawning_rollBack s).targets
  | loading kek t todo pairs =>
    cases out with
    | ok =>
      rw [continueFrom]
      rw [targets_loadNext, targets_readRunnable]
      rfl
    | raised => exact (spawning_rollBack s).targets
  | auditingFailures pairs => exact targets_flushFailures s pairs
  | workerStarting caller r key w roles => exact targets_workerStarted s caller r key w roles out
  | auditingStart =>
    cases out with
    | ok => rfl
    | raised => exact (spawning_rollBack s).targets
  | rollingBack ws =>
    cases out with
    | ok => exact (spawning_afterRollBack _).targets
    | raised => exact (spawning_afterRollBack s).targets
  | closingFailed run => cases out <;> rfl
  | draining ws reason =>
    cases out with
    | ok => exact targets_afterDrain _ reason
    | raised => exact targets_afterDrain s reason
  | wiping ids reason =>
    cases out with
    | ok => exact (closing_auditWipe _ _ reason).targets
    | raised => exact (closing_afterWipe s reason).targets
  | auditingWipe rest reason =>
    cases out with
    | ok => exact (closing_auditWipe s rest reason).targets
    | raised => exact (closing_afterWipe s reason).targets
  | closing run reason =>
    cases out with
    | ok => exact (closing_afterClose _).targets
    | raised => exact (closing_afterClose s).targets
  | auditingStop => rfl
  | reloading kek id =>
    cases out with
    | ok =>
      rw [continueFrom]
      split <;> rfl
    | raised => rfl
  | reloadingCredential kek id row =>
    cases out with
    | ok => exact targets_enableReloaded s kek id row
    | raised => rfl
  | stoppingWorker id w rest =>
    rw [continueFrom, fst_stopNext]
    rfl

theorem targets_react (s : Supervisor) (e : Env) : (s.react e).targets = s.targets := by
  cases e with
  | notifyObsPublishBegan =>
    rw [react]
    split
    · exact targets_setRunState_getD s _
    · rfl
  | notifyObsPublishEnded =>
    rw [react]
    split
    · exact targets_setRunState_getD s _
    · rfl
  | resetTargetWorker w | commit db | setKeys keys | setSuperTg b => rfl

end Targets

end Supervisor

/-! ## The supervisor with its worker sets -/

/-- The supervisor and the worker sets of its targets; an absent set is empty. -/
structure Viewed : Type where
  supervisor : Supervisor
  workerSets : Dict TargetId WorkerSet

namespace Viewed

open Supervisor

/-- Steps that do not take the lock. -/
inductive Env : Type where
  | supervisor : Supervisor.Env → Env
  /-- the pump of a worker has an event, and this is the worker's snapshot -/
  | workerEvent : WorkerId → WorkerSnapshot → Env

/-- The worker set of a target. -/
def workerSet (v : Viewed) (id : TargetId) : WorkerSet := (v.workerSets.get? id).getD ∅

/-- `Target.ui_state()`. -/
def uiState (v : Viewed) (t : Target) : TargetUiState := computeUiState t (v.workerSet t.id)

/-- `_handle_worker_event` up to its publication: the worker and the target must still be there.
The snapshot carries the role of the worker. -/
def handleWorkerEvent (v : Viewed) (w : WorkerId) (snapshot : WorkerSnapshot) : Viewed :=
  let ws := (v.workerSet w.targetId).ingestSnapshot { snapshot with role := w.role }
  if (v.supervisor.workers.get? w).isSome ∧ (v.supervisor.targets.get? w.targetId).isSome then
    { v with workerSets := v.workerSets.insert w.targetId ws }
  else v

/-- Before the first operation. -/
def init (s : Supervisor) : Viewed := ⟨s, ∅⟩

/-- From taking the lock to the first suspension. -/
def enter (v : Viewed) (op : Op) : Viewed × Option Section :=
  ({ v with supervisor := (v.supervisor.enter op).1 }, (v.supervisor.enter op).2)

/-- From one suspension to the next. -/
def continueFrom (v : Viewed) (sec : Section) (out : Supervisor.Outcome) :
    Viewed × Option Section :=
  (⟨(v.supervisor.continueFrom sec out).1,
      (v.supervisor.rebuilt sec out).workerSets v.workerSets⟩,
    (v.supervisor.continueFrom sec out).2)

def react (v : Viewed) : Env → Viewed
  | .supervisor e => { v with supervisor := v.supervisor.react e }
  | .workerEvent w snapshot => v.handleWorkerEvent w snapshot

/-- The operations around the lock of the supervisor. -/
def monitor : Monitor Viewed Op Section Supervisor.Outcome Env where
  precheck v op := v.supervisor.admits op
  enter := enter
  resume v sec out := some (v.continueFrom sec out)
  external v e := some (v.react e)

theorem workerSet_erase (v : Viewed) (s : Supervisor) (id : TargetId) :
    (Viewed.mk s (v.workerSets.erase id)).workerSet id = ∅ := by
  rw [workerSet, Dict.get?_erase_self]
  rfl

/-- A worker event changes the set of its own target only. -/
theorem workerSet_handleWorkerEvent (v : Viewed) (w : WorkerId) (snapshot : WorkerSnapshot)
    {id : TargetId} (h : id ≠ w.targetId) :
    (v.handleWorkerEvent w snapshot).workerSet id = v.workerSet id := by
  rw [handleWorkerEvent]
  split
  · rw [workerSet, Dict.get?_insert_ne _ _ h]
    rfl
  · rfl

theorem supervisor_handleWorkerEvent (v : Viewed) (w : WorkerId) (snapshot : WorkerSnapshot) :
    (v.handleWorkerEvent w snapshot).supervisor = v.supervisor := by
  rw [handleWorkerEvent]
  split <;> rfl

end Viewed

end RestreamPlus
