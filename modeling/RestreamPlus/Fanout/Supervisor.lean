import RestreamPlus.Domain.RunState
import RestreamPlus.Fanout.WorkerIndex
import RestreamPlus.Lib.Monitor
import RestreamPlus.Repositories.Database

/-!
# The supervisor (`app/fanout/supervisor.py`)

`start_run`, `stop_run`, `enable_target` and `disable_target` as the operations
of a monitor around `_lock`. A `Section` is a point where an operation awaits
something: a database call, `worker.start()`, the stops of a teardown. Its
arguments are the local variables that are still needed. An awaited call
returns or raises (`Outcome`); what the code does next is the same function for
every interleaving.

The notifications of the ingest server, `reset_target_worker`, and everything
other code does to the database or the key material take no lock: they are
external steps and may happen between any two awaits.

`await` on a coroutine that never suspends (`_set_run_state`) is no suspension
point. Only the end of the process cancels an operation; that is modelled in
`Shutdown`.
-/

namespace RestreamPlus

open Interleaving

/-- The attributes of `Supervisor`, and what its operations reach through it. -/
structure Supervisor : Type extends WorkerIndex where
  ingestLoopbackUrl : Text
  runState : RunState
  targets : Dict TargetId Target
  currentRunId : Option RunId
  decryptFailures : List TargetId
  /-- `run()` is inside its task group -/
  superTg : Bool
  /-- the derived keys, if the key material is READY -/
  keyMaterial : Option DerivedKeys
  db : Database

namespace Supervisor

/-- `Supervisor.__init__` on an opened database; the registry may already hold
secrets of others. -/
def init (ingestLoopbackUrl : Text) (registry : CredentialRegistry)
    (keyMaterial : Option DerivedKeys) (db : Database) : Supervisor where
  workers := ∅
  registeredSecrets := ∅
  targetToWorkers := ∅
  credentialRegistry := registry
  ingestLoopbackUrl := ingestLoopbackUrl
  runState := .offline
  targets := ∅
  currentRunId := none
  decryptFailures := []
  superTg := true
  keyMaterial := keyMaterial
  db := db

/-- What an awaited call did. -/
inductive Outcome : Type where
  | ok
  | raised
  deriving DecidableEq

/-- The `(TargetDTO, Target, str | None)` of `_load_runnable_targets` and
`_reload_target`. -/
structure Runnable : Type where
  row : TargetRow
  dom : Target
  plaintext : Option Text

/-- Who called `_spawn_workers_for_target`. -/
inductive Caller : Type where
  /-- `start_run`, with these targets still to come -/
  | startRun : List Runnable → Caller
  | enableTarget : Caller

/-- Where an operation holding the lock is suspended. -/
inductive Section : Type where
  /-- `start_run`: the `INSERT` of the run row -/
  | opening : Section
  /-- … its commit -/
  | committingRun : RunId → Section
  /-- … `list_enabled` -/
  | listing : Key → Section
  /-- … `get_for_target` of a target, these being still to read and these read -/
  | loading : Key → TargetId × TargetRow → List (TargetId × TargetRow) → List Runnable → Section
  /-- … the audit row of a decrypt failure -/
  | auditingFailures : List Runnable → Section
  /-- `worker.start()` of a worker, these roles being still to spawn -/
  | workerStarting : Caller → Runnable → Text → WorkerId → List WorkerRole → Section
  /-- `start_run`: the audit row after ARMED -/
  | auditingStart : Section
  /-- … the stops of a rollback -/
  | rollingBack : List WorkerId → Section
  /-- … closing the run row after a failure -/
  | closingFailed : RunId → Section
  /-- `stop_run`: the stops -/
  | draining : List WorkerId → EndReason → Section
  /-- … the transaction that deletes per-session credentials -/
  | wiping : List TargetId → EndReason → Section
  /-- … an audit row for a deleted credential, these being still to write -/
  | auditingWipe : List TargetId → EndReason → Section
  /-- … closing the run row -/
  | closing : RunId → EndReason → Section
  /-- … the audit row after OFFLINE -/
  | auditingStop : Section
  /-- `enable_target`: `get_by_id` -/
  | reloading : Key → TargetId → Section
  /-- … `get_for_target` -/
  | reloadingCredential : Key → TargetId → TargetRow → Section
  /-- `disable_target`: the stop of a worker, these being still to stop -/
  | stoppingWorker : TargetId → WorkerId → List WorkerId → Section

/-- The operations that take the lock. -/
inductive Op : Type where
  | startRun : Op
  | stopRun : EndReason → Op
  | enableTarget : TargetId → Op
  /-- the flag is the order in which the set of at most two workers is listed -/
  | disableTarget : TargetId → Bool → Op

/-- Steps that do not take the lock. -/
inductive Env : Type where
  | notifyObsPublishBegan : Env
  | notifyObsPublishEnded : Env
  | resetTargetWorker : WorkerId → Env
  /-- another session commits -/
  | commit : Database → Env
  /-- an unlock or a rotation -/
  | setKeys : Option DerivedKeys → Env
  /-- `run()` enters or leaves its task group -/
  | setSuperTg : Bool → Env

/-! ## Spawning and dropping workers -/

/-- A target with its aggregate and its decrypted key, as `_load_runnable_targets`
and `_reload_target` read it. -/
def readTarget (db : Database) (kek : Key) (t : TargetId × TargetRow) : Runnable :=
  let credential := db.getForTarget t.1
  ⟨t.2, targetDtoToDomain t.1 t.2 credential, credential.bind (·.decrypt kek)⟩

/-- `_set_run_state`, `none` when the transition table refuses. -/
def setRunState (s : Supervisor) (action : RunAction) : Option Supervisor :=
  (s.runState.transition action).map fun state => { s with runState := state }

/-- How the loop of `_spawn_workers_for_target` ends. -/
inductive SpawnEnd : Type where
  | returned
  | raised
  /-- a worker was created and its `start()` is awaited, these roles remaining -/
  | starting : WorkerId → List WorkerRole → SpawnEnd

/-- `_spawn_workers_for_target` over these roles: worker ids that are already
there are skipped. -/
def spawnRoles (s : Supervisor) (r : Runnable) (key : Text) :
    List WorkerRole → Supervisor × SpawnEnd
  | [] => (s, .returned)
  | role :: roles =>
    if (s.workers.get? ⟨r.dom.id, role⟩).isSome then spawnRoles s r key roles
    else
      match s.toWorkerIndex.addWorker s.ingestLoopbackUrl r.dom r.row.url key role with
      | none => (s, .raised)
      | some x => ({ s with toWorkerIndex := x }, .starting ⟨r.dom.id, role⟩ roles)

/-- `_close_run_session` up to its transaction. -/
def closeRunSession (s : Supervisor) : Supervisor × Option RunId :=
  ({ s with currentRunId := none }, s.currentRunId)

/-! ## `start_run` -/

/-- The rest of the error path once the workers are stopped. -/
def afterRollBack (s : Supervisor) : Supervisor × Option Section :=
  let (s, run) := ((s.setRunState .unrecoverableFailed).getD s).closeRunSession
  (s, run.map .closingFailed)

/-- The error path: tear down everything, go to ERROR, close the run row. -/
def rollBack (s : Supervisor) : Supervisor × Option Section :=
  if s.workers.keys = [] then s.afterRollBack else (s, some (.rollingBack s.workers.keys))

/-- Every target is handled: ARMED, then the audit row. -/
def finishStart (s : Supervisor) : Supervisor × Option Section :=
  match s.setRunState .workersSpawned with
  | none => s.rollBack
  | some s => (s, some .auditingStart)

/-- The loop over the runnable targets. -/
def spawnPairs (s : Supervisor) : List Runnable → Supervisor × Option Section
  | [] => s.finishStart
  | r :: rest =>
    match r.dom.enabled, r.plaintext with
    | true, some key =>
      match s.spawnRoles r key (rolesFor r.dom) with
      | (s, .returned) => spawnPairs s rest
      | (s, .raised) => s.rollBack
      | (s, .starting w roles) => (s, some (.workerStarting (.startRun rest) r key w roles))
    | _, _ => spawnPairs s rest

/-- A spawn raised: its caller decides. -/
def spawnRaised (s : Supervisor) : Caller → Supervisor × Option Section
  | .startRun _ => s.rollBack
  | .enableTarget => (s, none)

/-- A target is handled: its caller goes on. -/
def spawnReturned (s : Supervisor) : Caller → Supervisor × Option Section
  | .startRun rest => s.spawnPairs rest
  | .enableTarget => (s, none)

/-- What follows the spawn loop of a target. -/
def afterSpawn (caller : Caller) (r : Runnable) (key : Text) :
    Supervisor × SpawnEnd → Supervisor × Option Section
  | (s, .returned) => s.spawnReturned caller
  | (s, .raised) => s.spawnRaised caller
  | (s, .starting w roles) => (s, some (.workerStarting caller r key w roles))

/-- `_targets` and `_target_to_workers` are replaced, then the loop starts. -/
def beginSpawning (s : Supervisor) (pairs : List Runnable) : Supervisor × Option Section :=
  { s with
    targets := Dict.ofList (pairs.map fun (r : Runnable) => (r.dom.id, r.dom))
    targetToWorkers := Dict.ofList (pairs.map fun (r : Runnable) => (r.dom.id, [])) }.spawnPairs pairs

/-- One audit row for each decrypt failure, before the spawning. -/
def flushFailures (s : Supervisor) (pairs : List Runnable) : Supervisor × Option Section :=
  match s.decryptFailures with
  | [] => s.beginSpawning pairs
  | _ :: rest => ({ s with decryptFailures := rest }, some (.auditingFailures pairs))

/-- The body of the loop of `_load_runnable_targets` after its read. -/
def readRunnable (s : Supervisor) (kek : Key) (t : TargetId × TargetRow) :
    Supervisor × Runnable :=
  let r := readTarget s.db kek t
  if r.dom.hasActiveCredential = true ∧ r.plaintext = none then
    ({ s with decryptFailures := s.decryptFailures ++ [t.1] }, r)
  else (s, r)

/-- The loop of `_load_runnable_targets` up to its next read. -/
def loadNext (s : Supervisor) (kek : Key) (todo : List (TargetId × TargetRow))
    (pairs : List Runnable) : Supervisor × Option Section :=
  match todo with
  | [] => s.flushFailures pairs
  | t :: todo => (s, some (.loading kek t todo pairs))

/-- `_load_runnable_targets` up to its first read; `require_ready` may raise. -/
def loadRunnableTargets (s : Supervisor) : Supervisor × Option Section :=
  match s.keyMaterial with
  | none => s.rollBack
  | some derived => (s, some (.listing derived.streamKeyKek))

/-- `start_run` up to its first await. -/
def startRun (s : Supervisor) : Supervisor × Option Section :=
  if s.runState = .offline then
    match s.setRunState .startRequested with
    | none => (s, none)
    | some s => (s, some .opening)
  else (s, none)

/-! ## `stop_run` -/

/-- The run row is closed: OFFLINE, then the audit row. -/
def afterClose (s : Supervisor) : Supervisor × Option Section :=
  ((s.setRunState .workersDrained).getD s, some .auditingStop)

/-- The wipe is over: close the run row. -/
def afterWipe (s : Supervisor) (reason : EndReason) : Supervisor × Option Section :=
  match s.closeRunSession with
  | (s, none) => s.afterClose
  | (s, some run) => (s, some (.closing run reason))

/-- The loop over the audit rows of the wipe. -/
def auditWipe (s : Supervisor) (cleared : List TargetId) (reason : EndReason) :
    Supervisor × Option Section :=
  match cleared with
  | [] => s.afterWipe reason
  | _ :: rest => (s, some (.auditingWipe rest reason))

/-- The targets whose credentials end with the run. -/
def perSessionTargets (s : Supervisor) : List TargetId :=
  (s.targets.values.filter fun t => lifetimeFor t.type = .perSession).map Target.id

/-- `_wipe_per_session_credentials` up to its transaction. -/
def afterDrain (s : Supervisor) (reason : EndReason) : Supervisor × Option Section :=
  if s.perSessionTargets = [] then s.afterWipe reason
  else (s, some (.wiping s.perSessionTargets reason))

/-- `stop_run` up to its first await. -/
def stopRun (s : Supervisor) (reason : EndReason) : Supervisor × Option Section :=
  if s.runState = .offline ∨ s.runState = .stopping ∨ s.runState = .error then (s, none)
  else
    match s.setRunState .stopRequested with
    | none => (s, none)
    | some s =>
      if s.workers.keys = [] then s.afterDrain reason
      else (s, some (.draining s.workers.keys reason))

/-! ## `enable_target` and `disable_target` -/

/-- `enable_target` inside the lock, up to its first await. -/
def enableTarget (s : Supervisor) (id : TargetId) : Supervisor × Option Section :=
  match s.keyMaterial with
  | none => (s, none)
  | some derived => (s, some (.reloading derived.streamKeyKek id))

/-- `_target_to_workers.setdefault(id, set())`. -/
def setDefault (index : Dict TargetId (List WorkerId)) (id : TargetId) :
    Dict TargetId (List WorkerId) :=
  if (index.get? id).isSome then index else index.insert id []

/-- `enable_target` from its last read to its first spawn. -/
def enableReloaded (s : Supervisor) (kek : Key) (id : TargetId) (row : TargetRow) :
    Supervisor × Option Section :=
  let r := readTarget s.db kek (id, row)
  let s := { s with
    targets := s.targets.insert id r.dom
    targetToWorkers := setDefault s.targetToWorkers id }
  match r.dom.enabled, r.plaintext with
  | true, some key => afterSpawn .enableTarget r key (s.spawnRoles r key (rolesFor r.dom))
  | _, _ => (s, none)

/-- The loop of `_tear_down_workers_for_target` up to its next stop. -/
def stopNext (s : Supervisor) (id : TargetId) : List WorkerId → Supervisor × Option Section
  | [] => (s, none)
  | w :: rest =>
    if (s.workers.get? w).isSome then (s, some (.stoppingWorker id w rest)) else stopNext s id rest

/-- `disable_target` up to its first await. -/
def disableTarget (s : Supervisor) (id : TargetId) (reversed : Bool) :
    Supervisor × Option Section :=
  let ws := (s.targetToWorkers.get? id).getD []
  s.stopNext id (if reversed then ws.reverse else ws)

/-! ## From one await to the next -/

/-- `worker.start()` came back. -/
def workerStarted (s : Supervisor) (caller : Caller) (r : Runnable) (key : Text) (w : WorkerId)
    (roles : List WorkerRole) (out : Outcome) : Supervisor × Option Section :=
  -- the assertion on `_super_tg` fails inside the same `try`
  if out = .ok ∧ s.superTg = true then
    afterSpawn caller r key (s.spawnRoles r key roles)
  else { s with toWorkerIndex := s.toWorkerIndex.dropWorker r.dom.id w }.spawnRaised caller

/-- The code from a suspension to the next one. -/
def continueFrom (s : Supervisor) : Section → Outcome → Supervisor × Option Section
  | .opening, .ok =>
    let run := s.db.freshRunId
    ({ s with currentRunId := some run }, some (.committingRun run))
  | .opening, .raised => s.rollBack
  | .committingRun run, .ok => { s with db := s.db.startRun run }.loadRunnableTargets
  | .committingRun _, .raised => s.rollBack
  | .listing kek, .ok => s.loadNext kek s.db.listEnabled []
  | .listing _, .raised => s.rollBack
  | .loading kek t todo pairs, .ok =>
    match s.readRunnable kek t with
    | (s, r) => s.loadNext kek todo (pairs ++ [r])
  | .loading _ _ _ _, .raised => s.rollBack
  | .auditingFailures pairs, _ => s.flushFailures pairs
  | .workerStarting caller r key w roles, out => s.workerStarted caller r key w roles out
  | .auditingStart, .ok => (s, none)
  | .auditingStart, .raised => s.rollBack
  | .rollingBack ws, .ok => { s with toWorkerIndex := s.toWorkerIndex.dropAll ws }.afterRollBack
  | .rollingBack _, .raised => s.afterRollBack
  | .closingFailed run, .ok => ({ s with db := s.db.endRun run .error }, none)
  | .closingFailed _, .raised => (s, none)
  | .draining ws reason, .ok =>
    { s with toWorkerIndex := s.toWorkerIndex.dropAll ws }.afterDrain reason
  | .draining _ reason, .raised => s.afterDrain reason
  | .wiping ids reason, .ok =>
    let cleared := ids.filter fun id => (s.db.getForTarget id).isSome
    { s with db := ids.foldl Database.deleteForTarget s.db }.auditWipe cleared reason
  | .wiping _ reason, .raised => s.afterWipe reason
  | .auditingWipe rest reason, .ok => s.auditWipe rest reason
  | .auditingWipe _ reason, .raised => s.afterWipe reason
  | .closing run reason, .ok => { s with db := s.db.endRun run reason }.afterClose
  | .closing _ _, .raised => s.afterClose
  | .auditingStop, _ => (s, none)
  | .reloading kek id, .ok =>
    match s.db.getById id with
    | none => (s, none)
    | some row => (s, some (.reloadingCredential kek id row))
  | .reloading _ _, .raised => (s, none)
  | .reloadingCredential kek id row, .ok => s.enableReloaded kek id row
  | .reloadingCredential _ _ _, .raised => (s, none)
  | .stoppingWorker id w rest, _ =>
    -- an exception of `worker.stop` is suppressed
    { s with toWorkerIndex := s.toWorkerIndex.dropWorker id w }.stopNext id rest

/-- The code before the lock: only `enable_target` has any. -/
def admits (s : Supervisor) : Op → Bool
  | .enableTarget _ => s.runState.isActive
  | _ => true

/-- The code from the lock to the first suspension. -/
def enter (s : Supervisor) : Op → Supervisor × Option Section
  | .startRun => s.startRun
  | .stopRun reason => s.stopRun reason
  | .enableTarget id => s.enableTarget id
  | .disableTarget id reversed => s.disableTarget id reversed

/-- The code that takes no lock. -/
def react (s : Supervisor) : Env → Supervisor
  | .notifyObsPublishBegan =>
    if s.runState = .armed then (s.setRunState .obsPublishBegan).getD s else s
  | .notifyObsPublishEnded =>
    if s.runState = .live then (s.setRunState .obsPublishEnded).getD s else s
  -- `user_reset` changes the worker only
  | .resetTargetWorker _ => s
  | .commit db => { s with db := db }
  | .setKeys keys => { s with keyMaterial := keys }
  | .setSuperTg b => { s with superTg := b }

/-- The supervisor as a monitor around `_lock`. -/
def monitor : Monitor Supervisor Op Section Outcome Env where
  precheck := admits
  enter := enter
  resume s sec out := some (s.continueFrom sec out)
  external s e := some (s.react e)

end Supervisor

end RestreamPlus
