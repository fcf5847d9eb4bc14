import RestreamPlus.Fanout.RunExclusion
import RestreamPlus.Fanout.SupervisorFrame
import RestreamPlus.Lib.Passage

/-!
# The end of the process

`Supervisor.stop` drains the workers if a run is active, and lets `run()` leave
its task group. It does not look at the tasks that are scheduled or queue for
the lock, and a `start_run` among them starts its workers afterwards. A spawn
that raises after `worker.start()` takes its worker out of the index and does
not stop it, so that no teardown finds it any more.

Beside the supervisor a `Ledger` records on which workers `start()` was called and
`stop()` was not. `no_orphan_worker` says that these two ways and the
`enable_target` of `RunExclusion` are the only ones: in every other run all
workers are stopped once everything has completed.

The lifespan waits for the tasks of `supervisor_tasks` after `stop()`, and cancels them
when its grace is over. So an await may end in a cancellation here, and a task may
be cancelled before it has the lock.
-/

namespace RestreamPlus

open Interleaving

/-- The code from a suspension to the next one when the await is cancelled. What
catches `BaseException` goes on, `suppress(Exception)` lets the cancellation pass. -/
def Supervisor.cancelledAt (s : Supervisor) : Supervisor.Section →
    Supervisor × Option Supervisor.Section
  | .opening | .committingRun _ | .listing _ | .loading _ _ _ _ | .auditingFailures _
  | .auditingStart => s.rollBack
  | .workerStarting caller r _ w _ =>
    { s with toWorkerIndex := s.toWorkerIndex.dropWorker r.dom.id w }.spawnRaised caller
  | .draining _ reason => s.afterDrain reason
  | .rollingBack _ | .closingFailed _ | .wiping _ _ | .auditingWipe _ _ | .closing _ _
  | .auditingStop | .reloading _ _ | .reloadingCredential _ _ _ | .stoppingWorker _ _ _ => (s, none)

namespace Shutdown

open Supervisor (Op Section Env Caller Runnable SpawnEnd)

/-- How an await ends. -/
inductive Ending : Type where
  | came (out : Supervisor.Outcome)
  | cancelled
  deriving DecidableEq

/-- The calls of `start()` that no `stop()` has followed. -/
structure Ledger : Type where
  /-- workers in the index -/
  unstopped : List WorkerId
  /-- workers that left it -/
  orphans : List WorkerId

/-- The supervisor and the record. -/
structure Tracked : Type where
  supervisor : Supervisor
  ledger : Ledger

namespace Ledger

/-- Before the first run. -/
def empty : Ledger := ⟨[], []⟩

/-- `stop()` is called on these. -/
def stopped (g : Ledger) (ws : List WorkerId) : Ledger :=
  { g with unstopped := g.unstopped.filter (· ∉ ws) }

/-- A stretch of an operation ended here: at the await of a `start()` or of some
`stop()`, perhaps. -/
def noteCall (g : Ledger) : Option Section → Ledger
  | some (.workerStarting _ _ _ w _) => { g with unstopped := w :: g.unstopped }
  | some (.rollingBack ws) => g.stopped ws
  | some (.draining ws _) => g.stopped ws
  | some (.stoppingWorker _ w _) => g.stopped [w]
  | _ => g

/-- The awaited call is over: a `start()` after which the spawn raises, perhaps. -/
def noteSpawn (g : Ledger) (s : Supervisor) : Section → Ending → Ledger
  | .workerStarting _ _ _ w _, e =>
    if e = .came .ok ∧ s.superTg = true then g
    else { g.stopped [w] with orphans := w :: g.orphans }
  | _, _ => g

end Ledger

/-- The code from a suspension to the next one. -/
def goOn (s : Supervisor) (sec : Section) : Ending → Supervisor × Option Section
  | .came out => s.continueFrom sec out
  | .cancelled => s.cancelledAt sec

/-- A stretch of the supervisor, noted. -/
def Tracked.note (g : Ledger) (r : Supervisor × Option Section) : Tracked × Option Section :=
  (⟨r.1, g.noteCall r.2⟩, r.2)

/-- The supervisor with the ledger beside it. -/
def monitor : Monitor Tracked Op Section Ending Env where
  precheck p op := p.supervisor.admits op
  enter p op := Tracked.note p.ledger (p.supervisor.enter op)
  resume p sec e :=
    some (Tracked.note (p.ledger.noteSpawn p.supervisor sec e) (goOn p.supervisor sec e))
  external p e := some { p with supervisor := p.supervisor.react e }

/-- The supervisor and the tasks that use it. -/
abbrev Config : Type := Monitor.Config Tracked Op Section

/-- Where `Supervisor.stop` is. -/
inductive Stopping : Type where
  | notCalled
  /-- it awaits its `stop_run`, which is this task -/
  | awaiting : ℕ → Stopping
  /-- it has set the event that ends `run()` -/
  | returned

/-- The tasks of the process. -/
structure Process : Type where
  config : Config
  stopping : Stopping

/-- What happens next. The exit of `run()` is the external step `setSuperTg false`. -/
inductive Label : Type where
  | run (l : Monitor.Label Op Ending Env)
  /-- a task is cancelled that has not begun its operation -/
  | cancel (i : ℕ)
  /-- the lifespan calls `Supervisor.stop` -/
  | stop
  /-- its `stop_run` has come back -/
  | stopReturns

/-- `Supervisor.stop` up to its first await. -/
def Process.stop (p : Process) : Process :=
  let s := p.config.shared.supervisor
  if s.runState = .offline ∨ s.runState = .error then { p with stopping := .returned }
  else
    let t := p.config.tasks.length
    let c := { p.config with tasks := p.config.tasks ++ [.called (.stopRun .userStop)] }
    { config := monitor.start c t (.stopRun .userStop)
      stopping := .awaiting t }

/-- Task `i` is cancelled before it has the lock. -/
def dismiss (c : Config) (i : ℕ) : Config :=
  { c with queue := c.queue.erase i, tasks := c.tasks.set i .finished }

def step (p : Process) : Label → Option Process
  | .run l => (monitor.step p.config l).map fun c => { p with config := c }
  | .cancel i =>
    match p.stopping, p.config.tasks[i]? with
    -- nobody cancels `stop()`
    | .awaiting _, _ => none
    | _, some (.called _) | _, some (.queued _) => some { p with config := dismiss p.config i }
    | _, _ => none
  | .stop =>
    match p.stopping with
    | .notCalled => some p.stop
    | _ => none
  | .stopReturns =>
    match p.stopping with
    | .awaiting t =>
      match p.config.tasks[t]? with
      | some .finished => some { p with stopping := .returned }
      | _ => none
    | _ => none

/-- The process from its start on. -/
def machine : Machine Process Label := ⟨step⟩

/-- The supervisor is constructed and nothing is scheduled. -/
def boot (url : Text) (registry : CredentialRegistry) (keys : Option DerivedKeys) (db : Database) :
    Process :=
  ⟨Monitor.idle ⟨Supervisor.init url registry keys db, Ledger.empty⟩, .notCalled⟩

/-- `stop()` has returned, `run()` is out of its task group, every task is done. -/
structure Completed (p : Process) : Prop where
  stopped : p.stopping = .returned
  exited : p.config.shared.supervisor.superTg = false
  finished : ∀ ph ∈ p.config.tasks, ph = .finished

/-- **No orphan worker**: no worker whose `start()` was called leaves the index
without a `stop()`, and at the end none is in the index either. -/
def NoOrphan (p : Process) : Prop :=
  p.config.shared.ledger.orphans = [] ∧ (Completed p → p.config.shared.ledger.unstopped = [])

/-! ## The steps that are considered -/

/-- Nothing is left for `stop()` to drain: it found no run, or its `stop_run` was let in. -/
def Process.drained (p : Process) : Bool :=
  match p.stopping with
  | .notCalled => false
  | .returned => true
  | .awaiting t =>
    match p.config.tasks[t]? with
    | some (.called _) | some (.queued _) => false
    | _ => true

/-- An `enable_target` is let in during a run only, and a `start_run` starts none
after `stop()` has drained. -/
def MayEnter (p : Process) : Op → Prop
  | .enableTarget _ => p.config.shared.supervisor.runState.isActive = true
  | .startRun => p.drained = true → p.config.shared.supervisor.runState ≠ .offline
  | _ => True

instance (p : Process) : DecidablePred (MayEnter p)
  | .enableTarget _ => inferInstanceAs (Decidable (_ = true))
  | .startRun => inferInstanceAs (Decidable (p.drained = true → _ ≠ RunState.offline))
  | .stopRun _ | .disableTarget _ _ => inferInstanceAs (Decidable True)

/-- No spawn raises after `worker.start()` was called. -/
def SpawnsReturn (p : Tracked) : Section → Ending → Prop
  | .workerStarting _ _ _ _ _, e => e = .came .ok ∧ p.supervisor.superTg = true
  | _, _ => True

instance (p : Tracked) (sec : Section) (e : Ending) : Decidable (SpawnsReturn p sec e) := by
  unfold SpawnsReturn
  split <;> infer_instance

/-- The steps of a run that are considered. -/
def Orderly (p : Process) : Label → Prop
  | .run l => (∀ op ∈ monitor.letsIn p.config l, MayEnter p op) ∧
      Monitor.guard (fun _ _ => True) SpawnsReturn p.config l
  | _ => True

instance (p : Process) (l : Label) : Decidable (Orderly p l) := by
  unfold Orderly
  split <;> infer_instance

/-! ## The record along a stretch -/

/-- What holds of the record at every suspension. -/
structure Recorded (p : Tracked) : Prop where
  orphans : p.ledger.orphans = []
  /-- a worker that was not stopped can be found -/
  indexed : ∀ w ∈ p.ledger.unstopped, (p.supervisor.workers.get? w).isSome
  inactive : p.supervisor.runState.isActive = false → p.ledger.unstopped = []

/-- What a section may rely on besides. -/
def Local (p : Tracked) : Section → Prop
  | .opening | .committingRun _ | .listing _ | .loading _ _ _ _ | .auditingFailures _
  | .workerStarting _ _ _ _ _ | .reloading _ _ | .reloadingCredential _ _ _ =>
    p.supervisor.runState.isActive = true
  | .rollingBack _ | .draining _ _ | .wiping _ _ | .auditingWipe _ _ | .closing _ _ =>
    p.ledger.unstopped = []
  | .stoppingWorker _ w _ => w ∉ p.ledger.unstopped
  | .auditingStart | .closingFailed _ | .auditingStop => True

/-- At a suspension of the operation that holds the lock. -/
def Held (p : Tracked) (sec : Section) : Prop := Recorded p ∧ Local p sec

/-- Shorthand for the premise of the monitor rule. -/
abbrev Fine (g : Ledger) (r : Supervisor × Option Section) : Prop :=
  Monitor.Settled Recorded Held (Tracked.note g r)

/-- The stretch ended in a teardown that has called `stop()` on everybody. -/
def Closes : Option Section → Prop
  | none | some (.closingFailed _) | some (.wiping _ _) | some (.auditingWipe _ _)
  | some (.closing _ _) | some .auditingStop => True
  | _ => False

variable {s : Supervisor} {g : Ledger}

theorem mem_stopped {ws : List WorkerId} {w : WorkerId} :
    w ∈ (g.stopped ws).unstopped ↔ w ∈ g.unstopped ∧ w ∉ ws := by
  simp [Ledger.stopped]

/-- Attributes other than the workers and the run state may change. -/
theorem Recorded.of_eq {s' : Supervisor} (h : Recorded ⟨s, g⟩) (hw : s'.workers = s.workers)
    (hr : s'.runState = s.runState) : Recorded ⟨s', g⟩ := by
  refine ⟨h.orphans, fun w hmem => ?_, fun hin => h.inactive (hr ▸ hin)⟩
  rw [hw]
  exact h.indexed w hmem

/-- Nothing is left to stop. -/
theorem recorded_of_nil (ho : g.orphans = []) (hu : g.unstopped = []) : Recorded ⟨s, g⟩ :=
  ⟨ho, by simp [hu], fun _ => hu⟩

/-- With nothing to stop, the rest of a teardown has nothing to record. -/
theorem fine_closes {r : Supervisor × Option Section} (ho : g.orphans = []) (hu : g.unstopped = [])
    (hr : Closes r.2) : Fine g r := by
  have hrec : Recorded ⟨r.1, g⟩ := recorded_of_nil ho hu
  obtain ⟨s, _ | sec⟩ := r
  · exact hrec
  · cases sec with
    | closingFailed _ | auditingStop => exact ⟨hrec, trivial⟩
    | wiping _ _ | auditingWipe _ _ | closing _ _ => exact ⟨hrec, hu⟩
    | opening | committingRun _ | listing _ | loading _ _ _ _ | auditingFailures _ | auditingStart
    | workerStarting _ _ _ _ _ | rollingBack _ | draining _ _ | reloading _ _
    | reloadingCredential _ _ _ | stoppingWorker _ _ _ => exact hr.elim

/-! ### The error path -/

theorem closes_afterRollBack (s : Supervisor) : Closes s.afterRollBack.2 := by
  rw [Supervisor.afterRollBack, Supervisor.closeRunSession]
  rcases ((s.setRunState .unrecoverableFailed).getD s).currentRunId with _ | run <;> trivial

/-- A teardown that calls `stop()` on every worker of the index leaves nobody out. -/
theorem stopped_keys (hi : ∀ w ∈ g.unstopped, (s.workers.get? w).isSome) :
    (g.stopped s.workers.keys).unstopped = [] := by
  refine List.eq_nil_iff_forall_not_mem.mpr fun w hmem => ?_
  obtain ⟨hold, hno⟩ := mem_stopped.mp hmem
  obtain ⟨spec, hspec⟩ := Option.isSome_iff_exists.mp (hi w hold)
  exact hno (Dict.mem_keys.mpr ⟨spec, hspec⟩)

/-- There is nobody to stop. -/
theorem unstopped_of_keys_nil (hi : ∀ w ∈ g.unstopped, (s.workers.get? w).isSome)
    (hnil : s.workers.keys = []) : g.unstopped = [] := by
  have h := stopped_keys hi
  rw [hnil] at h
  simpa [Ledger.stopped] using h

theorem fine_rollBack (ho : g.orphans = []) (hi : ∀ w ∈ g.unstopped, (s.workers.get? w).isSome) :
    Fine g s.rollBack := by
  rw [Supervisor.rollBack]
  split
  · rename_i hnil
    exact fine_closes ho (unstopped_of_keys_nil hi hnil) (closes_afterRollBack s)
  · exact ⟨recorded_of_nil ho (stopped_keys hi), stopped_keys hi⟩

/-! ### `start_run` -/

theorem active_ne_inactive {st : RunState} (h : st.isActive = true) : ¬ st.isActive = false := by
  rw [h]
  exact Bool.noConfusion

theorem fine_finishStart (h : Recorded ⟨s, g⟩) : Fine g s.finishStart := by
  rw [Supervisor.finishStart]
  split
  · exact fine_rollBack h.orphans h.indexed
  · rename_i s' hs
    obtain ⟨st, hst, rfl⟩ := Supervisor.setRunState_eq_some hs
    have harmed : st.isActive = true := by
      rcases hrun : s.runState <;> rw [hrun] at hst <;>
        first | (obtain rfl := Option.some.inj hst; rfl) | cases hst
    exact ⟨⟨h.orphans, h.indexed, fun hin => absurd hin (active_ne_inactive harmed)⟩, trivial⟩

/-- A worker joins the index, and its `start()` is called. -/
theorem fine_starting {x : WorkerIndex} {caller : Caller} {r : Runnable} {key : Text} {w : WorkerId}
    {roles : List WorkerRole} (h : Recorded ⟨s, g⟩) (hact : s.runState.isActive = true)
    (hx : ∀ w, (s.workers.get? w).isSome → (x.workers.get? w).isSome)
    (hw : (x.workers.get? w).isSome) :
    Fine g ({ s with toWorkerIndex := x }, some (.workerStarting caller r key w roles)) := by
  refine ⟨⟨h.orphans, fun w' hmem => ?_, fun hin => absurd hin (active_ne_inactive hact)⟩, hact⟩
  rcases List.mem_cons.mp hmem with rfl | hold
  · exact hw
  · exact hx w' (h.indexed w' hold)

/-- The index grows. -/
theorem Recorded.grow {x : WorkerIndex} (h : Recorded ⟨s, g⟩)
    (hx : ∀ w, (s.workers.get? w).isSome → (x.workers.get? w).isSome) :
    Recorded ⟨{ s with toWorkerIndex := x }, g⟩ :=
  ⟨h.orphans, fun w hmem => hx w (h.indexed w hmem), h.inactive⟩

theorem fine_spawnPairs (pairs : List Runnable) (h : Recorded ⟨s, g⟩)
    (hact : s.runState.isActive = true) : Fine g (s.spawnPairs pairs) := by
  induction pairs generalizing s with
  | nil => exact fine_finishStart h
  | cons r rest ih =>
    rw [Supervisor.spawnPairs]
    split
    · rename_i key _ _
      obtain ⟨x, e, heq, hold, hnew⟩ := s.spawnRoles_grows r key (rolesFor r.dom)
      rw [heq]
      cases e with
      | returned => exact ih (h.grow hold) hact
      | raised => exact fine_rollBack h.orphans (h.grow hold).indexed
      | starting w roles => exact fine_starting h hact hold (hnew w roles rfl).2
    · exact ih h hact

/-- What follows the spawn loop of a target. -/
theorem fine_afterSpawn (caller : Caller) (r : Runnable) (key : Text) (roles : List WorkerRole)
    (h : Recorded ⟨s, g⟩) (hact : s.runState.isActive = true) :
    Fine g (Supervisor.afterSpawn caller r key (s.spawnRoles r key roles)) := by
  obtain ⟨x, e, heq, hold, hnew⟩ := s.spawnRoles_grows r key roles
  rw [heq]
  cases e with
  | returned =>
    cases caller with
    | startRun rest => exact fine_spawnPairs rest (h.grow hold) hact
    | enableTarget => exact h.grow hold
  | raised =>
    cases caller with
    | startRun rest => exact fine_rollBack h.orphans (h.grow hold).indexed
    | enableTarget => exact h.grow hold
  | starting w roles' => exact fine_starting h hact hold (hnew w roles' rfl).2

theorem fine_flushFailures (pairs : List Runnable) (h : Recorded ⟨s, g⟩)
    (hact : s.runState.isActive = true) : Fine g (s.flushFailures pairs) := by
  rw [Supervisor.flushFailures]
  split
  · rw [Supervisor.beginSpawning]
    refine fine_spawnPairs pairs ?_ hact
    exact h.of_eq rfl rfl
  · exact ⟨h.of_eq rfl rfl, hact⟩

theorem fine_loadNext (kek : Key) (todo : List (TargetId × TargetRow)) (pairs : List Runnable)
    (h : Recorded ⟨s, g⟩) (hact : s.runState.isActive = true) :
    Fine g (s.loadNext kek todo pairs) := by
  cases todo with
  | nil => exact fine_flushFailures pairs h hact
  | cons t todo => exact ⟨h, hact⟩

/-! ### `stop_run` -/

theorem closes_afterWipe (s : Supervisor) (reason : EndReason) : Closes (s.afterWipe reason).2 := by
  rw [Supervisor.afterWipe, Supervisor.closeRunSession]
  rcases s.currentRunId with _ | run <;> trivial

theorem closes_auditWipe (s : Supervisor) (cleared : List TargetId) (reason : EndReason) :
    Closes (s.auditWipe cleared reason).2 := by
  cases cleared with
  | nil => exact closes_afterWipe s reason
  | cons id rest => trivial

theorem closes_afterDrain (s : Supervisor) (reason : EndReason) : Closes (s.afterDrain reason).2 := by
  rw [Supervisor.afterDrain]
  split
  · exact closes_afterWipe s reason
  · trivial

/-! ### `enable_target` and `disable_target` -/

theorem fine_enableReloaded (kek : Key) (id : TargetId) (row : TargetRow) (h : Recorded ⟨s, g⟩)
    (hact : s.runState.isActive = true) : Fine g (s.enableReloaded kek id row) := by
  rw [Supervisor.enableReloaded]
  split
  · refine fine_afterSpawn .enableTarget _ _ _ ?_ hact
    exact h.of_eq rfl rfl
  · exact h.of_eq rfl rfl

theorem fine_stopNext (id : TargetId) (ws : List WorkerId) (h : Recorded ⟨s, g⟩) :
    Fine g (s.stopNext id ws) := by
  induction ws with
  | nil => exact h
  | cons w rest ih =>
    rw [Supervisor.stopNext]
    split
    · refine ⟨⟨h.orphans, fun w' hmem => h.indexed w' (mem_stopped.mp hmem).1, fun hin => ?_⟩,
        fun hmem => (mem_stopped.mp hmem).2 List.mem_cons_self⟩
      have hnil : g.unstopped = [] := h.inactive hin
      simp [Ledger.noteCall, Ledger.stopped, hnil]
    · exact ih

/-! ### From one suspension to the next -/

theorem fine_enter (op : Op) (h : Recorded ⟨s, g⟩) (hop : Supervisor.EnableFindsRun s op) :
    Fine g (s.enter op) := by
  cases op with
  | startRun =>
    rw [Supervisor.enter, Supervisor.startRun]
    split
    · rename_i hoff
      have hnil : g.unstopped = [] := h.inactive (by rw [hoff]; rfl)
      rw [Supervisor.setRunState, hoff]
      exact ⟨recorded_of_nil h.orphans hnil, rfl⟩
    · exact h
  | stopRun reason =>
    rw [Supervisor.enter, Supervisor.stopRun]
    split
    · exact h
    · split
      · exact h
      · rename_i s' hs
        obtain ⟨st, -, rfl⟩ := Supervisor.setRunState_eq_some hs
        dsimp only
        split
        · rename_i hnil
          exact fine_closes h.orphans (unstopped_of_keys_nil h.indexed hnil)
            (closes_afterDrain _ reason)
        · exact ⟨recorded_of_nil h.orphans (stopped_keys h.indexed), stopped_keys h.indexed⟩
  | enableTarget id =>
    rw [Supervisor.enter, Supervisor.enableTarget]
    split
    · exact h
    · exact ⟨h, hop⟩
  | disableTarget id reversed => exact fine_stopNext id _ h

/-- Exactly the spawns that raise after `worker.start()` leave an orphan. -/
theorem orphans_noteSpawn_iff (sec : Section) (e : Ending) :
    (g.noteSpawn s sec e).orphans = g.orphans ↔ SpawnsReturn ⟨s, g⟩ sec e := by
  cases sec with
  | workerStarting caller r key w roles =>
    rw [Ledger.noteSpawn, SpawnsReturn]
    split
    · rename_i h
      exact iff_of_true rfl h
    · rename_i h
      refine iff_of_false (fun heq => ?_) h
      exact List.cons_ne_self _ _ heq
  | _ => exact iff_of_true rfl trivial

/-- **A stretch** keeps the record. -/
theorem fine_continueFrom (sec : Section) (out : Supervisor.Outcome) (h : Held ⟨s, g⟩ sec)
    (hok : SpawnsReturn ⟨s, g⟩ sec (.came out)) :
    Fine (g.noteSpawn s sec (.came out)) (s.continueFrom sec out) := by
  obtain ⟨hrec, hlocal⟩ := h
  have hback : Fine g s.rollBack := fine_rollBack hrec.orphans hrec.indexed
  have hclose := fun hnil {r : Supervisor × Option Section} =>
    fine_closes (g := g) (r := r) hrec.orphans hnil
  cases sec with
  | opening =>
    cases out with
    | ok => exact ⟨hrec.of_eq rfl rfl, hlocal⟩
    | raised => exact hback
  | committingRun run =>
    cases out with
    | ok =>
      rw [Supervisor.continueFrom, Supervisor.loadRunnableTargets]
      split
      · exact fine_rollBack hrec.orphans hrec.indexed
      · exact ⟨hrec.of_eq rfl rfl, hlocal⟩
    | raised => exact hback
  | listing kek =>
    cases out with
    | ok => exact fine_loadNext kek _ [] hrec hlocal
    | raised => exact hback
  | loading kek t todo pairs =>
    cases out with
    | ok =>
      obtain ⟨failures, r, hread⟩ := Supervisor.readRunnable_spec s kek t
      rw [Supervisor.continueFrom, hread]
      refine fine_loadNext kek todo _ ?_ hlocal
      exact hrec.of_eq rfl rfl
    | raised => exact hback
  | auditingFailures pairs => exact fine_flushFailures pairs hrec hlocal
  | workerStarting caller r key w roles =>
    obtain ⟨hout, htg⟩ := hok
    obtain rfl := Ending.came.inj hout
    rw [Supervisor.continueFrom, Supervisor.workerStarted, if_pos ⟨rfl, htg⟩, Ledger.noteSpawn,
      if_pos ⟨rfl, htg⟩]
    exact fine_afterSpawn caller r key roles hrec hlocal
  | auditingStart =>
    cases out with
    | ok => exact hrec
    | raised => exact hback
  | rollingBack ws => cases out <;> exact hclose hlocal (closes_afterRollBack _)
  | closingFailed run => cases out <;> exact hrec.of_eq rfl rfl
  | draining ws reason => cases out <;> exact hclose hlocal (closes_afterDrain _ reason)
  | wiping ids reason =>
    cases out with
    | ok => exact hclose hlocal (closes_auditWipe _ _ reason)
    | raised => exact hclose hlocal (closes_afterWipe _ reason)
  | auditingWipe rest reason =>
    cases out with
    | ok => exact hclose hlocal (closes_auditWipe _ _ reason)
    | raised => exact hclose hlocal (closes_afterWipe _ reason)
  | closing run reason => cases out <;> exact hclose hlocal trivial
  | auditingStop => exact hrec
  | reloading kek id =>
    cases out with
    | ok =>
      rw [Supervisor.continueFrom]
      split
      · exact hrec
      · exact ⟨hrec, hlocal⟩
    | raised => exact hrec
  | reloadingCredential kek id row =>
    cases out with
    | ok => exact fine_enableReloaded kek id row hrec hlocal
    | raised => exact hrec
  | stoppingWorker id w rest =>
    -- the worker that leaves the index was stopped
    refine fine_stopNext id rest ⟨hrec.orphans, fun w' hmem => ?_, hrec.inactive⟩
    rw [WorkerIndex.get?_workers_dropWorker, if_neg]
    · exact hrec.indexed w' hmem
    · rintro rfl
      exact hlocal hmem

/-- **A cancelled await** keeps it too, unless it is the one of a `start()`. -/
theorem fine_cancelledAt (sec : Section) (h : Held ⟨s, g⟩ sec)
    (hok : SpawnsReturn ⟨s, g⟩ sec .cancelled) : Fine g (s.cancelledAt sec) := by
  obtain ⟨hrec, hlocal⟩ := h
  cases sec with
  | opening | committingRun _ | listing _ | loading _ _ _ _ | auditingFailures _ | auditingStart =>
    exact fine_rollBack hrec.orphans hrec.indexed
  | workerStarting caller r key w roles => exact absurd hok.1 nofun
  | draining ws reason => exact fine_closes hrec.orphans hlocal (closes_afterDrain s reason)
  | rollingBack _ | closingFailed _ | wiping _ _ | auditingWipe _ _ | closing _ _ | auditingStop
  | reloading _ _ | reloadingCredential _ _ _ | stoppingWorker _ _ _ => exact hrec

theorem fine_goOn (sec : Section) (e : Ending) (h : Held ⟨s, g⟩ sec)
    (hok : SpawnsReturn ⟨s, g⟩ sec e) : Fine (g.noteSpawn s sec e) (goOn s sec e) := by
  cases e with
  | came out => exact fine_continueFrom sec out h hok
  | cancelled =>
    have hnote : g.noteSpawn s sec .cancelled = g := by
      cases sec with
      | workerStarting caller r key w roles => exact absurd hok.1 nofun
      | _ => rfl
    rw [hnote]
    exact fine_cancelledAt sec h hok

/-- Code without the lock leaves the workers and the activity of the run alone. -/
theorem isActive_react (s : Supervisor) (e : Env) :
    (s.react e).runState.isActive = s.runState.isActive := by
  rcases (Supervisor.react_spec s e).2 with heq | ⟨hst, heq⟩ | ⟨hst, heq⟩
  · rw [heq]
  · rw [heq, hst]
    rfl
  · rw [heq, hst]
    rfl

theorem Recorded.react (h : Recorded ⟨s, g⟩) (e : Env) : Recorded ⟨s.react e, g⟩ := by
  have hworkers : (s.react e).workers = s.workers :=
    congrArg WorkerIndex.workers (Supervisor.react_spec s e).1
  refine ⟨h.orphans, fun w hmem => ?_, fun hin => h.inactive ?_⟩
  · rw [hworkers]
    exact h.indexed w hmem
  · rwa [isActive_react] at hin

theorem rule : monitor.Rule Recorded Held
    (fun p op => Supervisor.EnableFindsRun p.supervisor op) SpawnsReturn where
  admitted p op h hadm := by
    cases op with
    | enableTarget id => exact hadm
    | startRun | stopRun _ | disableTarget _ _ => trivial
  enter p op h hop := fine_enter op h hop
  resume p sec e r h hok hr := by
    obtain rfl := Option.some.inj hr
    exact fine_goOn sec e h hok
  external_free p e p' h hp := by
    obtain rfl := Option.some.inj hp
    exact h.react e
  external_held p sec e p' h hp := by
    obtain rfl := Option.some.inj hp
    refine ⟨h.1.react e, ?_⟩
    have hact := isActive_react p.supervisor e
    have hlocal := h.2
    cases sec with
    | opening | committingRun _ | listing _ | loading _ _ _ _ | auditingFailures _
    | workerStarting _ _ _ _ _ | reloading _ _ | reloadingCredential _ _ _ => exact hact.trans hlocal
    | rollingBack _ | draining _ _ | wiping _ _ | auditingWipe _ _ | closing _ _
    | stoppingWorker _ _ _ => exact hlocal
    | auditingStart | closingFailed _ | auditingStop => trivial

/-! ## Once drained -/

section Inactive

/-- Only a `start_run` leaves the inactive states. -/
theorem inactive_setRunState {a : RunAction} (ha : a ≠ .startRequested)
    (h : s.runState.isActive = false) : ((s.setRunState a).getD s).runState.isActive = false := by
  rcases hs : s.setRunState a with _ | s'
  · exact h
  · obtain ⟨st, hst, rfl⟩ := Supervisor.setRunState_eq_some hs
    dsimp only [Option.getD_some]
    rcases hrun : s.runState <;> rw [hrun] at h hst <;> cases h <;> cases a <;>
      first | exact absurd rfl ha | (obtain rfl := Option.some.inj hst; rfl) | cases hst

theorem inactive_afterClose (h : s.runState.isActive = false) :
    s.afterClose.1.runState.isActive = false :=
  inactive_setRunState nofun h

theorem inactive_afterWipe (reason : EndReason) (h : s.runState.isActive = false) :
    (s.afterWipe reason).1.runState.isActive = false := by
  rw [Supervisor.afterWipe, Supervisor.closeRunSession]
  rcases s.currentRunId with _ | run
  · exact inactive_afterClose h
  · exact h

theorem inactive_auditWipe (cleared : List TargetId) (reason : EndReason)
    (h : s.runState.isActive = false) : (s.auditWipe cleared reason).1.runState.isActive = false := by
  cases cleared with
  | nil => exact inactive_afterWipe reason h
  | cons id rest => exact h

theorem inactive_afterDrain (reason : EndReason) (h : s.runState.isActive = false) :
    (s.afterDrain reason).1.runState.isActive = false := by
  rw [Supervisor.afterDrain]
  split
  · exact inactive_afterWipe reason h
  · exact h

/-- No run is active once a `stop_run` was let in. -/
theorem inactive_stopRun (s : Supervisor) (reason : EndReason) :
    (s.stopRun reason).1.runState.isActive = false := by
  rw [Supervisor.stopRun]
  split
  · rename_i hst
    rcases hst with hst | hst | hst <;> rw [hst] <;> rfl
  · rename_i hno
    split
    · rename_i hnone
      -- every other state has a way to STOPPING
      rw [Supervisor.setRunState] at hnone
      rcases hrun : s.runState <;> rw [hrun] at hno hnone <;> simp [RunState.transition] at hno hnone
    · rename_i s' hs
      obtain ⟨st, hst, rfl⟩ := Supervisor.setRunState_eq_some hs
      have hstop : st.isActive = false := by
        rcases hrun : s.runState <;> rw [hrun] at hst <;>
          first | (obtain rfl := Option.some.inj hst; rfl) | cases hst
      dsimp only
      split
      · exact inactive_afterDrain reason hstop
      · exact hstop

/-- An operation that is let in makes no run active, unless it is the `start_run` of a
new one. -/
theorem inactive_enter {op : Op} (h : s.runState.isActive = false)
    (hop : Supervisor.EnableFindsRun s op) (hstart : op = .startRun → s.runState ≠ .offline) :
    (s.enter op).1.runState.isActive = false := by
  cases op with
  | startRun =>
    rw [Supervisor.enter, Supervisor.startRun, if_neg (hstart rfl)]
    exact h
  | stopRun reason => exact inactive_stopRun s reason
  | enableTarget id => exact absurd (h.symm.trans hop) Bool.false_ne_true
  | disableTarget id reversed =>
    rw [Supervisor.enter, Supervisor.disableTarget, Supervisor.fst_stopNext]
    exact h

/-- A teardown that is going on makes no run active. -/
theorem inactive_afterRollBack (h : s.runState.isActive = false) :
    s.afterRollBack.1.runState.isActive = false :=
  inactive_setRunState (a := .unrecoverableFailed) nofun h

theorem inactive_rollBack (h : s.runState.isActive = false) :
    s.rollBack.1.runState.isActive = false := by
  rw [Supervisor.rollBack]
  split
  · exact inactive_afterRollBack h
  · exact h

/-- An operation that is suspended makes no run active. -/
theorem inactive_continueFrom {sec : Section} (hlocal : Local ⟨s, g⟩ sec)
    (h : s.runState.isActive = false) (out : Supervisor.Outcome) :
    (s.continueFrom sec out).1.runState.isActive = false := by
  cases sec with
  | opening | committingRun _ | listing _ | loading _ _ _ _ | auditingFailures _
  | workerStarting _ _ _ _ _ | reloading _ _ | reloadingCredential _ _ _ =>
    exact absurd h (active_ne_inactive hlocal)
  | auditingStart =>
    cases out with
    | ok => exact h
    | raised => exact inactive_rollBack h
  | rollingBack ws => cases out <;> exact inactive_afterRollBack h
  | closingFailed run => cases out <;> exact h
  | draining ws reason => cases out <;> exact inactive_afterDrain reason h
  | wiping ids reason =>
    cases out with
    | ok => exact inactive_auditWipe _ reason h
    | raised => exact inactive_afterWipe reason h
  | auditingWipe rest reason =>
    cases out with
    | ok => exact inactive_auditWipe rest reason h
    | raised => exact inactive_afterWipe reason h
  | closing run reason => cases out <;> exact inactive_afterClose h
  | auditingStop => exact h
  | stoppingWorker id w rest =>
    rw [Supervisor.continueFrom, Supervisor.fst_stopNext]
    exact h

theorem inactive_cancelledAt {sec : Section} (hlocal : Local ⟨s, g⟩ sec)
    (h : s.runState.isActive = false) : (s.cancelledAt sec).1.runState.isActive = false := by
  cases sec with
  | opening | committingRun _ | listing _ | loading _ _ _ _ | auditingFailures _ | auditingStart =>
    exact inactive_rollBack h
  | workerStarting _ _ _ _ _ => exact absurd h (active_ne_inactive hlocal)
  | draining ws reason => exact inactive_afterDrain reason h
  | rollingBack _ | closingFailed _ | wiping _ _ | auditingWipe _ _ | closing _ _ | auditingStop
  | reloading _ _ | reloadingCredential _ _ _ | stoppingWorker _ _ _ => exact h

theorem inactive_goOn {sec : Section} (hlocal : Local ⟨s, g⟩ sec) (h : s.runState.isActive = false)
    (e : Ending) : (goOn s sec e).1.runState.isActive = false := by
  cases e with
  | came out => exact inactive_continueFrom hlocal h out
  | cancelled => exact inactive_cancelledAt hlocal h

end Inactive

/-! ## Every process -/

section Process

variable {p p' : Process}

/-- What holds in every state of a process. -/
structure Sane (p : Process) : Prop where
  sound : Monitor.Sound Recorded Held p.config
  /-- the task that `stop()` awaits is its `stop_run` -/
  awaited : ∀ t, p.stopping = .awaiting t → t < p.config.tasks.length ∧
    ∀ op, p.config.Pending t op → op = .stopRun .userStop
  inactive : p.drained = true → p.config.shared.supervisor.runState.isActive = false

theorem recorded_of_sound {c : Config} (h : Monitor.Sound Recorded Held c) : Recorded c.shared := by
  rcases ho : c.owner with _ | i
  · exact h.atRest ho
  · rw [Monitor.Sound, ho] at h
    obtain ⟨sec, -, hheld, -⟩ := h
    exact hheld.1

theorem drained_awaiting {t : ℕ} (h : p.stopping = .awaiting t) :
    p.drained = true ↔ ∀ op, ¬ p.config.Pending t op := by
  rw [Process.drained, h]
  simp only [Monitor.Config.Pending]
  rcases ht : p.config.tasks[t]? with _ | (op | op | sec | _) <;> simp

/-- A process at its end has nothing that is not stopped. -/
theorem Sane.noOrphan (h : Sane p) : NoOrphan p := by
  have hrec := recorded_of_sound h.sound
  refine ⟨hrec.orphans, fun hdone => hrec.inactive (h.inactive ?_)⟩
  rw [Process.drained, hdone.stopped]

/-- A step keeps inactive what is drained. -/
theorem inactive_step {c c' : Config} {l : Monitor.Label Op Ending Env}
    (hsound : Monitor.Sound Recorded Held c)
    (hin : c.shared.supervisor.runState.isActive = false)
    (hop : ∀ op ∈ monitor.letsIn c l, Supervisor.EnableFindsRun c.shared.supervisor op ∧
      (op = .startRun → c.shared.supervisor.runState ≠ .offline))
    (hs : monitor.step c l = some c') : c'.shared.supervisor.runState.isActive = false := by
  rcases Monitor.shared_of_letsIn hs with heq | ⟨op, hlet, heq⟩ | ⟨i, sec, e, r, -, ht, hr, heq⟩ |
    ⟨e, -, he⟩
  · rw [heq]
    exact hin
  · rw [heq]
    exact inactive_enter hin (hop op hlet).1 (hop op hlet).2
  · obtain rfl := Option.some.inj hr
    rw [heq]
    exact inactive_goOn (hsound.owning ht).2.1.2 hin e
  · rw [← Option.some.inj he]
    exact (isActive_react c.shared.supervisor e).trans hin

theorem EnableFindsRun.of_mayEnter {op : Op} (h : MayEnter p op) :
    Supervisor.EnableFindsRun p.config.shared.supervisor op := by
  cases op with
  | enableTarget id => exact h
  | startRun | stopRun _ | disableTarget _ _ => trivial

/-- **A step of the supervisor**. -/
theorem Sane.run {l : Monitor.Label Op Ending Env} {c : Config} (h : Sane p)
    (hok : Orderly p (.run l)) (hs : monitor.step p.config l = some c) :
    Sane { p with config := c } := by
  obtain ⟨henter, hres⟩ := hok
  have hsound : Monitor.Sound Recorded Held c :=
    rule.sound_step h.sound (Monitor.guard_of_letsIn
      (fun op hop => EnableFindsRun.of_mayEnter (henter op hop)) hres) hs
  have hkeep : p.drained = true → c.shared.supervisor.runState.isActive = false := fun hd =>
    inactive_step h.sound (h.inactive hd) (fun op hop =>
      ⟨EnableFindsRun.of_mayEnter (henter op hop), by
        rintro rfl
        exact henter _ hop hd⟩) hs
  have hold : ∀ t op, t < p.config.tasks.length → c.Pending t op → p.config.Pending t op :=
    fun t op hlt => Monitor.pending_of_step_lt hs hlt
  refine ⟨hsound, fun t ht => ?_, fun hd => ?_⟩
  · obtain ⟨hlt, honly⟩ := h.awaited t ht
    exact ⟨hlt.trans_le (Monitor.length_step hs), fun op hp => honly op (hold t op hlt hp)⟩
  · rcases hstop : p.stopping with _ | t | _
    · rw [Process.drained, hstop] at hd
      cases hd
    · by_cases hdrained : p.drained = true
      · exact hkeep hdrained
      · -- the `stop_run` was let in by this step
        rw [drained_awaiting hstop, not_forall] at hdrained
        obtain ⟨op, hop⟩ := hdrained
        rw [not_not] at hop
        obtain rfl := (h.awaited t hstop).2 op hop
        rw [drained_awaiting (p := { p with config := c }) hstop] at hd
        rcases Monitor.pending_or_entered hop hs with hp | hno | heq
        · exact absurd hp (hd _)
        · cases hno
        · dsimp only
          rw [heq]
          exact inactive_stopRun _ _
    · exact hkeep (by rw [Process.drained, hstop])

/-- **`stop()` is called**. -/
theorem Sane.stop (h : Sane p) : Sane p.stop := by
  rw [Process.stop]
  dsimp only
  split
  · rename_i hrest
    refine ⟨h.sound, nofun, fun _ => ?_⟩
    rcases hrest with hst | hst <;> dsimp only <;> rw [hst] <;> rfl
  · -- the call and the first step of the task
    let c : Config := { p.config with tasks := p.config.tasks ++ [.called (.stopRun .userStop)] }
    have ht : c.tasks[p.config.tasks.length]? = some (.called (.stopRun .userStop)) := by
      simp [c]
    have hs : monitor.step c (.start p.config.tasks.length) =
        some (monitor.start c p.config.tasks.length (.stopRun .userStop)) := by
      rw [Monitor.step, ht]
    have hlt : p.config.tasks.length < c.tasks.length := by simp [c]
    have honly : ∀ op, c.Pending p.config.tasks.length op → op = .stopRun .userStop := by
      rintro op (hp | hp) <;> rw [ht] at hp
      · injection Option.some.inj hp with heq
        exact heq.symm
      · cases Option.some.inj hp
    refine ⟨rule.sound_step (a := .start _) (h.sound.call (.stopRun .userStop)) trivial hs, ?_,
      fun hd => ?_⟩
    · intro t hstop
      obtain rfl := Stopping.awaiting.inj hstop
      exact ⟨hlt.trans_le (Monitor.length_step hs), fun op hp =>
        honly op (Monitor.pending_of_step_lt hs hlt hp)⟩
    · rw [drained_awaiting rfl] at hd
      rcases Monitor.pending_or_entered (.inl ht) hs with hp | hno | heq
      · exact absurd hp (hd _)
      · cases hno
      · dsimp only
        rw [heq]
        exact inactive_stopRun _ _

/-- **A task is cancelled** before it has the lock: not the one that `stop()` awaits. -/
theorem Sane.dismiss {i : ℕ} {op : Op} (h : Sane p) (hstop : ∀ t, p.stopping ≠ .awaiting t)
    (hp : p.config.Pending i op) : Sane { p with config := dismiss p.config i } := by
  refine ⟨?_, fun t ht => absurd ht (hstop t), fun hd => h.inactive ?_⟩
  · exact h.sound.set_outside hp.not_inside fun sec heq => by cases heq
  · rcases hs : p.stopping with _ | t | _
    · rw [Process.drained, hs] at hd
      cases hd
    · exact absurd hs (hstop t)
    · rw [Process.drained, hs]

/-- **One step** of the process. -/
theorem sane_step {l : Label} (h : Sane p) (hok : Orderly p l) (hs : step p l = some p') :
    Sane p' := by
  cases l with
  | run l =>
    obtain ⟨c, hc, rfl⟩ := Option.map_eq_some_iff.mp hs
    exact h.run hok hc
  | cancel i =>
    rw [step] at hs
    split at hs
    · cases hs
    · rename_i op ht hno
      obtain rfl := Option.some.inj hs
      exact h.dismiss hno (.inl ht)
    · rename_i op ht hno
      obtain rfl := Option.some.inj hs
      exact h.dismiss hno (.inr ht)
    · cases hs
  | stop =>
    rw [step] at hs
    split at hs
    · obtain rfl := Option.some.inj hs
      exact h.stop
    · cases hs
  | stopReturns =>
    rw [step] at hs
    split at hs
    · rename_i t hstop
      split at hs
      · rename_i hfin
        obtain rfl := Option.some.inj hs
        refine ⟨h.sound, nofun, fun _ => h.inactive ?_⟩
        rw [Process.drained, hstop]
        simp only [hfin]
      · cases hs
    · cases hs

end Process

/-- **No orphan worker**, in every state of every run in which no spawn raises after
its `worker.start()`, an `enable_target` is let in during a run only, and no
`start_run` is let in after `stop()` has drained. -/
theorem no_orphan_worker (url : Text) (registry : CredentialRegistry) (keys : Option DerivedKeys)
    (db : Database) (labels : List Label)
    (h : machine.Meets Orderly (boot url registry keys db) labels) :
    machine.Always NoOrphan (boot url registry keys db) labels := by
  refine Machine.always_of_inv (I := Sane) ?_ ?_ ?_ h
  · intro p l p' hsane hok hs
    exact sane_step hsane hok hs
  · exact fun p hsane => hsane.noOrphan
  · exact ⟨Monitor.sound_idle (recorded_of_nil rfl rfl), nofun, nofun⟩

/-! ## Workers that nobody stops -/

section Orphan

/-- One enabled Twitch target with a stream key, and key material that is READY. -/
def shutdownBoot : Process :=
  boot "rtmp://127.0.0.1/live/k".toList .empty
    (some (deriveKeys "passphrase".toList [1])) Supervisor.leakDb

/-- A `start_run` up to the await of `worker.start()`. -/
def shutdownStart : List Label :=
  (.run (.start 0)) :: List.replicate 4 (.run (.resume 0 (.came .ok)))

/-- START was pressed just before the process ends: its task runs when `stop()` has
seen OFFLINE and `run()` is gone, and it leaves a worker to nobody. -/
theorem start_task_outlives_shutdown :
    ∃ p, machine.run shutdownBoot
      ([.run (.call .startRun), .stop, .run (.external (.setSuperTg false))] ++ shutdownStart ++
        List.replicate 2 (.run (.resume 0 (.came .ok)))) = some p ∧
      Completed p ∧ ¬ NoOrphan p := by
  refine ⟨_, rfl, ⟨rfl, rfl, fun ph hmem => List.mem_singleton.mp hmem⟩, fun h => ?_⟩
  exact List.cons_ne_nil _ _ h.1

/-- The same START in time. -/
theorem no_orphan_worker_in_time :
    machine.Always NoOrphan shutdownBoot
      ([.run (.call .startRun)] ++ shutdownStart ++
        List.replicate 2 (.run (.resume 0 (.came .ok))) ++ [.stop] ++
        List.replicate 3 (.run (.resume 1 (.came .ok))) ++
        [.stopReturns, .run (.external (.setSuperTg false))]) :=
  no_orphan_worker _ _ _ _ _ (by decide +kernel)

end Orphan

end Shutdown

end RestreamPlus
