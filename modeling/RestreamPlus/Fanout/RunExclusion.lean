import RestreamPlus.Fanout.SupervisorInvariant

/-!
# Workers exist only during a run

`enable_target` reads the run state before it queues for the lock and spawns
after it got it. What is in front of it in the queue may be a `stop_run`, and
then the spawn happens in OFFLINE: `enable_after_stop` is such a run.

That is the only way. Along every run in which an `enable_target` that waited is
let in during a run, and in which no stop of a worker raises, an OFFLINE
supervisor with a free lock has no worker, no registered key and no index
entry, and a worker is only ever spawned in STARTING, ARMED or LIVE.
-/

namespace RestreamPlus

open Interleaving WorkerIndex

namespace Supervisor

/-- A configuration of the supervisor and the tasks that use it. -/
abbrev Config : Type := Monitor.Config Supervisor Op Section

/-- What the scheduler and the environment do next. -/
abbrev Label : Type := Monitor.Label Op Outcome Env

/-- Freshly constructed, with nothing scheduled. -/
def boot (url : Text) (registry : CredentialRegistry) (keys : Option DerivedKeys)
    (db : Database) : Config :=
  Monitor.idle (init url registry keys db)

/-- An `enable_target` is let in during a run only. -/
def EnableFindsRun (s : Supervisor) (op : Op) : Prop := Admitted (fun st => st.isActive = true) s op

instance (s : Supervisor) (op : Op) : Decidable (EnableFindsRun s op) :=
  match op with
  | .enableTarget _ => inferInstanceAs (Decidable (s.runState.isActive = true))
  | .startRun => .isTrue trivial
  | .stopRun _ => .isTrue trivial
  | .disableTarget _ _ => .isTrue trivial

/-- No stop of a teardown of all workers raises. -/
def StopsReturn (_ : Supervisor) : Section → Outcome → Prop
  | .rollingBack _, .raised => False
  | .draining _ _, .raised => False
  | _, _ => True

instance (s : Supervisor) (sec : Section) (out : Outcome) : Decidable (StopsReturn s sec out) := by
  unfold StopsReturn
  split <;> infer_instance

/-- An OFFLINE supervisor whose lock is free has no workers. -/
def OfflineIsEmpty (c : Config) : Prop :=
  c.owner = none → c.shared.runState = .offline → c.shared.toWorkerIndex.Empty

/-- A worker that was created and is being started was created during a run. -/
def SpawnsInRun (c : Config) : Prop :=
  ∀ (i : ℕ) caller r key w roles,
    c.tasks[i]? = some (.inside (.workerStarting caller r key w roles)) →
      c.shared.runState.isActive = true

theorem kept_offlineEmpty :
    Kept (fun _ => True) Empty (fun st => st.isActive = true) StopsReturn where
  busy_of_idle _ _ := trivial
  idle_of_empty _ h := h
  act_active _ h := h
  act_obs := by decide
  add_busy _ _ _ _ _ _ _ _ _ := trivial
  add_idle st _ _ _ _ _ _ _ hact hrest := by
    rcases hrest with rfl | rfl <;> cases hact
  sets_busy _ _ _ := trivial
  sets_idle st _ _ hact hrest := by
    rcases hrest with rfl | rfl <;> cases hact
  drop_started s _ _ _ w _ _ _ _ hsome := by
    refine ⟨fun _ => trivial, fun he => ?_⟩
    rw [he.workers_none w] at hsome
    cases hsome
  drop_stopped s _ w _ _ _ hsome := by
    refine ⟨fun _ => trivial, fun he => ?_⟩
    rw [he.workers_none w] at hsome
    cases hsome
  rollingBack_raised _ _ h := h.elim
  draining_raised _ _ _ h := h.elim

/-- **Run and worker exclusion**, for every interleaving in which no
`enable_target` is let in after the run it was admitted in. -/
theorem workers_only_in_runs (url : Text) (registry : CredentialRegistry)
    (keys : Option DerivedKeys) (db : Database) (labels : List Label)
    (h : monitor.machine.Meets (Monitor.guard EnableFindsRun StopsReturn)
      (boot url registry keys db) labels) :
    monitor.machine.Always (fun c => OfflineIsEmpty c ∧ SpawnsInRun c)
      (boot url registry keys db) labels := by
  have rule : monitor.Rule (Free registry.snapshot (fun _ => True) Empty) _ _ _ :=
    kept_offlineEmpty.rule
  have hinit := free_init (fun _ => True) Empty (fun _ _ => trivial) (fun _ he => he)
    url registry keys db
  refine rule.always (fun c hs => ?_) (Monitor.sound_idle hinit) h
  refine ⟨fun howner hoff => (hs.atRest howner).rests (.inl hoff), ?_⟩
  intro i caller r key w roles ht
  obtain ⟨-, hheld, -⟩ := hs.owning ht
  obtain ⟨-, -, hcaller⟩ := hheld.at_section
  cases caller with
  | startRun rest =>
    rw [show c.shared.runState = .starting from hcaller]
    rfl
  | enableTarget => exact hcaller.2

/-! ## A run that leaks a worker -/

section Leak

/-- One enabled Twitch target with a stream key. -/
def leakDb : Database where
  targets := Dict.empty.insert 7
    ⟨.twitch, "main".toList, "rtmp://live.twitch.tv/app".toList, true, ∅⟩
  credentials := Dict.empty.insert 7
    ⟨1, .persistent, encryptCredential (deriveKeys "passphrase".toList [1]).streamKeyKek [2] [3]
      "live_0123456789".toList, [2], [3], "6789".toList⟩
  history := ∅

/-- Start with no targets configured. -/
def leakStart : List Label :=
  [.call .startRun, .start 0, .resume 0 .ok, .resume 0 .ok, .resume 0 .ok, .resume 0 .ok,
    .external (.commit leakDb)]

/-- While another operation holds the lock, a stop and then an enable queue up;
both are let in in this order. -/
def leakQueue : List Label :=
  [.call (.enableTarget 9), .start 1, .call (.stopRun .userStop), .start 2,
    .call (.enableTarget 7), .start 3, .resume 1 .ok, .grant, .resume 2 .ok, .resume 2 .ok,
    .grant, .resume 3 .ok, .resume 3 .ok, .resume 3 .ok]

/-- The initial configuration of the run. -/
def leakBoot : Config :=
  boot "rtmp://127.0.0.1/live/k".toList .empty
    (some (deriveKeys "passphrase".toList [1])) Database.empty

/-- An `enable_target` admitted in ARMED and queued behind a `stop_run` spawns
its worker in OFFLINE. -/
theorem enable_after_stop :
    ∃ c, monitor.machine.run leakBoot (leakStart ++ leakQueue) = some c ∧ c.owner = none ∧
      c.shared.runState = .offline ∧ ¬ c.shared.toWorkerIndex.Empty := by
  refine ⟨_, rfl, rfl, rfl, ?_⟩
  decide

/-- The same with the enable in front of the stop leaks nothing. -/
theorem workers_only_in_runs_enable_first :
    monitor.machine.Always (fun c => OfflineIsEmpty c ∧ SpawnsInRun c) leakBoot
      (leakStart ++ [.call (.enableTarget 9), .start 1, .call (.enableTarget 7), .start 2,
        .call (.stopRun .userStop), .start 3, .resume 1 .ok, .grant, .resume 2 .ok,
        .resume 2 .ok, .resume 2 .ok, .grant, .resume 3 .ok, .resume 3 .ok, .resume 3 .ok]) :=
  workers_only_in_runs _ _ _ _ _ (by decide)

end Leak

end Supervisor

end RestreamPlus
