import RestreamPlus.Fanout.Sequential
import RestreamPlus.Fanout.SupervisorFrame

/-!
# Getting back to OFFLINE

`start_run` ends in ERROR when anything raises, "so the user must clear it". The
transition table has the action for that, `ERROR_CLEARED`, and no method of the
supervisor issues it: `start_run` and `enable_target` raise in ERROR, `stop_run`
returns, and `disable_target`, `reset_target_worker` and the notifications leave
the run state alone (`error_is_a_trap`).

From every other state in which the supervisor can be left, one `stop_run` is
enough, whatever went wrong before: `leaves_failure_iff`.
-/

namespace RestreamPlus

open Interleaving

namespace Supervisor

/-! ## ERROR -/

/-- The run is in ERROR, and an operation on a single target is under way at most. -/
def Stuck (r : Supervisor × Option Section) : Prop :=
  r.1.runState = .error ∧ ∀ sec ∈ r.2, OfTarget sec

theorem OnTarget.stuck {s : Supervisor} {r : Supervisor × Option Section} (h : OnTarget s r)
    (he : s.runState = .error) : Stuck r :=
  ⟨h.runState.trans he, h.next⟩

theorem stuck_enter {s : Supervisor} (op : Op) (h : s.runState = .error) : Stuck (s.enter op) := by
  cases op with
  | startRun =>
    rw [enter, startRun, if_neg (by rw [h]; simp)]
    exact (onTarget_return s).stuck h
  | stopRun reason =>
    rw [enter, stopRun, if_pos (.inr (.inr h))]
    exact (onTarget_return s).stuck h
  | enableTarget id => exact (onTarget_enableTarget s id).stuck h
  | disableTarget id reversed => exact (onTarget_stopNext s id _).stuck h

theorem settled_of_stuck {r : Supervisor × Option Section} (h : Stuck r) :
    Monitor.Settled (fun s => s.runState = .error)
      (fun s sec => s.runState = .error ∧ OfTarget sec) r := by
  obtain ⟨s, _ | sec⟩ := r
  · exact h.1
  · exact ⟨h.1, h.2 sec rfl⟩

theorem error_react {s : Supervisor} (e : Env) (h : s.runState = .error) :
    (s.react e).runState = .error := by
  obtain ⟨-, heq | ⟨hst, -⟩ | ⟨hst, -⟩⟩ := react_spec s e
  · rw [heq, h]
  · rw [h] at hst
    cases hst
  · rw [h] at hst
    cases hst

/-- Nothing leads out of ERROR. -/
theorem error_rule : monitor.Rule (fun s => s.runState = .error)
    (fun s sec => s.runState = .error ∧ OfTarget sec) (fun _ _ => True) fun _ _ _ => True where
  admitted _ _ _ _ := trivial
  enter s op h _ := settled_of_stuck (stuck_enter op h)
  resume s sec out r h _ hr := by
    obtain rfl := Option.some.inj hr
    exact settled_of_stuck ((onTarget_continueFrom s out h.2).stuck h.1)
  external_free s e s' h he := by
    obtain rfl := Option.some.inj he
    exact error_react e h
  external_held s sec e s' h he := by
    obtain rfl := Option.some.inj he
    exact ⟨error_react e h.1, h.2⟩

/-! ## Recovery -/

/-- No operation is in flight. -/
def Quiet (c : Config) : Prop :=
  c.owner = none ∧ c.queue = [] ∧ ∀ p ∈ c.tasks, p = .finished

/-- A public operation is called or goes on; the database, the keys and the task
group of the process are not the supervisor's to change. -/
def IsPublic : Label → Prop
  | .external (.commit _) | .external (.setKeys _) | .external (.setSuperTg _) => False
  | _ => True

/-- Public operations lead to OFFLINE, where a further `start_run` is accepted. -/
def Recoverable (c : Config) : Prop :=
  ∃ labels c', (∀ l ∈ labels, IsPublic l) ∧ monitor.machine.run c labels = some c' ∧ Quiet c' ∧
    c'.shared.runState = .offline ∧ c'.shared.startRun.2 = some .opening

/-- **ERROR is a trap**, for every sequence of steps and not only for the public ones. -/
theorem error_is_a_trap {c c' : Config} {labels : List Label} (hq : Quiet c)
    (he : c.shared.runState = .error) (hr : monitor.machine.run c labels = some c') :
    c'.shared.runState = .error := by
  have hsound : Monitor.Sound (fun s : Supervisor => s.runState = .error)
      (fun s sec => s.runState = .error ∧ OfTarget sec) c := by
    rw [Monitor.Sound, hq.1]
    refine ⟨he, fun i sec hi => ?_⟩
    cases hq.2.2 _ (List.mem_of_getElem? hi)
  have hok : monitor.machine.Meets (Monitor.guard (fun _ _ => True) fun _ _ _ => True) c labels :=
    Machine.meets_of_forall
      (Monitor.guard_of_forall (fun _ _ => trivial) fun _ _ _ => trivial) c labels
  suffices hall : monitor.machine.Always (fun c => c.shared.runState = .error) c labels from
    Machine.always_last (P := fun c : Config => c.shared.runState = .error) hall hr
  refine error_rule.always (fun c h => ?_) hsound hok
  unfold Monitor.Sound at h
  split at h
  · exact h.1
  · obtain ⟨sec, -, hheld, -⟩ := h
    exact hheld.1

/-- Whatever happened, a supervisor with no operation in flight is in one of four states. -/
theorem stable_of_quiet {url : Text} {registry : CredentialRegistry} {keys : Option DerivedKeys}
    {db : Database} {labels : List Label} {c : Config}
    (hr : monitor.machine.run (boot url registry keys db) labels = some c) (hq : Quiet c) :
    Stable c.shared.runState := by
  have kept : Kept (fun _ => True) (fun _ => True) (fun _ => True) fun _ _ _ => True :=
    kept_trivial (fun _ _ => trivial) Iff.rfl
  have rule : monitor.Rule (Free registry.snapshot (fun _ => True) fun _ => True) _ _ _ := kept.rule
  have hinit := free_init (fun _ => True) (fun _ => True) (fun _ _ => trivial) (fun _ _ => trivial)
    url registry keys db
  have hok : monitor.machine.Meets (Monitor.guard (Admitted fun _ => True) fun _ _ _ => True)
      (boot url registry keys db) labels :=
    Machine.meets_of_forall (Monitor.guard_of_forall (fun s op => by cases op <;> trivial)
      fun _ _ _ => trivial) _ _
  have hall : monitor.machine.Always (fun c => c.owner = none → Stable c.shared.runState)
      (boot url registry keys db) labels :=
    rule.always (fun c hs ho => (hs.atRest ho).stable) (Monitor.sound_idle hinit) hok
  exact Machine.always_last hall hr hq.1

/-- A `stop_run` by itself, from any state of an active run. -/
theorem recoverable_of_active {c : Config} (hq : Quiet c)
    (hst : c.shared.runState.isActive = true) : Recoverable c := by
  obtain ⟨s, owner, queue, tasks⟩ := c
  obtain ⟨rfl, rfl, hfin⟩ := hq
  obtain ⟨x, db, hstop⟩ := completes_stopRun (s := s) .userStop hst
  obtain ⟨n, hn⟩ := (hstop _).mpr rfl
  have halone : monitor.alone .ok n s (.stopRun .userStop) = some { s with
      toWorkerIndex := x, runState := .offline, currentRunId := none, db := db } := hn
  obtain ⟨labels, hown, hrun⟩ := Monitor.run_of_alone halone
  refine ⟨labels, _, fun l hl => ?_, hrun, ⟨rfl, rfl, fun p hp => ?_⟩, rfl, rfl⟩
  · have hl := hown l hl
    cases l with
    | external e => exact hl.elim
    | call op | start i | grant | resume i out => trivial
  · rcases List.mem_append.mp hp with hp | hp
    · exact hfin p hp
    · exact List.mem_singleton.mp hp

/-- **Exactly which failures are recoverable.** After any run of the supervisor,
with any interleaving and anything raising, and with no operation in flight, the
public operations lead back to OFFLINE and to a `start_run` that is accepted if and
only if the run state is not ERROR. -/
theorem leaves_failure_iff {url : Text} {registry : CredentialRegistry} {keys : Option DerivedKeys}
    {db : Database} {labels : List Label} {c : Config}
    (hr : monitor.machine.run (boot url registry keys db) labels = some c) (hq : Quiet c) :
    Recoverable c ↔ c.shared.runState ≠ .error := by
  constructor
  · rintro ⟨more, c', -, hrun, -, hoff, -⟩ herror
    rw [error_is_a_trap hq herror hrun] at hoff
    cases hoff
  · intro hne
    rcases stable_of_quiet hr hq with (hoff | herror) | harmed | hlive
    · refine ⟨[], c, fun _ h => absurd h List.not_mem_nil, rfl, hq, hoff, ?_⟩
      rw [startRun, if_pos hoff, setRunState, hoff]
      rfl
    · exact absurd herror hne
    · exact recoverable_of_active hq (by rw [harmed]; rfl)
    · exact recoverable_of_active hq (by rw [hlive]; rfl)

/-- The only task has finished. -/
theorem quiet_of_finished {c : Config} (ho : c.owner = none) (hq : c.queue = [])
    (ht : c.tasks = [.finished]) : Quiet c := by
  refine ⟨ho, hq, fun p hp => ?_⟩
  rw [ht] at hp
  exact List.mem_singleton.mp hp

/-- A supervisor on an empty database. -/
def emptyBoot : Config :=
  boot [] .empty (some (deriveKeys [] [])) Database.empty

/-- A run is started and OBS begins to publish. -/
def goLive : List Label :=
  [.call .startRun, .start 0, .resume 0 .ok, .resume 0 .ok, .resume 0 .ok, .resume 0 .ok,
    .external .notifyObsPublishBegan]

theorem leaves_failure_live : ∃ c, monitor.machine.run emptyBoot goLive = some c ∧
    c.shared.runState = .live ∧ Recoverable c := by
  have hr : monitor.machine.run emptyBoot goLive = some _ := rfl
  exact ⟨_, hr, rfl, (leaves_failure_iff hr (quiet_of_finished rfl rfl rfl)).mpr nofun⟩

/-- The insert of the run row raises once: the supervisor never starts a run again. -/
theorem failed_start_is_final :
    ∃ c, monitor.machine.run emptyBoot [.call .startRun, .start 0, .resume 0 .raised] = some c ∧
      Quiet c ∧ ¬ Recoverable c := by
  have hr : monitor.machine.run emptyBoot [.call .startRun, .start 0, .resume 0 .raised] =
    some _ := rfl
  refine ⟨_, hr, quiet_of_finished rfl rfl rfl, ?_⟩
  rintro ⟨more, c', -, hrun, -, hoff, -⟩
  rw [error_is_a_trap (quiet_of_finished rfl rfl rfl) rfl hrun] at hoff
  cases hoff

end Supervisor

end RestreamPlus
