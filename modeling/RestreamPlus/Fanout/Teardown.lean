import RestreamPlus.Fanout.Sequential
import RestreamPlus.Lib.Passage
import RestreamPlus.Lib.TaskGroup

/-!
# A teardown whose stops fail

`_tear_down_all_workers` awaits the stops of all workers in one task group, and
forgets the workers only after the group. A stop that raises cancels the others
and makes the group raise, which `stop_run` suppresses until its end: it reaches
OFFLINE with the workers still there.

`teardown_survives_iff` follows a `stop_run` of any reachable active state, with
any cleanup step failing and any other code running beside it: it leaves every
other stop finished, nothing behind and a supervisor that starts again if and
only if no stop raises.
-/

namespace RestreamPlus

open Interleaving WorkerIndex

namespace Supervisor

/-- What the group of stops does to the teardown. -/
def stopsOutcome (g : TaskGroup) : Outcome := if g.Raises then .raised else .ok

/-- The teardown of `stop_run` comes back with this, any other await as it likes. -/
def DrainsAs (drained : Outcome) : Section → Outcome → Prop
  | .draining _ _, out => out = drained
  | _, _ => True

/-- Where `stop_run` may be suspended. -/
def StopSection : Section → Prop
  | .draining _ _ | .wiping _ _ | .auditingWipe _ _ | .closing _ _ | .auditingStop => True
  | _ => False

/-- A `start_run` in which nothing fails spawns a worker for every role of every
enabled target that has a credential. -/
def Restarts (t : Supervisor) : Prop :=
  ∀ derived, t.keyMaterial = some derived → t.superTg = true →
    (∀ e ∈ t.db.listEnabled,
      SpawnSucceeds t.toWorkerIndex (readTarget t.db derived.streamKeyKek e)) →
    ∃ t', Completes (t.enter .startRun) t' ∧
      ∀ w, expected t.db w = true → t.workers.get? w = none ∧ (t'.workers.get? w).isSome

/-- What a teardown should leave, whatever the stops did. -/
structure Survives (g : TaskGroup) (t : Supervisor) : Prop where
  /-- a stop that did not raise ran to its end -/
  completed : ∀ child ∈ g.children, child ≠ .raised → child = .returned
  empty : t.toWorkerIndex.Empty
  offline : t.runState = .offline
  restarts : Restarts t

/-! ## The sections of `stop_run` -/

theorem stopSection_afterWipe (s : Supervisor) (reason : EndReason) :
    ∃ sec, (s.afterWipe reason).2 = some sec ∧ StopSection sec := by
  rw [afterWipe, closeRunSession]
  rcases s.currentRunId with _ | run
  · exact ⟨_, rfl, trivial⟩
  · exact ⟨_, rfl, trivial⟩

theorem stopSection_auditWipe (s : Supervisor) (cleared : List TargetId) (reason : EndReason) :
    ∃ sec, (s.auditWipe cleared reason).2 = some sec ∧ StopSection sec := by
  cases cleared with
  | nil => exact stopSection_afterWipe s reason
  | cons id rest => exact ⟨_, rfl, trivial⟩

theorem stopSection_afterDrain (s : Supervisor) (reason : EndReason) :
    ∃ sec, (s.afterDrain reason).2 = some sec ∧ StopSection sec := by
  rw [afterDrain]
  split
  · exact stopSection_afterWipe s reason
  · exact ⟨_, rfl, trivial⟩

/-- `stop_run` returns from its last audit row only. -/
theorem stopSection_continueFrom (s : Supervisor) {sec : Section} (hsec : StopSection sec)
    (out : Outcome) : sec = .auditingStop ∧ s.continueFrom sec out = (s, none) ∨
      ∃ sec', (s.continueFrom sec out).2 = some sec' ∧ StopSection sec' := by
  cases sec with
  | draining ws reason =>
    cases out with
    | ok => exact .inr (stopSection_afterDrain _ reason)
    | raised => exact .inr (stopSection_afterDrain s reason)
  | wiping ids reason =>
    cases out with
    | ok => exact .inr (stopSection_auditWipe _ _ reason)
    | raised => exact .inr (stopSection_afterWipe s reason)
  | auditingWipe rest reason =>
    cases out with
    | ok => exact .inr (stopSection_auditWipe s rest reason)
    | raised => exact .inr (stopSection_afterWipe s reason)
  | closing run reason => cases out <;> exact .inr ⟨_, rfl, trivial⟩
  | auditingStop => exact .inl ⟨rfl, rfl⟩
  | _ => exact hsec.elim

/-! ## The workers stay -/

theorem toWorkerIndex_setRunState (s : Supervisor) (a : RunAction) :
    ((s.setRunState a).getD s).toWorkerIndex = s.toWorkerIndex := by
  rcases hs : s.setRunState a with _ | s'
  · rfl
  · obtain ⟨st, -, rfl⟩ := setRunState_eq_some hs
    rfl

theorem toWorkerIndex_afterWipe (s : Supervisor) (reason : EndReason) :
    (s.afterWipe reason).1.toWorkerIndex = s.toWorkerIndex := by
  rw [afterWipe, closeRunSession]
  rcases s.currentRunId with _ | run
  · exact toWorkerIndex_setRunState _ _
  · rfl

theorem toWorkerIndex_auditWipe (s : Supervisor) (cleared : List TargetId) (reason : EndReason) :
    (s.auditWipe cleared reason).1.toWorkerIndex = s.toWorkerIndex := by
  cases cleared with
  | nil => exact toWorkerIndex_afterWipe s reason
  | cons id rest => rfl

theorem toWorkerIndex_afterDrain (s : Supervisor) (reason : EndReason) :
    (s.afterDrain reason).1.toWorkerIndex = s.toWorkerIndex := by
  rw [afterDrain]
  split
  · exact toWorkerIndex_afterWipe s reason
  · rfl

/-- Only a teardown that comes back drops workers. -/
theorem toWorkerIndex_continueFrom (s : Supervisor) {sec : Section} (hsec : StopSection sec)
    {out : Outcome} (hout : DrainsAs .raised sec out) :
    (s.continueFrom sec out).1.toWorkerIndex = s.toWorkerIndex := by
  cases sec with
  | draining ws reason =>
    obtain rfl : out = .raised := hout
    exact toWorkerIndex_afterDrain s reason
  | wiping ids reason =>
    cases out with
    | ok => exact toWorkerIndex_auditWipe _ _ reason
    | raised => exact toWorkerIndex_afterWipe s reason
  | auditingWipe rest reason =>
    cases out with
    | ok => exact toWorkerIndex_auditWipe s rest reason
    | raised => exact toWorkerIndex_afterWipe s reason
  | closing run reason => cases out <;> exact toWorkerIndex_setRunState _ _
  | auditingStop => rfl
  | _ => exact hsec.elim

/-- On the way of a `stop_run` with these workers. -/
def Keeps (x : WorkerIndex) (s : Supervisor) (sec : Option Section) : Prop :=
  s.toWorkerIndex = x ∧ ∀ sec', sec = some sec' → StopSection sec'

theorem keeps_some {x : WorkerIndex} {s : Supervisor} {sec : Section} (hindex : s.toWorkerIndex = x)
    (hsec : StopSection sec) : Keeps x s (some sec) := by
  refine ⟨hindex, fun sec' h => ?_⟩
  obtain rfl := Option.some.inj h
  exact hsec

theorem keeps_continueFrom {x : WorkerIndex} {s : Supervisor} {sec : Section} {out : Outcome}
    (h : Keeps x s (some sec)) (hout : DrainsAs .raised sec out) :
    Keeps x (s.continueFrom sec out).1 (s.continueFrom sec out).2 := by
  have hsec : StopSection sec := h.2 sec rfl
  have hindex := (toWorkerIndex_continueFrom s hsec hout).trans h.1
  rcases stopSection_continueFrom s hsec out with ⟨-, hend⟩ | ⟨sec', hnext, hstop⟩
  · rw [hend]
    exact ⟨h.1, fun sec' hnone => by cases hnone⟩
  · rw [hnext]
    exact keeps_some hindex hstop

/-- **A teardown that raised leaves every worker.** -/
theorem toWorkerIndex_of_raised {s t : Supervisor} {sec : Section} (hsec : StopSection sec)
    (h : monitor.Passes (DrainsAs .raised) (s, some sec) t) : t.toWorkerIndex = s.toWorkerIndex := by
  have hkeep : Keeps s.toWorkerIndex t none := by
    refine h.rule ?_ ?_ (keeps_some rfl hsec)
    · intro s₁ sec₁ e s₂ hk he
      obtain rfl := Option.some.inj he
      exact ⟨(react_spec s₁ e).1.trans hk.1, hk.2⟩
    · intro s₁ sec₁ out r hk hR hr
      obtain rfl := Option.some.inj hr
      exact keeps_continueFrom hk hR
  exact hkeep.1

/-! ## The workers go -/

section Drained

variable {base : Finset Text}

/-- Without workers a rest is a rest: the assertions of the monitor rule. -/
abbrev AtStop (base : Finset Text) (s : Supervisor) : Option Section → Prop
  | none => Free base (fun _ => True) Empty s ∧ s.runState = .offline
  | some sec => StopSection sec ∧
      Held base (fun _ => True) Empty (fun st => st.isActive = true) s sec

/-- **A teardown that came back leaves nothing**, in OFFLINE. -/
theorem atStop_of_ok {s t : Supervisor} {sec : Section} (h : AtStop base s (some sec))
    (hp : monitor.Passes (DrainsAs .ok) (s, some sec) t) : AtStop base t none := by
  have rule : monitor.Rule (Free base (fun _ => True) Empty) _ _ _ := kept_offlineEmpty.rule
  refine hp.rule (I := AtStop base) ?_ ?_ h
  · rintro s₁ sec₁ e s₂ ⟨hstop, hheld⟩ he
    exact ⟨hstop, rule.external_held s₁ sec₁ e s₂ hheld he⟩
  · rintro s₁ sec₁ out r ⟨hstop, hheld⟩ hR hr
    have hreturns : StopsReturn s₁ sec₁ out := by
      cases sec₁ with
      | draining ws reason =>
        obtain rfl : out = .ok := hR
        trivial
      | rollingBack ws => exact hstop.elim
      | _ => trivial
    have hset := rule.resume s₁ sec₁ out r hheld hreturns hr
    obtain rfl := Option.some.inj hr
    rcases stopSection_continueFrom s₁ hstop out with ⟨rfl, hend⟩ | ⟨sec₂, hnext, hstop₂⟩
    · rw [hend] at hset ⊢
      exact ⟨hset, hheld.at_section.1⟩
    · rcases hr : s₁.continueFrom sec₁ out with ⟨s₂, next⟩
      rw [hr] at hset hnext
      obtain rfl : next = some sec₂ := hnext
      exact ⟨hstop₂, hset⟩

/-- An active supervisor begins to stop. -/
theorem stopRun_spec {s : Supervisor} {reason : EndReason}
    (h : Free base (fun _ => True) (fun _ => True) s) (hact : s.runState.isActive = true) :
    ∃ s' sec, s.stopRun reason = (s', some sec) ∧ AtStop base s' (some sec) ∧
      s'.toWorkerIndex = s.toWorkerIndex := by
  have hfree : Free base (fun _ => True) Empty s := by
    refine ⟨h.consistent, trivial, h.stable, fun hrest => ?_⟩
    rcases hrest with hst | hst <;> rw [hst] at hact <;> cases hact
  have hset := fine_enter kept_offlineEmpty s (.stopRun reason) hfree trivial
  rw [enter] at hset
  have hstop : s.setRunState .stopRequested = some { s with runState := .stopping } := by
    rw [setRunState]
    cases hs : s.runState <;> rw [hs] at hact <;> first | rfl | cases hact
  have hgoes : ¬ (s.runState = .offline ∨ s.runState = .stopping ∨ s.runState = .error) := by
    rintro (hst | hst | hst) <;> rw [hst] at hact <;> cases hact
  have hbegins : s.stopRun reason = if s.workers.keys = [] then
      { s with runState := .stopping }.afterDrain reason
      else ({ s with runState := .stopping }, some (.draining s.workers.keys reason)) := by
    rw [stopRun, if_neg hgoes, hstop]
  rw [hbegins] at hset ⊢
  split at hset
  · rename_i hnone
    rw [if_pos hnone]
    obtain ⟨sec, hsec, hstop₁⟩ := stopSection_afterDrain { s with runState := .stopping } reason
    have hindex := toWorkerIndex_afterDrain { s with runState := .stopping } reason
    rcases hd : { s with runState := .stopping }.afterDrain reason with ⟨s', next⟩
    rw [hd] at hset hsec hindex
    obtain rfl : next = some sec := hsec
    exact ⟨s', sec, hd, ⟨hstop₁, hset⟩, hindex⟩
  · rename_i hsome
    rw [if_neg hsome]
    exact ⟨_, _, rfl, ⟨trivial, hset⟩, rfl⟩

end Drained

/-! ## A `stop_run` in which nothing else fails -/

theorem exists_passes_afterWipe (s : Supervisor) (reason : EndReason) (drained : Outcome) :
    ∃ t, monitor.Passes (DrainsAs drained) (s.afterWipe reason) t := by
  have hclose : ∀ s : Supervisor, ∃ t, monitor.Passes (DrainsAs drained) s.afterClose t :=
    fun s => ⟨_, .resumed .ok trivial rfl (.returned _)⟩
  rw [afterWipe, closeRunSession]
  rcases s.currentRunId with _ | run
  · exact hclose _
  · obtain ⟨t, ht⟩ := hclose { s with
      currentRunId := none, db := s.db.endRun run reason }
    exact ⟨t, .resumed .ok trivial rfl ht⟩

theorem exists_passes_auditWipe (s : Supervisor) (cleared : List TargetId) (reason : EndReason)
    (drained : Outcome) : ∃ t, monitor.Passes (DrainsAs drained) (s.auditWipe cleared reason) t := by
  induction cleared with
  | nil => exact exists_passes_afterWipe s reason drained
  | cons id rest ih =>
    obtain ⟨t, ht⟩ := ih
    exact ⟨t, .resumed .ok trivial rfl ht⟩

theorem exists_passes_afterDrain (s : Supervisor) (reason : EndReason) (drained : Outcome) :
    ∃ t, monitor.Passes (DrainsAs drained) (s.afterDrain reason) t := by
  rw [afterDrain]
  split
  · exact exists_passes_afterWipe s reason drained
  · obtain ⟨t, ht⟩ := exists_passes_auditWipe
      { s with db := s.perSessionTargets.foldl Database.deleteForTarget s.db }
      (s.perSessionTargets.filter fun id => (s.db.getForTarget id).isSome) reason drained
    exact ⟨t, .resumed .ok trivial rfl ht⟩

/-- It returns, whatever the stops did. -/
theorem exists_passes_stopRun (s : Supervisor) (reason : EndReason) (drained : Outcome) :
    ∃ t, monitor.Passes (DrainsAs drained) (s.stopRun reason) t := by
  rw [stopRun]
  split
  · exact ⟨s, .returned s⟩
  · split
    · exact ⟨s, .returned s⟩
    · rename_i s₁ _
      split
      · exact exists_passes_afterDrain s₁ reason drained
      · cases drained with
        | ok =>
          obtain ⟨t, ht⟩ := exists_passes_afterDrain
            { s₁ with toWorkerIndex := s₁.toWorkerIndex.dropAll s₁.workers.keys } reason .ok
          exact ⟨t, .resumed .ok rfl rfl ht⟩
        | raised =>
          obtain ⟨t, ht⟩ := exists_passes_afterDrain s₁ reason .raised
          exact ⟨t, .resumed .raised rfl rfl ht⟩

/-! ## A stop and the next start -/

/-- Between two operations of any run the index is consistent. -/
theorem free_of_run {url : Text} {registry : CredentialRegistry} {keys : Option DerivedKeys}
    {db : Database} {labels : List Label} {c : Config}
    (h : monitor.machine.run (boot url registry keys db) labels = some c) (hfree : c.owner = none) :
    Free registry.snapshot (fun _ => True) (fun _ => True) c.shared := by
  have rule : monitor.Rule (Free registry.snapshot (fun _ => True) fun _ => True) _ _ _ :=
    (kept_trivial (fun _ _ => trivial) Iff.rfl).rule
  have hinit := free_init (fun _ => True) (fun _ => True) (fun _ _ => trivial) (fun _ _ => trivial)
    url registry keys db
  have hadmitted : ∀ (s : Supervisor) (op : Op), Admitted (fun _ => True) s op := by
    intro s op
    cases op <;> trivial
  have hmeets : monitor.machine.Meets (Monitor.guard (Admitted fun _ => True) fun _ _ _ => True)
      (boot url registry keys db) labels :=
    Machine.meets_of_forall (Monitor.guard_of_forall hadmitted fun _ _ _ => trivial) _ labels
  have hsound := Machine.inv_run (M := monitor.machine)
    (fun _ _ _ hi hok hs => rule.sound_step hi hok hs) (Monitor.sound_idle hinit) hmeets h
  exact hsound.atRest hfree

/-- An empty supervisor in OFFLINE starts again. -/
theorem restarts_of_empty {t : Supervisor} (hempty : t.toWorkerIndex.Empty)
    (hoff : t.runState = .offline) : Restarts t := by
  intro derived hkeys htg hsucc
  have hnone := hempty.workers_none
  obtain ⟨x, targets, run, -, hurls, hcomp⟩ := completes_startRun hoff htg hkeys hnone hsucc
  refine ⟨_, (hcomp _).mpr rfl, fun w hex => ⟨hnone w, ?_⟩⟩
  have hplan := planned_of_expected hkeys hex (hnone w) fun row hrow => by
    by_cases henabled : row.enabled = true
    · exact hsucc (w.targetId, row) (List.mem_filter.mpr ⟨Dict.mem_entries.mpr hrow, henabled⟩)
    · exact fun hen => absurd hen henabled
  rw [← hurls w, Option.isSome_map] at hplan
  exact hplan

/-- A `stop_run` of a running monitor that got the lock and has finished passed like
this, from the attributes it found to those it returned in. -/
theorem passes_stopRun {c c₀ c' : Config} {l : Label} {labels : List Label} {i : ℕ}
    {reason : EndReason} {sec : Section} {drained : Outcome} (hx : Monitor.Exclusive c)
    (hpending : c.Pending i (.stopRun reason)) (hl : monitor.step c l = some c₀)
    (hin : c₀.tasks[i]? = some (.inside sec))
    (hdrains : monitor.machine.Meets (Monitor.guard (fun _ _ => True) fun _ => DrainsAs drained) c₀
      labels)
    (hrun : monitor.machine.run c₀ labels = some c') (hout : c'.tasks[i]? = some .finished) :
    ∃ before after c₁, labels = before ++ after ∧ monitor.machine.run c₀ before = some c₁ ∧
      c₁.tasks[i]? = some .finished ∧
      monitor.Passes (DrainsAs drained) (c.shared.stopRun reason) c₁.shared := by
  have henter : c.shared.stopRun reason = (c₀.shared, some sec) :=
    (Monitor.enter_of_step hpending hl hin).2
  rw [henter]
  exact Monitor.passes_of_run (hx.step hl) hin hdrains hrun hout

/-- **Teardown survives failing workers** exactly when there are none: a `stop_run`
of a reachable active state, whatever its cleanup steps do and whatever runs
beside it, survives the stops of its workers if and only if none of them raises. -/
theorem teardown_survives_iff (url : Text) (registry : CredentialRegistry)
    (keys : Option DerivedKeys) (db : Database) (labels : List Label) {c : Config}
    (hrun : monitor.machine.run (boot url registry keys db) labels = some c)
    (hfree : c.owner = none) (hactive : c.shared.runState.isActive = true) (reason : EndReason)
    (events : List TaskGroup.Event) {g : TaskGroup}
    (hstops : TaskGroup.machine.run (.begin c.shared.workers.keys.length) events = some g)
    (hover : g.Over) {t : Supervisor}
    (hpass : monitor.Passes (DrainsAs (stopsOutcome g)) (c.shared.stopRun reason) t) :
    Survives g t ↔ ¬ g.Raises := by
  obtain ⟨s, sec, hstop, hat, hindex⟩ := stopRun_spec (free_of_run hrun hfree) hactive
  rw [hstop] at hpass
  constructor
  · intro hsurvives hraises
    rw [stopsOutcome, if_pos hraises] at hpass
    have hkept := (toWorkerIndex_of_raised hat.1 hpass).trans hindex
    -- the worker whose stop raised is still there
    have hnone : c.shared.workers.keys = [] := by
      rw [← hkept]
      exact hsurvives.empty.1
    have hlen := (TaskGroup.orderly_run hstops).2
    rw [hnone, List.length_nil, List.length_eq_zero_iff] at hlen
    rw [TaskGroup.Raises, hlen] at hraises
    cases hraises
  · intro hno
    rw [stopsOutcome, if_neg hno] at hpass
    obtain ⟨hfree', hoff⟩ := atStop_of_ok hat hpass
    have hempty := hfree'.rests (.inl hoff)
    exact ⟨fun child hchild _ => TaskGroup.all_returned hstops hover hno child hchild, hempty, hoff,
      restarts_of_empty hempty hoff⟩

/-! ## A run whose stop fails -/

section FailingStop

/-- An enabled YouTube target with a backup push. -/
def backupDb : Database where
  targets := Dict.empty.insert 7 ⟨.youtube, "main".toList, "rtmp://a.rtmp.youtube.com/live2".toList,
    true, Dict.empty.insert "backup_enabled".toList (.bool true)⟩
  credentials := leakDb.credentials
  history := ∅

def backupBoot : Config :=
  boot "rtmp://127.0.0.1:1935/live/k".toList .empty
    (some (deriveKeys "passphrase".toList [1])) backupDb

/-- START: both pushes are spawned, and the run is ARMED. -/
def backupStart : List Label :=
  [.call .startRun, .start 0, .resume 0 .ok, .resume 0 .ok, .resume 0 .ok, .resume 0 .ok,
    .resume 0 .ok, .resume 0 .ok, .resume 0 .ok]

/-- The supervisor after it. -/
def backupArmed : Config := (monitor.machine.run backupBoot backupStart).getD backupBoot

theorem run_backupStart : monitor.machine.run backupBoot backupStart = some backupArmed := rfl

theorem backupArmed_armed : backupArmed.owner = none ∧ backupArmed.shared.runState.isActive = true ∧
    backupArmed.shared.workers.keys.length = 2 := by
  decide +kernel

/-- The stop of one push raises: the stop of the other is cancelled, and both workers
are still there after the `stop_run`. -/
theorem failing_stop_leaves_workers :
    ∃ g t, TaskGroup.machine.run (.begin backupArmed.shared.workers.keys.length)
        [.suspends 1, .raises 0, .cancels 1] = some g ∧ g.Over ∧
      monitor.Passes (DrainsAs (stopsOutcome g)) (backupArmed.shared.stopRun .userStop) t ∧
      .cancelled ∈ g.children ∧ ¬ Survives g t := by
  obtain ⟨hfree, hactive, hlen⟩ := backupArmed_armed
  obtain ⟨t, hpass⟩ := exists_passes_stopRun backupArmed.shared .userStop .raised
  obtain ⟨s, sec, hstop, hat, hindex⟩ := stopRun_spec
    (free_of_run run_backupStart hfree) hactive
  refine ⟨⟨[.raised, .cancelled], true⟩, t, ?_, by decide, hpass, by decide, fun h => ?_⟩
  · rw [hlen]
    rfl
  · rw [hstop] at hpass
    have hkept := (toWorkerIndex_of_raised hat.1 hpass).trans hindex
    have hnone : backupArmed.shared.workers.keys = [] := by
      rw [← hkept]
      exact h.empty.1
    rw [hnone] at hlen
    cases hlen

/-- Both stops return. -/
theorem teardown_survives_backup :
    ∃ g t, TaskGroup.machine.run (.begin backupArmed.shared.workers.keys.length)
        [.suspends 1, .returns 0, .returns 1] = some g ∧
      monitor.Passes (DrainsAs (stopsOutcome g)) (backupArmed.shared.stopRun .userStop) t ∧
      Survives g t := by
  obtain ⟨hfree, hactive, hlen⟩ := backupArmed_armed
  obtain ⟨t, hpass⟩ := exists_passes_stopRun backupArmed.shared .userStop .ok
  have hstops : TaskGroup.machine.run (.begin backupArmed.shared.workers.keys.length)
      [.suspends 1, .returns 0, .returns 1] = some ⟨[.returned, .returned], false⟩ := by
    rw [hlen]
    rfl
  refine ⟨_, t, hstops, hpass, ?_⟩
  exact (teardown_survives_iff _ _ _ _ backupStart run_backupStart hfree hactive .userStop _ hstops
    (by decide) hpass).mpr (by decide)

end FailingStop

end Supervisor

end RestreamPlus
