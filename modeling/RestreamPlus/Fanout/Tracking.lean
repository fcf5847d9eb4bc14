import RestreamPlus.Fanout.RunExclusion
import RestreamPlus.Fanout.Sequential
import RestreamPlus.Fanout.TargetView

/-!
# The shown targets and the rows behind them

`TrackedOn p` says of the targets that `p` singles out: the entry of the map is
the one its current rows give, and without a worker it is not shown at work. An
operation keeps it, or keeps it for every target but its own, or, and this is
`enable_target`, restores it for its own.

An operation runs from its call to its return here. At each await the workers and
the ingest server may report before the awaited call comes back.
-/

namespace RestreamPlus

open Interleaving WorkerIndex Supervisor

/-- What the claims of a target depend on. -/
def Target.shown (t : Target) : Bool × TargetType × Text × Bool × Bool :=
  (t.enabled, t.type, t.url, t.backupEnabled, t.hasActiveCredential)

/-- This aggregate shows what the current rows give. -/
def Database.Gives (db : Database) (t : Target) : Prop :=
  ∃ row, db.getById t.id = some row ∧
    t.shown = (targetDtoToDomain t.id row (db.getForTarget t.id)).shown

theorem Database.gives_congr {db db' : Database} {t : Target}
    (hrow : db'.getById t.id = db.getById t.id)
    (hcredential : db'.getForTarget t.id = db.getForTarget t.id) : db'.Gives t ↔ db.Gives t := by
  rw [Gives, Gives, hrow, hcredential]

theorem Database.gives_readTarget {db : Database} {id : TargetId} {row : TargetRow} (kek : Key)
    (h : db.getById id = some row) : db.Gives (readTarget db kek (id, row)).dom :=
  ⟨row, h, rfl⟩

namespace Viewed

/-! ## Operations with reports in between -/

/-- What comes to the supervisor without its lock. -/
inductive Report : Type where
  | publishBegan : Report
  | publishEnded : Report
  | workerEvent : WorkerId → WorkerSnapshot → Report

/-- The step it is. -/
def Report.env : Report → Env
  | publishBegan => .supervisor .notifyObsPublishBegan
  | publishEnded => .supervisor .notifyObsPublishEnded
  | workerEvent w snapshot => .workerEvent w snapshot

def hear (v : Viewed) (r : Report) : Viewed := v.react r.env

def hearAll (v : Viewed) (rs : List Report) : Viewed := rs.foldl hear v

/-- An await: the reports during it, and how it ends. -/
abbrev Await : Type := List Report × Supervisor.Outcome

/-- The operations, where every await is given with its reports. -/
def attended : Monitor Viewed Op Section Await Report where
  precheck v op := v.supervisor.admits op
  enter := enter
  resume v sec a := some ((v.hearAll a.1).continueFrom sec a.2)
  external v r := some (v.hear r)

/-- The operation still returns without an exception: the awaited call returned, or its exception
is suppressed. -/
def returns : Section → Await → Bool
  -- `start_run` has failed by then
  | .rollingBack _, _ | .closingFailed _, _ => false
  | .auditingFailures _, _ | .wiping _ _, _ | .auditingWipe _ _, _ | .closing _ _, _
  | .auditingStop, _ | .stoppingWorker _ _ _, _ => true
  | _, (_, out) => out = .ok

/-- The operation is called and returns. -/
def completed (awaits : List Await) (v : Viewed) (op : Op) : Option Viewed :=
  attended.aloneWith returns awaits v op

/-! ## Reports -/

theorem hearAll_induction {P : Viewed → Prop} (hstep : ∀ v r, P v → P (v.hear r)) {v : Viewed}
    (h : P v) (rs : List Report) : P (v.hearAll rs) := by
  induction rs generalizing v with
  | nil => exact h
  | cons r rs ih => exact ih (hstep v r h)

/-- The supervisor takes a notification at most. -/
theorem supervisor_hear (v : Viewed) (r : Report) :
    ∃ st, (v.hear r).supervisor = { v.supervisor with runState := st } ∧
      st.isActive = v.supervisor.runState.isActive := by
  have hset : ∀ (from' to' : RunState) (a : RunAction), v.supervisor.runState = from' →
      from'.transition a = some to' → to'.isActive = from'.isActive →
      ∃ st, (v.supervisor.setRunState a).getD v.supervisor =
        { v.supervisor with runState := st } ∧ st.isActive = v.supervisor.runState.isActive := by
    intro from' to' a hst htrans hact
    rw [setRunState, hst, htrans]
    exact ⟨to', rfl, hact⟩
  cases r with
  | publishBegan =>
    show ∃ st, v.supervisor.react .notifyObsPublishBegan = _ ∧ _
    rw [Supervisor.react]
    split
    · rename_i hst
      exact hset _ .live _ hst rfl rfl
    · exact ⟨v.supervisor.runState, rfl, rfl⟩
  | publishEnded =>
    show ∃ st, v.supervisor.react .notifyObsPublishEnded = _ ∧ _
    rw [Supervisor.react]
    split
    · rename_i hst
      exact hset _ .armed _ hst rfl rfl
    · exact ⟨v.supervisor.runState, rfl, rfl⟩
  | workerEvent w snapshot =>
    exact ⟨v.supervisor.runState, supervisor_handleWorkerEvent v w snapshot, rfl⟩

theorem supervisor_hearAll (v : Viewed) (rs : List Report) :
    ∃ st, (v.hearAll rs).supervisor = { v.supervisor with runState := st } ∧
      st.isActive = v.supervisor.runState.isActive := by
  refine hearAll_induction (P := fun v' => ∃ st, v'.supervisor =
    { v.supervisor with runState := st } ∧ st.isActive = v.supervisor.runState.isActive)
    (fun v' r h => ?_) ⟨v.supervisor.runState, rfl, rfl⟩ rs
  obtain ⟨st, heq, hact⟩ := h
  obtain ⟨st', heq', hact'⟩ := supervisor_hear v' r
  rw [heq] at heq' hact'
  exact ⟨st', heq', hact'.trans hact⟩

/-- Reports look at the workers and the map only. -/
theorem workerSets_hearAll_congr {v v' : Viewed}
    (hworkers : v'.supervisor.workers = v.supervisor.workers)
    (htargets : v'.supervisor.targets = v.supervisor.targets) (hsets : v'.workerSets = v.workerSets)
    (rs : List Report) : (v'.hearAll rs).workerSets = (v.hearAll rs).workerSets := by
  induction rs generalizing v v' with
  | nil => exact hsets
  | cons r rs ih =>
    have hkeep : ∀ u : Viewed, (u.hear r).supervisor.workers = u.supervisor.workers ∧
        (u.hear r).supervisor.targets = u.supervisor.targets := by
      intro u
      obtain ⟨st, heq, -⟩ := supervisor_hear u r
      rw [heq]
      exact ⟨rfl, rfl⟩
    refine ih (((hkeep v').1.trans hworkers).trans (hkeep v).1.symm)
      (((hkeep v').2.trans htargets).trans (hkeep v).2.symm) ?_
    cases r with
    | publishBegan | publishEnded => exact hsets
    | workerEvent w snapshot =>
      show (v'.handleWorkerEvent w snapshot).workerSets =
        (v.handleWorkerEvent w snapshot).workerSets
      rw [handleWorkerEvent, handleWorkerEvent, workerSet, workerSet, hworkers, htargets, hsets]
      split
      · rfl
      · exact hsets

/-! ## Tracking -/

/-- An entry of the map. -/
structure Tracked (v : Viewed) (t : Target) : Prop where
  /-- it is what the current rows give -/
  gives : v.supervisor.db.Gives t
  /-- without a worker it is not shown at work -/
  resting : (∀ role, v.supervisor.workers.get? ⟨t.id, role⟩ = none) → ¬ (v.uiState t).Working

/-- The entries of these targets. -/
def TrackedOn (p : TargetId → Prop) (v : Viewed) : Prop :=
  ∀ id t, v.supervisor.targets.get? id = some t → p id → t.id = id ∧ v.Tracked t

theorem TrackedOn.mono {p q : TargetId → Prop} {v : Viewed} (h : v.TrackedOn p)
    (hle : ∀ id, q id → p id) : v.TrackedOn q :=
  fun id t ht hq => h id t ht (hle id hq)

/-- A target that is not in the map need not be excepted. -/
theorem TrackedOn.of_absent {id : TargetId} {v : Viewed} (h : v.TrackedOn (· ≠ id))
    (hid : v.supervisor.targets.get? id = none) : v.TrackedOn fun _ => True := by
  intro id' t ht _
  refine h id' t ht ?_
  rintro rfl
  rw [hid] at ht
  cases ht

/-- The entries and their sets stay, the rows stay, no worker goes. -/
theorem TrackedOn.step {p : TargetId → Prop} {v v' : Viewed} (h : v.TrackedOn p)
    (htargets : ∀ id, p id → v'.supervisor.targets.get? id = v.supervisor.targets.get? id)
    (hsets : ∀ id, p id → v'.workerSet id = v.workerSet id)
    (hrows : ∀ id t, v.supervisor.targets.get? id = some t → p id → v.supervisor.db.Gives t →
      v'.supervisor.db.Gives t)
    (hworkers : ∀ w, p w.targetId → (v.supervisor.workers.get? w).isSome →
      (v'.supervisor.workers.get? w).isSome) : v'.TrackedOn p := by
  intro id t ht hp
  rw [htargets id hp] at ht
  obtain ⟨rfl, hgives, hresting⟩ := h id t ht hp
  refine ⟨rfl, hrows _ t ht hp hgives, fun hnone => ?_⟩
  rw [uiState, hsets _ hp]
  refine hresting fun role => Option.not_isSome_iff_eq_none.mp fun hsome => ?_
  have hsome' := hworkers ⟨t.id, role⟩ hp hsome
  rw [hnone role] at hsome'
  cases hsome'

/-- A report changes the set of a target that has a worker. -/
theorem TrackedOn.hear {p : TargetId → Prop} {v : Viewed} (h : v.TrackedOn p) (r : Report) :
    (v.hear r).TrackedOn p := by
  obtain ⟨st, heq, -⟩ := supervisor_hear v r
  have hsame : ∀ q : TargetId → Prop, (∀ id, q id → p id) →
      (∀ id, q id → (v.hear r).workerSet id = v.workerSet id) → (v.hear r).TrackedOn q := by
    intro q hle hsets
    refine (h.mono hle).step (fun id _ => by rw [heq]) hsets (fun id t _ _ hg => ?_)
      fun w _ hw => ?_
    · rw [heq]
      exact hg
    · rw [heq]
      exact hw
  cases r with
  | publishBegan | publishEnded => exact hsame p (fun _ hp => hp) fun _ _ => rfl
  | workerEvent w snapshot =>
    by_cases hw : (v.supervisor.workers.get? w).isSome
    · intro id t ht hp
      by_cases hid : id = w.targetId
      · -- the target has a worker
        rw [heq] at ht
        obtain ⟨hkey, hgives, -⟩ := h id t ht hp
        refine ⟨hkey, by rw [heq]; exact hgives, fun hnone => ?_⟩
        have hnone' := hnone w.role
        rw [heq, hkey, hid] at hnone'
        rw [show v.supervisor.workers.get? w = none from hnone'] at hw
        cases hw
      · exact hsame (fun i => p i ∧ i ≠ w.targetId) (fun _ hq => hq.1)
          (fun i hq => workerSet_handleWorkerEvent v w snapshot hq.2) id t ht ⟨hp, hid⟩
    · -- the worker is gone
      have hignored : v.hear (.workerEvent w snapshot) = v := by
        show v.handleWorkerEvent w snapshot = v
        rw [handleWorkerEvent, if_neg fun hif => hw hif.1]
      rw [hignored]
      exact h

/-- What holds at every suspension. -/
structure Sound (keys : DerivedKeys) (p : TargetId → Prop) (v : Viewed) : Prop where
  keyMaterial : v.supervisor.keyMaterial = some keys
  superTg : v.supervisor.superTg = true
  tracked : v.TrackedOn p

theorem Sound.hearAll {keys : DerivedKeys} {p : TargetId → Prop} {v : Viewed} (h : v.Sound keys p)
    (rs : List Report) : (v.hearAll rs).Sound keys p := by
  refine hearAll_induction (P := Sound keys p) (fun v r h => ?_) h rs
  obtain ⟨st, heq, -⟩ := supervisor_hear v r
  exact ⟨by rw [heq]; exact h.keyMaterial, by rw [heq]; exact h.superTg, h.tracked.hear r⟩

/-- The map stays, the rows stay, no worker goes. -/
theorem Sound.keep {keys : DerivedKeys} {p : TargetId → Prop} {v : Viewed} (h : v.Sound keys p)
    {s : Supervisor} (hkeys : s.keyMaterial = v.supervisor.keyMaterial)
    (htg : s.superTg = v.supervisor.superTg) (htargets : s.targets = v.supervisor.targets)
    (hrows : ∀ id t, v.supervisor.targets.get? id = some t → p id → v.supervisor.db.Gives t →
      s.db.Gives t)
    (hworkers : ∀ w, (v.supervisor.workers.get? w).isSome → (s.workers.get? w).isSome) :
    Sound keys p ⟨s, v.workerSets⟩ :=
  ⟨hkeys.trans h.keyMaterial, htg.trans h.superTg,
    h.tracked.step (fun _ _ => by rw [htargets]) (fun _ _ => rfl) hrows fun w _ hw => hworkers w hw⟩

section Operations

variable {base : Finset Text} {keys : DerivedKeys} {v t : Viewed} {awaits : List Await}

/-! ## The lock and the run state -/

/-- Between two operations: no worker outside a run. -/
abbrev Rests (base : Finset Text) : Supervisor → Prop := Free base (fun _ => True) Empty

/-- At a suspension. -/
abbrev Busy (base : Finset Text) : Supervisor → Section → Prop :=
  Held base (fun _ => True) Empty fun st => st.isActive = true

theorem rests_hear (h : Rests base v.supervisor) (r : Report) :
    Rests base (v.hear r).supervisor := by
  have rule : Supervisor.monitor.Rule (Rests base) (Busy base) _ _ := kept_offlineEmpty.rule
  cases r with
  | publishBegan => exact rule.external_free _ .notifyObsPublishBegan _ h rfl
  | publishEnded => exact rule.external_free _ .notifyObsPublishEnded _ h rfl
  | workerEvent w snapshot =>
    show Rests base (v.handleWorkerEvent w snapshot).supervisor
    rw [supervisor_handleWorkerEvent]
    exact h

theorem busy_hear {sec : Section} (h : Busy base v.supervisor sec) (r : Report) :
    Busy base (v.hear r).supervisor sec := by
  have rule : Supervisor.monitor.Rule (Rests base) (Busy base) _ _ := kept_offlineEmpty.rule
  cases r with
  | publishBegan => exact rule.external_held _ sec .notifyObsPublishBegan _ h rfl
  | publishEnded => exact rule.external_held _ sec .notifyObsPublishEnded _ h rfl
  | workerEvent w snapshot =>
    show Busy base (v.handleWorkerEvent w snapshot).supervisor sec
    rw [supervisor_handleWorkerEvent]
    exact h

/-- No stop of all workers raises in an operation that returns. -/
theorem stopsReturn_of_returns {s : Supervisor} {sec : Section} {a : Await}
    (h : returns sec a = true) : StopsReturn s sec a.2 := by
  obtain ⟨rs, out⟩ := a
  cases sec <;> cases out <;> trivial

theorem rests_completed {op : Op} (h : Rests base v.supervisor)
    (hc : v.completed awaits op = some t) : Rests base t.supervisor := by
  rcases Monitor.aloneWith_eq_some hc with ⟨hadm, hfin⟩ | ⟨-, rfl⟩
  · have rule : Supervisor.monitor.Rule (Rests base) (Busy base) _ _ := kept_offlineEmpty.rule
    refine Monitor.finishWith_induction (P := fun r : Viewed × Option Section =>
      Monitor.Settled (Rests base) (Busy base) (r.1.supervisor, r.2)) ?_
      (rule.enter _ op h (rule.admitted _ op h hadm)) hfin
    rintro v sec a r hset hret hr
    obtain rfl := Option.some.inj hr
    have hheld : Busy base (v.hearAll a.1).supervisor sec :=
      hearAll_induction (P := fun v => Busy base v.supervisor sec) (fun _ r h => busy_hear h r)
        hset a.1
    exact rule.resume _ sec a.2 _ hheld (stopsReturn_of_returns hret) rfl
  · exact h

/-- Outside a run there is no worker. -/
theorem no_workers_of_inactive (h : Rests base v.supervisor)
    (hact : v.supervisor.runState.isActive = false) (w : WorkerId) :
    v.supervisor.workers.get? w = none := by
  refine (h.rests ?_).workers_none w
  rcases h.stable with hrest | harmed | hlive
  · exact hrest
  · rw [harmed] at hact
    cases hact
  · rw [hlive] at hact
    cases hact

/-! ## `enable_target` -/

theorem afterSpawn_enable (s : Supervisor) (r : Runnable) (key : Text) (roles : List WorkerRole) :
    ∃ x next, afterSpawn .enableTarget r key (s.spawnRoles r key roles) =
        ({ s with toWorkerIndex := x }, next) ∧
      (∀ w, (s.workers.get? w).isSome → (x.workers.get? w).isSome) ∧
      ∀ sec ∈ next, ∃ w roles', sec = .workerStarting .enableTarget r key w roles' := by
  obtain ⟨x, e, heq, hgrows, -⟩ := spawnRoles_grows s r key roles
  rw [heq]
  cases e with
  | returned => exact ⟨x, none, rfl, hgrows, fun _ h => absurd h (Option.not_mem_none _)⟩
  | raised => exact ⟨x, none, rfl, hgrows, fun _ h => absurd h (Option.not_mem_none _)⟩
  | starting w roles' =>
    exact ⟨x, _, rfl, hgrows, fun sec hsec => ⟨w, roles', (Option.some.inj hsec).symm⟩⟩

theorem enableReloaded_spec (s : Supervisor) (kek : Key) (id : TargetId) (row : TargetRow) :
    ∃ x next, s.enableReloaded kek id row = ({ s with
        toWorkerIndex := x, targets := s.targets.insert id (readTarget s.db kek (id, row)).dom },
        next) ∧
      (∀ w, (s.workers.get? w).isSome → (x.workers.get? w).isSome) ∧
      ∀ sec ∈ next, ∃ r key w roles, sec = .workerStarting .enableTarget r key w roles := by
  rw [enableReloaded]
  split
  · obtain ⟨x, next, heq, hgrows, hnext⟩ := afterSpawn_enable { s with
      targets := s.targets.insert id (readTarget s.db kek (id, row)).dom
      targetToWorkers := setDefault s.targetToWorkers id } (readTarget s.db kek (id, row)) _ _
    refine ⟨x, next, heq, hgrows, fun sec hsec => ?_⟩
    obtain ⟨w, roles, rfl⟩ := hnext sec hsec
    exact ⟨_, _, w, roles, rfl⟩
  · exact ⟨{ s.toWorkerIndex with targetToWorkers := setDefault s.targetToWorkers id }, none, rfl,
      fun _ h => h, fun _ h => absurd h (Option.not_mem_none _)⟩

/-- An `enable_target` under way: its own entry is not yet, or no longer, excepted. -/
def Enabling (keys : DerivedKeys) (id : TargetId) : Viewed × Option Section → Prop
  | (v, none) => v.Sound keys fun _ => True
  | (v, some (.reloading _ i)) =>
    i = id ∧ (v.supervisor.db.getById id).isSome ∧ v.Sound keys (· ≠ id)
  | (v, some (.reloadingCredential _ i row)) =>
    i = id ∧ v.supervisor.db.getById id = some row ∧ v.Sound keys (· ≠ id)
  | (v, some (.workerStarting .enableTarget _ _ _ _)) => v.Sound keys fun _ => True
  | _ => False

/-- The new entry is what the rows give, and its set is empty. -/
theorem enabling_reloaded (kek : Key) (id : TargetId) (row : TargetRow)
    (hrow : v.supervisor.db.getById id = some row) (h : v.Sound keys (· ≠ id)) :
    Enabling keys id (v.continueFrom (.reloadingCredential kek id row) .ok) := by
  obtain ⟨x, next, heq, hgrows, hnext⟩ := enableReloaded_spec v.supervisor kek id row
  let v' : Viewed := ⟨{ v.supervisor with
    toWorkerIndex := x
    targets := v.supervisor.targets.insert id (readTarget v.supervisor.db kek (id, row)).dom },
    v.workerSets.erase id⟩
  have hcont : v.continueFrom (.reloadingCredential kek id row) .ok = (v', next) := by
    show ((⟨(v.supervisor.enableReloaded kek id row).1, v.workerSets.erase id⟩ : Viewed),
      (v.supervisor.enableReloaded kek id row).2) = _
    rw [heq]
  have hothers : v'.TrackedOn (· ≠ id) := by
    refine h.tracked.step (fun i hi => Dict.get?_insert_ne _ _ hi) (fun i hi => ?_)
      (fun _ _ _ _ hg => hg) fun w _ hw => hgrows w hw
    rw [workerSet, workerSet, Dict.get?_erase_ne _ hi]
  have htracked : v'.TrackedOn fun _ => True := by
    intro id' t ht _
    by_cases hid : id' = id
    · subst hid
      obtain rfl := Option.some.inj ((Dict.get?_insert_self _ _ _).symm.trans ht)
      refine ⟨rfl, Database.gives_readTarget kek hrow, fun _ => ?_⟩
      have hset : v'.workerSet id' = ∅ := workerSet_erase v v'.supervisor id'
      rw [uiState, show (readTarget v.supervisor.db kek (id', row)).dom.id = id' from rfl, hset]
      exact not_working_of_fresh _
    · exact hothers id' t ht hid
  have hsound : v'.Sound keys fun _ => True := ⟨h.keyMaterial, h.superTg, htracked⟩
  rw [hcont]
  rcases next with _ | sec
  · exact hsound
  · obtain ⟨r, key, w, roles, rfl⟩ := hnext sec rfl
    exact hsound

theorem enabling_step {id : TargetId} {sec : Section} {a : Await}
    (h : Enabling keys id (v, some sec)) (hret : returns sec a = true) :
    Enabling keys id ((v.hearAll a.1).continueFrom sec a.2) := by
  obtain ⟨rs, out⟩ := a
  obtain ⟨st, heq, -⟩ := supervisor_hearAll v rs
  have hdb : (v.hearAll rs).supervisor.db = v.supervisor.db := by rw [heq]
  cases sec with
  | reloading kek i =>
    obtain rfl : out = .ok := of_decide_eq_true hret
    obtain ⟨rfl, hrow, hsound⟩ := h
    obtain ⟨row, hrow⟩ := Option.isSome_iff_exists.mp hrow
    rw [← hdb] at hrow
    have hcont : (v.hearAll rs).continueFrom (.reloading kek i) .ok =
        (v.hearAll rs, some (.reloadingCredential kek i row)) := by
      rw [Viewed.continueFrom, Supervisor.continueFrom, hrow]
      rfl
    rw [hcont]
    exact ⟨rfl, hrow, hsound.hearAll rs⟩
  | reloadingCredential kek i row =>
    obtain rfl : out = .ok := of_decide_eq_true hret
    obtain ⟨rfl, hrow, hsound⟩ := h
    exact enabling_reloaded kek i row (by rw [hdb]; exact hrow) (hsound.hearAll rs)
  | workerStarting caller r key w roles =>
    cases caller with
    | startRun rest => exact h.elim
    | enableTarget =>
      obtain rfl : out = .ok := of_decide_eq_true hret
      have hsound := Sound.hearAll h rs
      obtain ⟨x, next, hspawn, hgrows, hnext⟩ :=
        afterSpawn_enable (v.hearAll rs).supervisor r key roles
      have hcont : (v.hearAll rs).continueFrom (.workerStarting .enableTarget r key w roles) .ok =
          ({ v.hearAll rs with
            supervisor := { (v.hearAll rs).supervisor with toWorkerIndex := x } }, next) := by
        rw [Viewed.continueFrom, Supervisor.continueFrom, workerStarted,
          if_pos ⟨rfl, hsound.superTg⟩, hspawn]
        rfl
      rw [hcont]
      have hgrown := hsound.keep (s := { (v.hearAll rs).supervisor with toWorkerIndex := x })
        rfl rfl rfl (fun _ _ _ _ hg => hg) hgrows
      rcases next with _ | sec
      · exact hgrown
      · obtain ⟨w', roles', rfl⟩ := hnext sec rfl
        exact hgrown
  | opening | committingRun | listing | loading | auditingFailures | auditingStart | rollingBack
  | closingFailed | draining | wiping | auditingWipe | closing | auditingStop
  | stoppingWorker => exact h.elim

/-- **`enable_target` restores the entry of its target.** -/
theorem Sound.enable {id : TargetId} (h : v.Sound keys (· ≠ id))
    (hrow : (v.supervisor.db.getById id).isSome) (hact : v.supervisor.runState.isActive = true)
    (hc : v.completed awaits (.enableTarget id) = some t) : t.Sound keys fun _ => True := by
  rcases Monitor.aloneWith_eq_some hc with ⟨-, hfin⟩ | ⟨hpre, -⟩
  · have henter : Enabling keys id (attended.enter v (.enableTarget id)) := by
      show Enabling keys id ({ v with supervisor := (v.supervisor.enableTarget id).1 },
        (v.supervisor.enableTarget id).2)
      rw [enableTarget, h.keyMaterial]
      exact ⟨rfl, hrow, h⟩
    refine Monitor.finishWith_induction (P := Enabling keys id) (fun v sec a r h hret hr => ?_)
      henter hfin
    obtain rfl := Option.some.inj hr
    exact enabling_step h hret
  · exact absurd hact hpre

/-- Outside a run it does nothing. -/
theorem completed_enable_of_inactive {id : TargetId}
    (hact : v.supervisor.runState.isActive = false)
    (hc : v.completed awaits (.enableTarget id) = some t) : t = v := by
  rcases Monitor.aloneWith_eq_some hc with ⟨hpre, -⟩ | ⟨-, rfl⟩
  · exact absurd (show v.supervisor.runState.isActive = true from hpre) (by rw [hact]; decide)
  · rfl

/-! ## `disable_target` -/

/-- A `disable_target` under way: the run, the rows and the map stay. -/
def Disabling (keys : DerivedKeys) (id : TargetId) (v₀ : Viewed) (r : Viewed × Option Section) :
    Prop :=
  (r.1.Sound keys (· ≠ id) ∧ r.1.supervisor.db = v₀.supervisor.db ∧
    r.1.supervisor.targets = v₀.supervisor.targets ∧
    r.1.supervisor.runState.isActive = v₀.supervisor.runState.isActive) ∧
  ∀ sec ∈ r.2, ∃ w rest, sec = .stoppingWorker id w rest ∧ ∀ w' ∈ w :: rest, w'.targetId = id

theorem stopNext_next {s : Supervisor} {id : TargetId} {ws : List WorkerId}
    (hws : ∀ w ∈ ws, w.targetId = id) : ∀ sec ∈ (s.stopNext id ws).2,
      ∃ w rest, sec = .stoppingWorker id w rest ∧ ∀ w' ∈ w :: rest, w'.targetId = id := by
  induction ws with
  | nil => exact fun _ h => absurd h (Option.not_mem_none _)
  | cons w rest ih =>
    rw [stopNext]
    split
    · exact fun sec hsec => ⟨w, rest, (Option.some.inj hsec).symm, hws⟩
    · exact ih fun w' hw' => hws w' (List.mem_cons_of_mem w hw')

theorem disabling_step {id : TargetId} {v₀ : Viewed} {sec : Section} {a : Await}
    (h : Disabling keys id v₀ (v, some sec)) :
    Disabling keys id v₀ ((v.hearAll a.1).continueFrom sec a.2) := by
  obtain ⟨rs, out⟩ := a
  obtain ⟨⟨hsound, hdb, htargets, hact⟩, hnext⟩ := h
  obtain ⟨w, rest, rfl, hids⟩ := hnext _ rfl
  obtain ⟨st, heq, hst⟩ := supervisor_hearAll v rs
  let x := (v.hearAll rs).supervisor.toWorkerIndex.dropWorker id w
  let v' : Viewed := { v.hearAll rs with
    supervisor := { (v.hearAll rs).supervisor with toWorkerIndex := x } }
  have hcont : (v.hearAll rs).continueFrom (.stoppingWorker id w rest) out =
      (v', (v'.supervisor.stopNext id rest).2) := by
    show ((⟨(v'.supervisor.stopNext id rest).1, (v.hearAll rs).workerSets⟩ : Viewed),
      (v'.supervisor.stopNext id rest).2) = _
    rw [fst_stopNext]
  have hheard := hsound.hearAll rs
  have htracked : v'.TrackedOn (· ≠ id) := by
    refine hheard.tracked.step (fun _ _ => rfl) (fun _ _ => rfl) (fun _ _ _ _ hg => hg)
      fun w' hw' hsome => ?_
    -- the stopped worker belongs to the target
    have hne : w' ≠ w := fun heq' => hw' (heq' ▸ hids w List.mem_cons_self)
    show ((WorkerIndex.dropWorker _ id w).workers.get? w').isSome
    rw [get?_workers_dropWorker, if_neg hne]
    exact hsome
  rw [hcont]
  refine ⟨⟨⟨hheard.keyMaterial, hheard.superTg, htracked⟩, ?_, ?_, ?_⟩,
    stopNext_next fun w' hw' => hids w' (List.mem_cons_of_mem w hw')⟩
  · show (v.hearAll rs).supervisor.db = _
    rw [heq]
    exact hdb
  · show (v.hearAll rs).supervisor.targets = _
    rw [heq]
    exact htargets
  · show (v.hearAll rs).supervisor.runState.isActive = _
    rw [heq]
    exact hst.trans hact

/-- **`disable_target` keeps every entry but that of its target.** -/
theorem Sound.disable {id : TargetId} {reversed : Bool} (h : v.Sound keys (· ≠ id))
    (hrests : Rests base v.supervisor)
    (hc : v.completed awaits (.disableTarget id reversed) = some t) :
    t.Sound keys (· ≠ id) ∧ t.supervisor.db = v.supervisor.db ∧
      t.supervisor.targets = v.supervisor.targets ∧
      t.supervisor.runState.isActive = v.supervisor.runState.isActive := by
  rcases Monitor.aloneWith_eq_some hc with ⟨-, hfin⟩ | ⟨hpre, -⟩
  · let ws := (v.supervisor.targetToWorkers.get? id).getD []
    have hws : ∀ w ∈ if reversed then ws.reverse else ws, w.targetId = id := by
      intro w hw
      have hmem : w ∈ ws := by
        split at hw
        · exact List.mem_reverse.mp hw
        · exact hw
      rcases hset : v.supervisor.targetToWorkers.get? id with _ | ws'
      · simp [ws, hset] at hmem
      · exact (hrests.consistent.indexed id ws' w hset (by simpa [ws, hset] using hmem)).1
    have henter : Disabling keys id v (attended.enter v (.disableTarget id reversed)) := by
      show Disabling keys id v ({ v with supervisor := (v.supervisor.stopNext id _).1 },
        (v.supervisor.stopNext id _).2)
      rw [fst_stopNext]
      exact ⟨⟨h, rfl, rfl, rfl⟩, stopNext_next hws⟩
    refine (Monitor.finishWith_induction (P := Disabling keys id v) (fun v sec a r h _ hr => ?_)
      henter hfin).1
    obtain rfl := Option.some.inj hr
    exact disabling_step h
  · exact absurd rfl hpre

/-- Without workers it does nothing. -/
theorem completed_disable_of_no_workers {id : TargetId} {reversed : Bool}
    (hnone : ∀ w, v.supervisor.workers.get? w = none)
    (hc : v.completed awaits (.disableTarget id reversed) = some t) : t = v := by
  have hstop : ∀ ws, v.supervisor.stopNext id ws = (v.supervisor, none) := by
    intro ws
    induction ws with
    | nil => rfl
    | cons w rest ih =>
      rw [stopNext, hnone w]
      exact ih
  rcases Monitor.aloneWith_eq_some hc with ⟨-, hfin⟩ | ⟨-, rfl⟩
  · have henter : attended.enter v (.disableTarget id reversed) = (v, none) := by
      show ({ v with supervisor := (v.supervisor.stopNext id _).1 },
        (v.supervisor.stopNext id _).2) = (v, none)
      rw [hstop]
    rw [henter] at hfin
    cases awaits with
    | nil => exact (Option.some.inj hfin).symm
    | cons a rest => cases hfin
  · rfl

/-! ## `start_run` -/

theorem Sound.spawning {p : TargetId → Prop} (h : v.Sound keys p)
    {r : Supervisor × Option Section} (hs : Spawning v.supervisor r) :
    Sound keys p ⟨r.1, v.workerSets⟩ := by
  obtain ⟨⟨x, st, run, heq⟩, hgrows, -⟩ := hs
  rw [heq] at hgrows ⊢
  exact h.keep rfl rfl rfl (fun _ _ _ _ hg => hg) hgrows

/-- What a start has read before it replaces the map. -/
def Reads (db : Database) : Section → Prop
  | .opening | .committingRun _ | .listing _ => True
  | .loading _ e todo pairs =>
    (∀ e' ∈ e :: todo, db.getById e'.1 = some e'.2) ∧ ∀ r ∈ pairs, db.Gives r.dom
  | .auditingFailures pairs => ∀ r ∈ pairs, db.Gives r.dom
  | sec => OfSpawning sec

/-- A `start_run` under way. -/
def Starting (keys : DerivedKeys) (r : Viewed × Option Section) : Prop :=
  r.1.Sound keys (fun _ => True) ∧ ∀ sec ∈ r.2, Reads r.1.supervisor.db sec

theorem reads_of_spawning {db : Database} {sec : Section} (h : OfSpawning sec) : Reads db sec := by
  cases sec <;> trivial

theorem starting_spawning (h : v.Sound keys fun _ => True) {r : Supervisor × Option Section}
    (hs : Spawning v.supervisor r) : Starting keys (⟨r.1, v.workerSets⟩, r.2) :=
  ⟨h.spawning hs, fun sec hsec => reads_of_spawning (hs.next sec hsec)⟩

/-- The new map holds what the rows give, and every set is empty. -/
theorem starting_flushFailures (h : v.Sound keys fun _ => True) {pairs : List Runnable}
    (hpairs : ∀ r ∈ pairs, v.supervisor.db.Gives r.dom) :
    Starting keys (⟨(v.supervisor.flushFailures pairs).1,
      (v.supervisor.rebuiltByFlush pairs).workerSets v.workerSets⟩,
      (v.supervisor.flushFailures pairs).2) := by
  rw [flushFailures, rebuiltByFlush]
  rcases v.supervisor.decryptFailures with _ | ⟨id, rest⟩
  · let v' : Viewed := ⟨{ v.supervisor with
      targets := Dict.ofList (pairs.map fun (r : Runnable) => (r.dom.id, r.dom))
      targetToWorkers := Dict.ofList (pairs.map fun (r : Runnable) => (r.dom.id, [])) }, ∅⟩
    have htracked : v'.TrackedOn fun _ => True := by
      intro id t ht _
      obtain ⟨r, hr, heq⟩ := List.mem_map.mp (Dict.mem_of_get?_ofList ht)
      cases heq
      exact ⟨rfl, hpairs r hr, fun _ => not_working_of_fresh _⟩
    exact starting_spawning (v := v') ⟨h.keyMaterial, h.superTg, htracked⟩
      (spawning_spawnPairs v'.supervisor pairs)
  · exact ⟨h.keep rfl rfl rfl (fun _ _ _ _ hg => hg) fun _ hw => hw,
      fun sec hsec => Option.some.inj hsec ▸ hpairs⟩

theorem starting_loadNext (h : v.Sound keys fun _ => True) (kek : Key)
    {todo : List (TargetId × TargetRow)} {pairs : List Runnable}
    (htodo : ∀ e ∈ todo, v.supervisor.db.getById e.1 = some e.2)
    (hpairs : ∀ r ∈ pairs, v.supervisor.db.Gives r.dom) :
    Starting keys (⟨(v.supervisor.loadNext kek todo pairs).1,
      (if todo = [] then v.supervisor.rebuiltByFlush pairs else .nothing).workerSets v.workerSets⟩,
      (v.supervisor.loadNext kek todo pairs).2) := by
  cases todo with
  | nil => exact starting_flushFailures h hpairs
  | cons e todo => exact ⟨h, fun sec hsec => Option.some.inj hsec ▸ ⟨htodo, hpairs⟩⟩

theorem starting_step {sec : Section} {a : Await} (h : Starting keys (v, some sec))
    (hret : returns sec a = true) : Starting keys ((v.hearAll a.1).continueFrom sec a.2) := by
  obtain ⟨rs, out⟩ := a
  obtain ⟨st, heq, -⟩ := supervisor_hearAll v rs
  have hdb : (v.hearAll rs).supervisor.db = v.supervisor.db := by rw [heq]
  have hreads : Reads (v.hearAll rs).supervisor.db sec := by
    rw [hdb]
    exact h.2 sec rfl
  have hsound := h.1.hearAll rs
  revert hsound hreads
  generalize v.hearAll rs = u
  intro hreads hsound
  cases sec with
  | opening =>
    obtain rfl : out = .ok := of_decide_eq_true hret
    exact ⟨hsound.keep rfl rfl rfl (fun _ _ _ _ hg => hg) fun _ hw => hw,
      fun sec hsec => Option.some.inj hsec ▸ trivial⟩
  | committingRun run =>
    obtain rfl : out = .ok := of_decide_eq_true hret
    have hopened : Sound keys (fun _ => True)
        { u with supervisor := { u.supervisor with db := u.supervisor.db.startRun run } } :=
      hsound.keep rfl rfl rfl (fun _ _ _ _ hg => hg) fun _ hw => hw
    have hload := loadRunnableTargets_of_ready hopened.keyMaterial
    have hcont : u.continueFrom (.committingRun run) .ok =
        ({ u with supervisor := { u.supervisor with db := u.supervisor.db.startRun run } },
          some (.listing keys.streamKeyKek)) := by
      rw [Viewed.continueFrom, Supervisor.continueFrom, hload]
      rfl
    rw [hcont]
    exact ⟨hopened, fun sec hsec => Option.some.inj hsec ▸ trivial⟩
  | listing kek =>
    obtain rfl : out = .ok := of_decide_eq_true hret
    exact starting_loadNext hsound kek
      (fun e he => Dict.mem_entries.mp (List.mem_filter.mp he).1)
      fun _ h => absurd h List.not_mem_nil
  | loading kek e todo pairs =>
    obtain rfl : out = .ok := of_decide_eq_true hret
    obtain ⟨htodo, hpairs⟩ := hreads
    let u' : Viewed := { u with supervisor := (u.supervisor.readRunnable kek e).1 }
    obtain ⟨failures, hread⟩ : ∃ failures, (u.supervisor.readRunnable kek e).1 =
        { u.supervisor with decryptFailures := failures } := by
      rw [readRunnable]
      split <;> exact ⟨_, rfl⟩
    have hdom : (u.supervisor.readRunnable kek e).2 = readTarget u.supervisor.db kek e := by
      rw [readRunnable]
      split <;> rfl
    have hu' : u'.Sound keys fun _ => True := by
      show Sound keys _ { u with supervisor := (u.supervisor.readRunnable kek e).1 }
      rw [hread]
      exact hsound.keep rfl rfl rfl (fun _ _ _ _ hg => hg) fun _ hw => hw
    have hdb' : u'.supervisor.db = u.supervisor.db := by
      show (u.supervisor.readRunnable kek e).1.db = _
      rw [hread]
    refine starting_loadNext hu' kek (fun e' he' => ?_) fun r hr => ?_
    · rw [hdb']
      exact htodo e' (List.mem_cons_of_mem e he')
    · rw [hdb']
      rcases List.mem_append.mp hr with hr | hr
      · exact hpairs r hr
      · obtain rfl := List.mem_singleton.mp hr
        show u.supervisor.db.Gives (u.supervisor.readRunnable kek e).2.dom
        rw [hdom]
        exact Database.gives_readTarget kek (htodo e List.mem_cons_self)
  | auditingFailures pairs => exact starting_flushFailures hsound hreads
  | workerStarting caller r key w roles =>
    cases caller with
    | startRun rest =>
      obtain rfl : out = .ok := of_decide_eq_true hret
      have hspawns :
          u.supervisor.continueFrom (.workerStarting (.startRun rest) r key w roles) .ok =
            afterSpawn (.startRun rest) r key (u.supervisor.spawnRoles r key roles) := by
        rw [Supervisor.continueFrom, workerStarted, if_pos ⟨rfl, hsound.superTg⟩]
      have hspawning := spawning_afterSpawn u.supervisor rest r key roles
      rw [← hspawns] at hspawning
      exact starting_spawning hsound hspawning
    | enableTarget => exact hreads.elim
  | auditingStart =>
    obtain rfl : out = .ok := of_decide_eq_true hret
    exact ⟨hsound, fun _ h => absurd h (Option.not_mem_none _)⟩
  | rollingBack ws => cases hret
  | closingFailed run => cases hret
  | draining | wiping | auditingWipe | closing | auditingStop | reloading | reloadingCredential
  | stoppingWorker => exact hreads.elim

/-- **`start_run` replaces the map by what the rows give.** -/
theorem Sound.start (h : v.Sound keys fun _ => True) (hc : v.completed awaits .startRun = some t) :
    t.Sound keys fun _ => True := by
  rcases Monitor.aloneWith_eq_some hc with ⟨-, hfin⟩ | ⟨hpre, -⟩
  · have henter : Starting keys (attended.enter v .startRun) := by
      show Starting keys ({ v with supervisor := v.supervisor.startRun.1 }, v.supervisor.startRun.2)
      rw [startRun]
      split
      · split
        · exact ⟨h, fun _ h => absurd h (Option.not_mem_none _)⟩
        · rename_i s hs
          obtain ⟨st, -, rfl⟩ := Option.map_eq_some_iff.mp hs
          exact ⟨h.keep rfl rfl rfl (fun _ _ _ _ hg => hg) fun _ hw => hw,
            fun sec hsec => Option.some.inj hsec ▸ trivial⟩
      · exact ⟨h, fun _ h => absurd h (Option.not_mem_none _)⟩
    refine (Monitor.finishWith_induction (P := Starting keys) (fun v sec a r h hret hr => ?_)
      henter hfin).1
    obtain rfl := Option.some.inj hr
    exact starting_step h hret
  · exact absurd rfl hpre

/-! ## `stop_run` -/

/-- What is reported before the stops of the workers came back. -/
def drainReports (awaits : List Await) : List Report := (awaits.head?.map Prod.fst).getD []

/-- How the transaction of the wipe ends, if there is one: without workers it is the first await. -/
def wipeOutcome (v : Viewed) (awaits : List Await) : Option Supervisor.Outcome :=
  (if v.supervisor.workers.keys = [] then awaits else awaits.tail).head?.map Prod.snd

/-- A stop leaves this entry as its rows and its workers are afterwards. -/
def StopKeeps (v : Viewed) (awaits : List Await) (t : Target) : Prop :=
  ¬ ((v.hearAll (drainReports awaits)).uiState t).Working ∧
    (lifetimeFor t.type = .perSession →
      v.supervisor.db.getForTarget t.id = none ∨ v.wipeOutcome awaits = some .raised)

instance (v : Viewed) (awaits : List Await) (t : Target) : Decidable (v.StopKeeps awaits t) :=
  inferInstanceAs (Decidable (_ ∧ _))

/-- A `stop_run` under way, the wipe being over. -/
def Stopping (keys : DerivedKeys) (r : Viewed × Option Section) : Prop :=
  r.1.Sound keys (fun _ => True) ∧ ∀ sec ∈ r.2, OfClosing sec

theorem stopping_closing (h : v.Sound keys fun _ => True) {r : Supervisor × Option Section}
    (hc : Closing v.supervisor r) : Stopping keys (⟨r.1, v.workerSets⟩, r.2) := by
  obtain ⟨⟨st, run, heq⟩, hnext⟩ := hc
  refine ⟨?_, hnext⟩
  rw [heq]
  exact h.keep rfl rfl rfl (fun _ _ _ _ hg => hg) fun _ hw => hw

theorem Sound.endRun {p : TargetId → Prop} (h : v.Sound keys p) (run : RunId) (reason : EndReason) :
    Sound keys p { v with
      supervisor := { v.supervisor with db := v.supervisor.db.endRun run reason } } := by
  obtain ⟨htargets, hcredentials⟩ := v.supervisor.db.tables_endRun run reason
  refine h.keep rfl rfl rfl (fun id t _ _ hg => ?_) fun _ hw => hw
  refine (Database.gives_congr ?_ ?_).mpr hg
  · rw [Database.getById, htargets]
    rfl
  · rw [Database.getForTarget, hcredentials]
    rfl

theorem stopping_step {sec : Section} {a : Await} (h : Stopping keys (v, some sec)) :
    Stopping keys ((v.hearAll a.1).continueFrom sec a.2) := by
  obtain ⟨rs, out⟩ := a
  have hsec := h.2 sec rfl
  have hsound := h.1.hearAll rs
  cases sec with
  | auditingWipe rest reason =>
    cases out with
    | ok => exact stopping_closing hsound (closing_auditWipe _ rest reason)
    | raised => exact stopping_closing hsound (closing_afterWipe _ reason)
  | closing run reason =>
    cases out with
    | ok => exact stopping_closing (hsound.endRun run reason) (closing_afterClose _)
    | raised => exact stopping_closing hsound (closing_afterClose _)
  | auditingStop => exact ⟨hsound, fun _ h => absurd h (Option.not_mem_none _)⟩
  | opening | committingRun | listing | loading | auditingFailures | workerStarting | auditingStart
  | rollingBack | closingFailed | draining | wiping | reloading | reloadingCredential
  | stoppingWorker => exact hsec.elim

theorem Stopping.finish {r : Viewed × Option Section} (h : Stopping keys r)
    (hfin : attended.finishWith returns awaits r = some t) : t.Sound keys fun _ => True := by
  refine (Monitor.finishWith_induction (P := Stopping keys) (fun v sec a r h _ hr => ?_) h hfin).1
  obtain rfl := Option.some.inj hr
  exact stopping_step h

theorem mem_perSessionTargets {s : Supervisor} {id : TargetId} :
    id ∈ s.perSessionTargets ↔
      ∃ t ∈ s.targets.values, lifetimeFor t.type = .perSession ∧ t.id = id := by
  simp [perSessionTargets, and_assoc]

/-- The wipe deletes no credential that an entry of the map still shows. -/
theorem Sound.wipe (h : v.Sound keys fun _ => True)
    (hwipe : ∀ t ∈ v.supervisor.targets.values, lifetimeFor t.type = .perSession →
      v.supervisor.db.getForTarget t.id = none) :
    Sound keys (fun _ => True) { v with supervisor := { v.supervisor with
      db := v.supervisor.perSessionTargets.foldl Database.deleteForTarget v.supervisor.db } } := by
  refine h.keep rfl rfl rfl (fun id t ht _ hg => (Database.gives_congr ?_ ?_).mpr hg) fun _ hw => hw
  · rw [Database.getById, (Database.tables_deleteAll _ _).1]
    rfl
  · rw [Database.getForTarget, Database.credentials_deleteAll]
    split
    · rename_i hmem
      obtain ⟨t', ht', hlifetime, hid⟩ := mem_perSessionTargets.mp hmem
      have hnone := hwipe t' ht' hlifetime
      rw [hid] at hnone
      exact hnone.symm
    · rfl

/-- A stop after the workers are gone. -/
theorem Sound.drained (h : v.Sound keys fun _ => True) (reason : EndReason)
    (hwipe : ∀ t ∈ v.supervisor.targets.values, lifetimeFor t.type = .perSession →
      v.supervisor.db.getForTarget t.id = none ∨ awaits.head?.map Prod.snd = some .raised)
    (hfin : attended.finishWith returns awaits (⟨(v.supervisor.afterDrain reason).1, v.workerSets⟩,
      (v.supervisor.afterDrain reason).2) = some t) : t.Sound keys fun _ => True := by
  by_cases hids : v.supervisor.perSessionTargets = []
  · rw [afterDrain, if_pos hids] at hfin
    exact (stopping_closing h (closing_afterWipe _ reason)).finish hfin
  · rw [afterDrain, if_neg hids] at hfin
    rcases awaits with _ | ⟨⟨rs, out⟩, awaits⟩
    · cases hfin
    · obtain ⟨st, heq, -⟩ := supervisor_hearAll v rs
      have hsound := h.hearAll rs
      have hids' :
          (v.hearAll rs).supervisor.perSessionTargets = v.supervisor.perSessionTargets := by
        rw [perSessionTargets, perSessionTargets, heq]
      have hfin' : attended.finishWith returns awaits ((v.hearAll rs).continueFrom
          (.wiping v.supervisor.perSessionTargets reason) out) = some t := hfin
      cases out with
      | raised => exact (stopping_closing hsound (closing_afterWipe _ reason)).finish hfin'
      | ok =>
        have hnone : ∀ t ∈ (v.hearAll rs).supervisor.targets.values,
            lifetimeFor t.type = .perSession →
              (v.hearAll rs).supervisor.db.getForTarget t.id = none := by
          rw [heq]
          exact fun t ht hlifetime => (hwipe t ht hlifetime).resolve_right (by simp)
        have hwiped := hsound.wipe hnone
        rw [hids'] at hwiped
        exact (stopping_closing hwiped (closing_auditWipe _ _ reason)).finish hfin'

/-- **`stop_run` keeps the map**, where no entry is shown at work when its workers go, or
with a credential that goes. -/
theorem Sound.stop {reason : EndReason} (h : v.Sound keys fun _ => True)
    (hkeeps : v.supervisor.runState.isActive = true →
      ∀ t ∈ v.supervisor.targets.values, v.StopKeeps awaits t)
    (hrests : Rests base v.supervisor)
    (hc : v.completed awaits (.stopRun reason) = some t) : t.Sound keys fun _ => True := by
  rcases Monitor.aloneWith_eq_some hc with ⟨-, hfin⟩ | ⟨hpre, -⟩
  · have hreturn : attended.finishWith returns awaits (v, none) = some t →
        t.Sound keys fun _ => True := by
      intro hfin
      cases awaits with
      | nil => exact Option.some.inj hfin ▸ h
      | cons a rest => cases hfin
    have hfin' : attended.finishWith returns awaits
        ({ v with supervisor := (v.supervisor.stopRun reason).1 },
          (v.supervisor.stopRun reason).2) = some t := hfin
    rw [stopRun] at hfin'
    split at hfin'
    · exact hreturn hfin'
    rename_i hgoes
    have hkeeps' := hkeeps (by
      rcases hrests.stable with (hst | hst) | hst | hst
      · exact absurd (.inl hst) hgoes
      · exact absurd (.inr (.inr hst)) hgoes
      · rw [hst]
        rfl
      · rw [hst]
        rfl)
    split at hfin'
    · exact hreturn hfin'
    rename_i s hs
    obtain ⟨st, -, rfl⟩ := Option.map_eq_some_iff.mp hs
    let v' : Viewed := { v with supervisor := { v.supervisor with runState := st } }
    have hv' : v'.Sound keys fun _ => True :=
      h.keep rfl rfl rfl (fun _ _ _ _ hg => hg) fun _ hw => hw
    by_cases hnone : v.supervisor.workers.keys = []
    · rw [if_pos (show v'.supervisor.workers.keys = [] from hnone)] at hfin'
      refine Sound.drained (v := v') hv' reason (fun t ht hlifetime => ?_) hfin'
      have hwipe := (hkeeps' t ht).2 hlifetime
      rw [wipeOutcome, if_pos hnone] at hwipe
      exact hwipe
    · rw [if_neg (show ¬ v'.supervisor.workers.keys = [] from hnone)] at hfin'
      rcases awaits with _ | ⟨⟨rs, out⟩, awaits⟩
      · cases hfin'
      obtain rfl : out = .ok := by
        cases out with
        | ok => rfl
        | raised => cases hfin'
      obtain ⟨st', heq, -⟩ := supervisor_hearAll v' rs
      have hheard := hv'.hearAll rs
      let x := (v'.hearAll rs).supervisor.toWorkerIndex.dropAll v.supervisor.workers.keys
      let u : Viewed := { v'.hearAll rs with
        supervisor := { (v'.hearAll rs).supervisor with toWorkerIndex := x } }
      have hsets : (v'.hearAll rs).workerSets = (v.hearAll rs).workerSets := by
        refine workerSets_hearAll_congr ?_ ?_ ?_ rs <;> rfl
      have htracked : u.TrackedOn fun _ => True := by
        intro id t ht _
        have ht' : (v'.hearAll rs).supervisor.targets.get? id = some t := ht
        obtain ⟨hkey, hgives, -⟩ := hheard.tracked id t ht' trivial
        refine ⟨hkey, hgives, fun _ => ?_⟩
        -- the last report before the stop decides
        rw [heq] at ht'
        have hworking := (hkeeps' t (Dict.mem_values.mpr ⟨id, ht'⟩)).1
        rw [uiState, workerSet, show u.workerSets = (v.hearAll rs).workerSets from hsets]
        exact hworking
      have hu : u.Sound keys fun _ => True := ⟨hheard.keyMaterial, hheard.superTg, htracked⟩
      refine Sound.drained (v := u) hu reason (fun t ht hlifetime => ?_) hfin'
      have hdb : u.supervisor.db = v.supervisor.db := by
        show (v'.hearAll rs).supervisor.db = _
        rw [heq]
      have ht' : t ∈ (v'.hearAll rs).supervisor.targets.values := ht
      rw [heq] at ht'
      have hwipe := (hkeeps' t ht').2 hlifetime
      rw [wipeOutcome, if_neg hnone] at hwipe
      rw [hdb]
      exact hwipe
  · exact absurd rfl hpre

end Operations

end Viewed

end RestreamPlus
