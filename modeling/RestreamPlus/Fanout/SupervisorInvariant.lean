import RestreamPlus.Fanout.Supervisor

/-!
# What every operation of the supervisor keeps

The assertions of the monitor rule for `Supervisor.monitor`: at each suspension
point, the run state the section leaves the supervisor in, the consistency of
the index, and what the rest of the operation relies on (a teardown has listed
every worker, a worker being started or stopped is in the index).

The results that follow differ in one extra property of the index and in the
steps they allow. Both are parameters here: `busy` holds at every suspension,
`idle` in addition while the run state is OFFLINE or ERROR, and `Kept` lists
what the operations need to know about the two. `Kept.rule` is proved once.
-/

namespace RestreamPlus

open Interleaving WorkerIndex

namespace Supervisor

/-- The run states in which no run is going on. -/
def Resting (st : RunState) : Prop := st = .offline ∨ st = .error

/-- The run states between two operations. -/
def Stable (st : RunState) : Prop := Resting st ∨ st = .armed ∨ st = .live

/-- Every running worker is listed. -/
def Lists (s : Supervisor) (ws : List WorkerId) : Prop :=
  ∀ w, (s.workers.get? w).isSome → w ∈ ws

section Assertions

variable (base : Finset Text) (busy idle : WorkerIndex → Prop) (Act : RunState → Prop)

/-- Between two operations. -/
structure Free (s : Supervisor) : Prop where
  consistent : s.toWorkerIndex.Consistent base
  kept : busy s.toWorkerIndex
  stable : Stable s.runState
  rests : Resting s.runState → idle s.toWorkerIndex

/-- What a section may rely on besides consistency. -/
def Local (s : Supervisor) : Section → Prop
  | .opening | .committingRun _ | .listing _ | .loading _ _ _ _ | .auditingFailures _ =>
    s.runState = .starting
  | .workerStarting caller r _ w _ =>
    w.targetId = r.dom.id ∧ (s.workers.get? w).isSome ∧
      match caller with
      | .startRun _ => s.runState = .starting
      | .enableTarget => Free base busy idle s ∧ Act s.runState
  | .auditingStart => s.runState = .armed ∨ s.runState = .live
  | .rollingBack ws => s.runState.isActive = true ∧ s.Lists ws
  | .closingFailed _ => s.runState = .error ∧ idle s.toWorkerIndex
  | .draining ws _ => s.runState = .stopping ∧ s.Lists ws
  | .wiping _ _ | .auditingWipe _ _ | .closing _ _ =>
    s.runState = .stopping ∧ idle s.toWorkerIndex
  | .auditingStop => s.runState = .offline ∧ idle s.toWorkerIndex
  | .reloading _ _ | .reloadingCredential _ _ _ => Free base busy idle s ∧ Act s.runState
  | .stoppingWorker id w rest =>
    Free base busy idle s ∧ (s.workers.get? w).isSome ∧ ∀ w' ∈ w :: rest, w'.targetId = id

/-- At a suspension of the operation that holds the lock. -/
structure Held (s : Supervisor) (sec : Section) : Prop where
  consistent : s.toWorkerIndex.Consistent base
  kept : busy s.toWorkerIndex
  at_section : Local base busy idle Act s sec

/-- Which queued operations are let in. -/
def Admitted (s : Supervisor) : Op → Prop
  | .enableTarget _ => Act s.runState
  | _ => True

/-- The operations keep `busy`, and `idle` in OFFLINE and ERROR. -/
structure Kept (R : Supervisor → Section → Outcome → Prop) : Prop where
  busy_of_idle : ∀ x, idle x → busy x
  idle_of_empty : ∀ x : WorkerIndex, x.Empty → idle x
  /-- an `enable_target` that finds the lock free is let in -/
  act_active : ∀ st, st.isActive = true → Act st
  act_obs : Act .armed ↔ Act .live
  add_busy : ∀ (x x' : WorkerIndex) inputUrl dom url key role, busy x →
    x.addWorker inputUrl dom url key role = some x' → busy x'
  add_idle : ∀ st (x x' : WorkerIndex) inputUrl dom url key role, Act st → Resting st → idle x →
    x.addWorker inputUrl dom url key role = some x' → idle x'
  sets_busy : ∀ (x : WorkerIndex) index, busy x → busy { x with targetToWorkers := index }
  sets_idle : ∀ st (x : WorkerIndex) id, Act st → Resting st → idle x →
    idle { x with targetToWorkers := setDefault x.targetToWorkers id }
  /-- a failed start drops its worker -/
  drop_started : ∀ s caller r key w roles out, R s (.workerStarting caller r key w roles) out →
    ¬ (out = .ok ∧ s.superTg = true) → (s.workers.get? w).isSome →
    (busy s.toWorkerIndex → busy (s.toWorkerIndex.dropWorker r.dom.id w)) ∧
      (idle s.toWorkerIndex → idle (s.toWorkerIndex.dropWorker r.dom.id w))
  /-- a single-target teardown drops its worker -/
  drop_stopped : ∀ s id w rest out, R s (.stoppingWorker id w rest) out →
    (s.workers.get? w).isSome →
    (busy s.toWorkerIndex → busy (s.toWorkerIndex.dropWorker id w)) ∧
      (idle s.toWorkerIndex → idle (s.toWorkerIndex.dropWorker id w))
  /-- a teardown whose stops raised leaves the workers in place -/
  rollingBack_raised : ∀ s ws, R s (.rollingBack ws) .raised → busy s.toWorkerIndex →
    idle s.toWorkerIndex
  draining_raised : ∀ s ws reason, R s (.draining ws reason) .raised → busy s.toWorkerIndex →
    idle s.toWorkerIndex

end Assertions

/-! ## The helpers of the operations -/

theorem setRunState_eq_some {s s' : Supervisor} {a : RunAction} (h : s.setRunState a = some s') :
    ∃ st, s.runState.transition a = some st ∧ s' = { s with runState := st } := by
  obtain ⟨st, hst, rfl⟩ := Option.map_eq_some_iff.mp h
  exact ⟨st, hst, rfl⟩

/-- `spawnRoles` changes the index only, and stops at the first worker it
creates. -/
theorem spawnRoles_spec {base : Finset Text} {P : WorkerIndex → Prop}
    (hadd : ∀ (x x' : WorkerIndex) inputUrl dom url key role, P x →
      x.addWorker inputUrl dom url key role = some x' → P x')
    (s : Supervisor) (r : Runnable) (key : Text) (roles : List WorkerRole)
    (hc : s.toWorkerIndex.Consistent base) (hp : P s.toWorkerIndex) :
    ∃ x e, s.spawnRoles r key roles = ({ s with toWorkerIndex := x }, e) ∧ x.Consistent base ∧
      P x ∧ ∀ w roles', e = .starting w roles' →
        w.targetId = r.dom.id ∧ (x.workers.get? w).isSome := by
  induction roles with
  | nil => exact ⟨s.toWorkerIndex, .returned, rfl, hc, hp, fun _ _ he => by cases he⟩
  | cons role roles ih =>
    rw [spawnRoles]
    split
    · exact ih
    · rename_i hnew
      split
      · exact ⟨s.toWorkerIndex, .raised, rfl, hc, hp, fun _ _ he => by cases he⟩
      · rename_i x hx
        refine ⟨x, .starting ⟨r.dom.id, role⟩ roles, rfl, ?_, hadd _ _ _ _ _ _ _ hp hx, ?_⟩
        · exact consistent_addWorker hc hx (Option.not_isSome_iff_eq_none.mp hnew)
        · rintro w roles' he
          cases he
          obtain ⟨outputUrl, registry, -, -, rfl⟩ := addWorker_eq_some hx
          refine ⟨rfl, ?_⟩
          simp only [Dict.get?_insert_self]
          rfl

theorem get?_ofList_empty_sets (pairs : List Runnable) {id : TargetId} {ws : List WorkerId}
    (h : (Dict.ofList (pairs.map fun (r : Runnable) => (r.dom.id, ([] : List WorkerId)))).get? id
      = some ws) : ws = [] := by
  obtain ⟨r, -, heq⟩ := List.mem_map.mp (Dict.mem_of_get?_ofList h)
  exact (congrArg Prod.snd heq).symm

theorem get?_setDefault {index : Dict TargetId (List WorkerId)} {id id' : TargetId}
    {ws : List WorkerId} (h : (setDefault index id).get? id' = some ws) :
    ws = [] ∨ index.get? id' = some ws := by
  rw [setDefault] at h
  split at h
  · exact .inr h
  · rw [Dict.get?_insert] at h
    split at h
    · exact .inl (Option.some.inj h).symm
    · exact .inr h

section Rule

variable {base : Finset Text} {busy idle : WorkerIndex → Prop} {Act : RunState → Prop}
  {R : Supervisor → Section → Outcome → Prop}

/-- Shorthand for the premise of the monitor rule. -/
abbrev Fine (base : Finset Text) (busy idle : WorkerIndex → Prop) (Act : RunState → Prop)
    (p : Supervisor × Option Section) : Prop :=
  Monitor.Settled (Free base busy idle) (Held base busy idle Act) p

/-! ### The error path -/

theorem fine_afterRollBack (k : Kept busy idle Act R) {s : Supervisor}
    (hc : s.toWorkerIndex.Consistent base) (hst : s.runState.isActive = true)
    (hidle : idle s.toWorkerIndex) : Fine base busy idle Act s.afterRollBack := by
  have herr : s.setRunState .unrecoverableFailed = some { s with runState := .error } := by
    rw [setRunState]
    cases hs : s.runState <;> rw [hs] at hst <;> first | rfl | cases hst
  rw [afterRollBack, herr]
  simp only [Option.getD_some, closeRunSession]
  rcases s.currentRunId with _ | run
  · exact ⟨hc, k.busy_of_idle _ hidle, .inl (.inr rfl), fun _ => hidle⟩
  · exact ⟨hc, k.busy_of_idle _ hidle, rfl, hidle⟩

theorem fine_rollBack (k : Kept busy idle Act R) {s : Supervisor}
    (hc : s.toWorkerIndex.Consistent base) (hst : s.runState.isActive = true)
    (hbusy : busy s.toWorkerIndex) : Fine base busy idle Act s.rollBack := by
  rw [rollBack]
  split
  · rename_i hnone
    exact fine_afterRollBack k hc hst (k.idle_of_empty _ (hc.empty (Dict.keys_eq_nil.mp hnone)))
  · refine ⟨hc, hbusy, hst, fun w hw => ?_⟩
    obtain ⟨spec, hspec⟩ := Option.isSome_iff_exists.mp hw
    exact Dict.mem_keys.mpr ⟨spec, hspec⟩

/-! ### `start_run` -/

theorem fine_finishStart {s : Supervisor}
    (hc : s.toWorkerIndex.Consistent base) (hst : s.runState = .starting)
    (hbusy : busy s.toWorkerIndex) : Fine base busy idle Act s.finishStart := by
  have harm : s.setRunState .workersSpawned = some { s with runState := .armed } := by
    rw [setRunState, hst]
    rfl
  rw [finishStart, harm]
  exact ⟨hc, hbusy, .inl rfl⟩

theorem fine_spawnPairs (k : Kept busy idle Act R) {s : Supervisor} (pairs : List Runnable)
    (hc : s.toWorkerIndex.Consistent base) (hst : s.runState = .starting)
    (hbusy : busy s.toWorkerIndex) : Fine base busy idle Act (s.spawnPairs pairs) := by
  induction pairs generalizing s with
  | nil => exact fine_finishStart hc hst hbusy
  | cons r rest ih =>
    rw [spawnPairs]
    split
    · rename_i key _ _
      obtain ⟨x, e, heq, hcx, hpx, hstart⟩ :=
        spawnRoles_spec k.add_busy s r key (rolesFor r.dom) hc hbusy
      rw [heq]
      cases e with
      | returned => exact ih hcx hst hpx
      | raised => exact fine_rollBack k hcx (by rw [hst]; rfl) hpx
      | starting w roles =>
        obtain ⟨hid, hsome⟩ := hstart w roles rfl
        exact ⟨hcx, hpx, hid, hsome, hst⟩
    · exact ih hc hst hbusy

theorem fine_flushFailures (k : Kept busy idle Act R) {s : Supervisor} (pairs : List Runnable)
    (hc : s.toWorkerIndex.Consistent base) (hst : s.runState = .starting)
    (hbusy : busy s.toWorkerIndex) : Fine base busy idle Act (s.flushFailures pairs) := by
  rw [flushFailures]
  split
  · refine fine_spawnPairs k pairs ?_ hst (k.sets_busy _ _ hbusy)
    exact consistent_withSets hc fun id ws hws => .inl (get?_ofList_empty_sets pairs hws)
  · exact ⟨hc, hbusy, hst⟩

theorem fine_loadNext (k : Kept busy idle Act R) {s : Supervisor} (kek : Key)
    (todo : List (TargetId × TargetRow)) (pairs : List Runnable)
    (hc : s.toWorkerIndex.Consistent base) (hst : s.runState = .starting)
    (hbusy : busy s.toWorkerIndex) : Fine base busy idle Act (s.loadNext kek todo pairs) := by
  cases todo with
  | nil => exact fine_flushFailures k pairs hc hst hbusy
  | cons t todo => exact ⟨hc, hbusy, hst⟩

/-- Reading a credential only records a decrypt failure. -/
theorem readRunnable_spec (s : Supervisor) (kek : Key) (t : TargetId × TargetRow) :
    ∃ failures r, s.readRunnable kek t = ({ s with decryptFailures := failures }, r) := by
  rw [readRunnable]
  split
  · exact ⟨s.decryptFailures ++ [t.1], _, rfl⟩
  · exact ⟨s.decryptFailures, _, rfl⟩

/-! ### `stop_run` -/

theorem fine_afterClose (k : Kept busy idle Act R) {s : Supervisor}
    (hc : s.toWorkerIndex.Consistent base) (hst : s.runState = .stopping)
    (hidle : idle s.toWorkerIndex) : Fine base busy idle Act s.afterClose := by
  have hoff : s.setRunState .workersDrained = some { s with runState := .offline } := by
    rw [setRunState, hst]
    rfl
  rw [afterClose, hoff]
  exact ⟨hc, k.busy_of_idle _ hidle, rfl, hidle⟩

theorem fine_afterWipe (k : Kept busy idle Act R) {s : Supervisor} (reason : EndReason)
    (hc : s.toWorkerIndex.Consistent base) (hst : s.runState = .stopping)
    (hidle : idle s.toWorkerIndex) : Fine base busy idle Act (s.afterWipe reason) := by
  rw [afterWipe, closeRunSession]
  rcases s.currentRunId with _ | run
  · exact fine_afterClose k hc hst hidle
  · exact ⟨hc, k.busy_of_idle _ hidle, hst, hidle⟩

theorem fine_auditWipe (k : Kept busy idle Act R) {s : Supervisor} (cleared : List TargetId)
    (reason : EndReason) (hc : s.toWorkerIndex.Consistent base) (hst : s.runState = .stopping)
    (hidle : idle s.toWorkerIndex) : Fine base busy idle Act (s.auditWipe cleared reason) := by
  cases cleared with
  | nil => exact fine_afterWipe k reason hc hst hidle
  | cons id rest => exact ⟨hc, k.busy_of_idle _ hidle, hst, hidle⟩

theorem fine_afterDrain (k : Kept busy idle Act R) {s : Supervisor} (reason : EndReason)
    (hc : s.toWorkerIndex.Consistent base) (hst : s.runState = .stopping)
    (hidle : idle s.toWorkerIndex) : Fine base busy idle Act (s.afterDrain reason) := by
  rw [afterDrain]
  split
  · exact fine_afterWipe k reason hc hst hidle
  · exact ⟨hc, k.busy_of_idle _ hidle, hst, hidle⟩

/-! ### `enable_target` and `disable_target` -/

/-- A spawn inside `enable_target` keeps the assertion of the free lock. -/
theorem spawnRoles_free (k : Kept busy idle Act R) {s : Supervisor} (r : Runnable) (key : Text)
    (roles : List WorkerRole) (h : Free base busy idle s) (hact : Act s.runState) :
    ∃ x e, s.spawnRoles r key roles = ({ s with toWorkerIndex := x }, e) ∧
      Free base busy idle { s with toWorkerIndex := x } ∧ ∀ w roles', e = .starting w roles' →
        w.targetId = r.dom.id ∧ (x.workers.get? w).isSome := by
  by_cases hrest : Resting s.runState
  · obtain ⟨x, e, heq, hcx, hpx, hstart⟩ :=
      spawnRoles_spec (fun x x' i d u ky ro => k.add_idle s.runState x x' i d u ky ro hact hrest)
        s r key roles h.consistent (h.rests hrest)
    exact ⟨x, e, heq, ⟨hcx, k.busy_of_idle _ hpx, h.stable, fun _ => hpx⟩, hstart⟩
  · obtain ⟨x, e, heq, hcx, hpx, hstart⟩ :=
      spawnRoles_spec k.add_busy s r key roles h.consistent h.kept
    exact ⟨x, e, heq, ⟨hcx, hpx, h.stable, fun hr => absurd hr hrest⟩, hstart⟩

theorem fine_enableReloaded (k : Kept busy idle Act R) {s : Supervisor} (kek : Key)
    (id : TargetId) (row : TargetRow) (h : Free base busy idle s) (hact : Act s.runState) :
    Fine base busy idle Act (s.enableReloaded kek id row) := by
  have hfree : Free base busy idle { s with
      targets := s.targets.insert id (readTarget s.db kek (id, row)).dom
      targetToWorkers := setDefault s.targetToWorkers id } :=
    ⟨consistent_withSets h.consistent fun _ _ => get?_setDefault, k.sets_busy _ _ h.kept,
      h.stable, fun hr => k.sets_idle s.runState _ id hact hr (h.rests hr)⟩
  rw [enableReloaded]
  split
  · rename_i key _ _
    obtain ⟨x, e, heq, hfx, hstart⟩ := spawnRoles_free k (readTarget s.db kek (id, row)) key
      (rolesFor (readTarget s.db kek (id, row)).dom) hfree hact
    rw [heq]
    cases e with
    | returned => exact hfx
    | raised => exact hfx
    | starting w roles =>
      obtain ⟨hid, hsome⟩ := hstart w roles rfl
      exact ⟨hfx.consistent, hfx.kept, hid, hsome, hfx, hact⟩
  · exact hfree

theorem fine_stopNext {s : Supervisor} (id : TargetId) (ws : List WorkerId)
    (h : Free base busy idle s) (hws : ∀ w ∈ ws, w.targetId = id) :
    Fine base busy idle Act (s.stopNext id ws) := by
  induction ws with
  | nil => exact h
  | cons w rest ih =>
    rw [stopNext]
    split
    · rename_i hsome
      exact ⟨h.consistent, h.kept, h, hsome, hws⟩
    · exact ih fun w' hw' => hws w' (List.mem_cons_of_mem w hw')

/-! ### The rule -/

theorem fine_enter (k : Kept busy idle Act R) (s : Supervisor) (op : Op)
    (h : Free base busy idle s) (hA : Admitted Act s op) :
    Fine base busy idle Act (s.enter op) := by
  cases op with
  | startRun =>
    rw [enter, startRun]
    split
    · rename_i hoff
      rw [setRunState, hoff]
      exact ⟨h.consistent, h.kept, rfl⟩
    · exact h
  | stopRun reason =>
    rw [enter, stopRun]
    split
    · exact h
    · rename_i hno
      have hstop : s.setRunState .stopRequested = some { s with runState := .stopping } := by
        rw [setRunState]
        cases hs : s.runState <;> rw [hs] at hno <;> first | rfl | exact absurd (by simp) hno
      rw [hstop]
      dsimp only
      split
      · rename_i hnone
        have hempty := h.consistent.empty (Dict.keys_eq_nil.mp hnone)
        exact fine_afterDrain k reason h.consistent rfl (k.idle_of_empty _ hempty)
      · refine ⟨h.consistent, h.kept, rfl, fun w hw => ?_⟩
        obtain ⟨spec, hspec⟩ := Option.isSome_iff_exists.mp hw
        exact Dict.mem_keys.mpr ⟨spec, hspec⟩
  | enableTarget id =>
    rw [enter, enableTarget]
    split
    · exact h
    · exact ⟨h.consistent, h.kept, h, hA⟩
  | disableTarget id reversed =>
    rw [enter, disableTarget]
    have hown : ∀ w ∈ (s.targetToWorkers.get? id).getD [], w.targetId = id := by
      intro w hw
      rcases hset : s.targetToWorkers.get? id with _ | ws <;> rw [hset] at hw
      · cases hw
      · exact (h.consistent.indexed id ws w hset hw).1
    refine fine_stopNext id _ h fun w hw => hown w ?_
    split at hw
    · exact List.mem_reverse.mp hw
    · exact hw

/-- `worker.start()` came back. -/
theorem fine_workerStarted (k : Kept busy idle Act R) {s : Supervisor} {caller : Caller}
    {r : Runnable} {key : Text} {w : WorkerId} {roles : List WorkerRole} {out : Outcome}
    (h : Held base busy idle Act s (.workerStarting caller r key w roles))
    (hR : R s (.workerStarting caller r key w roles) out) :
    Fine base busy idle Act (s.workerStarted caller r key w roles out) := by
  obtain ⟨hid, hsome, hcaller⟩ := h.at_section
  rw [workerStarted]
  split
  · cases caller with
    | startRun rest =>
      obtain ⟨x, e, heq, hcx, hpx, hstart⟩ :=
        spawnRoles_spec k.add_busy s r key roles h.consistent h.kept
      rw [heq]
      cases e with
      | returned => exact fine_spawnPairs k rest hcx hcaller hpx
      | raised => exact fine_rollBack k hcx (by rw [hcaller]; rfl) hpx
      | starting w' roles' =>
        obtain ⟨hid', hsome'⟩ := hstart w' roles' rfl
        exact ⟨hcx, hpx, hid', hsome', hcaller⟩
    | enableTarget =>
      obtain ⟨hfree, hact⟩ := hcaller
      obtain ⟨x, e, heq, hfx, hstart⟩ := spawnRoles_free k r key roles hfree hact
      rw [heq]
      cases e with
      | returned => exact hfx
      | raised => exact hfx
      | starting w' roles' =>
        obtain ⟨hid', hsome'⟩ := hstart w' roles' rfl
        exact ⟨hfx.consistent, hfx.kept, hid', hsome', hfx, hact⟩
  · rename_i hraised
    obtain ⟨hdb, hdi⟩ := k.drop_started s caller r key w roles out hR hraised hsome
    have hc := consistent_dropWorker h.consistent hid
    cases caller with
    | startRun rest => exact fine_rollBack k hc (by rw [hcaller]; rfl) (hdb h.kept)
    | enableTarget => exact ⟨hc, hdb h.kept, hcaller.1.stable, fun hr => hdi (hcaller.1.rests hr)⟩

/-- One case for each suspension point. -/
theorem fine_continueFrom (k : Kept busy idle Act R) (s : Supervisor) (sec : Section)
    (out : Outcome) (h : Held base busy idle Act s sec) (hR : R s sec out) :
    Fine base busy idle Act (s.continueFrom sec out) := by
  obtain ⟨hc, hbusy, hloc⟩ := h
  have hroll : s.runState = .starting → Fine base busy idle Act s.rollBack := fun hst =>
    fine_rollBack k hc (by rw [hst]; rfl) hbusy
  cases sec with
  | opening =>
    cases out with
    | ok => exact ⟨hc, hbusy, hloc⟩
    | raised => exact hroll hloc
  | committingRun run =>
    cases out with
    | ok =>
      rw [continueFrom, loadRunnableTargets]
      split
      · exact fine_rollBack k hc (by rw [show s.runState = .starting from hloc]; rfl) hbusy
      · exact ⟨hc, hbusy, hloc⟩
    | raised => exact hroll hloc
  | listing kek =>
    cases out with
    | ok => exact fine_loadNext k kek _ [] hc hloc hbusy
    | raised => exact hroll hloc
  | loading kek t todo pairs =>
    cases out with
    | ok =>
      obtain ⟨failures, r, hread⟩ := readRunnable_spec s kek t
      rw [continueFrom, hread]
      exact fine_loadNext k kek todo _ hc hloc hbusy
    | raised => exact hroll hloc
  | auditingFailures pairs => exact fine_flushFailures k pairs hc hloc hbusy
  | workerStarting caller r key w roles => exact fine_workerStarted k ⟨hc, hbusy, hloc⟩ hR
  | auditingStart =>
    have hrest : ¬ Resting s.runState := by
      rcases hloc with hst | hst <;> rw [hst] <;> rintro (h | h) <;> cases h
    cases out with
    | ok => exact ⟨hc, hbusy, .inr hloc, fun hr => absurd hr hrest⟩
    | raised =>
      refine fine_rollBack k hc ?_ hbusy
      rcases hloc with hst | hst <;> rw [hst] <;> rfl
  | rollingBack ws =>
    cases out with
    | ok =>
      exact fine_afterRollBack k (consistent_dropAll ws hc) hloc.1
        (k.idle_of_empty _ (empty_dropAll hc hloc.2))
    | raised => exact fine_afterRollBack k hc hloc.1 (k.rollingBack_raised s ws hR hbusy)
  | closingFailed run =>
    cases out <;> exact ⟨hc, hbusy, .inl (.inr hloc.1), fun _ => hloc.2⟩
  | draining ws reason =>
    cases out with
    | ok =>
      exact fine_afterDrain k reason (consistent_dropAll ws hc) hloc.1
        (k.idle_of_empty _ (empty_dropAll hc hloc.2))
    | raised => exact fine_afterDrain k reason hc hloc.1 (k.draining_raised s ws reason hR hbusy)
  | wiping ids reason =>
    cases out with
    | ok => exact fine_auditWipe k _ reason hc hloc.1 hloc.2
    | raised => exact fine_afterWipe k reason hc hloc.1 hloc.2
  | auditingWipe rest reason =>
    cases out with
    | ok => exact fine_auditWipe k rest reason hc hloc.1 hloc.2
    | raised => exact fine_afterWipe k reason hc hloc.1 hloc.2
  | closing run reason =>
    cases out <;> exact fine_afterClose k hc hloc.1 hloc.2
  | auditingStop => exact ⟨hc, hbusy, .inl (.inl hloc.1), fun _ => hloc.2⟩
  | reloading kek id =>
    cases out with
    | ok =>
      rw [continueFrom]
      split
      · exact hloc.1
      · exact ⟨hc, hbusy, hloc⟩
    | raised => exact hloc.1
  | reloadingCredential kek id row =>
    cases out with
    | ok => exact fine_enableReloaded k kek id row hloc.1 hloc.2
    | raised => exact hloc.1
  | stoppingWorker id w rest =>
    obtain ⟨hfree, hsome, hown⟩ := hloc
    obtain ⟨hdb, hdi⟩ := k.drop_stopped s id w rest out hR hsome
    have hc' := consistent_dropWorker hc (hown w List.mem_cons_self)
    refine fine_stopNext id rest ?_ fun w' hw' => hown w' (List.mem_cons_of_mem w hw')
    exact ⟨hc', hdb hbusy, hfree.stable, fun hr => hdi (hfree.rests hr)⟩

/-- Steps without the lock change no index, and move the run state between ARMED
and LIVE only. -/
theorem react_spec (s : Supervisor) (e : Env) :
    (s.react e).toWorkerIndex = s.toWorkerIndex ∧
      ((s.react e).runState = s.runState ∨ (s.runState = .armed ∧ (s.react e).runState = .live) ∨
        (s.runState = .live ∧ (s.react e).runState = .armed)) := by
  cases e with
  | notifyObsPublishBegan =>
    rw [react]
    split
    · rename_i hst
      rw [setRunState, hst]
      exact ⟨rfl, .inr (.inl ⟨rfl, rfl⟩)⟩
    · exact ⟨rfl, .inl rfl⟩
  | notifyObsPublishEnded =>
    rw [react]
    split
    · rename_i hst
      rw [setRunState, hst]
      exact ⟨rfl, .inr (.inr ⟨rfl, rfl⟩)⟩
    · exact ⟨rfl, .inl rfl⟩
  | resetTargetWorker w => exact ⟨rfl, .inl rfl⟩
  | commit db => exact ⟨rfl, .inl rfl⟩
  | setKeys keys => exact ⟨rfl, .inl rfl⟩
  | setSuperTg b => exact ⟨rfl, .inl rfl⟩

/-- A step without the lock leaves the index alone, so it keeps what depends on
the index and on no difference between ARMED and LIVE. -/
theorem free_react (s : Supervisor) (e : Env) (h : Free base busy idle s) :
    Free base busy idle (s.react e) := by
  obtain ⟨hindex, hst⟩ := react_spec s e
  have hstable : Stable (s.react e).runState := by
    rcases hst with heq | ⟨-, heq⟩ | ⟨-, heq⟩ <;> rw [heq]
    · exact h.stable
    · exact .inr (.inr rfl)
    · exact .inr (.inl rfl)
  refine ⟨by rw [hindex]; exact h.consistent, by rw [hindex]; exact h.kept, hstable, ?_⟩
  rw [hindex]
  rcases hst with heq | ⟨-, heq⟩ | ⟨-, heq⟩ <;> rw [heq]
  · exact h.rests
  · rintro (hr | hr) <;> cases hr
  · rintro (hr | hr) <;> cases hr

theorem act_react (k : Kept busy idle Act R) (s : Supervisor) (e : Env) (h : Act s.runState) :
    Act (s.react e).runState := by
  rcases (react_spec s e).2 with heq | ⟨harm, heq⟩ | ⟨hlive, heq⟩ <;> rw [heq]
  · exact h
  · rw [harm] at h
    exact k.act_obs.mp h
  · rw [hlive] at h
    exact k.act_obs.mpr h

/-- A run state other than ARMED and LIVE is not changed without the lock. -/
theorem runState_react {s : Supervisor} {e : Env} {st : RunState} (h : s.runState = st)
    (ha : st ≠ .armed) (hl : st ≠ .live) : (s.react e).runState = st := by
  rcases (react_spec s e).2 with heq | ⟨harm, -⟩ | ⟨hlive, -⟩
  · rw [heq, h]
  · exact absurd (h.symm.trans harm) ha
  · exact absurd (h.symm.trans hlive) hl

theorem held_react (k : Kept busy idle Act R) (s : Supervisor) (sec : Section) (e : Env)
    (h : Held base busy idle Act s sec) : Held base busy idle Act (s.react e) sec := by
  obtain ⟨hc, hbusy, hloc⟩ := h
  have hindex := (react_spec s e).1
  have hworkers : (s.react e).workers = s.workers := congrArg WorkerIndex.workers hindex
  refine ⟨by rw [hindex]; exact hc, by rw [hindex]; exact hbusy, ?_⟩
  cases sec with
  | opening => exact runState_react hloc (by decide) (by decide)
  | committingRun run => exact runState_react hloc (by decide) (by decide)
  | listing kek => exact runState_react hloc (by decide) (by decide)
  | loading kek t todo pairs => exact runState_react hloc (by decide) (by decide)
  | auditingFailures pairs => exact runState_react hloc (by decide) (by decide)
  | workerStarting caller r key w roles =>
    refine ⟨hloc.1, by rw [hworkers]; exact hloc.2.1, ?_⟩
    cases caller with
    | startRun rest => exact runState_react hloc.2.2 (by decide) (by decide)
    | enableTarget => exact ⟨free_react s e hloc.2.2.1, act_react k s e hloc.2.2.2⟩
  | auditingStart =>
    rcases (react_spec s e).2 with heq | ⟨-, heq⟩ | ⟨-, heq⟩
    · rw [Local, heq]
      exact hloc
    · exact .inr heq
    · exact .inl heq
  | rollingBack ws =>
    refine ⟨?_, fun w hw => hloc.2 w (by rw [← hworkers]; exact hw)⟩
    rcases (react_spec s e).2 with heq | ⟨-, heq⟩ | ⟨-, heq⟩ <;> rw [heq]
    · exact hloc.1
    · rfl
    · rfl
  | closingFailed run =>
    exact ⟨runState_react hloc.1 (by decide) (by decide), by rw [hindex]; exact hloc.2⟩
  | draining ws reason =>
    exact ⟨runState_react hloc.1 (by decide) (by decide),
      fun w hw => hloc.2 w (by rw [← hworkers]; exact hw)⟩
  | wiping ids reason =>
    exact ⟨runState_react hloc.1 (by decide) (by decide), by rw [hindex]; exact hloc.2⟩
  | auditingWipe rest reason =>
    exact ⟨runState_react hloc.1 (by decide) (by decide), by rw [hindex]; exact hloc.2⟩
  | closing run reason =>
    exact ⟨runState_react hloc.1 (by decide) (by decide), by rw [hindex]; exact hloc.2⟩
  | auditingStop =>
    exact ⟨runState_react hloc.1 (by decide) (by decide), by rw [hindex]; exact hloc.2⟩
  | reloading kek id => exact ⟨free_react s e hloc.1, act_react k s e hloc.2⟩
  | reloadingCredential kek id row => exact ⟨free_react s e hloc.1, act_react k s e hloc.2⟩
  | stoppingWorker id w rest =>
    exact ⟨free_react s e hloc.1, by rw [hworkers]; exact hloc.2.1, hloc.2.2⟩

/-- **The operations keep the assertions**, for every property of the index
they were asked to keep. -/
theorem Kept.rule (k : Kept busy idle Act R) :
    monitor.Rule (Free base busy idle) (Held base busy idle Act) (Admitted Act) R where
  admitted s op hf hadm := by
    cases op with
    | enableTarget id => exact k.act_active _ hadm
    | startRun => trivial
    | stopRun reason => trivial
    | disableTarget id reversed => trivial
  enter s op hf hA := fine_enter k s op hf hA
  resume s sec out r hh hR hr := by
    obtain rfl := Option.some.inj hr
    exact fine_continueFrom k s sec out hh hR
  external_free s e s' hf he := by
    obtain rfl := Option.some.inj he
    exact free_react s e hf
  external_held s sec e s' hh he := by
    obtain rfl := Option.some.inj he
    exact held_react k s sec e hh

end Rule

/-- Nothing is kept but the consistency of the index. -/
theorem kept_trivial {Act : RunState → Prop} (hact : ∀ st, st.isActive = true → Act st)
    (hobs : Act .armed ↔ Act .live) :
    Kept (fun _ => True) (fun _ => True) Act fun _ _ _ => True where
  busy_of_idle _ _ := trivial
  idle_of_empty _ _ := trivial
  act_active := hact
  act_obs := hobs
  add_busy _ _ _ _ _ _ _ _ _ := trivial
  add_idle _ _ _ _ _ _ _ _ _ _ _ _ := trivial
  sets_busy _ _ _ := trivial
  sets_idle _ _ _ _ _ _ := trivial
  drop_started _ _ _ _ _ _ _ _ _ _ := ⟨fun _ => trivial, fun _ => trivial⟩
  drop_stopped _ _ _ _ _ _ _ := ⟨fun _ => trivial, fun _ => trivial⟩
  rollingBack_raised _ _ _ _ := trivial
  draining_raised _ _ _ _ _ := trivial

/-- What the run states alone say about a suspension point. -/
abbrev InRun (base : Finset Text) : Supervisor → Section → Prop :=
  Supervisor.Held base (fun _ => True) (fun _ => True) fun st => st.isActive = true

/-- … and about the free lock. -/
abbrev Between (base : Finset Text) : Supervisor → Prop :=
  Free base (fun _ => True) fun _ => True

theorem kept_inRun :
    Kept (fun _ => True) (fun _ => True) (fun st => st.isActive = true) fun _ _ _ => True :=
  kept_trivial (fun _ h => h) (by decide)

theorem active_ne_offline {st : RunState} (h : st.isActive = true) : st ≠ .offline := by
  rintro rfl
  cases h

/-- The assertion of the free lock holds before anything runs. -/
theorem free_init (busy idle : WorkerIndex → Prop) (hbusy : ∀ x, idle x → busy x)
    (hempty : ∀ x : WorkerIndex, x.Empty → idle x) (url : Text) (registry : CredentialRegistry)
    (keys : Option DerivedKeys) (db : Database) :
    Free registry.snapshot busy idle (init url registry keys db) := by
  have he : (init url registry keys db).toWorkerIndex.Empty := by
    refine ⟨rfl, rfl, fun ws hws => ?_⟩
    cases hws
  exact ⟨he.consistent, hbusy _ (hempty _ he), .inl (.inl rfl), fun _ => hempty _ he⟩

end Supervisor

end RestreamPlus
