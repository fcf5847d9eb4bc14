import RestreamPlus.Fanout.RunExclusion
import RestreamPlus.Fanout.SupervisorFrame

/-!
# Three indexes of the same workers

Which workers there are is written down three times: as the keys of `_workers`,
as the keys of `_registered_secrets`, and in `_target_to_workers`, where
`disable_target` looks. Every operation keeps the first two in step. The third
is replaced by empty sets whenever `start_run` has read its targets, and
`_spawn_workers_for_target` skips a worker that `_workers` already has: a worker
that outlived the run before is never put back.

So the three agree at every await exactly as long as `start_run` replaces the
sets while there is no worker (`indexes_agree_iff`). A worker can be left over by
a `stop_run` whose stops raised, or by an `enable_target` that waited behind one.
-/

namespace RestreamPlus

open Interleaving

namespace WorkerIndex

/-- The set of its target has the worker. -/
def Filed (x : WorkerIndex) (w : WorkerId) : Prop :=
  ∃ ws ∈ x.targetToWorkers.get? w.targetId, w ∈ ws

instance (x : WorkerIndex) (w : WorkerId) : Decidable (x.Filed w) := by
  unfold Filed
  infer_instance

/-- **The three indexes agree** on who is a worker. -/
def IndexesAgree (x : WorkerIndex) : Prop :=
  ∀ w, ((x.workers.get? w).isSome ↔ x.Filed w) ∧
    (x.Filed w ↔ (x.registeredSecrets.get? w).isSome)

/-- The direction that can be lost: every worker is in the set of its target. -/
def Mapped (x : WorkerIndex) : Prop := ∀ w, (x.workers.get? w).isSome → x.Filed w

variable {x x' : WorkerIndex}

theorem Consistent.indexesAgree_iff {base : Finset Text} (h : x.Consistent base) :
    x.IndexesAgree ↔ x.Mapped := by
  refine ⟨fun ha w hw => (ha w).1.mp hw, fun hm w => ?_⟩
  have hiff : (x.workers.get? w).isSome ↔ x.Filed w :=
    ⟨hm w, fun ⟨ws, hws, hmem⟩ => (h.indexed w.targetId ws w hws hmem).2⟩
  exact ⟨hiff, hiff.symm.trans (h.holds w).symm⟩

theorem mapped_of_none (h : ∀ w, x.workers.get? w = none) : x.Mapped := by
  intro w hw
  rw [h w] at hw
  cases hw

/-- A set that is only created is empty. -/
theorem filed_setDefault {id : TargetId} {w : WorkerId} (h : x.Filed w) :
    Filed { x with targetToWorkers := Supervisor.setDefault x.targetToWorkers id } w := by
  obtain ⟨ws, hws, hmem⟩ := h
  refine ⟨ws, ?_, hmem⟩
  show (Supervisor.setDefault x.targetToWorkers id).get? w.targetId = some ws
  rw [Supervisor.setDefault]
  split
  · exact hws
  · rename_i hnone
    have hne : w.targetId ≠ id := by
      rintro rfl
      exact hnone (by rw [show x.targetToWorkers.get? w.targetId = some ws from hws]; rfl)
    rw [Dict.get?_insert_ne _ _ hne]
    exact hws

section Add

variable {inputUrl : Text} {dom : Target} {url key : Text} {role : WorkerRole}

theorem workers_addWorker (h : x.addWorker inputUrl dom url key role = some x') (w : WorkerId) :
    (x'.workers.get? w).isSome ↔ w = ⟨dom.id, role⟩ ∨ (x.workers.get? w).isSome := by
  obtain ⟨outputUrl, registry, -, -, rfl⟩ := addWorker_eq_some h
  simp only [Dict.get?_insert]
  split
  · rename_i heq
    exact iff_of_true rfl (.inl heq)
  · rename_i hne
    exact (or_iff_right hne).symm

/-- The new worker is filed, the others as before. -/
theorem filed_addWorker (h : x.addWorker inputUrl dom url key role = some x') (w : WorkerId) :
    x'.Filed w ↔ w = ⟨dom.id, role⟩ ∨ x.Filed w := by
  obtain ⟨outputUrl, registry, -, -, rfl⟩ := addWorker_eq_some h
  by_cases hid : w.targetId = dom.id
  · simp only [Filed, hid, Dict.get?_insert_self]
    rcases hset : x.targetToWorkers.get? dom.id with _ | ws
    · refine ⟨?_, ?_⟩
      · rintro ⟨_, heq, hmem⟩
        obtain rfl := Option.some.inj heq
        rcases mem_addTo.mp hmem with hnil | heq
        · cases hnil
        · exact .inl heq
      · rintro (heq | ⟨_, hnone, -⟩)
        · exact ⟨_, rfl, mem_addTo.mpr (.inr heq)⟩
        · cases hnone
    · refine ⟨?_, ?_⟩
      · rintro ⟨_, heq, hmem⟩
        obtain rfl := Option.some.inj heq
        rcases mem_addTo.mp hmem with hmem | heq
        · exact .inr ⟨ws, rfl, hmem⟩
        · exact .inl heq
      · rintro (heq | ⟨ws', hws, hmem⟩)
        · exact ⟨_, rfl, mem_addTo.mpr (.inr heq)⟩
        · obtain rfl := Option.some.inj hws
          exact ⟨_, rfl, mem_addTo.mpr (.inl hmem)⟩
  · simp only [Filed, Dict.get?_insert_ne _ _ hid]
    refine (or_iff_right ?_).symm
    rintro rfl
    exact hid rfl

/-- An addition maps the worker it adds and no other. -/
theorem mapped_addWorker_iff (h : x.addWorker inputUrl dom url key role = some x')
    (hnew : x.workers.get? ⟨dom.id, role⟩ = none) : x'.Mapped ↔ x.Mapped := by
  refine ⟨fun hm w hw => ?_, fun hm w hw => ?_⟩
  · have hfiled := hm w ((workers_addWorker h w).mpr (.inr hw))
    refine ((filed_addWorker h w).mp hfiled).resolve_left ?_
    rintro rfl
    rw [hnew] at hw
    cases hw
  · rw [filed_addWorker h]
    exact ((workers_addWorker h w).mp hw).imp id (hm w)

end Add

/-- A worker that goes leaves the set of its own target. -/
theorem Mapped.dropWorker {tid : TargetId} {w : WorkerId} (hm : x.Mapped) :
    (x.dropWorker tid w).Mapped := by
  intro w' hw'
  rw [get?_workers_dropWorker] at hw'
  have hne : w' ≠ w := by
    rintro rfl
    simp at hw'
  rw [if_neg hne] at hw'
  obtain ⟨ws, hws, hmem⟩ := hm w' hw'
  rw [Option.mem_def] at hws
  rw [Filed, WorkerIndex.dropWorker]
  simp only [targetToWorkers_unregisterSecret]
  rcases hset : x.targetToWorkers.get? tid with _ | ws₀
  · exact ⟨ws, hws, hmem⟩
  · by_cases hid : w'.targetId = tid
    · rw [hid, hset] at hws
      obtain rfl := Option.some.inj hws
      exact ⟨_, by rw [hid]; exact Dict.get?_insert_self _ _ _, mem_discardFrom.mpr ⟨hmem, hne⟩⟩
    · exact ⟨ws, by rw [Option.mem_def, Dict.get?_insert_ne _ _ hid]; exact hws, hmem⟩

theorem Mapped.dropEverywhere {w : WorkerId} (hm : x.Mapped) : (x.dropEverywhere w).Mapped := by
  intro w' hw'
  rw [WorkerIndex.dropEverywhere] at hw' ⊢
  simp only [workers_unregisterSecret, targetToWorkers_unregisterSecret] at hw' ⊢
  obtain ⟨spec, hspec⟩ := Option.isSome_iff_exists.mp hw'
  obtain ⟨hne, hold⟩ := Dict.get?_of_get?_erase hspec
  obtain ⟨ws, hws, hmem⟩ := hm w' (by rw [hold]; rfl)
  refine ⟨discardFrom ws w, ?_, mem_discardFrom.mpr ⟨hmem, hne⟩⟩
  rw [Option.mem_def] at hws ⊢
  rw [Dict.get?_mapValues, hws]
  rfl

theorem Mapped.dropAll (hm : x.Mapped) (ws : List WorkerId) : (x.dropAll ws).Mapped := by
  induction ws generalizing x with
  | nil => exact hm
  | cons w ws ih => exact ih hm.dropEverywhere

end WorkerIndex

namespace Supervisor

open WorkerIndex

/-- The resumptions with which `start_run` replaces `_target_to_workers`: its
last target is read, its last decrypt failure is audited. -/
def Rebuilds (s : Supervisor) : Section → Outcome → Prop
  | .listing _, .ok => s.db.listEnabled = [] ∧ s.decryptFailures = []
  | .loading kek t todo _, .ok => todo = [] ∧ (s.readRunnable kek t).1.decryptFailures = []
  | .auditingFailures _, _ => s.decryptFailures = []
  | _, _ => False

instance (s : Supervisor) (sec : Section) (out : Outcome) : Decidable (Rebuilds s sec out) := by
  unfold Rebuilds
  split <;> infer_instance

/-- The sets are replaced only while there is no worker. -/
def RebuildsEmpty (s : Supervisor) (sec : Section) (out : Outcome) : Prop :=
  Rebuilds s sec out → s.workers.keys = []

instance (s : Supervisor) (sec : Section) (out : Outcome) : Decidable (RebuildsEmpty s sec out) :=
  inferInstanceAs (Decidable (_ → _))

/-- The workers of a target are among these. -/
def Covers (s : Supervisor) (id : TargetId) (ws : List WorkerId) : Prop :=
  ∀ w, (s.workers.get? w).isSome → w.targetId = id → w ∈ ws

/-- Every worker is in the set of its target, and a `disable_target` that stops
one worker has every worker it leaves on its list. -/
def Tidy (r : Supervisor × Option Section) : Prop :=
  r.1.Mapped ∧ ∀ id w rest, r.2 = some (.stoppingWorker id w rest) → r.1.Covers id (w :: rest)

/-- Not inside a `disable_target`. -/
theorem tidy_of_mapped {s : Supervisor} {sec : Option Section} (hm : s.Mapped)
    (hsec : ∀ id w rest, sec ≠ some (.stoppingWorker id w rest)) : Tidy (s, sec) :=
  ⟨hm, fun id w rest h => absurd h (hsec id w rest)⟩

theorem tidy_return {s : Supervisor} (hm : s.Mapped) : Tidy (s, none) := tidy_of_mapped hm nofun

/-! ## The operations keep the sets -/

section Keeping

variable {s : Supervisor}

theorem tidy_afterRollBack (hm : s.Mapped) : Tidy s.afterRollBack := by
  obtain ⟨st, hst⟩ := setRunState_getD_eq s .unrecoverableFailed
  rw [afterRollBack, hst]
  refine tidy_of_mapped hm fun id w rest h => ?_
  obtain ⟨run, -, hrun⟩ := Option.map_eq_some_iff.mp h
  cases hrun

theorem tidy_rollBack (hm : s.Mapped) : Tidy s.rollBack := by
  rw [rollBack]
  split
  · exact tidy_afterRollBack hm
  · exact tidy_of_mapped hm fun id w rest h => by cases h

theorem tidy_finishStart (hm : s.Mapped) : Tidy s.finishStart := by
  rw [finishStart]
  split
  · exact tidy_rollBack hm
  · rename_i s' h
    obtain ⟨st, -, rfl⟩ := setRunState_eq_some h
    exact tidy_of_mapped hm fun id w rest h => by cases h

/-- Workers that are already there are skipped. -/
theorem mapped_spawnRoles_iff (s : Supervisor) (r : Runnable) (key : Text)
    (roles : List WorkerRole) : (s.spawnRoles r key roles).1.Mapped ↔ s.Mapped := by
  induction roles with
  | nil => exact Iff.rfl
  | cons role roles ih =>
    rw [spawnRoles]
    split
    · exact ih
    · rename_i hnew
      split
      · exact Iff.rfl
      · rename_i x hx
        exact mapped_addWorker_iff hx (Option.not_isSome_iff_eq_none.mp hnew)

theorem tidy_spawnPairs (hm : s.Mapped) (pairs : List Runnable) : Tidy (s.spawnPairs pairs) := by
  induction pairs generalizing s with
  | nil => exact tidy_finishStart hm
  | cons r rest ih =>
    rw [spawnPairs]
    split
    · rename_i key _ _
      have hx := (mapped_spawnRoles_iff s r key (rolesFor r.dom)).mpr hm
      rcases hs : s.spawnRoles r key (rolesFor r.dom) with ⟨s', _ | _ | ⟨w, roles⟩⟩ <;>
        rw [hs] at hx
      · exact ih hx
      · exact tidy_rollBack hx
      · exact tidy_of_mapped hx fun id w rest h => by cases h
    · exact ih hm

/-- Without workers there is nothing that new sets could miss. -/
theorem tidy_beginSpawning (hnone : s.workers.keys = []) (pairs : List Runnable) :
    Tidy (s.beginSpawning pairs) := by
  rw [beginSpawning]
  refine tidy_spawnPairs (mapped_of_none fun w => ?_) pairs
  exact Dict.keys_eq_nil.mp hnone w

theorem tidy_flushFailures (hm : s.Mapped) (pairs : List Runnable)
    (hempty : s.decryptFailures = [] → s.workers.keys = []) : Tidy (s.flushFailures pairs) := by
  rw [flushFailures]
  split
  · rename_i hnil
    exact tidy_beginSpawning (hempty hnil) pairs
  · exact tidy_of_mapped hm fun id w rest h => by cases h

theorem tidy_loadNext (hm : s.Mapped) (kek : Key) (todo : List (TargetId × TargetRow))
    (pairs : List Runnable) (hempty : todo = [] ∧ s.decryptFailures = [] → s.workers.keys = []) :
    Tidy (s.loadNext kek todo pairs) := by
  cases todo with
  | nil => exact tidy_flushFailures hm pairs fun h => hempty ⟨rfl, h⟩
  | cons t todo => exact tidy_of_mapped hm fun id w rest h => by cases h

theorem tidy_loadRunnableTargets (hm : s.Mapped) : Tidy s.loadRunnableTargets := by
  rw [loadRunnableTargets]
  split
  · exact tidy_rollBack hm
  · exact tidy_of_mapped hm fun id w rest h => by cases h

theorem tidy_afterClose (hm : s.Mapped) : Tidy s.afterClose := by
  obtain ⟨st, hst⟩ := setRunState_getD_eq s .workersDrained
  rw [afterClose, hst]
  exact tidy_of_mapped hm fun id w rest h => by cases h

theorem tidy_afterWipe (hm : s.Mapped) (reason : EndReason) : Tidy (s.afterWipe reason) := by
  rw [afterWipe, closeRunSession]
  rcases s.currentRunId with _ | run
  · exact tidy_afterClose hm
  · exact tidy_of_mapped hm fun id w rest h => by cases h

theorem tidy_auditWipe (hm : s.Mapped) (cleared : List TargetId) (reason : EndReason) :
    Tidy (s.auditWipe cleared reason) := by
  cases cleared with
  | nil => exact tidy_afterWipe hm reason
  | cons id rest => exact tidy_of_mapped hm fun id w rest h => by cases h

theorem tidy_afterDrain (hm : s.Mapped) (reason : EndReason) : Tidy (s.afterDrain reason) := by
  rw [afterDrain]
  split
  · exact tidy_afterWipe hm reason
  · exact tidy_of_mapped hm fun id w rest h => by cases h

/-- A spawn that the caller of `_spawn_workers_for_target` ends. -/
theorem tidy_afterSpawn (hm : s.Mapped) (caller : Caller) (r : Runnable) (key : Text)
    (e : SpawnEnd) : Tidy (afterSpawn caller r key (s, e)) := by
  cases e with
  | returned =>
    cases caller with
    | startRun rest => exact tidy_spawnPairs hm rest
    | enableTarget => exact tidy_return hm
  | raised =>
    cases caller with
    | startRun rest => exact tidy_rollBack hm
    | enableTarget => exact tidy_return hm
  | starting w roles => exact tidy_of_mapped hm fun id w rest h => by cases h

theorem tidy_enableReloaded (hm : s.Mapped) (kek : Key) (id : TargetId) (row : TargetRow) :
    Tidy (s.enableReloaded kek id row) := by
  have hset : Mapped { s.toWorkerIndex with
      targetToWorkers := setDefault s.targetToWorkers id } :=
    fun w hw => filed_setDefault (hm w hw)
  rw [enableReloaded]
  split
  · rename_i key _ _
    exact tidy_afterSpawn ((mapped_spawnRoles_iff _ _ key _).mpr hset) _ _ key _
  · exact tidy_return hset

/-- **The list of a single-target teardown** covers the workers of its target
until none is left. -/
theorem tidy_stopNext (hm : s.Mapped) (id : TargetId) (ws : List WorkerId) (hc : s.Covers id ws) :
    Tidy (s.stopNext id ws) ∧
      ((s.stopNext id ws).2 = none →
        ∀ w, w.targetId = id → (s.stopNext id ws).1.workers.get? w = none) := by
  induction ws with
  | nil =>
    refine ⟨tidy_return hm, fun _ w hw => Option.not_isSome_iff_eq_none.mp fun hsome => ?_⟩
    exact List.not_mem_nil (hc w hsome hw)
  | cons w rest ih =>
    rw [stopNext]
    split
    · refine ⟨⟨hm, fun id' w' rest' h => ?_⟩, fun h => by cases h⟩
      cases h
      exact hc
    · rename_i hnone
      refine ih fun w' hsome hid => ?_
      rcases List.mem_cons.mp (hc w' hsome hid) with rfl | hmem
      · exact absurd hsome hnone
      · exact hmem

theorem tidy_disableTarget (hm : s.Mapped) (id : TargetId) (reversed : Bool) :
    Tidy (s.disableTarget id reversed) ∧ ((s.disableTarget id reversed).2 = none →
      ∀ w, w.targetId = id → (s.disableTarget id reversed).1.workers.get? w = none) := by
  refine tidy_stopNext hm id _ fun w hsome hid => ?_
  obtain ⟨ws, hws, hmem⟩ := hm w hsome
  rw [hid, Option.mem_def] at hws
  rw [hws, Option.getD_some]
  split
  · exact List.mem_reverse.mpr hmem
  · exact hmem

theorem tidy_enter (hm : s.Mapped) (op : Op) : Tidy (s.enter op) := by
  cases op with
  | startRun =>
    rw [enter, startRun]
    split
    · rcases h : s.setRunState .startRequested with _ | s'
      · exact tidy_return hm
      · obtain ⟨st, -, rfl⟩ := setRunState_eq_some h
        exact tidy_of_mapped hm fun id w rest h => by cases h
    · exact tidy_return hm
  | stopRun reason =>
    rw [enter, stopRun]
    split
    · exact tidy_return hm
    · rcases h : s.setRunState .stopRequested with _ | s'
      · exact tidy_return hm
      · obtain ⟨st, -, rfl⟩ := setRunState_eq_some h
        have hst : Mapped ({ s with runState := st } : Supervisor).toWorkerIndex := hm
        dsimp only
        split
        · exact tidy_afterDrain hst reason
        · exact tidy_of_mapped hm fun id w rest h => by cases h
  | enableTarget id =>
    rw [enter, enableTarget]
    split
    · exact tidy_return hm
    · exact tidy_of_mapped hm fun id w rest h => by cases h
  | disableTarget id reversed => exact (tidy_disableTarget hm id reversed).1

/-- `worker.start()` came back. -/
theorem tidy_workerStarted (hm : s.Mapped) (caller : Caller) (r : Runnable) (key : Text)
    (w : WorkerId) (roles : List WorkerRole) (out : Outcome) :
    Tidy (s.workerStarted caller r key w roles out) := by
  rw [workerStarted]
  split
  · exact tidy_afterSpawn ((mapped_spawnRoles_iff s r key roles).mpr hm) caller r key _
  · have hdrop : Mapped ({ s with
        toWorkerIndex := s.toWorkerIndex.dropWorker r.dom.id w } : Supervisor).toWorkerIndex :=
      hm.dropWorker
    cases caller with
    | startRun rest => exact tidy_rollBack hdrop
    | enableTarget => exact tidy_return hdrop

/-- The step of a single-target teardown. -/
theorem tidy_stoppingWorker (hm : s.Mapped) {id : TargetId} {w : WorkerId} {rest : List WorkerId}
    (hc : s.Covers id (w :: rest)) (out : Outcome) :
    Tidy (s.continueFrom (.stoppingWorker id w rest) out) ∧
      ((s.continueFrom (.stoppingWorker id w rest) out).2 = none → ∀ w', w'.targetId = id →
        (s.continueFrom (.stoppingWorker id w rest) out).1.workers.get? w' = none) := by
  refine tidy_stopNext hm.dropWorker id rest fun w' hsome hid => ?_
  rw [get?_workers_dropWorker] at hsome
  by_cases heq : w' = w
  · rw [if_pos heq] at hsome
    cases hsome
  · rw [if_neg heq] at hsome
    exact (List.mem_cons.mp (hc w' hsome hid)).resolve_left heq

/-- One case for each suspension point. -/
theorem tidy_continueFrom {sec : Section} (ht : Tidy (s, some sec)) (out : Outcome)
    (hR : RebuildsEmpty s sec out) : Tidy (s.continueFrom sec out) := by
  obtain ⟨hm, hc⟩ := ht
  have hdrop : ∀ ws, Mapped ({ s with
      toWorkerIndex := s.toWorkerIndex.dropAll ws } : Supervisor).toWorkerIndex :=
    fun ws => Mapped.dropAll hm ws
  cases sec with
  | opening =>
    cases out with
    | ok => exact tidy_of_mapped hm fun id w rest h => by cases h
    | raised => exact tidy_rollBack hm
  | committingRun run =>
    cases out with
    | ok =>
      have hdb : Mapped ({ s with db := s.db.startRun run } : Supervisor).toWorkerIndex := hm
      exact tidy_loadRunnableTargets hdb
    | raised => exact tidy_rollBack hm
  | listing kek =>
    cases out with
    | ok => exact tidy_loadNext hm kek _ [] hR
    | raised => exact tidy_rollBack hm
  | loading kek t todo pairs =>
    cases out with
    | ok =>
      obtain ⟨failures, r, hread⟩ := readRunnable_spec s kek t
      have hkeep : Mapped ({ s with decryptFailures := failures } : Supervisor).toWorkerIndex := hm
      rw [RebuildsEmpty, Rebuilds, hread] at hR
      rw [continueFrom, hread]
      exact tidy_loadNext hkeep kek todo _ hR
    | raised => exact tidy_rollBack hm
  | auditingFailures pairs => exact tidy_flushFailures hm pairs hR
  | workerStarting caller r key w roles => exact tidy_workerStarted hm caller r key w roles out
  | auditingStart =>
    cases out with
    | ok => exact tidy_return hm
    | raised => exact tidy_rollBack hm
  | rollingBack ws =>
    cases out with
    | ok => exact tidy_afterRollBack (hdrop ws)
    | raised => exact tidy_afterRollBack hm
  | closingFailed run => cases out <;> exact tidy_return hm
  | draining ws reason =>
    cases out with
    | ok => exact tidy_afterDrain (hdrop ws) reason
    | raised => exact tidy_afterDrain hm reason
  | wiping ids reason =>
    cases out with
    | ok =>
      have hdb : Mapped ({ s with
        db := ids.foldl Database.deleteForTarget s.db } : Supervisor).toWorkerIndex := hm
      exact tidy_auditWipe hdb _ reason
    | raised => exact tidy_afterWipe hm reason
  | auditingWipe rest reason =>
    cases out with
    | ok => exact tidy_auditWipe hm rest reason
    | raised => exact tidy_afterWipe hm reason
  | closing run reason =>
    cases out with
    | ok =>
      have hdb : Mapped ({ s with db := s.db.endRun run reason } : Supervisor).toWorkerIndex := hm
      exact tidy_afterClose hdb
    | raised => exact tidy_afterClose hm
  | auditingStop => exact tidy_return hm
  | reloading kek id =>
    cases out with
    | ok =>
      rw [continueFrom]
      split
      · exact tidy_return hm
      · exact tidy_of_mapped hm fun id w rest h => by cases h
    | raised => exact tidy_return hm
  | reloadingCredential kek id row =>
    cases out with
    | ok => exact tidy_enableReloaded hm kek id row
    | raised => exact tidy_return hm
  | stoppingWorker id w rest => exact (tidy_stoppingWorker hm (hc id w rest rfl) out).1

theorem tidy_react {sec : Section} (ht : Tidy (s, some sec)) (e : Env) :
    Tidy (s.react e, some sec) := by
  have hindex := (react_spec s e).1
  refine ⟨?_, fun id w rest h w' hsome => ?_⟩
  · show (s.react e).toWorkerIndex.Mapped
    rw [hindex]
    exact ht.1
  · refine ht.2 id w rest h w' ?_
    rw [← congrArg WorkerIndex.workers hindex]
    exact hsome

end Keeping

/-! ## The sets that are replaced -/

theorem index_rollBack (s : Supervisor) : s.rollBack.1.toWorkerIndex = s.toWorkerIndex := by
  obtain ⟨st, hst⟩ := setRunState_getD_eq s .unrecoverableFailed
  rw [rollBack, afterRollBack, hst]
  split <;> rfl

theorem index_finishStart (s : Supervisor) : s.finishStart.1.toWorkerIndex = s.toWorkerIndex := by
  rw [finishStart]
  split
  · exact index_rollBack s
  · rename_i s' h
    obtain ⟨st, -, rfl⟩ := setRunState_eq_some h
    rfl

theorem mapped_spawnPairs_iff (s : Supervisor) (pairs : List Runnable) :
    (s.spawnPairs pairs).1.Mapped ↔ s.Mapped := by
  induction pairs generalizing s with
  | nil =>
    rw [spawnPairs, index_finishStart]
  | cons r rest ih =>
    rw [spawnPairs]
    split
    · rename_i key _ _
      have hx := mapped_spawnRoles_iff s r key (rolesFor r.dom)
      rcases hs : s.spawnRoles r key (rolesFor r.dom) with ⟨s', _ | _ | ⟨w, roles⟩⟩ <;>
        rw [hs] at hx
      · exact (ih s').trans hx
      · dsimp only
        rw [index_rollBack]
        exact hx
      · exact hx
    · exact ih s

/-- **Fresh sets are right exactly when there is no worker**: none is put back. -/
theorem mapped_beginSpawning_iff (s : Supervisor) (pairs : List Runnable) :
    (s.beginSpawning pairs).1.Mapped ↔ s.workers.keys = [] := by
  rw [beginSpawning, mapped_spawnPairs_iff, Dict.keys_eq_nil]
  refine ⟨fun hm w => Option.not_isSome_iff_eq_none.mp fun hsome => ?_,
    fun hnone => mapped_of_none fun w => hnone w⟩
  obtain ⟨ws, hws, hmem⟩ := hm w hsome
  rw [get?_ofList_empty_sets pairs hws] at hmem
  cases hmem

theorem flushFailures_nil {s : Supervisor} (h : s.decryptFailures = []) (pairs : List Runnable) :
    s.flushFailures pairs = s.beginSpawning pairs := by
  rw [flushFailures, h]

theorem rebuilds_spec {s : Supervisor} {sec : Section} {out : Outcome} (h : Rebuilds s sec out) :
    ∃ s' pairs, s'.workers = s.workers ∧ s.continueFrom sec out = beginSpawning s' pairs := by
  rw [Rebuilds.eq_def] at h
  split at h
  · refine ⟨s, [], rfl, ?_⟩
    rw [continueFrom, h.1]
    exact flushFailures_nil h.2 []
  · rename_i kek t todo pairs
    obtain ⟨failures, r, hread⟩ := readRunnable_spec s kek t
    rw [hread] at h
    refine ⟨{ s with decryptFailures := failures }, pairs ++ [r], rfl, ?_⟩
    rw [continueFrom, hread, h.1]
    exact flushFailures_nil h.2 _
  · rename_i pairs
    exact ⟨s, pairs, rfl, flushFailures_nil h pairs⟩
  · exact h.elim

/-! ## Along a run -/

/-- A step of a `disable_target` that has the lock. -/
def Disables (c : Config) (a : Label) (id : TargetId) : Prop :=
  (∃ reversed, monitor.letsIn c a = some (.disableTarget id reversed)) ∨
    ∃ i out w rest, a = .resume i out ∧ c.tasks[i]? = some (.inside (.stoppingWorker id w rest))

section Run

variable {base : Finset Text} {c c' : Config} {a : Label}

/-- Between two operations. -/
abbrev TidyFree (base : Finset Text) (s : Supervisor) : Prop :=
  Free base (fun _ => True) (fun _ => True) s ∧ s.Mapped

/-- At an await. -/
abbrev TidyHeld (base : Finset Text) (s : Supervisor) (sec : Section) : Prop :=
  Held base (fun _ => True) (fun _ => True) (fun _ => True) s sec ∧ Tidy (s, some sec)

theorem tidy_settled {r : Supervisor × Option Section}
    (hr : Monitor.Settled (Free base (fun _ => True) fun _ => True)
      (Held base (fun _ => True) (fun _ => True) fun _ => True) r) (ht : Tidy r) :
    Monitor.Settled (TidyFree base) (TidyHeld base) r := by
  obtain ⟨s, _ | sec⟩ := r
  · exact ⟨hr, ht.1⟩
  · exact ⟨hr, ht⟩

theorem tidy_rule (base : Finset Text) :
    monitor.Rule (TidyFree base) (TidyHeld base) (fun _ _ => True) RebuildsEmpty := by
  have rule : monitor.Rule (Free base (fun _ => True) fun _ => True)
      (Held base (fun _ => True) (fun _ => True) fun _ => True) (Admitted fun _ => True)
      fun _ _ _ => True := (kept_trivial (fun _ _ => trivial) Iff.rfl).rule
  have hall : ∀ s op, Admitted (fun _ => True) s op := by
    intro s op
    cases op <;> trivial
  refine ⟨fun _ _ _ _ => trivial, fun s op hf _ => ?_, fun s sec out r hh hR hr => ?_,
    fun s e s' hf he => ?_, fun s sec e s' hh he => ?_⟩
  · exact tidy_settled (rule.enter s op hf.1 (hall s op)) (tidy_enter hf.2 op)
  · refine tidy_settled (rule.resume s sec out r hh.1 trivial hr) ?_
    obtain rfl := Option.some.inj hr
    exact tidy_continueFrom hh.2 out hR
  · refine ⟨rule.external_free s e s' hf.1 he, ?_⟩
    obtain rfl := Option.some.inj he
    rw [(react_spec s e).1]
    exact hf.2
  · refine ⟨rule.external_held s sec e s' hh.1 he, ?_⟩
    obtain rfl := Option.some.inj he
    exact tidy_react hh.2 e

/-- The configurations that the runs in question reach. -/
abbrev TidySound (base : Finset Text) : Config → Prop :=
  Monitor.Sound (TidyFree base) (TidyHeld base)

theorem TidySound.consistent (h : TidySound base c) :
    c.shared.Consistent base ∧ c.shared.Mapped := by
  rcases ho : c.owner with _ | i
  · have hfree := h.atRest ho
    exact ⟨hfree.1.consistent, hfree.2⟩
  · rw [TidySound, Monitor.Sound, ho] at h
    obtain ⟨sec, -, hheld, -⟩ := h
    exact ⟨hheld.1.consistent, hheld.2.1⟩

/-- A step the condition refuses breaks the agreement at once. -/
theorem TidySound.breaks (hno : ¬ Monitor.guard (fun _ _ => True) RebuildsEmpty c a)
    (hs : monitor.step c a = some c') : ¬ c'.shared.IndexesAgree := by
  by_cases ha : ∃ i out, a = .resume i out
  · obtain ⟨i, out, rfl⟩ := ha
    obtain ⟨sec, r, ht, hr, rfl⟩ := Monitor.step_resume hs
    rw [Monitor.guard_resume ht] at hno
    obtain ⟨hre, hworkers⟩ := Classical.not_imp.mp hno
    obtain rfl := Option.some.inj hr
    obtain ⟨s', pairs, hw, heq⟩ := rebuilds_spec hre
    rw [Monitor.shared_advance, heq]
    refine fun hagree => hworkers ?_
    rw [← hw, ← mapped_beginSpawning_iff s' pairs]
    exact fun w hsome => (hagree w).1.mp hsome
  · exact absurd (Monitor.guard_of_ne_resume c fun i out heq => ha ⟨i, out, heq⟩) hno

/-- What a `disable_target` that returns leaves. -/
theorem TidySound.disabled {id : TargetId} (h : TidySound base c)
    (hs : monitor.step c a = some c') (hd : Disables c a id) (ho : c'.owner = none)
    {w : WorkerId} (hw : w.targetId = id) : c'.shared.workers.get? w = none := by
  rcases hd with ⟨reversed, hin⟩ | ⟨i, out, w₀, rest, rfl, ht⟩
  · obtain ⟨hfree, hshared, hend⟩ := Monitor.begin_of_letsIn hs hin
    rw [hshared]
    exact (tidy_disableTarget (h.atRest hfree).2 id reversed).2 (hend ho) w hw
  · obtain ⟨sec, r, ht', hr, rfl⟩ := Monitor.step_resume hs
    obtain rfl : Section.stoppingWorker id w₀ rest = sec := by
      rw [ht] at ht'
      injection Option.some.inj ht'
    obtain ⟨howner, ⟨-, hm, hc⟩, -⟩ := h.owning ht
    obtain rfl := Option.some.inj hr
    rw [Monitor.shared_advance]
    refine (tidy_stoppingWorker hm (hc id w₀ rest rfl) out).2 ?_ w hw
    rcases hsec : (c.shared.continueFrom (.stoppingWorker id w₀ rest) out).2 with _ | sec
    · rfl
    · rw [show c.shared.continueFrom (.stoppingWorker id w₀ rest) out =
        (_, some sec) from Prod.ext rfl hsec] at ho
      exact absurd (howner.symm.trans ho) nofun

end Run

section Boot

variable (url : Text) (registry : CredentialRegistry) (keys : Option DerivedKeys) (db : Database)

theorem tidySound_boot : TidySound registry.snapshot (boot url registry keys db) :=
  Monitor.sound_idle ⟨free_init (fun _ => True) (fun _ => True) (fun _ _ => trivial)
    (fun _ _ => trivial) url registry keys db, fun w hw => by cases hw⟩

/-- **The three indexes agree** at every await of a run, so also whenever the lock
is free, exactly when `start_run` never replaces the sets while there is a
worker. Then a `disable_target` that returns has left no worker of its target. -/
theorem indexes_agree_iff (labels : List Label) :
    (monitor.machine.Always (fun c => c.shared.IndexesAgree) (boot url registry keys db) labels ↔
      monitor.machine.Meets (Monitor.guard (fun _ _ => True) RebuildsEmpty)
        (boot url registry keys db) labels) ∧
    (monitor.machine.Meets (Monitor.guard (fun _ _ => True) RebuildsEmpty)
        (boot url registry keys db) labels →
      ∀ c a c' id, monitor.machine.run (boot url registry keys db) labels = some c →
        monitor.step c a = some c' → Disables c a id → c'.owner = none →
        ∀ w, w.targetId = id → c'.shared.workers.get? w = none) := by
  have hboot := tidySound_boot url registry keys db
  refine ⟨?_, fun hok c a c' id hrun hs hd ho w hw => ?_⟩
  · refine Machine.always_iff_meets (I := TidySound registry.snapshot)
      (fun c a c' h hok hs => (tidy_rule _).sound_step h hok hs) (fun c h => ?_)
      (fun c a c' _ hno hs => TidySound.breaks hno hs)
      (fun c a hs => Monitor.guard_of_step_none (fun _ _ _ => rfl) hs) hboot
    exact (Consistent.indexesAgree_iff h.consistent.1).mpr h.consistent.2
  · have hsound : TidySound registry.snapshot c :=
      Machine.inv_run (I := TidySound registry.snapshot)
      (fun c a c' h hok hs => (tidy_rule _).sound_step h hok hs) hboot hok hrun
    exact hsound.disabled hs hd ho hw

end Boot

/-! ## A worker that cannot be switched off -/

section Stray

/-- One enabled Twitch target from the start. -/
def strayBoot : Config :=
  boot "rtmp://127.0.0.1/live/k".toList .empty
    (some (deriveKeys "passphrase".toList [1])) leakDb

/-- A `start_run` that spawns one worker. -/
def strayStart : List Label :=
  [.call .startRun, .start 0, .resume 0 .ok, .resume 0 .ok, .resume 0 .ok, .resume 0 .ok,
    .resume 0 .ok, .resume 0 .ok]

/-- A `stop_run` whose stop raises, and a `start_run` that skips the worker. -/
def strayRestart : List Label :=
  [.call (.stopRun .userStop), .start 1, .resume 1 .raised, .resume 1 .ok, .resume 1 .ok,
    .call .startRun, .start 2, .resume 2 .ok, .resume 2 .ok, .resume 2 .ok, .resume 2 .ok,
    .resume 2 .ok]

/-- `disable_target` comes back at once, and the worker broadcasts on. -/
theorem stray_survives_disable :
    ∃ c c', monitor.machine.run strayBoot
        (strayStart ++ strayRestart ++ [.call (.disableTarget 7 false)]) = some c ∧
      c.owner = none ∧ ¬ c.shared.IndexesAgree ∧ monitor.step c (.start 3) = some c' ∧
      Disables c (.start 3) 7 ∧ c'.owner = none ∧ c'.shared.runState = .armed ∧
      (c'.shared.workers.get? ⟨7, .primary⟩).isSome := by
  refine ⟨_, _, rfl, rfl, fun h => ?_, rfl, .inl ⟨false, rfl⟩, rfl, rfl, rfl⟩
  exact absurd ((h ⟨7, .primary⟩).1.mp rfl) (by decide)

/-- After a stop that worked the second `start_run` spawns the worker anew, and
`disable_target` finds it. -/
theorem indexes_agree_restart :
    monitor.machine.Always (fun c => c.shared.IndexesAgree) strayBoot
      (strayStart ++ [.call (.stopRun .userStop), .start 1, .resume 1 .ok, .resume 1 .ok,
        .resume 1 .ok, .call .startRun, .start 2, .resume 2 .ok, .resume 2 .ok, .resume 2 .ok,
        .resume 2 .ok, .resume 2 .ok, .resume 2 .ok, .call (.disableTarget 7 false), .start 3,
        .resume 3 .ok]) :=
  (indexes_agree_iff _ _ _ _ _).1.mpr (by decide)

end Stray

end Supervisor

end RestreamPlus
