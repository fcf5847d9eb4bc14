import RestreamPlus.Fanout.Supervisor

/-!
# What the operations of the supervisor leave alone

From one suspension to the next an operation reads the key material and the
loopback URL and never changes them, its transactions delete credentials and add
none, the rows of the targets stay as they are, a worker that it adds reads the
loopback URL, and the run does not become LIVE.
-/

namespace RestreamPlus

open Interleaving WorkerIndex

namespace Supervisor

/-- What a stretch of an operation leaves alone. -/
structure Follows (s s' : Supervisor) : Prop where
  keyMaterial : s'.keyMaterial = s.keyMaterial
  ingestLoopbackUrl : s'.ingestLoopbackUrl = s.ingestLoopbackUrl
  targets : s'.db.targets = s.db.targets
  credentials : ∀ id row, s'.db.credentials.get? id = some row → s.db.credentials.get? id = some row
  workers : ∀ w spec, s'.workers.get? w = some spec →
    s.workers.get? w = some spec ∨ spec.inputUrl = s.ingestLoopbackUrl
  live : s'.runState = .live → s.runState = .live

variable {s s' s'' : Supervisor}

theorem Follows.refl (s : Supervisor) : Follows s s :=
  ⟨rfl, rfl, rfl, fun _ _ h => h, fun _ _ h => .inl h, id⟩

theorem Follows.trans (h : Follows s s') (h' : Follows s' s'') : Follows s s'' where
  keyMaterial := h'.keyMaterial.trans h.keyMaterial
  ingestLoopbackUrl := h'.ingestLoopbackUrl.trans h.ingestLoopbackUrl
  targets := h'.targets.trans h.targets
  credentials id row hrow := h.credentials id row (h'.credentials id row hrow)
  workers w spec hw := by
    rcases h'.workers w spec hw with hold | hurl
    · exact h.workers w spec hold
    · exact .inr (hurl.trans h.ingestLoopbackUrl)
  live hlive := h.live (h'.live hlive)

/-- Only attributes that are none of these changed. -/
theorem Follows.of_eq (hk : s'.keyMaterial = s.keyMaterial)
    (hu : s'.ingestLoopbackUrl = s.ingestLoopbackUrl) (hd : s'.db = s.db)
    (hw : s'.workers = s.workers) (hr : s'.runState = .live → s.runState = .live) :
    Follows s s' where
  keyMaterial := hk
  ingestLoopbackUrl := hu
  targets := by rw [hd]
  credentials id row hrow := by rwa [hd] at hrow
  workers w spec h := by
    rw [hw] at h
    exact .inl h
  live := hr

/-- Workers are dropped. -/
theorem follows_drop {x : WorkerIndex}
    (h : ∀ w spec, x.workers.get? w = some spec → s.workers.get? w = some spec) :
    Follows s { s with toWorkerIndex := x } :=
  ⟨rfl, rfl, rfl, fun _ _ hrow => hrow, fun w spec hw => .inl (h w spec hw), id⟩

theorem follows_dropWorker (s : Supervisor) (id : TargetId) (w : WorkerId) :
    Follows s { s with toWorkerIndex := s.toWorkerIndex.dropWorker id w } := by
  refine follows_drop fun w' spec h => ?_
  rw [get?_workers_dropWorker] at h
  split at h
  · cases h
  · exact h

theorem follows_dropAll (s : Supervisor) (ws : List WorkerId) :
    Follows s { s with toWorkerIndex := s.toWorkerIndex.dropAll ws } := by
  refine follows_drop fun w' spec h => ?_
  rw [get?_workers_dropAll] at h
  split at h
  · cases h
  · exact h

/-- Credentials are deleted. -/
theorem follows_deleteForTarget (s : Supervisor) (ids : List TargetId) :
    Follows s { s with db := ids.foldl Database.deleteForTarget s.db } := by
  induction ids generalizing s with
  | nil => exact Follows.refl s
  | cons id rest ih =>
    have hdel : Follows s { s with db := s.db.deleteForTarget id } :=
      ⟨rfl, rfl, rfl, fun _ _ hrow => (Dict.get?_of_get?_erase hrow).2, fun _ _ hw => .inl hw,
        fun h => h⟩
    exact hdel.trans (ih _)

/-- The history is none of these. -/
theorem follows_endRun (s : Supervisor) (run : RunId) (reason : EndReason) :
    Follows s { s with db := s.db.endRun run reason } := by
  have hrows := s.db.tables_endRun run reason
  refine ⟨rfl, rfl, hrows.1, fun _ row hrow => ?_, fun _ _ hw => .inl hw, id⟩
  rw [hrows.2] at hrow
  exact hrow

/-- Only a publisher makes a run LIVE. -/
theorem transition_ne_live {st : RunState} {a : RunAction} (ha : a ≠ .obsPublishBegan) :
    st.transition a ≠ some .live := by
  cases st <;> cases a <;> first | exact absurd rfl ha | decide

theorem follows_setRunState {a : RunAction} (ha : a ≠ .obsPublishBegan)
    (h : s.setRunState a = some s') : Follows s s' := by
  obtain ⟨st, hst, rfl⟩ := Option.map_eq_some_iff.mp h
  refine Follows.of_eq rfl rfl rfl rfl ?_
  rintro rfl
  exact absurd hst (transition_ne_live ha)

/-- A transition that is suppressed when it is not legal. -/
theorem setRunState_getD_eq (s : Supervisor) (a : RunAction) :
    ∃ st, (s.setRunState a).getD s = { s with runState := st } := by
  rw [setRunState]
  cases s.runState.transition a with
  | none => exact ⟨s.runState, rfl⟩
  | some st => exact ⟨st, rfl⟩

theorem follows_setRunState_getD (s : Supervisor) {a : RunAction} (ha : a ≠ .obsPublishBegan) :
    Follows s ((s.setRunState a).getD s) := by
  rcases h : s.setRunState a with _ | s'
  · exact Follows.refl s
  · exact follows_setRunState ha h

/-! ## `start_run` -/

theorem follows_afterRollBack (s : Supervisor) : Follows s s.afterRollBack.1 :=
  (follows_setRunState_getD s (by decide)).trans (Follows.of_eq rfl rfl rfl rfl id)

theorem follows_rollBack (s : Supervisor) : Follows s s.rollBack.1 := by
  rw [rollBack]
  split
  · exact follows_afterRollBack s
  · exact Follows.refl s

theorem follows_finishStart (s : Supervisor) : Follows s s.finishStart.1 := by
  rw [finishStart]
  split
  · exact follows_rollBack s
  · rename_i h
    exact follows_setRunState (by decide) h

theorem follows_spawnRoles (s : Supervisor) (r : Runnable) (key : Text) (roles : List WorkerRole) :
    Follows s (s.spawnRoles r key roles).1 := by
  induction roles with
  | nil => exact Follows.refl s
  | cons role roles ih =>
    rw [spawnRoles]
    split
    · exact ih
    · split
      · exact Follows.refl s
      · rename_i x hx
        obtain ⟨outputUrl, registry, -, -, rfl⟩ := addWorker_eq_some hx
        refine ⟨rfl, rfl, rfl, fun _ _ hrow => hrow, fun w spec hw => ?_, id⟩
        rw [Dict.get?_insert] at hw
        split at hw
        · obtain rfl := Option.some.inj hw
          exact .inr rfl
        · exact .inl hw

/-- `spawnRoles` changes the index only, drops nobody, and stops at the first
worker it adds. -/
theorem spawnRoles_grows (s : Supervisor) (r : Runnable) (key : Text) (roles : List WorkerRole) :
    ∃ x e, s.spawnRoles r key roles = ({ s with toWorkerIndex := x }, e) ∧
      (∀ w, (s.workers.get? w).isSome → (x.workers.get? w).isSome) ∧
      ∀ w roles', e = .starting w roles' → w.targetId = r.dom.id ∧ (x.workers.get? w).isSome := by
  induction roles with
  | nil => exact ⟨s.toWorkerIndex, .returned, rfl, fun _ h => h, nofun⟩
  | cons role roles ih =>
    rw [spawnRoles]
    split
    · exact ih
    · split
      · exact ⟨s.toWorkerIndex, .raised, rfl, fun _ h => h, nofun⟩
      · rename_i x hx
        obtain ⟨outputUrl, registry, -, -, rfl⟩ := addWorker_eq_some hx
        refine ⟨_, .starting ⟨r.dom.id, role⟩ roles, rfl, fun w h => ?_, ?_⟩
        · rw [Dict.get?_insert]
          split
          · rfl
          · exact h
        · rintro w roles' he
          cases he
          exact ⟨rfl, by simp [Dict.get?_insert_self]⟩

theorem follows_spawnPairs (s : Supervisor) (pairs : List Runnable) :
    Follows s (s.spawnPairs pairs).1 := by
  induction pairs generalizing s with
  | nil => exact follows_finishStart s
  | cons r rest ih =>
    rw [spawnPairs]
    split
    · rename_i key _ _
      have h := follows_spawnRoles s r key (rolesFor r.dom)
      rcases hs : s.spawnRoles r key (rolesFor r.dom) with ⟨s', _ | _ | ⟨w, roles⟩⟩ <;>
        rw [hs] at h
      · exact h.trans (ih s')
      · exact h.trans (follows_rollBack s')
      · exact h
    · exact ih s

theorem follows_spawnRaised (s : Supervisor) (caller : Caller) :
    Follows s (s.spawnRaised caller).1 := by
  cases caller with
  | startRun rest => exact follows_rollBack s
  | enableTarget => exact Follows.refl s

theorem follows_afterSpawn (caller : Caller) (r : Runnable) (key : Text)
    (p : Supervisor × SpawnEnd) : Follows p.1 (afterSpawn caller r key p).1 := by
  obtain ⟨s, _ | _ | ⟨w, roles⟩⟩ := p
  · cases caller with
    | startRun rest => exact follows_spawnPairs s rest
    | enableTarget => exact Follows.refl s
  · exact follows_spawnRaised s caller
  · exact Follows.refl s

theorem follows_beginSpawning (s : Supervisor) (pairs : List Runnable) :
    Follows s (s.beginSpawning pairs).1 := by
  rw [beginSpawning]
  refine Follows.trans ?_ (follows_spawnPairs _ pairs)
  exact Follows.of_eq rfl rfl rfl rfl id

theorem follows_flushFailures (s : Supervisor) (pairs : List Runnable) :
    Follows s (s.flushFailures pairs).1 := by
  rw [flushFailures]
  split
  · exact follows_beginSpawning s pairs
  · exact Follows.of_eq rfl rfl rfl rfl id

theorem follows_loadNext (s : Supervisor) (kek : Key) (todo : List (TargetId × TargetRow))
    (pairs : List Runnable) : Follows s (s.loadNext kek todo pairs).1 := by
  cases todo with
  | nil => exact follows_flushFailures s pairs
  | cons t todo => exact Follows.refl s

theorem follows_readRunnable (s : Supervisor) (kek : Key) (t : TargetId × TargetRow) :
    Follows s (s.readRunnable kek t).1 := by
  rw [readRunnable]
  split
  · exact Follows.of_eq rfl rfl rfl rfl id
  · exact Follows.refl s

theorem follows_loadRunnableTargets (s : Supervisor) : Follows s s.loadRunnableTargets.1 := by
  rw [loadRunnableTargets]
  split
  · exact follows_rollBack s
  · exact Follows.refl s

theorem follows_startRun (s : Supervisor) : Follows s s.startRun.1 := by
  rw [startRun]
  split
  · split
    · exact Follows.refl s
    · rename_i h
      exact follows_setRunState (by decide) h
  · exact Follows.refl s

/-! ## `stop_run` -/

theorem follows_afterClose (s : Supervisor) : Follows s s.afterClose.1 :=
  follows_setRunState_getD s (by decide)

theorem follows_afterWipe (s : Supervisor) (reason : EndReason) :
    Follows s (s.afterWipe reason).1 := by
  rw [afterWipe, closeRunSession]
  have h : Follows s { s with currentRunId := none } := Follows.of_eq rfl rfl rfl rfl id
  rcases s.currentRunId with _ | run
  · exact h.trans (follows_afterClose _)
  · exact h

theorem follows_auditWipe (s : Supervisor) (cleared : List TargetId) (reason : EndReason) :
    Follows s (s.auditWipe cleared reason).1 := by
  cases cleared with
  | nil => exact follows_afterWipe s reason
  | cons id rest => exact Follows.refl s

theorem follows_afterDrain (s : Supervisor) (reason : EndReason) :
    Follows s (s.afterDrain reason).1 := by
  rw [afterDrain]
  split
  · exact follows_afterWipe s reason
  · exact Follows.refl s

theorem follows_stopRun (s : Supervisor) (reason : EndReason) : Follows s (s.stopRun reason).1 := by
  rw [stopRun]
  split
  · exact Follows.refl s
  · split
    · exact Follows.refl s
    · rename_i h
      split
      · exact (follows_setRunState (by decide) h).trans (follows_afterDrain _ reason)
      · exact follows_setRunState (by decide) h

/-! ## `enable_target` and `disable_target` -/

theorem follows_enableReloaded (s : Supervisor) (kek : Key) (id : TargetId) (row : TargetRow) :
    Follows s (s.enableReloaded kek id row).1 := by
  have h : Follows s { s with
      targets := s.targets.insert id (readTarget s.db kek (id, row)).dom
      targetToWorkers := setDefault s.targetToWorkers id } :=
    Follows.of_eq rfl rfl rfl rfl fun h => h
  rw [enableReloaded]
  split
  · exact (h.trans (follows_spawnRoles _ _ _ _)).trans (follows_afterSpawn _ _ _ _)
  · exact h

theorem fst_stopNext (s : Supervisor) (id : TargetId) (ws : List WorkerId) :
    (s.stopNext id ws).1 = s := by
  induction ws with
  | nil => rfl
  | cons w rest ih =>
    rw [stopNext]
    split
    · rfl
    · exact ih

/-! ## From one suspension to the next -/

theorem follows_enter (s : Supervisor) (op : Op) : Follows s (s.enter op).1 := by
  cases op with
  | startRun => exact follows_startRun s
  | stopRun reason => exact follows_stopRun s reason
  | enableTarget id =>
    rw [enter, enableTarget]
    split <;> exact Follows.refl s
  | disableTarget id reversed =>
    rw [enter, disableTarget, fst_stopNext]
    exact Follows.refl s

theorem follows_workerStarted (s : Supervisor) (caller : Caller) (r : Runnable) (key : Text)
    (w : WorkerId) (roles : List WorkerRole) (out : Outcome) :
    Follows s (s.workerStarted caller r key w roles out).1 := by
  rw [workerStarted]
  split
  · exact (follows_spawnRoles s r key roles).trans (follows_afterSpawn _ _ _ _)
  · exact (follows_dropWorker s r.dom.id w).trans (follows_spawnRaised _ _)

/-- **One case for each suspension point.** -/
theorem follows_continueFrom (s : Supervisor) (sec : Section) (out : Outcome) :
    Follows s (s.continueFrom sec out).1 := by
  cases sec with
  | opening =>
    cases out with
    | ok => exact Follows.of_eq rfl rfl rfl rfl id
    | raised => exact follows_rollBack s
  | committingRun run =>
    cases out with
    | ok =>
      have hrow : Follows s { s with db := s.db.startRun run } :=
        ⟨rfl, rfl, rfl, fun _ _ h => h, fun _ _ h => .inl h, id⟩
      exact hrow.trans (follows_loadRunnableTargets _)
    | raised => exact follows_rollBack s
  | listing kek =>
    cases out with
    | ok => exact follows_loadNext s kek _ _
    | raised => exact follows_rollBack s
  | loading kek t todo pairs =>
    cases out with
    | ok => exact (follows_readRunnable s kek t).trans (follows_loadNext _ kek todo _)
    | raised => exact follows_rollBack s
  | auditingFailures pairs => exact follows_flushFailures s pairs
  | workerStarting caller r key w roles => exact follows_workerStarted s caller r key w roles out
  | auditingStart =>
    cases out with
    | ok => exact Follows.refl s
    | raised => exact follows_rollBack s
  | rollingBack ws =>
    cases out with
    | ok => exact (follows_dropAll s ws).trans (follows_afterRollBack _)
    | raised => exact follows_afterRollBack s
  | closingFailed run =>
    cases out with
    | ok => exact follows_endRun s run .error
    | raised => exact Follows.refl s
  | draining ws reason =>
    cases out with
    | ok => exact (follows_dropAll s ws).trans (follows_afterDrain _ reason)
    | raised => exact follows_afterDrain s reason
  | wiping ids reason =>
    cases out with
    | ok => exact (follows_deleteForTarget s ids).trans (follows_auditWipe _ _ reason)
    | raised => exact follows_afterWipe s reason
  | auditingWipe rest reason =>
    cases out with
    | ok => exact follows_auditWipe s rest reason
    | raised => exact follows_afterWipe s reason
  | closing run reason =>
    cases out with
    | ok => exact (follows_endRun s run reason).trans (follows_afterClose _)
    | raised => exact follows_afterClose s
  | auditingStop => exact Follows.refl s
  | reloading kek id =>
    cases out with
    | ok =>
      rw [continueFrom]
      split <;> exact Follows.refl s
    | raised => exact Follows.refl s
  | reloadingCredential kek id row =>
    cases out with
    | ok => exact follows_enableReloaded s kek id row
    | raised => exact Follows.refl s
  | stoppingWorker id w rest =>
    rw [continueFrom, fst_stopNext]
    exact follows_dropWorker s id w

/-- **A step of the supervisor** other than one made outside its lock. -/
theorem follows_step {c c' : Monitor.Config Supervisor Op Section}
    {l : Monitor.Label Op Outcome Env} (hs : monitor.step c l = some c') :
    Follows c.shared c'.shared ∨ ∃ e, l = .external e ∧ c'.shared = c.shared.react e := by
  rcases Monitor.shared_of_step hs with heq | ⟨t, op, -, heq⟩ | ⟨t, sec, out, r, -, -, hr, heq⟩ |
    ⟨e, rfl, he⟩
  · rw [heq]
    exact .inl (Follows.refl _)
  · rw [heq]
    exact .inl (follows_enter _ op)
  · obtain rfl := Option.some.inj hr
    rw [heq]
    exact .inl (follows_continueFrom _ sec out)
  · exact .inr ⟨e, rfl, (Option.some.inj he).symm⟩

/-! ## The operations on a single target -/

/-- The suspension points of `enable_target` and `disable_target`. -/
def OfTarget : Section → Prop
  | .workerStarting .enableTarget _ _ _ _ | .reloading _ _ | .reloadingCredential _ _ _
  | .stoppingWorker _ _ _ => True
  | _ => False

/-- A stretch of these operations: the run, its row and the database are left
alone. -/
structure OnTarget (s : Supervisor) (r : Supervisor × Option Section) : Prop where
  runState : r.1.runState = s.runState
  currentRunId : r.1.currentRunId = s.currentRunId
  db : r.1.db = s.db
  next : ∀ sec ∈ r.2, OfTarget sec

theorem onTarget_return (s : Supervisor) : OnTarget s (s, none) :=
  ⟨rfl, rfl, rfl, fun _ h => absurd h (Option.not_mem_none _)⟩

theorem onTarget_suspend (s : Supervisor) {sec : Section} (h : OfTarget sec) :
    OnTarget s (s, some sec) :=
  ⟨rfl, rfl, rfl, fun _ heq => Option.some.inj heq ▸ h⟩

/-- The index and the map of the targets may change before. -/
theorem OnTarget.of_eq {s s' : Supervisor} {r : Supervisor × Option Section} (h : OnTarget s' r)
    (hst : s'.runState = s.runState) (hrun : s'.currentRunId = s.currentRunId)
    (hdb : s'.db = s.db) : OnTarget s r :=
  ⟨h.runState.trans hst, h.currentRunId.trans hrun, h.db.trans hdb, h.next⟩

theorem onTarget_afterSpawn (s : Supervisor) (r : Runnable) (key : Text) (roles : List WorkerRole) :
    OnTarget s (afterSpawn .enableTarget r key (s.spawnRoles r key roles)) := by
  obtain ⟨x, e, heq, -, -⟩ := spawnRoles_grows s r key roles
  rw [heq]
  refine OnTarget.of_eq (?_ : OnTarget { s with toWorkerIndex := x } _) rfl rfl rfl
  cases e with
  | returned => exact onTarget_return _
  | raised => exact onTarget_return _
  | starting w roles' => exact onTarget_suspend _ trivial

theorem onTarget_enableReloaded (s : Supervisor) (kek : Key) (id : TargetId) (row : TargetRow) :
    OnTarget s (s.enableReloaded kek id row) := by
  have hset : ∀ r : Supervisor × Option Section, OnTarget { s with
      targets := s.targets.insert id (readTarget s.db kek (id, row)).dom
      targetToWorkers := setDefault s.targetToWorkers id } r → OnTarget s r :=
    fun r h => h.of_eq rfl rfl rfl
  rw [enableReloaded]
  split
  · exact hset _ (onTarget_afterSpawn _ _ _ _)
  · exact hset _ (onTarget_return _)

theorem onTarget_stopNext (s : Supervisor) (id : TargetId) (ws : List WorkerId) :
    OnTarget s (s.stopNext id ws) := by
  induction ws with
  | nil => exact onTarget_return s
  | cons w rest ih =>
    rw [stopNext]
    split
    · exact onTarget_suspend s trivial
    · exact ih

theorem onTarget_enableTarget (s : Supervisor) (id : TargetId) :
    OnTarget s (s.enableTarget id) := by
  rw [enableTarget]
  split
  · exact onTarget_return s
  · exact onTarget_suspend s trivial

/-- **One case for each suspension point** of these operations. -/
theorem onTarget_continueFrom (s : Supervisor) {sec : Section} (out : Outcome)
    (hsec : OfTarget sec) : OnTarget s (s.continueFrom sec out) := by
  cases sec with
  | workerStarting caller r key w roles =>
    cases caller with
    | startRun rest => exact hsec.elim
    | enableTarget =>
      rw [continueFrom, workerStarted]
      split
      · exact onTarget_afterSpawn s r key roles
      · exact OnTarget.of_eq (onTarget_return _) rfl rfl rfl
  | reloading kek id =>
    cases out with
    | ok =>
      rw [continueFrom]
      split
      · exact onTarget_return s
      · exact onTarget_suspend s trivial
    | raised => exact onTarget_return s
  | reloadingCredential kek id row =>
    cases out with
    | ok => exact onTarget_enableReloaded s kek id row
    | raised => exact onTarget_return s
  | stoppingWorker id w rest => exact (onTarget_stopNext _ id rest).of_eq rfl rfl rfl
  | opening | committingRun | listing | loading | auditingFailures | auditingStart | rollingBack
  | closingFailed | draining | wiping | auditingWipe | closing | auditingStop => exact hsec.elim

/-! ## A start from its spawn loop on -/

/-- The suspension points after the map of the targets was replaced. -/
def OfSpawning : Section → Prop
  | .workerStarting (.startRun _) _ _ _ _ | .auditingStart | .rollingBack _ | .closingFailed _ =>
    True
  | _ => False

/-- A stretch of it: the run state and the current row change, and workers are added. -/
structure Spawning (s : Supervisor) (r : Supervisor × Option Section) : Prop where
  eq : ∃ x st run, r.1 = { s with toWorkerIndex := x, runState := st, currentRunId := run }
  grows : ∀ w, (s.workers.get? w).isSome → (r.1.workers.get? w).isSome
  next : ∀ sec ∈ r.2, OfSpawning sec

theorem spawning_suspend (s : Supervisor) {sec : Section} (h : OfSpawning sec) :
    Spawning s (s, some sec) :=
  ⟨⟨s.toWorkerIndex, s.runState, s.currentRunId, rfl⟩, fun _ hw => hw,
    fun _ heq => Option.some.inj heq ▸ h⟩

/-- Workers may be added before. -/
theorem Spawning.of_index {s : Supervisor} {x : WorkerIndex} {r : Supervisor × Option Section}
    (h : Spawning { s with toWorkerIndex := x } r)
    (hx : ∀ w, (s.workers.get? w).isSome → (x.workers.get? w).isSome) : Spawning s r := by
  obtain ⟨x', st, run, heq⟩ := h.eq
  exact ⟨⟨x', st, run, heq⟩, fun w hw => h.grows w (hx w hw), h.next⟩

theorem spawning_afterRollBack (s : Supervisor) : Spawning s s.afterRollBack := by
  have hst : ∃ st, (s.setRunState .unrecoverableFailed).getD s = { s with runState := st } := by
    rw [setRunState]
    cases s.runState.transition .unrecoverableFailed with
    | none => exact ⟨s.runState, rfl⟩
    | some st => exact ⟨st, rfl⟩
  obtain ⟨st, heq⟩ := hst
  rw [afterRollBack, heq, closeRunSession]
  refine ⟨⟨s.toWorkerIndex, st, none, rfl⟩, fun w hw => hw, fun sec hsec => ?_⟩
  obtain ⟨run, -, rfl⟩ := Option.map_eq_some_iff.mp hsec
  trivial

theorem spawning_rollBack (s : Supervisor) : Spawning s s.rollBack := by
  rw [rollBack]
  split
  · exact spawning_afterRollBack s
  · exact spawning_suspend s trivial

theorem spawning_finishStart (s : Supervisor) : Spawning s s.finishStart := by
  rw [finishStart]
  split
  · exact spawning_rollBack s
  · rename_i s' h
    obtain ⟨st, -, rfl⟩ := Option.map_eq_some_iff.mp h
    exact ⟨⟨s.toWorkerIndex, st, s.currentRunId, rfl⟩, fun w hw => hw,
      fun _ heq => Option.some.inj heq ▸ trivial⟩

theorem spawning_spawnPairs (s : Supervisor) (pairs : List Runnable) :
    Spawning s (s.spawnPairs pairs) := by
  induction pairs generalizing s with
  | nil => exact spawning_finishStart s
  | cons r rest ih =>
    rw [spawnPairs]
    split
    · rename_i key _ _
      obtain ⟨x, e, heq, hgrows, -⟩ := spawnRoles_grows s r key (rolesFor r.dom)
      rw [heq]
      cases e with
      | returned => exact (ih _).of_index hgrows
      | raised => exact (spawning_rollBack _).of_index hgrows
      | starting w roles =>
        have hsec : OfSpawning (.workerStarting (.startRun rest) r key w roles) := trivial
        exact (spawning_suspend _ hsec).of_index hgrows
    · exact ih s

theorem spawning_afterSpawn (s : Supervisor) (rest : List Runnable) (r : Runnable) (key : Text)
    (roles : List WorkerRole) :
    Spawning s (afterSpawn (.startRun rest) r key (s.spawnRoles r key roles)) := by
  obtain ⟨x, e, heq, hgrows, -⟩ := spawnRoles_grows s r key roles
  rw [heq]
  cases e with
  | returned => exact (spawning_spawnPairs _ rest).of_index hgrows
  | raised => exact (spawning_rollBack _).of_index hgrows
  | starting w roles' =>
    have hsec : OfSpawning (.workerStarting (.startRun rest) r key w roles') := trivial
    exact (spawning_suspend _ hsec).of_index hgrows

/-! ## A stop from its wipe on -/

/-- The suspension points after the credentials were wiped. -/
def OfClosing : Section → Prop
  | .auditingWipe _ _ | .closing _ _ | .auditingStop => True
  | _ => False

/-- A stretch of it that commits nothing: the run state and the current row change, and nothing
else. -/
structure Closing (s : Supervisor) (r : Supervisor × Option Section) : Prop where
  eq : ∃ st run, r.1 = { s with runState := st, currentRunId := run }
  next : ∀ sec ∈ r.2, OfClosing sec

theorem closing_afterClose (s : Supervisor) : Closing s s.afterClose := by
  rw [afterClose, setRunState]
  refine ⟨?_, fun _ heq => Option.some.inj heq ▸ trivial⟩
  cases s.runState.transition .workersDrained with
  | none => exact ⟨s.runState, s.currentRunId, rfl⟩
  | some st => exact ⟨st, s.currentRunId, rfl⟩

theorem closing_afterWipe (s : Supervisor) (reason : EndReason) :
    Closing s (s.afterWipe reason) := by
  rw [afterWipe, closeRunSession]
  rcases s.currentRunId with _ | run
  · obtain ⟨⟨st, run, heq⟩, hnext⟩ := closing_afterClose { s with currentRunId := none }
    exact ⟨⟨st, run, heq⟩, hnext⟩
  · exact ⟨⟨s.runState, none, rfl⟩, fun _ heq => Option.some.inj heq ▸ trivial⟩

theorem closing_auditWipe (s : Supervisor) (cleared : List TargetId) (reason : EndReason) :
    Closing s (s.auditWipe cleared reason) := by
  cases cleared with
  | nil => exact closing_afterWipe s reason
  | cons id rest =>
    exact ⟨⟨s.runState, s.currentRunId, rfl⟩, fun _ heq => Option.some.inj heq ▸ trivial⟩

end Supervisor

end RestreamPlus
