import Mathlib.Logic.Function.Basic
import RestreamPlus.Domain.RunState
import RestreamPlus.Domain.UiState

/-!
# The run state in the browser (`web/src/lib/wsReducer.ts`)

The page keeps one `RunStateView` in its query cache. The first message of a socket
replaces it, the others patch it: `applyWsEventToCache` for the patch,
`setQueryData` for the cache around it, which keeps what it has when the patch
comes out undefined.

What the dashboard reads of a view are values by key (`RunStateView.value`), the
run state with its time and one entry for each target; `value_setQueryData` says
that every message but `state.full` assigns to one key at most.
-/

namespace RestreamPlus

/-! ## Views and messages (`app/api/schemas.py`, `web/src/lib/schemas`) -/

/-- What a client is told of a target (`TargetSnapshot`). -/
structure TargetSnapshot : Type where
  targetId : TargetId
  uiState : TargetUiState
  snapshotsByRole : List WorkerSnapshot
  deriving DecidableEq

/-- `RunStateView`; a time is an instant. -/
structure RunStateView : Type where
  runState : RunState
  targets : List TargetSnapshot
  heartbeatAgeSeconds : ℚ
  droppedTotal : ℕ
  runStateChangedAt : Option ℚ
  deriving DecidableEq

/-- `HostCpuByTarget`. -/
structure HostCpuByTarget : Type where
  workerId : WorkerId
  cpuPct : ℚ
  deriving DecidableEq

/-- `HostStatsEvent`. -/
structure HostStats : Type where
  cpuTotalPct : ℚ
  cpuByTarget : List HostCpuByTarget
  rssBytes : ℕ
  ingestKbps : Option ℚ
  deriving DecidableEq

/-- `WsKnownEvent`, every message but the first with its `at`. -/
inductive WsKnownEvent : Type where
  | stateFull : RunStateView → WsKnownEvent
  /-- the new state and the previous one -/
  | runStateChanged : RunState → RunState → ℚ → WsKnownEvent
  | targetSnapshot : TargetSnapshot → ℚ → WsKnownEvent
  | dropAlert : ℕ → ℚ → WsKnownEvent
  | hostStats : HostStats → ℚ → WsKnownEvent
  deriving DecidableEq

/-! ## The reducer -/

/-- The callback in `patchTargetSnapshots`. -/
def patchTarget (next t : TargetSnapshot) : TargetSnapshot :=
  if t.targetId = next.targetId then ⟨t.targetId, next.uiState, next.snapshotsByRole⟩ else t

/-- `patchTargetSnapshots`: in place, or as a stub at the end. -/
def patchTargetSnapshots (list : List TargetSnapshot) (next : TargetSnapshot) :
    List TargetSnapshot :=
  if list.any (·.targetId = next.targetId) then list.map (patchTarget next) else list ++ [next]

/-- `applyWsEventToCache`, `none` for undefined. -/
def applyWsEventToCache (prev : Option RunStateView) : WsKnownEvent → Option RunStateView
  | .stateFull data => some data
  | .runStateChanged newState _ time =>
    prev.map fun prev => { prev with runState := newState, runStateChangedAt := some time }
  | .targetSnapshot next _ =>
    prev.map fun prev => { prev with targets := patchTargetSnapshots prev.targets next }
  | .dropAlert droppedTotal _ => prev.map fun prev => { prev with droppedTotal := droppedTotal }
  -- the switch has no such case
  | .hostStats _ _ => none

/-- `setQueryData` with this patch. -/
def setQueryData (prev : Option RunStateView) (event : WsKnownEvent) : Option RunStateView :=
  match applyWsEventToCache prev event with
  | none => prev
  | some next => some next

/-- The cache after these messages. -/
def cacheOf (received : List WsKnownEvent) : Option RunStateView := received.foldl setQueryData none

theorem cacheOf_append (received : List WsKnownEvent) (event : WsKnownEvent) :
    cacheOf (received ++ [event]) = setQueryData (cacheOf received) event := by
  rw [cacheOf, List.foldl_append]
  rfl

/-! ## A view as values by key -/

/-- What of a view can change on its own. -/
inductive ViewKey : Type where
  | run
  | target : TargetId → ViewKey
  deriving DecidableEq

/-- The value under such a key. -/
inductive ViewValue : Type where
  /-- the state, and since when -/
  | run : RunState → Option ℚ → ViewValue
  /-- the entry, if there is one -/
  | target : Option TargetSnapshot → ViewValue
  deriving DecidableEq

/-- The entry of a target. -/
def snapshotFor (list : List TargetSnapshot) (id : TargetId) : Option TargetSnapshot :=
  list.find? (·.targetId = id)

def RunStateView.value (view : RunStateView) : ViewKey → ViewValue
  | .run => .run view.runState view.runStateChangedAt
  | .target id => .target (snapshotFor view.targets id)

/-- What a message assigns. -/
def WsKnownEvent.assignment? : WsKnownEvent → Option (ViewKey × ViewValue)
  | stateFull _ | dropAlert _ _ | hostStats _ _ => none
  | runStateChanged newState _ time => some (.run, .run newState (some time))
  | targetSnapshot next _ => some (.target next.targetId, .target (some next))

theorem targetId_of_snapshotFor {list : List TargetSnapshot} {id : TargetId} {t : TargetSnapshot}
    (h : snapshotFor list id = some t) : t.targetId = id := by
  rw [snapshotFor] at h
  simpa using List.find?_some h

/-- A patched entry stays where it is found. -/
theorem snapshotFor_map_patchTarget (list : List TargetSnapshot) (next : TargetSnapshot)
    (id : TargetId) :
    snapshotFor (list.map (patchTarget next)) id =
      (snapshotFor list id).map (patchTarget next) := by
  have hid : ∀ t, (patchTarget next t).targetId = t.targetId := by
    intro t
    rw [patchTarget]
    split <;> rfl
  rw [snapshotFor, List.find?_map, snapshotFor]
  congr 2
  funext t
  rw [Function.comp_apply, hid]

/-- **A patch is an assignment**, whether it finds an entry or appends a stub. -/
theorem snapshotFor_patchTargetSnapshots (list : List TargetSnapshot) (next : TargetSnapshot) :
    snapshotFor (patchTargetSnapshots list next) =
      Function.update (snapshotFor list) next.targetId (some next) := by
  funext id
  rw [patchTargetSnapshots]
  split
  · rename_i hany
    rw [snapshotFor_map_patchTarget]
    by_cases hid : id = next.targetId
    · subst hid
      rw [Function.update_self]
      obtain ⟨t, ht⟩ : ∃ t, snapshotFor list next.targetId = some t := by
        rw [← Option.isSome_iff_exists, snapshotFor, List.find?_isSome]
        exact List.any_eq_true.mp hany
      rw [ht, Option.map_some, patchTarget, targetId_of_snapshotFor ht, if_pos rfl]
    · rw [Function.update_of_ne hid]
      rcases ht : snapshotFor list id with _ | t
      · rfl
      · rw [Option.map_some, patchTarget, targetId_of_snapshotFor ht, if_neg hid]
  · rename_i hany
    rw [snapshotFor, List.find?_append]
    by_cases hid : id = next.targetId
    · subst hid
      have hnone : list.find? (·.targetId = next.targetId) = none := by
        rw [List.find?_eq_none]
        exact fun t ht heq => hany (List.any_eq_true.mpr ⟨t, ht, heq⟩)
      rw [hnone, Function.update_self]
      simp
    · have hnext : [next].find? (fun t => decide (t.targetId = id)) = none := by
        simp [Ne.symm hid]
      rw [hnext, Option.or_none, Function.update_of_ne hid, snapshotFor]

/-- **Every message but `state.full` assigns to one key at most.** -/
theorem value_setQueryData (view : RunStateView) {event : WsKnownEvent}
    (hevent : ∀ data, event ≠ .stateFull data) :
    ∃ view', setQueryData (some view) event = some view' ∧ view'.value =
      match event.assignment? with
        | none => view.value
        | some (k, v) => Function.update view.value k v := by
  cases event with
  | stateFull data => exact absurd rfl (hevent data)
  | runStateChanged newState previousState time =>
    refine ⟨_, rfl, ?_⟩
    funext k
    cases k with
    | run => exact (Function.update_self (f := view.value) _ _).symm
    | target id =>
      have hne : ViewKey.target id ≠ .run := nofun
      exact (Function.update_of_ne (f := view.value) hne _).symm
  | targetSnapshot next time =>
    refine ⟨_, rfl, ?_⟩
    funext k
    cases k with
    | run =>
      have hne : ViewKey.run ≠ .target next.targetId := nofun
      exact (Function.update_of_ne (f := view.value) hne _).symm
    | target id =>
      show ViewValue.target (snapshotFor (patchTargetSnapshots view.targets next) id) =
        Function.update view.value (.target next.targetId) (.target (some next)) (.target id)
      rw [snapshotFor_patchTargetSnapshots]
      by_cases hid : id = next.targetId
      · subst hid
        rw [Function.update_self, Function.update_self]
      · rw [Function.update_of_ne hid, Function.update_of_ne fun h => hid (ViewKey.target.inj h)]
        rfl
  | dropAlert droppedTotal time =>
    refine ⟨_, rfl, ?_⟩
    funext k
    cases k <;> rfl
  | hostStats data time => exact ⟨view, rfl, rfl⟩

end RestreamPlus
