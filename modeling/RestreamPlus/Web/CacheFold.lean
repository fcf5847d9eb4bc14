import Mathlib.Data.List.Induction
import RestreamPlus.Web.WsReducer

/-!
# What the cache says of the messages

A view that every message since the last `state.full` was applied to is a summary
of them: the last state, the last count, and for each target its last snapshot,
behind the view it began with (`Folded`).

For the cache of the page this always holds (`folded_setQueryData`). The patch
alone has no case for `host.stats`, so its fold loses the view there, until the next
`state.full`; `cache_fold_iff` says that there is no other exception.
-/

namespace RestreamPlus

/-! ## The messages since the last `state.full` -/

/-- One message more. -/
def WsKnownEvent.since : RunStateView × List WsKnownEvent → WsKnownEvent →
    RunStateView × List WsKnownEvent
  | _, .stateFull data => (data, [])
  | (base, tail), event => (base, tail ++ [event])

/-- The last `state.full`, or this view, and what came after it. -/
def sinceFull (view : RunStateView) (events : List WsKnownEvent) :
    RunStateView × List WsKnownEvent :=
  events.foldl WsKnownEvent.since (view, [])

/-- The last value that these messages give. -/
def lastOf {α : Type*} (f : WsKnownEvent → Option α) (tail : List WsKnownEvent) : Option α :=
  (tail.filterMap f).getLast?

namespace WsKnownEvent

/-- The run state, and since when. -/
def runState? : WsKnownEvent → Option (RunState × Option ℚ)
  | runStateChanged newState _ time => some (newState, some time)
  | _ => none

def droppedTotal? : WsKnownEvent → Option ℕ
  | dropAlert droppedTotal _ => some droppedTotal
  | _ => none

def snapshot? : WsKnownEvent → Option TargetSnapshot
  | targetSnapshot next _ => some next
  | _ => none

/-- The snapshot of this target. -/
def snapshotOf? (id : TargetId) (event : WsKnownEvent) : Option TargetSnapshot :=
  event.snapshot?.filter (·.targetId = id)

/-- The message the patch does not know. -/
def IsHostStats : WsKnownEvent → Prop
  | hostStats _ _ => True
  | _ => False

instance : DecidablePred IsHostStats := by
  intro event
  cases event <;> unfold IsHostStats <;> infer_instance

end WsKnownEvent

open WsKnownEvent

/-- The targets of a view, in its order. -/
def RunStateView.ids (view : RunStateView) : List TargetId := view.targets.map (·.targetId)

/-- **What a view says** of these messages after `base`. -/
structure Folded (base : RunStateView) (tail : List WsKnownEvent) (view : RunStateView) :
    Prop where
  run : (view.runState, view.runStateChangedAt) =
    (lastOf runState? tail).getD (base.runState, base.runStateChangedAt)
  dropped : view.droppedTotal = (lastOf droppedTotal? tail).getD base.droppedTotal
  heartbeat : view.heartbeatAgeSeconds = base.heartbeatAgeSeconds
  /-- no target twice -/
  nodup : view.ids.Nodup
  /-- in order of first appearance -/
  ids : view.ids = (base.ids ++ (tail.filterMap snapshot?).map (·.targetId)).eraseDups
  entry : ∀ id, snapshotFor view.targets id =
    (lastOf (snapshotOf? id) tail).or (snapshotFor base.targets id)

/-! ## Lists in order of first appearance -/

section EraseDups

variable {α : Type*} [DecidableEq α]

theorem eraseDups_append_singleton (l : List α) (a : α) :
    (l ++ [a]).eraseDups = if a ∈ l then l.eraseDups else l.eraseDups ++ [a] := by
  rw [List.eraseDups_append]
  split
  · rename_i ha
    have hnil : [a].removeAll l = [] := by simp [List.removeAll, ha]
    rw [hnil, List.eraseDups_nil, List.append_nil]
  · rename_i ha
    have hone : [a].removeAll l = [a] := by simp [List.removeAll, ha]
    rw [hone]
    rfl

theorem eraseDups_of_nodup {l : List α} (h : l.Nodup) : l.eraseDups = l := by
  induction l using List.reverseRecOn with
  | nil => rfl
  | append_singleton l a ih =>
    obtain ⟨hl, -, hdis⟩ := List.nodup_append.mp h
    have ha : a ∉ l := fun ha => hdis a ha a (List.mem_singleton_self a) rfl
    rw [eraseDups_append_singleton, if_neg ha, ih hl]

end EraseDups

section Fold

variable {base view : RunStateView} {tail events : List WsKnownEvent} {event : WsKnownEvent}

theorem lastOf_append {α : Type*} (f : WsKnownEvent → Option α) (tail : List WsKnownEvent)
    (event : WsKnownEvent) : lastOf f (tail ++ [event]) = (f event).or (lastOf f tail) := by
  rw [lastOf, List.filterMap_append]
  rcases hf : f event with _ | a
  · rw [List.filterMap_cons_none hf, List.filterMap_nil, List.append_nil]
    rfl
  · rw [List.filterMap_cons_some hf, List.filterMap_nil, List.getLast?_concat]
    rfl

theorem snapshots_append (h : event.snapshot? = none) :
    (tail ++ [event]).filterMap snapshot? = tail.filterMap snapshot? := by
  rw [List.filterMap_append, List.filterMap_cons_none h, List.filterMap_nil, List.append_nil]

theorem folded_self (h : base.ids.Nodup) : Folded base [] base where
  run := rfl
  dropped := rfl
  heartbeat := rfl
  nodup := h
  ids := by
    rw [List.filterMap_nil, List.map_nil, List.append_nil, eraseDups_of_nodup h]
  entry _ := rfl

/-- The ids after a patch. -/
theorem ids_patchTargetSnapshots (list : List TargetSnapshot) (next : TargetSnapshot) :
    (patchTargetSnapshots list next).map (·.targetId) =
      if next.targetId ∈ list.map (·.targetId) then list.map (·.targetId)
      else list.map (·.targetId) ++ [next.targetId] := by
  have hany : list.any (·.targetId = next.targetId) = true ↔
      next.targetId ∈ list.map (·.targetId) := by simp
  rw [patchTargetSnapshots]
  by_cases hmem : next.targetId ∈ list.map (·.targetId)
  · rw [if_pos (hany.mpr hmem), if_pos hmem, List.map_map]
    refine List.map_congr_left fun t _ => ?_
    rw [Function.comp_apply, patchTarget]
    split <;> rfl
  · rw [if_neg (fun h => hmem (hany.mp h)), if_neg hmem, List.map_append]
    rfl

/-- A message without a snapshot leaves the targets as they are. -/
theorem Folded.of_targets (h : Folded base tail view) {view' : RunStateView}
    (htargets : view'.targets = view.targets) (hnone : event.snapshot? = none)
    (hheartbeat : view'.heartbeatAgeSeconds = view.heartbeatAgeSeconds)
    (hrun : (view'.runState, view'.runStateChangedAt) =
      event.runState?.getD (view.runState, view.runStateChangedAt))
    (hdropped : view'.droppedTotal = event.droppedTotal?.getD view.droppedTotal) :
    Folded base (tail ++ [event]) view' where
  run := by
    rw [hrun, h.run, lastOf_append]
    cases event.runState? <;> rfl
  dropped := by
    rw [hdropped, h.dropped, lastOf_append]
    cases event.droppedTotal? <;> rfl
  heartbeat := hheartbeat.trans h.heartbeat
  nodup := by
    rw [RunStateView.ids, htargets]
    exact h.nodup
  ids := by
    rw [snapshots_append hnone, RunStateView.ids, htargets]
    exact h.ids
  entry id := by
    have hof : event.snapshotOf? id = none := by rw [snapshotOf?, hnone]; rfl
    rw [htargets, h.entry id, lastOf_append, hof, Option.none_or]

/-- A snapshot is the new entry of its target, in its place or behind the others. -/
theorem Folded.snapshot (h : Folded base tail view) (next : TargetSnapshot) (time : ℚ) :
    Folded base (tail ++ [.targetSnapshot next time])
      { view with targets := patchTargetSnapshots view.targets next } where
  run := by
    rw [lastOf_append]
    exact h.run
  dropped := by
    rw [lastOf_append]
    exact h.dropped
  heartbeat := h.heartbeat
  nodup := by
    rw [RunStateView.ids, ids_patchTargetSnapshots]
    split
    · exact h.nodup
    · rename_i hno
      exact List.nodup_append.mpr ⟨h.nodup, List.nodup_singleton _, fun a ha b hb heq =>
        hno (List.mem_singleton.mp hb ▸ heq ▸ ha)⟩
  ids := by
    have hids := h.ids
    rw [RunStateView.ids] at hids
    rw [RunStateView.ids, ids_patchTargetSnapshots, hids, List.filterMap_append, List.map_append,
      ← List.append_assoc]
    refine Eq.trans ?_ (eraseDups_append_singleton _ _).symm
    simp only [List.mem_eraseDups]
  entry id := by
    rw [snapshotFor_patchTargetSnapshots, lastOf_append]
    by_cases hid : id = next.targetId
    · subst hid
      have hof : (targetSnapshot next time).snapshotOf? next.targetId = some next := by
        simp [snapshotOf?, snapshot?]
      rw [Function.update_self, hof]
      rfl
    · have hof : (targetSnapshot next time).snapshotOf? id = none := by
        simp [snapshotOf?, snapshot?, Ne.symm hid]
      rw [Function.update_of_ne hid, h.entry id, hof, Option.none_or]

/-- **One message** that is no `state.full`. -/
theorem Folded.step (h : Folded base tail view) (hevent : ∀ data, event ≠ .stateFull data) :
    ∃ view', setQueryData (some view) event = some view' ∧ Folded base (tail ++ [event]) view' := by
  cases event with
  | stateFull data => exact absurd rfl (hevent data)
  | runStateChanged newState previousState time =>
    exact ⟨_, rfl, h.of_targets rfl rfl rfl rfl rfl⟩
  | targetSnapshot next time => exact ⟨_, rfl, h.snapshot next time⟩
  | dropAlert droppedTotal time => exact ⟨_, rfl, h.of_targets rfl rfl rfl rfl rfl⟩
  | hostStats data time => exact ⟨_, rfl, h.of_targets rfl rfl rfl rfl rfl⟩

theorem since_of_ne (s : RunStateView × List WsKnownEvent)
    (hevent : ∀ data, event ≠ .stateFull data) : since s event = (s.1, s.2 ++ [event]) := by
  cases event with
  | stateFull data => exact absurd rfl (hevent data)
  | _ => rfl

/-- **Induction on the messages**, from the last `state.full` on. -/
theorem sinceFull_induction {motive : List WsKnownEvent → RunStateView → List WsKnownEvent → Prop}
    (nil : motive [] view [])
    (full : ∀ events data, motive (events ++ [.stateFull data]) data [])
    (pass : ∀ events event base tail, (∀ data, event ≠ .stateFull data) →
      motive events base tail → motive (events ++ [event]) base (tail ++ [event]))
    (events : List WsKnownEvent) :
    motive events (sinceFull view events).1 (sinceFull view events).2 := by
  induction events using List.reverseRecOn with
  | nil => exact nil
  | append_singleton events event ih =>
    rw [sinceFull, List.foldl_append]
    -- the last message is a new beginning, or one of those since the last one
    by_cases hevent : ∃ data, event = .stateFull data
    · obtain ⟨data, rfl⟩ := hevent
      exact full events data
    · rw [List.foldl_cons, List.foldl_nil, since_of_ne _ (not_exists.mp hevent)]
      exact pass events event _ _ (not_exists.mp hevent) ih

/-- **The cache of the page** always says what it should. -/
theorem folded_setQueryData (hview : view.ids.Nodup)
    (hfull : ∀ data, .stateFull data ∈ events → data.ids.Nodup) :
    ∃ result, events.foldl setQueryData (some view) = some result ∧
      Folded (sinceFull view events).1 (sinceFull view events).2 result := by
  revert hfull
  refine sinceFull_induction (motive := fun events base tail =>
    (∀ data, .stateFull data ∈ events → data.ids.Nodup) →
      ∃ result, events.foldl setQueryData (some view) = some result ∧ Folded base tail result)
    ?_ ?_ ?_ events
  · exact fun _ => ⟨view, rfl, folded_self hview⟩
  · intro events data hfull
    rw [List.foldl_append]
    exact ⟨data, rfl, folded_self (hfull data (List.mem_append_right _ List.mem_cons_self))⟩
  · intro events event base tail hevent ih hfull
    obtain ⟨result, hresult, hfolded⟩ := ih fun data hmem =>
      hfull data (List.mem_append_left _ hmem)
    rw [List.foldl_append, hresult]
    exact hfolded.step hevent

/-! ## The patch alone -/

/-- Where the patch knows the message, it is what the cache does. -/
theorem applyWsEventToCache_known (h : ¬ event.IsHostStats) (view : RunStateView) :
    ∃ view', applyWsEventToCache (some view) event = some view' ∧
      setQueryData (some view) event = some view' := by
  cases event with
  | hostStats data time => exact absurd trivial h
  | _ => exact ⟨_, rfl, rfl⟩

/-- A lost view is not found again without a `state.full`. -/
theorem applyWsEventToCache_none (hevent : ∀ data, event ≠ .stateFull data) :
    applyWsEventToCache none event = none := by
  cases event with
  | stateFull data => exact absurd rfl (hevent data)
  | _ => rfl

theorem applyWsEventToCache_hostStats (h : event.IsHostStats) (prev : Option RunStateView) :
    applyWsEventToCache prev event = none := by
  cases event with
  | hostStats data time => rfl
  | _ => exact h.elim

/-- Without a `host.stats` the patch does what the cache does. -/
theorem foldl_eq_of_known
    (h : ∀ event ∈ (sinceFull view events).2, ¬ event.IsHostStats) :
    events.foldl applyWsEventToCache (some view) = events.foldl setQueryData (some view) := by
  suffices hboth : ∃ result, events.foldl applyWsEventToCache (some view) = some result ∧
      events.foldl setQueryData (some view) = some result by
    obtain ⟨result, hpatch, hcache⟩ := hboth
    rw [hpatch, hcache]
  revert h
  refine sinceFull_induction (motive := fun events _ tail =>
    (∀ event ∈ tail, ¬ event.IsHostStats) →
      ∃ result, events.foldl applyWsEventToCache (some view) = some result ∧
        events.foldl setQueryData (some view) = some result)
    ?_ ?_ ?_ events
  · exact fun _ => ⟨view, rfl, rfl⟩
  · intro events data _
    rw [List.foldl_append, List.foldl_append]
    exact ⟨data, rfl, rfl⟩
  · intro events event base tail _ ih h
    obtain ⟨result, hpatch, hcache⟩ := ih fun event hmem => h event (List.mem_append_left _ hmem)
    rw [List.foldl_append, List.foldl_append, hpatch, hcache]
    exact applyWsEventToCache_known (h event (List.mem_append_right _ List.mem_cons_self)) result

/-- After a `host.stats` there is no view, until the next `state.full`. -/
theorem foldl_eq_none (h : ∃ event ∈ (sinceFull view events).2, event.IsHostStats) :
    events.foldl applyWsEventToCache (some view) = none := by
  revert h
  refine sinceFull_induction (motive := fun events _ tail =>
    (∃ event ∈ tail, event.IsHostStats) → events.foldl applyWsEventToCache (some view) = none)
    ?_ ?_ ?_ events
  · rintro ⟨event, hmem, -⟩
    cases hmem
  · rintro events data ⟨event, hmem, -⟩
    cases hmem
  · rintro events last base tail hlast ih ⟨event, hmem, hstats⟩
    rw [List.foldl_append]
    rcases List.mem_append.mp hmem with hmem | hmem
    · -- lost before the last message
      rw [ih ⟨event, hmem, hstats⟩]
      exact applyWsEventToCache_none hlast
    · -- lost by it
      obtain rfl := List.mem_singleton.mp hmem
      exact applyWsEventToCache_hostStats hstats _

/-- **The fold of the patch** says of the messages what it should exactly when none
since the last `state.full` is a `host.stats`. -/
theorem cache_fold_iff (hview : view.ids.Nodup)
    (hfull : ∀ data, .stateFull data ∈ events → data.ids.Nodup) :
    (∃ result, events.foldl applyWsEventToCache (some view) = some result ∧
        Folded (sinceFull view events).1 (sinceFull view events).2 result) ↔
      ∀ event ∈ (sinceFull view events).2, ¬ event.IsHostStats := by
  constructor
  · rintro ⟨result, hresult, -⟩ event hmem hstats
    rw [foldl_eq_none ⟨event, hmem, hstats⟩] at hresult
    cases hresult
  · intro h
    rw [foldl_eq_of_known h]
    exact folded_setQueryData hview hfull

end Fold

/-- A view of one target. -/
def oneTarget : RunStateView := ⟨.offline, [⟨1, .idle, []⟩], 0, 0, none⟩

/-- A second target appears, and the first one starts. -/
def twoSnapshots : List WsKnownEvent :=
  [.targetSnapshot ⟨2, .starting, []⟩ 1, .targetSnapshot ⟨1, .starting, []⟩ 2]

theorem cache_fold_iff_twoSnapshots :
    (oneTarget.ids.Nodup ∧
      ∀ data, WsKnownEvent.stateFull data ∈ twoSnapshots → data.ids.Nodup) ∧
      ((∃ result, twoSnapshots.foldl applyWsEventToCache (some oneTarget) = some result ∧
          Folded (sinceFull oneTarget twoSnapshots).1 (sinceFull oneTarget twoSnapshots).2
            result) ↔
        ∀ event ∈ (sinceFull oneTarget twoSnapshots).2, ¬ event.IsHostStats) := by
  have hfull : ∀ data, WsKnownEvent.stateFull data ∈ twoSnapshots → data.ids.Nodup := by
    intro data hmem
    simp [twoSnapshots] at hmem
  exact ⟨⟨by decide, hfull⟩, cache_fold_iff (by decide) hfull⟩

/-- **One `host.stats`** and the view is lost. -/
theorem host_stats_loses_view :
    oneTarget.ids.Nodup ∧
      ¬ ∃ result, [WsKnownEvent.hostStats ⟨5, [], 4096, none⟩ 1].foldl applyWsEventToCache
          (some oneTarget) = some result ∧
        Folded oneTarget [.hostStats ⟨5, [], 4096, none⟩ 1] result := by
  refine ⟨by decide, ?_⟩
  rintro ⟨result, hresult, -⟩
  cases hresult

end RestreamPlus
