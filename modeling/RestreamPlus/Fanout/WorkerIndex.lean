import RestreamPlus.Fanout.Urls
import RestreamPlus.Lib.Holders
import RestreamPlus.LoggingSetup

/-!
# The four attributes that must agree

`Supervisor` keeps its workers, the keys it registered for them, the workers of
each target, and the process-wide registry in four attributes. They are changed
together in three places: when a worker is spawned, when one worker is dropped
(a failed spawn, a single-target teardown) and when all are dropped.

`Consistent` survives all three. `Secured`, which says that the key of every
worker is registered, survives the second only while no other worker uses the
same key (`secured_dropWorker_iff`): the registry is a set.
-/

namespace RestreamPlus

open Holders

/-- Everything a worker needs to run (`WorkerSpec`); the output URL embeds the
plaintext stream key. -/
structure WorkerSpec : Type where
  workerId : WorkerId
  targetType : TargetType
  inputUrl : Text
  outputUrl : Text
  deriving DecidableEq

/-- The attributes of `Supervisor` that name workers, and the registry. -/
structure WorkerIndex : Type where
  /-- the running workers, by what they were built from -/
  workers : Dict WorkerId WorkerSpec
  registeredSecrets : Dict WorkerId Text
  /-- the set of workers of each target -/
  targetToWorkers : Dict TargetId (List WorkerId)
  credentialRegistry : CredentialRegistry

namespace WorkerIndex

/-- `set.add`. -/
def addTo (ws : List WorkerId) (w : WorkerId) : List WorkerId := if w ∈ ws then ws else ws ++ [w]

/-- `set.discard`. -/
def discardFrom (ws : List WorkerId) (w : WorkerId) : List WorkerId := ws.filter (· ≠ w)

/-- `_unregister_secret`. -/
def unregisterSecret (x : WorkerIndex) (w : WorkerId) : WorkerIndex :=
  match x.registeredSecrets.get? w with
  | none => x
  | some secret =>
    { x with
      registeredSecrets := x.registeredSecrets.erase w
      credentialRegistry := x.credentialRegistry.unregister secret }

/-- Unregister, forget the worker, discard it from the set of its target: the
`except` branch of a spawn and the loop body of a single-target teardown. -/
def dropWorker (x : WorkerIndex) (targetId : TargetId) (w : WorkerId) : WorkerIndex :=
  let x := x.unregisterSecret w
  { x with
    workers := x.workers.erase w
    targetToWorkers :=
      match x.targetToWorkers.get? targetId with
      | none => x.targetToWorkers
      | some ws => x.targetToWorkers.insert targetId (discardFrom ws w) }

/-- The loop body after all stops: the worker leaves every set. -/
def dropEverywhere (x : WorkerIndex) (w : WorkerId) : WorkerIndex :=
  let x := x.unregisterSecret w
  { x with
    workers := x.workers.erase w
    targetToWorkers := x.targetToWorkers.mapValues fun ws => discardFrom ws w }

/-- The cleanup loop of `_tear_down_all_workers`. -/
def dropAll (x : WorkerIndex) (ws : List WorkerId) : WorkerIndex := ws.foldl dropEverywhere x

/-- One pass of the spawn loop up to `worker.start()`: compose the URL, register
the key, create the worker, index it. `none` when composing or registering
raises, which is before anything is stored. -/
def addWorker (x : WorkerIndex) (inputUrl : Text) (dom : Target) (url key : Text)
    (role : WorkerRole) : Option WorkerIndex :=
  match composeOutUrl dom.type url key role with
  | .error _ => none
  | .ok outputUrl =>
    match x.credentialRegistry.register key with
    | none => none
    | some registry =>
      let w : WorkerId := ⟨dom.id, role⟩
      some
        { workers := x.workers.insert w ⟨w, dom.type, inputUrl, outputUrl⟩
          registeredSecrets := x.registeredSecrets.insert w key
          targetToWorkers := x.targetToWorkers.insert dom.id
            (addTo ((x.targetToWorkers.get? dom.id).getD []) w)
          credentialRegistry := registry }

/-! ## Predicates -/

/-- No worker, no registered key, no worker in any set. -/
def Empty (x : WorkerIndex) : Prop :=
  x.workers.keys = [] ∧ x.registeredSecrets.keys = [] ∧ ∀ ws ∈ x.targetToWorkers.values, ws = []

instance (x : WorkerIndex) : Decidable x.Empty := by
  unfold Empty
  infer_instance

/-- The attributes agree. `base` is what the registry held before. -/
structure Consistent (base : Finset Text) (x : WorkerIndex) : Prop where
  /-- exactly the running workers have a registered key -/
  holds : ∀ w, (x.registeredSecrets.get? w).isSome ↔ (x.workers.get? w).isSome
  /-- the registered key is the one in the worker's URL -/
  composed : ∀ w spec key, x.workers.get? w = some spec → x.registeredSecrets.get? w = some key →
    ∃ url, composeOutUrl spec.targetType url key w.role = .ok spec.outputUrl
  /-- the registry holds nothing without a worker -/
  owned : Owned ↑base x.registeredSecrets.get? ↑x.credentialRegistry.snapshot
  /-- a target's set holds running workers of that target only -/
  indexed : ∀ tid ws w, x.targetToWorkers.get? tid = some ws → w ∈ ws →
    w.targetId = tid ∧ (x.workers.get? w).isSome

/-- The key of every worker is registered. -/
def Secured (x : WorkerIndex) : Prop :=
  Covered x.registeredSecrets.get? ↑x.credentialRegistry.snapshot

/-- Another worker uses the key of `w`. -/
def SharesKey (x : WorkerIndex) (w : WorkerId) : Prop := Shared x.registeredSecrets.get? w

/-- Without workers everything else is empty too. -/
theorem Consistent.empty {base : Finset Text} {x : WorkerIndex} (h : x.Consistent base)
    (hw : ∀ w, x.workers.get? w = none) : x.Empty := by
  refine ⟨Dict.keys_eq_nil.mpr hw, Dict.keys_eq_nil.mpr fun w => ?_, fun ws hws => ?_⟩
  · have hno : ¬ (x.registeredSecrets.get? w).isSome := by
      rw [h.holds, hw w]
      exact Bool.false_ne_true
    exact Option.not_isSome_iff_eq_none.mp hno
  · obtain ⟨tid, htid⟩ := Dict.mem_values.mp hws
    refine List.eq_nil_iff_forall_not_mem.mpr fun w hmem => ?_
    have hsome := (h.indexed tid ws w htid hmem).2
    rw [hw w] at hsome
    exact Bool.false_ne_true hsome

theorem Empty.workers_none {x : WorkerIndex} (h : x.Empty) (w : WorkerId) :
    x.workers.get? w = none :=
  Dict.keys_eq_nil.mp h.1 w

theorem Empty.secrets_none {x : WorkerIndex} (h : x.Empty) (w : WorkerId) :
    x.registeredSecrets.get? w = none :=
  Dict.keys_eq_nil.mp h.2.1 w

/-- An empty index is consistent with the registry it starts from. -/
theorem Empty.consistent {x : WorkerIndex} (h : x.Empty) :
    x.Consistent x.credentialRegistry.snapshot where
  holds w := by
    rw [h.workers_none, h.secrets_none]
    rfl
  composed w spec key hw := by
    rw [h.workers_none] at hw
    cases hw
  owned k hk := .inl hk
  indexed tid ws w htid hmem := by
    rw [h.2.2 ws (Dict.mem_values.mpr ⟨tid, htid⟩)] at hmem
    cases hmem

theorem Empty.secured {x : WorkerIndex} (h : x.Empty) : x.Secured := by
  intro w key hw
  rw [h.secrets_none] at hw
  cases hw

/-! ## Unregistering a secret -/

@[simp] theorem workers_unregisterSecret (x : WorkerIndex) (w : WorkerId) :
    (x.unregisterSecret w).workers = x.workers := by
  rw [unregisterSecret]
  split <;> rfl

@[simp] theorem targetToWorkers_unregisterSecret (x : WorkerIndex) (w : WorkerId) :
    (x.unregisterSecret w).targetToWorkers = x.targetToWorkers := by
  rw [unregisterSecret]
  split <;> rfl

/-- Afterwards `w` has no registered key, the others keep theirs. -/
theorem sets_unregisterSecret (x : WorkerIndex) (w : WorkerId) :
    Sets x.registeredSecrets.get? (x.unregisterSecret w).registeredSecrets.get? w none := by
  rw [unregisterSecret]
  split
  · rename_i hnone
    exact ⟨hnone, fun _ _ => rfl⟩
  · exact ⟨Dict.get?_erase_self _ w, fun w' hne => Dict.get?_erase_ne _ hne⟩

/-- The registry loses the key of `w`, if it has one. -/
theorem snapshot_unregisterSecret {x : WorkerIndex} {w : WorkerId} {key : Text}
    (h : x.registeredSecrets.get? w = some key) :
    ((x.unregisterSecret w).credentialRegistry.snapshot : Set Text) =
      ↑x.credentialRegistry.snapshot \ {key} := by
  simp only [unregisterSecret, h, CredentialRegistry.snapshot_unregister]
  exact Finset.coe_erase key _

theorem unregisterSecret_of_none {x : WorkerIndex} {w : WorkerId}
    (h : x.registeredSecrets.get? w = none) : x.unregisterSecret w = x := by
  simp only [unregisterSecret, h]

theorem owned_unregisterSecret {base : Finset Text} {x : WorkerIndex} (w : WorkerId)
    (h : Owned ↑base x.registeredSecrets.get? ↑x.credentialRegistry.snapshot) :
    Owned ↑base (x.unregisterSecret w).registeredSecrets.get?
      ↑(x.unregisterSecret w).credentialRegistry.snapshot := by
  rcases hk : x.registeredSecrets.get? w with _ | key
  · rwa [unregisterSecret_of_none hk]
  · rw [snapshot_unregisterSecret hk]
    exact h.release hk (sets_unregisterSecret x w)

/-- Unregistering keeps every other key registered exactly when none of them is
the same key. -/
theorem secured_unregisterSecret_iff {x : WorkerIndex} (w : WorkerId) (h : x.Secured) :
    (x.unregisterSecret w).Secured ↔ ¬ x.SharesKey w := by
  rcases hk : x.registeredSecrets.get? w with _ | key
  · rw [unregisterSecret_of_none hk]
    refine iff_of_true h ?_
    rintro ⟨w', -, key, hkey, -⟩
    rw [hk] at hkey
    cases hkey
  · rw [Secured, snapshot_unregisterSecret hk]
    exact covered_release_iff h hk (sets_unregisterSecret x w)

/-! ## Dropping workers -/

/-- What dropping `w` does to the two dictionaries, whichever sets it leaves. -/
theorem consistent_drop {base : Finset Text} {x : WorkerIndex} {w : WorkerId}
    {index : Dict TargetId (List WorkerId)} (h : x.Consistent base)
    (hindex : ∀ tid ws w', index.get? tid = some ws → w' ∈ ws →
      w' ≠ w ∧ ∃ ws', x.targetToWorkers.get? tid = some ws' ∧ w' ∈ ws') :
    Consistent base
      { x.unregisterSecret w with workers := x.workers.erase w, targetToWorkers := index } := by
  have hsets := sets_unregisterSecret x w
  refine ⟨fun w' => ?_, fun w' spec key hw hk => ?_, owned_unregisterSecret w h.owned,
    fun tid ws w' htid hmem => ?_⟩
  · by_cases hw : w' = w
    · subst hw
      rw [hsets.1, Dict.get?_erase_self]
      rfl
    · rw [hsets.2 w' hw, Dict.get?_erase_ne _ hw]
      exact h.holds w'
  · obtain ⟨hne, hw⟩ := Dict.get?_of_get?_erase hw
    rw [hsets.2 w' hne] at hk
    exact h.composed w' spec key hw hk
  · obtain ⟨hne, ws', htid', hmem'⟩ := hindex tid ws w' htid hmem
    obtain ⟨hid, hsome⟩ := h.indexed tid ws' w' htid' hmem'
    exact ⟨hid, by rw [Dict.get?_erase_ne _ hne]; exact hsome⟩

theorem mem_discardFrom {ws : List WorkerId} {w w' : WorkerId} :
    w' ∈ discardFrom ws w ↔ w' ∈ ws ∧ w' ≠ w := by
  rw [discardFrom, List.mem_filter, decide_eq_true_iff]

theorem mem_addTo {ws : List WorkerId} {w w' : WorkerId} :
    w' ∈ addTo ws w ↔ w' ∈ ws ∨ w' = w := by
  rw [addTo]
  split
  · rename_i hmem
    exact ⟨.inl, fun h => h.elim id fun heq => heq ▸ hmem⟩
  · rw [List.mem_append, List.mem_singleton]

/-- Only the set of its own target can hold a worker, so discarding it there is
enough. -/
theorem consistent_dropWorker {base : Finset Text} {x : WorkerIndex} {tid : TargetId}
    {w : WorkerId} (h : x.Consistent base) (hw : w.targetId = tid) :
    (x.dropWorker tid w).Consistent base := by
  rw [dropWorker]
  simp only [workers_unregisterSecret, targetToWorkers_unregisterSecret]
  refine consistent_drop h fun tid' ws w' htid' hmem => ?_
  have hown : ∀ ws', x.targetToWorkers.get? tid' = some ws' → w' ∈ ws' → tid' ≠ tid → w' ≠ w := by
    rintro ws' hws' hmem' hne rfl
    exact hne ((h.indexed tid' ws' w' hws' hmem').1.symm.trans hw)
  rcases hset : x.targetToWorkers.get? tid with _ | ws₀ <;> rw [hset] at htid'
  · have hne : tid' ≠ tid := by
      rintro rfl
      rw [hset] at htid'
      cases htid'
    exact ⟨hown ws htid' hmem hne, ws, htid', hmem⟩
  · rw [Dict.get?_insert] at htid'
    by_cases heq : tid' = tid
    · subst heq
      rw [if_pos rfl] at htid'
      obtain rfl := Option.some.inj htid'
      obtain ⟨hmem', hne⟩ := mem_discardFrom.mp hmem
      exact ⟨hne, ws₀, hset, hmem'⟩
    · rw [if_neg heq] at htid'
      exact ⟨hown ws htid' hmem heq, ws, htid', hmem⟩

theorem consistent_dropEverywhere {base : Finset Text} {x : WorkerIndex} {w : WorkerId}
    (h : x.Consistent base) : (x.dropEverywhere w).Consistent base := by
  rw [dropEverywhere]
  simp only [workers_unregisterSecret, targetToWorkers_unregisterSecret]
  refine consistent_drop h fun tid ws w' htid hmem => ?_
  rw [Dict.get?_mapValues] at htid
  obtain ⟨ws', htid', rfl⟩ := Option.map_eq_some_iff.mp htid
  obtain ⟨hmem', hne⟩ := mem_discardFrom.mp hmem
  exact ⟨hne, ws', htid', hmem'⟩

theorem consistent_dropAll {base : Finset Text} {x : WorkerIndex} (ws : List WorkerId)
    (h : x.Consistent base) : (x.dropAll ws).Consistent base := by
  induction ws generalizing x with
  | nil => exact h
  | cons w ws ih => exact ih (consistent_dropEverywhere h)

theorem get?_workers_dropWorker (x : WorkerIndex) (tid : TargetId) (w w' : WorkerId) :
    (x.dropWorker tid w).workers.get? w' = if w' = w then none else x.workers.get? w' := by
  rw [dropWorker]
  simp only [workers_unregisterSecret]
  exact Dict.get?_erase _ _ _

theorem get?_workers_dropAll (x : WorkerIndex) (ws : List WorkerId) (w' : WorkerId) :
    (x.dropAll ws).workers.get? w' = if w' ∈ ws then none else x.workers.get? w' := by
  induction ws generalizing x with
  | nil => rfl
  | cons w ws ih =>
    have hw : (x.dropEverywhere w).workers = x.workers.erase w := by
      rw [dropEverywhere]
      simp only [workers_unregisterSecret]
    rw [dropAll, List.foldl_cons, ← dropAll, ih, hw, Dict.get?_erase]
    by_cases heq : w' = w
    · simp [heq]
    · simp [heq]

/-- Dropping every worker leaves nothing. -/
theorem empty_dropAll {base : Finset Text} {x : WorkerIndex} {ws : List WorkerId}
    (h : x.Consistent base) (hall : ∀ w, (x.workers.get? w).isSome → w ∈ ws) :
    (x.dropAll ws).Empty := by
  refine (consistent_dropAll ws h).empty fun w => ?_
  rw [get?_workers_dropAll]
  split
  · rfl
  · rename_i hno
    exact Option.not_isSome_iff_eq_none.mp fun hsome => hno (hall w hsome)

/-- **Dropping one worker** keeps the others' keys registered exactly when none
of them uses its key. -/
theorem secured_dropWorker_iff {x : WorkerIndex} (tid : TargetId) (w : WorkerId)
    (h : x.Secured) : (x.dropWorker tid w).Secured ↔ ¬ x.SharesKey w :=
  secured_unregisterSecret_iff w h

/-- The key of a worker that stays is still recorded, wherever it is dropped
from. -/
theorem secrets_dropWorker (x : WorkerIndex) (tid : TargetId) (w : WorkerId) :
    Sets x.registeredSecrets.get? (x.dropWorker tid w).registeredSecrets.get? w none :=
  sets_unregisterSecret x w

/-! ## Adding a worker -/

/-- Inversion: what a successful addition stores. -/
theorem addWorker_eq_some {x x' : WorkerIndex} {inputUrl : Text} {dom : Target} {url key : Text}
    {role : WorkerRole} (h : x.addWorker inputUrl dom url key role = some x') :
    ∃ outputUrl registry, composeOutUrl dom.type url key role = .ok outputUrl ∧
      x.credentialRegistry.register key = some registry ∧
      x' =
        { workers := x.workers.insert ⟨dom.id, role⟩ ⟨⟨dom.id, role⟩, dom.type, inputUrl, outputUrl⟩
          registeredSecrets := x.registeredSecrets.insert ⟨dom.id, role⟩ key
          targetToWorkers := x.targetToWorkers.insert dom.id
            (addTo ((x.targetToWorkers.get? dom.id).getD []) ⟨dom.id, role⟩)
          credentialRegistry := registry } := by
  rw [addWorker] at h
  rcases hurl : composeOutUrl dom.type url key role with _ | outputUrl <;> rw [hurl] at h
  · cases h
  · rcases hreg : x.credentialRegistry.register key with _ | registry <;> simp only [hreg] at h
    · cases h
    · exact ⟨outputUrl, registry, rfl, rfl, (Option.some.inj h).symm⟩

section AddWorker

variable {base : Finset Text} {x x' : WorkerIndex} {inputUrl : Text} {dom : Target}
  {url key : Text} {role : WorkerRole}

theorem secrets_addWorker (h : x.addWorker inputUrl dom url key role = some x') :
    Sets x.registeredSecrets.get? x'.registeredSecrets.get? ⟨dom.id, role⟩ (some key) := by
  obtain ⟨outputUrl, registry, -, -, rfl⟩ := addWorker_eq_some h
  exact ⟨Dict.get?_insert_self _ _ _, fun w hne => Dict.get?_insert_ne _ _ hne⟩

theorem snapshot_addWorker (h : x.addWorker inputUrl dom url key role = some x') :
    (x'.credentialRegistry.snapshot : Set Text) = insert key ↑x.credentialRegistry.snapshot := by
  obtain ⟨outputUrl, registry, -, hreg, rfl⟩ := addWorker_eq_some h
  rw [CredentialRegistry.snapshot_register hreg, Finset.coe_insert]

theorem secured_addWorker (hs : x.Secured)
    (h : x.addWorker inputUrl dom url key role = some x') : x'.Secured := by
  rw [Secured, snapshot_addWorker h]
  exact Covered.hold hs (secrets_addWorker h)

theorem consistent_addWorker (hc : x.Consistent base)
    (h : x.addWorker inputUrl dom url key role = some x')
    (hnew : x.workers.get? ⟨dom.id, role⟩ = none) : x'.Consistent base := by
  have hsets := secrets_addWorker h
  have hsnap := snapshot_addWorker h
  obtain ⟨outputUrl, registry, hurl, -, rfl⟩ := addWorker_eq_some h
  have hfree : x.registeredSecrets.get? ⟨dom.id, role⟩ = none := by
    have hno : ¬ (x.registeredSecrets.get? ⟨dom.id, role⟩).isSome := by
      rw [hc.holds, hnew]
      exact Bool.false_ne_true
    exact Option.not_isSome_iff_eq_none.mp hno
  refine ⟨fun w => ?_, fun w spec key' hw hk => ?_, ?_, fun tid ws w htid hmem => ?_⟩
  · simp only [Dict.get?_insert]
    by_cases hw : w = ⟨dom.id, role⟩
    · rw [if_pos hw, if_pos hw]
      rfl
    · rw [if_neg hw, if_neg hw]
      exact hc.holds w
  · simp only [Dict.get?_insert] at hw hk
    by_cases heq : w = ⟨dom.id, role⟩
    · rw [if_pos heq] at hw hk
      obtain rfl := Option.some.inj hw
      obtain rfl := Option.some.inj hk
      exact ⟨url, by rw [heq]; exact hurl⟩
    · rw [if_neg heq] at hw hk
      exact hc.composed w spec key' hw hk
  · rw [hsnap]
    exact hc.owned.hold hfree hsets
  · -- the new worker joins the set of its own target, the other sets are as before
    have hkept : ∀ w', (x.workers.get? w').isSome →
        ((x.workers.insert ⟨dom.id, role⟩
          ⟨⟨dom.id, role⟩, dom.type, inputUrl, outputUrl⟩).get? w').isSome := by
      intro w' hsome
      rw [Dict.get?_insert]
      split
      · rfl
      · exact hsome
    dsimp only at htid
    rw [Dict.get?_insert] at htid
    by_cases heq : tid = dom.id
    · subst heq
      rw [if_pos rfl] at htid
      obtain rfl := Option.some.inj htid
      rcases mem_addTo.mp hmem with hold | rfl
      · rcases hset : x.targetToWorkers.get? dom.id with _ | ws₀ <;> rw [hset] at hold
        · cases hold
        · obtain ⟨hid, hsome⟩ := hc.indexed dom.id ws₀ w hset hold
          exact ⟨hid, hkept w hsome⟩
      · exact ⟨rfl, by rw [Dict.get?_insert_self]; rfl⟩
    · rw [if_neg heq] at htid
      obtain ⟨hid, hsome⟩ := hc.indexed tid ws w htid hmem
      exact ⟨hid, hkept w hsome⟩

end AddWorker

/-- Replacing the sets by empty ones, as `start_run` does. -/
theorem consistent_withSets {base : Finset Text} {x : WorkerIndex}
    {index : Dict TargetId (List WorkerId)} (h : x.Consistent base)
    (hindex : ∀ tid ws, index.get? tid = some ws → ws = [] ∨ x.targetToWorkers.get? tid = some ws) :
    Consistent base { x with targetToWorkers := index } where
  holds := h.holds
  composed := h.composed
  owned := h.owned
  indexed tid ws w htid hmem := by
    rcases hindex tid ws htid with rfl | hold
    · cases hmem
    · exact h.indexed tid ws w hold hmem

end WorkerIndex

end RestreamPlus
