import RestreamPlus.Fanout.RunExclusion
import RestreamPlus.Lib.Sequential

/-!
# The operations of the supervisor run alone

What `start_run`, `stop_run`, `enable_target` and `disable_target` leave behind
when nothing runs beside them and no spawn, stop or decrypt fails. The loops are
followed once each; what they do to the workers is stated with a plan, a partial
function from worker ids to output URLs: `Adds x x' plan` says that `x'` has the
workers of `x` and, for every worker id that was free, what the plan says.

Consistency of the index, and that a resting supervisor has no workers, come
from the monitor rule (`free_of_completes`).
-/

namespace RestreamPlus

open Interleaving

namespace WorkerIndex

/-- Every worker is in the set of its target. -/
def Indexed (x : WorkerIndex) : Prop :=
  ∀ w, (x.workers.get? w).isSome → ∃ ws, x.targetToWorkers.get? w.targetId = some ws ∧ w ∈ ws

/-- `x'` keeps the workers of `x` and gives every free id what the plan says. -/
structure Adds (x x' : WorkerIndex) (plan : WorkerId → Option Text) : Prop where
  old : ∀ w spec, x.workers.get? w = some spec → x'.workers.get? w = some spec
  new : ∀ w, x.workers.get? w = none → (x'.workers.get? w).map WorkerSpec.outputUrl = plan w

theorem indexed_of_none {x : WorkerIndex} (h : ∀ w, x.workers.get? w = none) : x.Indexed := by
  intro w hw
  rw [h w] at hw
  cases hw

theorem adds_nothing (x : WorkerIndex) : Adds x x fun _ => none :=
  ⟨fun _ _ h => h, fun w h => by rw [h]; rfl⟩

theorem Adds.congr {x x' : WorkerIndex} {p q : WorkerId → Option Text} (h : Adds x x' p)
    (hpq : ∀ w, x.workers.get? w = none → p w = q w) : Adds x x' q :=
  ⟨h.old, fun w hw => (h.new w hw).trans (hpq w hw)⟩

/-- Two additions after one another; the first plan wins. -/
theorem Adds.trans {x x₁ x₂ : WorkerIndex} {p q : WorkerId → Option Text} (h : Adds x x₁ p)
    (h' : Adds x₁ x₂ q) : Adds x x₂ fun w => (p w).or (q w) := by
  refine ⟨fun w spec hw => h'.old w spec (h.old w spec hw), fun w hw => ?_⟩
  have hnew := h.new w hw
  rcases hw₁ : x₁.workers.get? w with _ | spec <;> rw [hw₁] at hnew
  · simpa [← hnew] using h'.new w hw₁
  · simp [← hnew, h'.old w spec hw₁]

theorem adds_addWorker {x x' : WorkerIndex} {inputUrl : Text} {dom : Target} {url key : Text}
    {role : WorkerRole} (h : x.addWorker inputUrl dom url key role = some x')
    (hfree : x.workers.get? ⟨dom.id, role⟩ = none) :
    Adds x x' fun w =>
      if w = ⟨dom.id, role⟩ then (composeOutUrl dom.type url key role).toOption else none := by
  obtain ⟨outputUrl, registry, hurl, -, rfl⟩ := addWorker_eq_some h
  refine ⟨fun w spec hw => ?_, fun w hw => ?_⟩
  · have hne : w ≠ ⟨dom.id, role⟩ := by
      rintro rfl
      rw [hfree] at hw
      cases hw
    rw [Dict.get?_insert_ne _ _ hne]
    exact hw
  · rw [Dict.get?_insert]
    split
    · rw [hurl]
      rfl
    · rw [hw]
      rfl

theorem indexed_addWorker {x x' : WorkerIndex} {inputUrl : Text} {dom : Target} {url key : Text}
    {role : WorkerRole} (h : x.addWorker inputUrl dom url key role = some x') (hx : x.Indexed) :
    x'.Indexed := by
  obtain ⟨outputUrl, registry, -, -, rfl⟩ := addWorker_eq_some h
  intro w hw
  dsimp only at hw ⊢
  rw [Dict.get?_insert] at hw ⊢
  by_cases hnew : w = ⟨dom.id, role⟩
  · subst hnew
    exact ⟨_, if_pos rfl, mem_addTo.mpr (.inr rfl)⟩
  · rw [if_neg hnew] at hw
    obtain ⟨ws, hws, hmem⟩ := hx w hw
    by_cases hid : w.targetId = dom.id
    · rw [hid] at hws
      refine ⟨_, if_pos hid, mem_addTo.mpr (.inl ?_)⟩
      rw [hws]
      exact hmem
    · exact ⟨ws, by rw [if_neg hid]; exact hws, hmem⟩

/-- The spawn loop of one target with every `start` succeeding. -/
def spawnAll (x : WorkerIndex) (inputUrl : Text) (dom : Target) (url key : Text) :
    List WorkerRole → Option WorkerIndex
  | [] => some x
  | role :: roles =>
    if (x.workers.get? ⟨dom.id, role⟩).isSome then spawnAll x inputUrl dom url key roles
    else (x.addWorker inputUrl dom url key role).bind fun x' =>
      spawnAll x' inputUrl dom url key roles

/-- Composing the URL and registering the key work for this role. -/
def CanSpawn (dom : Target) (url key : Text) (role : WorkerRole) : Prop :=
  minRedactableSecretLength ≤ key.length ∧ (composeOutUrl dom.type url key role).toOption.isSome

instance (dom : Target) (url key : Text) (role : WorkerRole) :
    Decidable (CanSpawn dom url key role) := by
  unfold CanSpawn
  infer_instance

theorem exists_addWorker (x : WorkerIndex) (inputUrl : Text) {dom : Target} {url key : Text}
    {role : WorkerRole} (h : CanSpawn dom url key role) :
    ∃ x', x.addWorker inputUrl dom url key role = some x' := by
  obtain ⟨hlong, hurl⟩ := h
  rcases hout : composeOutUrl dom.type url key role with e | outputUrl
  · rw [hout] at hurl
    cases hurl
  · rw [addWorker, hout, CredentialRegistry.register, dif_pos hlong]
    exact ⟨_, rfl⟩

/-- Every missing worker of the target is added, with the URL of its role. -/
theorem spawnAll_spec (x : WorkerIndex) (inputUrl : Text) (dom : Target) (url key : Text)
    (roles : List WorkerRole)
    (h : ∀ role ∈ roles, x.workers.get? ⟨dom.id, role⟩ = none → CanSpawn dom url key role) :
    ∃ x', spawnAll x inputUrl dom url key roles = some x' ∧ (x.Indexed → x'.Indexed) ∧
      Adds x x' fun w => if w.targetId = dom.id ∧ w.role ∈ roles then
        (composeOutUrl dom.type url key w.role).toOption else none := by
  induction roles generalizing x with
  | nil => exact ⟨x, rfl, id, (adds_nothing x).congr fun w _ => by simp⟩
  | cons role roles ih =>
    rw [spawnAll]
    split
    · rename_i hsome
      obtain ⟨x', hx', hindexed, hadds⟩ := ih x fun r hr => h r (List.mem_cons_of_mem role hr)
      refine ⟨x', hx', hindexed, hadds.congr fun w hw => ?_⟩
      have hne : ¬ (w.targetId = dom.id ∧ w.role = role) := by
        rintro ⟨hid, hrole⟩
        rw [← hid, ← hrole] at hsome
        rw [hw] at hsome
        cases hsome
      grind
    · rename_i hnone
      have hfree := Option.not_isSome_iff_eq_none.mp hnone
      obtain ⟨x₁, hx₁⟩ := exists_addWorker x inputUrl (h role List.mem_cons_self hfree)
      have hadd := adds_addWorker hx₁ hfree
      obtain ⟨x', hx', hindexed, hadds⟩ := ih x₁ fun r hr hr₁ => by
        refine h r (List.mem_cons_of_mem role hr) ?_
        rcases hr₀ : x.workers.get? ⟨dom.id, r⟩ with _ | spec
        · rfl
        · rw [hadd.old _ spec hr₀] at hr₁
          cases hr₁
      refine ⟨x', by rw [hx₁]; exact hx', fun hx => hindexed (indexed_addWorker hx₁ hx), ?_⟩
      refine (hadd.trans hadds).congr fun w _ => ?_
      obtain ⟨tid, r⟩ := w
      by_cases hid : tid = dom.id
      · by_cases hr : r = role
        · subst hid hr
          simp only [and_self, if_true, List.mem_cons, true_or, true_and]
          split
          · exact Option.or_self
          · exact Option.or_none
        · simp [hid, hr]
      · simp [hid]

/-- The loop of a single-target teardown with every `stop` returning. -/
def dropPresent (x : WorkerIndex) (id : TargetId) : List WorkerId → WorkerIndex
  | [] => x
  | w :: rest =>
    if (x.workers.get? w).isSome then dropPresent (x.dropWorker id w) id rest
    else dropPresent x id rest

theorem get?_workers_dropPresent (x : WorkerIndex) (id : TargetId) (ws : List WorkerId)
    (w : WorkerId) :
    (x.dropPresent id ws).workers.get? w = if w ∈ ws then none else x.workers.get? w := by
  induction ws generalizing x with
  | nil => simp [dropPresent]
  | cons w₀ rest ih =>
    rw [dropPresent]
    split
    · rw [ih, get?_workers_dropWorker]
      grind
    · rename_i hnone
      have hfree := Option.not_isSome_iff_eq_none.mp hnone
      rw [ih]
      by_cases heq : w = w₀
      · subst heq
        simp [hfree]
      · simp [heq]

theorem indexed_dropWorker {x : WorkerIndex} (tid : TargetId) (w : WorkerId) (h : x.Indexed) :
    (x.dropWorker tid w).Indexed := by
  intro w' hw'
  rw [get?_workers_dropWorker] at hw'
  split at hw'
  · cases hw'
  · rename_i hne
    obtain ⟨ws, hws, hmem⟩ := h w' hw'
    rw [dropWorker]
    simp only [targetToWorkers_unregisterSecret]
    rcases hset : x.targetToWorkers.get? tid with _ | ws₀
    · exact ⟨ws, hws, hmem⟩
    · dsimp only
      rw [Dict.get?_insert]
      split
      · rename_i hid
        rw [hid, hset] at hws
        obtain rfl := Option.some.inj hws
        exact ⟨_, rfl, mem_discardFrom.mpr ⟨hmem, hne⟩⟩
      · exact ⟨ws, hws, hmem⟩

theorem indexed_dropPresent {x : WorkerIndex} (id : TargetId) (ws : List WorkerId)
    (h : x.Indexed) : (x.dropPresent id ws).Indexed := by
  induction ws generalizing x with
  | nil => exact h
  | cons w rest ih =>
    rw [dropPresent]
    split
    · exact ih (indexed_dropWorker id w h)
    · exact ih h

end WorkerIndex

namespace Supervisor

open WorkerIndex

/-- The operation returns and leaves `t` when no awaited call raises. -/
abbrev Completes (p : Supervisor × Option Section) (t : Supervisor) : Prop :=
  monitor.Completes Outcome.ok p t

theorem completes_section {s t : Supervisor} {sec : Section} :
    Completes (s, some sec) t ↔ Completes (s.continueFrom sec .ok) t :=
  Monitor.completes_suspend rfl

/-- The assertion of the free lock survives an operation that may be let in. -/
theorem free_of_completes {base : Finset Text} {s t : Supervisor} {op : Op}
    (h : Free base (fun _ => True) Empty s) (hop : EnableFindsRun s op)
    (hc : Completes (s.enter op) t) : Free base (fun _ => True) Empty t :=
  Monitor.Rule.completes (kept_offlineEmpty.rule) (fun _ sec => by cases sec <;> trivial)
    (fine_enter kept_offlineEmpty s op h hop) hc

/-! ## The spawn loops -/

/-- The output URL a target that was read wants for a worker id. -/
def plannedOf (r : Runnable) (w : WorkerId) : Option Text :=
  if r.dom.enabled = true ∧ w.targetId = r.dom.id ∧ w.role ∈ rolesFor r.dom then
    r.plaintext.bind fun key => (composeOutUrl r.dom.type r.row.url key w.role).toOption
  else none

/-- Spawning this target's missing workers does not fail, and neither did
decrypting its key. -/
def SpawnSucceeds (x : WorkerIndex) (r : Runnable) : Prop :=
  r.dom.enabled = true →
    match r.plaintext with
    | none => r.dom.hasActiveCredential = false
    | some key => ∀ role ∈ rolesFor r.dom, x.workers.get? ⟨r.dom.id, role⟩ = none →
        CanSpawn r.dom r.row.url key role

instance (x : WorkerIndex) (r : Runnable) : Decidable (SpawnSucceeds x r) := by
  unfold SpawnSucceeds
  split <;> infer_instance

/-- With more workers there is less to spawn. -/
theorem SpawnSucceeds.mono {x x' : WorkerIndex} {r : Runnable} (h : SpawnSucceeds x r)
    (hle : ∀ w spec, x.workers.get? w = some spec → x'.workers.get? w = some spec) :
    SpawnSucceeds x' r := by
  intro henabled
  have h := h henabled
  split at h
  · exact h
  · intro role hrole hfree
    refine h role hrole ?_
    rcases hw : x.workers.get? ⟨r.dom.id, role⟩ with _ | spec
    · rfl
    · rw [hle _ spec hw] at hfree
      cases hfree

theorem completes_afterSpawn {s t : Supervisor} (caller : Caller) (r : Runnable) (key : Text)
    (roles : List WorkerRole) {x : WorkerIndex} (htg : s.superTg = true)
    (hx : s.toWorkerIndex.spawnAll s.ingestLoopbackUrl r.dom r.row.url key roles = some x) :
    Completes (afterSpawn caller r key (s.spawnRoles r key roles)) t ↔
      Completes ({ s with toWorkerIndex := x }.spawnReturned caller) t := by
  induction roles generalizing s with
  | nil =>
    obtain rfl := Option.some.inj hx
    rfl
  | cons role roles ih =>
    rw [spawnAll] at hx
    rw [spawnRoles]
    split at hx
    · rename_i hsome
      rw [if_pos hsome]
      exact ih htg hx
    · rename_i hnone
      obtain ⟨x₁, hx₁, hx⟩ := Option.bind_eq_some_iff.mp hx
      rw [if_neg hnone, hx₁]
      refine completes_section.trans ?_
      rw [continueFrom, workerStarted, if_pos ⟨rfl, htg⟩]
      exact ih (s := { s with toWorkerIndex := x₁ }) htg hx

/-- A target is spawned as planned and the caller goes on. -/
theorem completes_spawnTarget {s : Supervisor} (caller : Caller) (r : Runnable) (key : Text)
    (htg : s.superTg = true) (henabled : r.dom.enabled = true) (hkey : r.plaintext = some key)
    (hr : SpawnSucceeds s.toWorkerIndex r) :
    ∃ x, (s.Indexed → x.Indexed) ∧ Adds s.toWorkerIndex x (plannedOf r) ∧ ∀ t,
      Completes (afterSpawn caller r key (s.spawnRoles r key (rolesFor r.dom))) t ↔
        Completes ({ s with toWorkerIndex := x }.spawnReturned caller) t := by
  have hcan := hr henabled
  rw [hkey] at hcan
  obtain ⟨x, hx, hindexed, hadds⟩ := spawnAll_spec s.toWorkerIndex s.ingestLoopbackUrl r.dom
    r.row.url key (rolesFor r.dom) hcan
  refine ⟨x, hindexed, hadds.congr fun w _ => ?_, fun t => completes_afterSpawn _ _ _ _ htg hx⟩
  simp [plannedOf, henabled, hkey]

/-- A target that is enabled and has a key is spawned. -/
theorem spawnPairs_cons {s : Supervisor} {r : Runnable} {rest : List Runnable} {key : Text}
    (henabled : r.dom.enabled = true) (hkey : r.plaintext = some key) :
    s.spawnPairs (r :: rest) =
      afterSpawn (.startRun rest) r key (s.spawnRoles r key (rolesFor r.dom)) := by
  rw [spawnPairs, henabled, hkey]
  dsimp only
  rcases s.spawnRoles r key (rolesFor r.dom) with ⟨s', _ | _ | _⟩ <;> rfl

/-- What a list of targets wants for a worker id. -/
def planned (pairs : List Runnable) (w : WorkerId) : Option Text :=
  pairs.findSome? (plannedOf · w)

theorem planned_cons (r : Runnable) (pairs : List Runnable) (w : WorkerId) :
    planned (r :: pairs) w = (plannedOf r w).or (planned pairs w) := by
  rw [planned, List.findSome?_cons]
  split
  · rename_i url hurl
    rw [hurl, Option.some_or]
  · rename_i hnone
    rw [hnone, Option.none_or, planned]

/-- The loop of `start_run` over targets whose spawns succeed, others being still to come. -/
theorem completes_spawnPairs_append {s : Supervisor} (pairs later : List Runnable)
    (htg : s.superTg = true) (hpairs : ∀ r ∈ pairs, SpawnSucceeds s.toWorkerIndex r) :
    ∃ x, (s.Indexed → x.Indexed) ∧ Adds s.toWorkerIndex x (planned pairs) ∧ ∀ t,
      Completes (s.spawnPairs (pairs ++ later)) t ↔
        Completes ({ s with toWorkerIndex := x }.spawnPairs later) t := by
  induction pairs generalizing s with
  | nil => exact ⟨s.toWorkerIndex, id, adds_nothing _, fun t => Iff.rfl⟩
  | cons r rest ih =>
    have hrest := fun r' hr' => hpairs r' (List.mem_cons_of_mem r hr')
    rw [List.cons_append]
    have hskip : (∀ key, ¬ (r.dom.enabled = true ∧ r.plaintext = some key)) →
        s.spawnPairs (r :: (rest ++ later)) = s.spawnPairs (rest ++ later) ∧
          ∀ w, plannedOf r w = none := by
      intro hno
      rw [spawnPairs]
      split
      · rename_i key henabled hkey
        exact absurd ⟨henabled, hkey⟩ (hno key)
      · refine ⟨rfl, fun w => ?_⟩
        rw [plannedOf]
        split
        · rename_i hif
          rcases hkey : r.plaintext with _ | key
          · rfl
          · exact absurd ⟨hif.1, hkey⟩ (hno key)
        · rfl
    by_cases hspawn : ∃ key, r.dom.enabled = true ∧ r.plaintext = some key
    · obtain ⟨key, henabled, hkey⟩ := hspawn
      obtain ⟨x₁, hindexed₁, hadds₁, hcomp₁⟩ := completes_spawnTarget (.startRun (rest ++ later)) r
        key htg henabled hkey (hpairs r List.mem_cons_self)
      obtain ⟨x, hindexed, hadds, hcomp⟩ := ih (s := { s with toWorkerIndex := x₁ }) htg
        fun r' hr' => (hrest r' hr').mono hadds₁.old
      refine ⟨x, fun h => hindexed (hindexed₁ h), ?_, fun t => ?_⟩
      · exact (hadds₁.trans hadds).congr fun w _ => (planned_cons r rest w).symm
      · rw [spawnPairs_cons henabled hkey]
        exact (hcomp₁ t).trans (hcomp t)
    · obtain ⟨hloop, hnone⟩ := hskip fun key h => hspawn ⟨key, h⟩
      obtain ⟨x, hindexed, hadds, hcomp⟩ := ih htg hrest
      refine ⟨x, hindexed, hadds.congr fun w _ => ?_, fun t => by rw [hloop]; exact hcomp t⟩
      rw [planned_cons, hnone, Option.none_or]

theorem completes_spawnPairs {s : Supervisor} (pairs : List Runnable) (htg : s.superTg = true)
    (hpairs : ∀ r ∈ pairs, SpawnSucceeds s.toWorkerIndex r) :
    ∃ x, (s.Indexed → x.Indexed) ∧ Adds s.toWorkerIndex x (planned pairs) ∧ ∀ t,
      Completes (s.spawnPairs pairs) t ↔ Completes { s with toWorkerIndex := x }.finishStart t := by
  have h := completes_spawnPairs_append pairs [] htg hpairs
  rw [List.append_nil] at h
  exact h

/-! ## What the database wants -/

/-- The roles of the enabled targets that have a credential. -/
def expected (db : Database) (w : WorkerId) : Bool :=
  match db.getById w.targetId with
  | none => false
  | some row =>
    row.enabled && (db.getForTarget w.targetId).isSome &&
      decide (w.role ∈ rolesFor (targetDtoToDomain w.targetId row (db.getForTarget w.targetId)))

/-- `compose_out_url` of the row's URL, the decrypted key and the role, for the
roles of the enabled targets. -/
def plannedUrl (keys : Option DerivedKeys) (db : Database) (w : WorkerId) : Option Text :=
  keys.bind fun derived => (db.getById w.targetId).bind fun row =>
    plannedOf (readTarget db derived.streamKeyKek (w.targetId, row)) w

theorem plannedOf_of_ne {r : Runnable} {w : WorkerId} (h : w.targetId ≠ r.dom.id) :
    plannedOf r w = none := by
  rw [plannedOf, if_neg fun hif => h hif.2.1]

/-- Only what is expected has a planned URL. -/
theorem expected_of_plannedUrl {keys : Option DerivedKeys} {db : Database} {w : WorkerId}
    {url : Text} (h : plannedUrl keys db w = some url) : expected db w = true := by
  obtain ⟨derived, -, h⟩ := Option.bind_eq_some_iff.mp h
  obtain ⟨row, hrow, h⟩ := Option.bind_eq_some_iff.mp h
  rw [plannedOf] at h
  split at h
  · rename_i hif
    obtain ⟨key, hkey, -⟩ := Option.bind_eq_some_iff.mp h
    obtain ⟨credential, hcred, -⟩ := Option.bind_eq_some_iff.mp hkey
    simp only [readTarget] at hif hcred
    simp only [expected, hrow, hcred, Option.isSome_some, Bool.and_true, Bool.and_eq_true,
      decide_eq_true_eq]
    rw [hcred] at hif
    exact ⟨hif.1, hif.2.2⟩
  · cases h

/-- Reading the enabled rows one after the other plans the same as looking each
worker id's row up. -/
theorem planned_listEnabled (db : Database) (kek : Key) (w : WorkerId) :
    planned (db.listEnabled.map (readTarget db kek)) w =
      (db.getById w.targetId).bind fun row => plannedOf (readTarget db kek (w.targetId, row)) w := by
  have hscan : ∀ l : List (TargetId × TargetRow), (l.map Prod.fst).Nodup →
      planned ((l.filter fun e => e.2.enabled).map (readTarget db kek)) w =
        (l.lookup w.targetId).bind fun row => plannedOf (readTarget db kek (w.targetId, row)) w := by
    intro l hnd
    induction l with
    | nil => rfl
    | cons e l ih =>
      obtain ⟨id, row⟩ := e
      rw [List.map_cons, List.nodup_cons] at hnd
      have ih := ih hnd.2
      have hhead : planned ((((id, row) :: l).filter fun e => e.2.enabled).map (readTarget db kek)) w =
          (plannedOf (readTarget db kek (id, row)) w).or
            (planned ((l.filter fun e => e.2.enabled).map (readTarget db kek)) w) := by
        by_cases hen : row.enabled = true
        · rw [List.filter_cons_of_pos (by exact hen), List.map_cons, planned_cons]
        · rw [List.filter_cons_of_neg (by exact hen), plannedOf, if_neg fun hif => hen hif.1,
            Option.none_or]
      rw [hhead, ih]
      by_cases hid : w.targetId = id
      · have hlook : l.lookup w.targetId = none :=
          Dict.lookup_eq_none_of_not_mem (by rw [hid]; exact hnd.1)
        rw [hlook, Option.bind_none, Option.or_none, List.lookup_cons, hid, beq_self_eq_true]
        rfl
      · rw [plannedOf_of_ne (r := readTarget db kek (id, row)) hid, Option.none_or]
        simp [List.lookup_cons, beq_false_of_ne hid]
  exact hscan db.targets.entries db.targets.nodup

/-- A wanted worker whose spawn succeeds has a planned URL. -/
theorem planned_of_expected {s : Supervisor} {keys : DerivedKeys} {w : WorkerId}
    (hkeys : s.keyMaterial = some keys) (hex : expected s.db w = true)
    (hfree : s.workers.get? w = none)
    (hsucc : ∀ row, s.db.getById w.targetId = some row →
      SpawnSucceeds s.toWorkerIndex (readTarget s.db keys.streamKeyKek (w.targetId, row))) :
    (plannedUrl s.keyMaterial s.db w).isSome := by
  rcases hrow : s.db.getById w.targetId with _ | row
  · simp [expected, hrow] at hex
  · simp only [expected, hrow, Bool.and_eq_true, decide_eq_true_eq] at hex
    obtain ⟨⟨henabled, hcred⟩, hrole⟩ := hex
    have hsucc := hsucc row hrow henabled
    rw [plannedUrl, hkeys, Option.bind_some, hrow, Option.bind_some, plannedOf,
      if_pos ⟨henabled, rfl, hrole⟩]
    split at hsucc
    · rw [show (readTarget s.db keys.streamKeyKek (w.targetId, row)).dom.hasActiveCredential =
        (s.db.getForTarget w.targetId).isSome from rfl, hcred] at hsucc
      cases hsucc
    · rename_i key hkey
      rw [hkey, Option.bind_some]
      exact (hsucc w.role hrole hfree).2

/-! ## `start_run` -/

theorem completes_loadNext {s t : Supervisor} (kek : Key) (todo : List (TargetId × TargetRow))
    (pairs : List Runnable)
    (hread : ∀ e ∈ todo, (readTarget s.db kek e).plaintext = none →
      (readTarget s.db kek e).dom.hasActiveCredential = false) :
    Completes (s.loadNext kek todo pairs) t ↔
      Completes (s.flushFailures (pairs ++ todo.map (readTarget s.db kek))) t := by
  induction todo generalizing pairs with
  | nil => rw [loadNext, List.map_nil, List.append_nil]
  | cons e todo ih =>
    have hsame : s.readRunnable kek e = (s, readTarget s.db kek e) := by
      rw [readRunnable]
      split
      · rename_i hfail
        rw [hread e List.mem_cons_self hfail.2] at hfail
        cases hfail.1
      · rfl
    rw [loadNext]
    refine completes_section.trans ?_
    rw [continueFrom, hsame]
    dsimp only
    rw [ih (pairs ++ [readTarget s.db kek e]) fun e' he' => hread e' (List.mem_cons_of_mem e he'),
      List.append_assoc, List.map_cons]
    rfl

theorem loadRunnableTargets_of_ready {s : Supervisor} {derived : DerivedKeys}
    (h : s.keyMaterial = some derived) :
    s.loadRunnableTargets = (s, some (.listing derived.streamKeyKek)) := by
  rw [loadRunnableTargets, h]

/-- The audit rows of the decrypt failures are written one after the other. -/
theorem completes_flushFailures {s t : Supervisor} (pairs : List Runnable) :
    Completes (s.flushFailures pairs) t ↔
      Completes ({ s with decryptFailures := [] }.beginSpawning pairs) t := by
  generalize hfail : s.decryptFailures = failures
  induction failures generalizing s with
  | nil =>
    have hflush : s.flushFailures pairs = s.beginSpawning pairs := by rw [flushFailures, hfail]
    have hsame : { s with decryptFailures := [] } = s := by rw [← hfail]
    rw [hflush, hsame]
  | cons id rest ih =>
    rw [flushFailures, hfail]
    refine completes_section.trans ?_
    exact ih (s := { s with decryptFailures := rest }) rfl

/-- `start_run` at the beginning of its spawn loop. -/
def atSpawning (s : Supervisor) (kek : Key) : Supervisor :=
  let pairs := s.db.listEnabled.map (readTarget s.db kek)
  { s with
    runState := .starting
    currentRunId := some s.db.freshRunId
    db := s.db.startRun s.db.freshRunId
    decryptFailures := []
    targets := Dict.ofList (pairs.map fun (r : Runnable) => (r.dom.id, r.dom))
    targetToWorkers := Dict.ofList (pairs.map fun (r : Runnable) => (r.dom.id, [])) }

/-- A start in OFFLINE comes to its spawn loop. -/
theorem completes_startRun_spawning {s t : Supervisor} {derived : DerivedKeys}
    (hoff : s.runState = .offline) (hkeys : s.keyMaterial = some derived)
    (hread : ∀ e ∈ s.db.listEnabled, (readTarget s.db derived.streamKeyKek e).plaintext = none →
      (readTarget s.db derived.streamKeyKek e).dom.hasActiveCredential = false) :
    Completes s.startRun t ↔ Completes ((s.atSpawning derived.streamKeyKek).spawnPairs
      (s.db.listEnabled.map (readTarget s.db derived.streamKeyKek))) t := by
  let run := s.db.freshRunId
  let pairs := s.db.listEnabled.map (readTarget s.db derived.streamKeyKek)
  let opened : Supervisor := { s with
    runState := .starting, currentRunId := some run, db := s.db.startRun run }
  -- the run row, its commit, the list of targets, their credentials, the audit rows of failures
  have hload : opened.loadRunnableTargets = (opened, some (.listing derived.streamKeyKek)) :=
    loadRunnableTargets_of_ready hkeys
  have hstart : s.startRun = ({ s with runState := .starting }, some .opening) := by
    rw [startRun, if_pos hoff, setRunState, hoff]
    rfl
  calc Completes s.startRun t
      ↔ Completes opened.loadRunnableTargets t := by
        rw [hstart]
        exact completes_section.trans completes_section
    _ ↔ Completes (opened.loadNext derived.streamKeyKek s.db.listEnabled []) t := by
        rw [hload]
        exact completes_section
    _ ↔ Completes (opened.flushFailures pairs) t := completes_loadNext _ _ [] hread
    _ ↔ Completes ((s.atSpawning derived.streamKeyKek).spawnPairs pairs) t :=
        completes_flushFailures pairs

/-- A start in OFFLINE reaches ARMED with the planned workers. -/
theorem completes_startRun {s : Supervisor} {derived : DerivedKeys}
    (hoff : s.runState = .offline) (htg : s.superTg = true) (hkeys : s.keyMaterial = some derived)
    (hnone : ∀ w, s.workers.get? w = none)
    (hsucc : ∀ e ∈ s.db.listEnabled,
      SpawnSucceeds s.toWorkerIndex (readTarget s.db derived.streamKeyKek e)) :
    ∃ x targets run, x.Indexed ∧
      (∀ w, (x.workers.get? w).map WorkerSpec.outputUrl = plannedUrl s.keyMaterial s.db w) ∧ ∀ t,
        Completes s.startRun t ↔ t = { s with
          toWorkerIndex := x, runState := .armed, targets := targets, currentRunId := some run
          decryptFailures := [], db := s.db.startRun run } := by
  let pairs := s.db.listEnabled.map (readTarget s.db derived.streamKeyKek)
  have hread : ∀ e ∈ s.db.listEnabled, (readTarget s.db derived.streamKeyKek e).plaintext = none →
      (readTarget s.db derived.streamKeyKek e).dom.hasActiveCredential = false := by
    intro e he hplain
    have henabled := (List.mem_filter.mp he).2
    have hread := hsucc e he henabled
    rw [hplain] at hread
    exact hread
  have hpairs : ∀ r ∈ pairs, SpawnSucceeds (s.atSpawning derived.streamKeyKek).toWorkerIndex r := by
    intro r hr
    obtain ⟨e, he, rfl⟩ := List.mem_map.mp hr
    exact hsucc e he
  obtain ⟨x, hindexed, hadds, hcomp⟩ := completes_spawnPairs
    (s := s.atSpawning derived.streamKeyKek) pairs htg hpairs
  refine ⟨x, (s.atSpawning derived.streamKeyKek).targets, s.db.freshRunId,
    hindexed (indexed_of_none hnone), fun w => ?_, fun t => ?_⟩
  · rw [hadds.new w (hnone w), planned_listEnabled, plannedUrl, hkeys, Option.bind_some]
  · refine (completes_startRun_spawning hoff hkeys hread).trans ((hcomp t).trans ?_)
    exact completes_section.trans Monitor.completes_return

/-- A failed start ends in ERROR without workers. -/
theorem completes_rollBack {s : Supervisor} (hst : s.runState = .starting) :
    ∃ x db, (∀ w, x.workers.get? w = none) ∧ ∀ t, Completes s.rollBack t ↔ t = { s with
      toWorkerIndex := x, runState := .error, currentRunId := none, db := db } := by
  have hafter : ∀ s' : Supervisor, s'.runState = .starting →
      ∃ db, ∀ t, Completes s'.afterRollBack t ↔ t = { s' with
        runState := .error, currentRunId := none, db := db } := by
    intro s' hst'
    have hroll : s'.afterRollBack = ({ s' with runState := .error, currentRunId := none },
        s'.currentRunId.map .closingFailed) := by
      rw [afterRollBack, setRunState, hst']
      rfl
    rw [hroll]
    rcases s'.currentRunId with _ | run
    · exact ⟨s'.db, fun t => Monitor.completes_return⟩
    · exact ⟨s'.db.endRun run .error, fun t => completes_section.trans Monitor.completes_return⟩
  rw [rollBack]
  split
  · rename_i hempty
    obtain ⟨db, hdb⟩ := hafter s hst
    exact ⟨s.toWorkerIndex, db, Dict.keys_eq_nil.mp hempty, hdb⟩
  · obtain ⟨db, hdb⟩ := hafter
      { s with toWorkerIndex := s.toWorkerIndex.dropAll s.workers.keys } hst
    refine ⟨_, db, fun w => ?_, fun t => completes_section.trans (hdb t)⟩
    rw [get?_workers_dropAll]
    split
    · rfl
    · rename_i hno
      exact Option.not_isSome_iff_eq_none.mp fun hsome =>
      hno (Dict.mem_keys.mpr (Option.isSome_iff_exists.mp hsome))

/-! ## `enable_target` and `disable_target` -/

theorem get?_setDefault_of_some {index : Dict TargetId (List WorkerId)} {id id' : TargetId}
    {ws : List WorkerId} (h : index.get? id' = some ws) :
    (setDefault index id).get? id' = some ws := by
  rw [setDefault]
  split
  · exact h
  · rename_i hnone
    refine (Dict.get?_insert_ne _ _ ?_).trans h
    rintro rfl
    rw [h] at hnone
    exact hnone rfl

/-- An `enable_target` that was let in adds the planned workers of its target. -/
theorem completes_enableTarget {s : Supervisor} {derived : DerivedKeys} (id : TargetId)
    (htg : s.superTg = true) (hkeys : s.keyMaterial = some derived)
    (hsucc : ∀ row, s.db.getById id = some row →
      SpawnSucceeds s.toWorkerIndex (readTarget s.db derived.streamKeyKek (id, row))) :
    ∃ x targets, (s.Indexed → x.Indexed) ∧
      Adds s.toWorkerIndex x
        (fun w => if w.targetId = id then plannedUrl s.keyMaterial s.db w else none) ∧ ∀ t,
      Completes (s.enableTarget id) t ↔
        t = { s with toWorkerIndex := x, targets := targets } := by
  have henter : s.enableTarget id = (s, some (.reloading derived.streamKeyKek id)) := by
    rw [enableTarget, hkeys]
  rcases hrow : s.db.getById id with _ | row
  · refine ⟨s.toWorkerIndex, s.targets, fun h => h, (adds_nothing _).congr fun w _ => ?_,
      fun t => ?_⟩
    · split
      · rename_i hid
        rw [plannedUrl, hid, hrow, hkeys]
        rfl
      · rfl
    · rw [henter, completes_section, continueFrom, hrow]
      exact Monitor.completes_return
  · let r := readTarget s.db derived.streamKeyKek (id, row)
    let s₁ : Supervisor := { s with
      targets := s.targets.insert id r.dom
      targetToWorkers := setDefault s.targetToWorkers id }
    have hindexed₁ : s.Indexed → s₁.Indexed := fun h w hw => by
      obtain ⟨ws, hws, hmem⟩ := h w hw
      exact ⟨ws, get?_setDefault_of_some hws, hmem⟩
    have hplan : ∀ w, (if w.targetId = id then plannedUrl s.keyMaterial s.db w else none) =
        plannedOf r w := by
      intro w
      split
      · rename_i hid
        rw [plannedUrl, hkeys, Option.bind_some, hid, hrow]
        rfl
      · rename_i hid
        exact (plannedOf_of_ne hid).symm
    have hload : ∀ t, Completes (s.enableTarget id) t ↔
        Completes (s.enableReloaded derived.streamKeyKek id row) t := fun t => by
      rw [henter, completes_section, continueFrom, hrow]
      exact completes_section
    by_cases hspawn : ∃ key, r.dom.enabled = true ∧ r.plaintext = some key
    · obtain ⟨key, henabled, hkey⟩ := hspawn
      obtain ⟨x, hindexed, hadds, hcomp⟩ := completes_spawnTarget (s := s₁) .enableTarget r key htg
        henabled hkey (hsucc row hrow)
      refine ⟨x, s₁.targets, fun h => hindexed (hindexed₁ h), ?_, fun t => ?_⟩
      · exact Adds.congr ⟨hadds.old, hadds.new⟩ fun w _ => (hplan w).symm
      · have hspawns : s.enableReloaded derived.streamKeyKek id row =
            afterSpawn .enableTarget r key (s₁.spawnRoles r key (rolesFor r.dom)) := by
          rw [enableReloaded]
          simp only [show (readTarget s.db derived.streamKeyKek (id, row)).dom.enabled = true from
            henabled, show (readTarget s.db derived.streamKeyKek (id, row)).plaintext = some key from
            hkey]
          rfl
        rw [hload, hspawns]
        exact (hcomp t).trans Monitor.completes_return
    · have hskip : s.enableReloaded derived.streamKeyKek id row = (s₁, none) := by
        rw [enableReloaded]
        split
        · rename_i key henabled hkey
          exact absurd ⟨key, henabled, hkey⟩ hspawn
        · rfl
      refine ⟨s₁.toWorkerIndex, s₁.targets, hindexed₁, ?_, fun t => ?_⟩
      · refine Adds.congr ⟨fun _ _ h => h, fun w hw => ?_⟩ fun w _ => (hplan w).symm
        rw [hw, Option.map_none, plannedOf]
        split
        · rename_i hif
          rcases hkey : r.plaintext with _ | key
          · rfl
          · exact absurd ⟨key, hif.1, hkey⟩ hspawn
        · rfl
      · rw [hload, hskip]
        exact Monitor.completes_return

theorem completes_stopNext {s t : Supervisor} (id : TargetId) (ws : List WorkerId) :
    Completes (s.stopNext id ws) t ↔
      t = { s with toWorkerIndex := s.toWorkerIndex.dropPresent id ws } := by
  induction ws generalizing s with
  | nil => exact Monitor.completes_return
  | cons w rest ih =>
    rw [stopNext, dropPresent]
    split
    · exact completes_section.trans ih
    · exact ih

/-- A `disable_target` leaves every worker but those of its target. -/
theorem completes_disableTarget {base : Finset Text} {s : Supervisor} (id : TargetId)
    (reversed : Bool) (hc : s.toWorkerIndex.Consistent base) (hindexed : s.Indexed) :
    ∃ x, x.Indexed ∧
      (∀ w, x.workers.get? w = if w.targetId = id then none else s.workers.get? w) ∧ ∀ t,
      Completes (s.disableTarget id reversed) t ↔ t = { s with toWorkerIndex := x } := by
  let set := (s.targetToWorkers.get? id).getD []
  let ws := if reversed then set.reverse else set
  have hmem : ∀ w, w ∈ ws ↔ w ∈ set := by
    intro w
    show w ∈ (if reversed then set.reverse else set) ↔ w ∈ set
    split
    · exact List.mem_reverse
    · exact Iff.rfl
  refine ⟨s.toWorkerIndex.dropPresent id ws, indexed_dropPresent id ws hindexed, fun w => ?_,
    fun t => completes_stopNext id ws⟩
  rw [get?_workers_dropPresent]
  simp only [hmem]
  by_cases hid : w.targetId = id
  · rw [if_pos hid]
    split
    · rfl
    · rename_i hno
      refine Option.not_isSome_iff_eq_none.mp fun hsome => hno ?_
      obtain ⟨ws', hws', hw⟩ := hindexed w hsome
      show w ∈ (s.targetToWorkers.get? id).getD []
      rw [← hid, hws']
      exact hw
  · rw [if_neg hid, if_neg]
    intro hw
    rcases hset : s.targetToWorkers.get? id with _ | ws'
    · simp [set, hset] at hw
    · refine hid (hc.indexed id ws' w hset ?_).1
      simpa [set, hset] using hw

/-! ## `stop_run` -/

/-- What a drained run ends in. -/
theorem completes_afterWipe {s : Supervisor} (reason : EndReason) (hst : s.runState = .stopping) :
    ∃ db, ∀ t, Completes (s.afterWipe reason) t ↔
      t = { s with runState := .offline, currentRunId := none, db := db } := by
  have hclose : ∀ s' : Supervisor, s'.runState = .stopping → ∀ t,
      Completes s'.afterClose t ↔ t = { s' with runState := .offline } := by
    intro s' hst' t
    rw [afterClose, setRunState, hst']
    exact completes_section.trans Monitor.completes_return
  rw [afterWipe, closeRunSession]
  rcases hrun : s.currentRunId with _ | run
  · exact ⟨s.db, hclose { s with currentRunId := none } hst⟩
  · exact ⟨s.db.endRun run reason, fun t => completes_section.trans
      (hclose { s with currentRunId := none, db := s.db.endRun run reason } hst t)⟩

theorem completes_auditWipe {s : Supervisor} (cleared : List TargetId) (reason : EndReason)
    (t : Supervisor) :
    Completes (s.auditWipe cleared reason) t ↔ Completes (s.afterWipe reason) t := by
  induction cleared with
  | nil => rfl
  | cons id rest ih => exact completes_section.trans ih

theorem completes_afterDrain {s : Supervisor} (reason : EndReason) (hst : s.runState = .stopping) :
    ∃ db, ∀ t, Completes (s.afterDrain reason) t ↔
      t = { s with runState := .offline, currentRunId := none, db := db } := by
  rw [afterDrain]
  split
  · exact completes_afterWipe reason hst
  · obtain ⟨db, hdb⟩ := completes_afterWipe (s := { s with
      db := s.perSessionTargets.foldl Database.deleteForTarget s.db }) reason hst
    exact ⟨db, fun t => completes_section.trans ((completes_auditWipe _ reason t).trans (hdb t))⟩

/-- A stop of an active run reaches OFFLINE. -/
theorem completes_stopRun {s : Supervisor} (reason : EndReason)
    (hst : s.runState.isActive = true) :
    ∃ x db, ∀ t, Completes (s.stopRun reason) t ↔ t = { s with
      toWorkerIndex := x, runState := .offline, currentRunId := none, db := db } := by
  have hstop : s.setRunState .stopRequested = some { s with runState := .stopping } := by
    rw [setRunState]
    cases hs : s.runState <;> rw [hs] at hst <;> first | rfl | cases hst
  have hgoes : ¬ (s.runState = .offline ∨ s.runState = .stopping ∨ s.runState = .error) := by
    rintro (h | h | h) <;> rw [h] at hst <;> cases hst
  rw [stopRun, if_neg hgoes, hstop]
  dsimp only
  split
  · obtain ⟨db, hdb⟩ := completes_afterDrain (s := { s with runState := .stopping }) reason rfl
    exact ⟨s.toWorkerIndex, db, hdb⟩
  · obtain ⟨db, hdb⟩ := completes_afterDrain (s := { s with
      runState := .stopping, toWorkerIndex := s.toWorkerIndex.dropAll s.workers.keys }) reason rfl
    exact ⟨_, db, fun t => completes_section.trans (hdb t)⟩

end Supervisor

end RestreamPlus
