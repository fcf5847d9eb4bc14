import RestreamPlus.Fanout.RunExclusion

/-!
# The registry covers every running worker

The registry protects the log while a worker runs, so the key in the URL of
every worker in `_workers` should be registered. The registry is a set and
`_unregister_secret` runs per worker: dropping one of two workers with the same
key (the two pushes of a YouTube target, or two targets set up with one key)
leaves the other one unprotected, as in `registry_loses_shared_key`.

`registry_covers_iff` says that this is all that can go wrong: the runs along
which every worker is covered are exactly those in which a single worker is
dropped only while no other worker uses its key. Spawns that raise, rollbacks
and teardowns of all workers need no condition.
-/

namespace RestreamPlus

open Interleaving WorkerIndex Holders

namespace Supervisor

/-- The key the URL of `w` was composed with is registered. -/
def KeyRegistered (s : Supervisor) (w : WorkerId) (spec : WorkerSpec) : Prop :=
  ∃ key ∈ s.credentialRegistry.snapshot, s.registeredSecrets.get? w = some key ∧
    ∃ url, composeOutUrl spec.targetType url key w.role = .ok spec.outputUrl

/-- Every running worker's key is registered, and without workers the registry
is back to what it held before. -/
structure RegistryCovers (base : Finset Text) (s : Supervisor) : Prop where
  covered : ∀ w spec, s.workers.get? w = some spec → s.KeyRegistered w spec
  released : s.workers.keys = [] → s.credentialRegistry.snapshot ⊆ base

/-- The step drops no single worker whose key another worker uses. -/
def DropsUnshared (s : Supervisor) : Section → Outcome → Prop
  | .stoppingWorker _ w _, _ => ¬ s.toWorkerIndex.SharesKey w
  | .workerStarting _ _ _ w _, out => (out = .ok ∧ s.superTg = true) ∨ ¬ s.toWorkerIndex.SharesKey w
  | _, _ => True

/-- Every queued operation may be let in. -/
abbrev AnyQueued (s : Supervisor) (op : Op) : Prop := Admitted (fun _ => True) s op

theorem anyQueued (s : Supervisor) (op : Op) : AnyQueued s op := by
  cases op <;> trivial

theorem kept_secured : Kept Secured Secured (fun _ => True) DropsUnshared where
  busy_of_idle _ h := h
  idle_of_empty _ h := h.secured
  act_active _ _ := trivial
  act_obs := Iff.rfl
  add_busy _ _ _ _ _ _ _ hs hadd := secured_addWorker hs hadd
  add_idle _ _ _ _ _ _ _ _ _ _ hs hadd := secured_addWorker hs hadd
  sets_busy _ _ hs := hs
  sets_idle _ _ _ _ _ hs := hs
  drop_started s _ r _ w _ _ hR hraised _ := by
    have hns := hR.resolve_left hraised
    exact ⟨fun hs => (secured_dropWorker_iff r.dom.id w hs).mpr hns,
      fun hs => (secured_dropWorker_iff r.dom.id w hs).mpr hns⟩
  drop_stopped s id w _ _ hR _ :=
    ⟨fun hs => (secured_dropWorker_iff id w hs).mpr hR,
      fun hs => (secured_dropWorker_iff id w hs).mpr hR⟩
  rollingBack_raised _ _ _ hs := hs
  draining_raised _ _ _ _ hs := hs

/-- A consistent index whose keys are all registered covers its workers. -/
theorem registryCovers_of_secured {base : Finset Text} {s : Supervisor}
    (hc : s.toWorkerIndex.Consistent base) (hs : s.toWorkerIndex.Secured) :
    RegistryCovers base s := by
  refine ⟨fun w spec hw => ?_, fun hnone => ?_⟩
  · obtain ⟨key, hkey⟩ := Option.isSome_iff_exists.mp ((hc.holds w).mpr (by rw [hw]; rfl))
    exact ⟨key, hs w key hkey, hkey, hc.composed w spec key hw hkey⟩
  · have hempty := hc.empty (Dict.keys_eq_nil.mp hnone)
    exact Finset.coe_subset.mp (hc.owned.subset_base hempty.secrets_none)

/-- An empty registry covers no worker. -/
theorem not_registryCovers_of_empty {base : Finset Text} {s : Supervisor} {w : WorkerId}
    (hnone : s.credentialRegistry.snapshot = ∅) (hw : (s.workers.get? w).isSome) :
    ¬ RegistryCovers base s := by
  obtain ⟨spec, hspec⟩ := Option.isSome_iff_exists.mp hw
  intro hcov
  obtain ⟨key, hmem, -⟩ := hcov.covered w spec hspec
  rw [hnone] at hmem
  exact Finset.notMem_empty key hmem

/-- Dropping a worker with a shared key leaves a worker whose key is gone. -/
theorem not_registryCovers_of_shared {base base' : Finset Text} {x : WorkerIndex} {s : Supervisor}
    (tid : TargetId) {w : WorkerId} (hc : x.Consistent base) (hsh : x.SharesKey w)
    (hs : s.toWorkerIndex = x.dropWorker tid w) : ¬ RegistryCovers base' s := by
  obtain ⟨w', hne, key, hkey, hkey'⟩ := hsh
  obtain ⟨spec, hspec⟩ := Option.isSome_iff_exists.mp ((hc.holds w').mp (by rw [hkey']; rfl))
  have hworker : s.workers.get? w' = some spec := by
    rw [hs, get?_workers_dropWorker, if_neg hne]
    exact hspec
  have hsecret : s.registeredSecrets.get? w' = some key := by
    rw [hs, (secrets_dropWorker x tid w).2 w' hne]
    exact hkey'
  have hgone : (s.credentialRegistry.snapshot : Set Text) = ↑x.credentialRegistry.snapshot \ {key} := by
    rw [hs]
    exact snapshot_unregisterSecret hkey
  intro hcov
  obtain ⟨key', hmem, hsecret', -⟩ := hcov.covered w' spec hworker
  rw [hsecret] at hsecret'
  obtain rfl := Option.some.inj hsecret'
  have hmem' : key ∈ (s.credentialRegistry.snapshot : Set Text) := hmem
  rw [hgone] at hmem'
  exact hmem'.2 rfl

theorem stopNext_fst (s : Supervisor) (id : TargetId) (ws : List WorkerId) :
    (s.stopNext id ws).1 = s := by
  induction ws with
  | nil => rfl
  | cons w rest ih =>
    rw [stopNext]
    split
    · rfl
    · exact ih

/-- While a worker is left, the error path stops before it changes anything. -/
theorem rollBack_fst {s : Supervisor} {w : WorkerId} {spec : WorkerSpec}
    (hw : s.workers.get? w = some spec) : (s.rollBack).1 = s := by
  rw [rollBack, if_neg fun hnone => ?_]
  rw [Dict.keys_eq_nil.mp hnone w] at hw
  cases hw

/-- A step that drops a worker with a shared key ends uncovered. -/
theorem uncovered_of_shared {base base' : Finset Text} {s : Supervisor} {sec : Section}
    {out : Outcome} (hc : s.toWorkerIndex.Consistent base) (hR : ¬ DropsUnshared s sec out) :
    ¬ RegistryCovers base' (s.continueFrom sec out).1 := by
  cases sec with
  | stoppingWorker id w rest =>
    refine not_registryCovers_of_shared id hc (not_not.mp hR) ?_
    rw [continueFrom, stopNext_fst]
  | workerStarting caller r key w roles =>
    obtain ⟨hraised, hsh⟩ := not_or.mp hR
    refine not_registryCovers_of_shared r.dom.id hc (not_not.mp hsh) ?_
    rw [continueFrom, workerStarted, if_neg hraised]
    cases caller with
    | enableTarget => rfl
    | startRun rest =>
      obtain ⟨w', hne, key', -, hkey'⟩ := not_not.mp hsh
      obtain ⟨spec, hspec⟩ := Option.isSome_iff_exists.mp ((hc.holds w').mp (by rw [hkey']; rfl))
      have hleft : (s.toWorkerIndex.dropWorker r.dom.id w).workers.get? w' = some spec := by
        rw [get?_workers_dropWorker, if_neg hne]
        exact hspec
      rw [spawnRaised, rollBack_fst hleft]
  | _ => exact absurd trivial hR

theorem index_of_sound {base : Finset Text} {c : Config}
    (h : Monitor.Sound (Free base Secured Secured) (Held base Secured Secured fun _ => True) c) :
    c.shared.toWorkerIndex.Consistent base ∧ c.shared.toWorkerIndex.Secured := by
  rcases ho : c.owner with _ | i
  · exact ⟨(h.atRest ho).consistent, (h.atRest ho).kept⟩
  · rw [Monitor.Sound, ho] at h
    obtain ⟨sec, -, hheld, -⟩ := h
    exact ⟨hheld.consistent, hheld.kept⟩

theorem advance_shared {c : Config} {i : ℕ} (p : Supervisor × Option Section) :
    (Monitor.advance c i p).shared = p.1 := by
  obtain ⟨s, _ | sec⟩ := p <;> rfl

/-- **Coverage, exactly**: the registry covers the workers in every state of a
run if and only if the run drops no single worker whose key another one uses. -/
theorem registry_covers_iff (url : Text) (registry : CredentialRegistry)
    (keys : Option DerivedKeys) (db : Database) (labels : List Label) :
    monitor.machine.Always (fun c => RegistryCovers registry.snapshot c.shared)
        (boot url registry keys db) labels ↔
      monitor.machine.Meets (Monitor.guard AnyQueued DropsUnshared)
        (boot url registry keys db) labels := by
  have rule : monitor.Rule (Free registry.snapshot Secured Secured) _ _ _ := kept_secured.rule
  have hinit := free_init Secured Secured (fun _ h => h) (fun _ he => he.secured) url registry
    keys db
  refine Machine.always_iff_meets (I := Monitor.Sound _ _)
    (fun c a c' hs hg hstep => rule.sound_step hs hg hstep)
    (fun _ hs => registryCovers_of_secured (index_of_sound hs).1 (index_of_sound hs).2) ?_ ?_
    (Monitor.sound_idle hinit)
  · intro c a c' hs hno hstep
    cases a with
    | resume i out =>
      obtain ⟨sec, r, ht, hr, rfl⟩ := Monitor.step_resume hstep
      rw [Monitor.guard_resume ht] at hno
      obtain rfl := Option.some.inj hr
      rw [advance_shared]
      exact uncovered_of_shared (index_of_sound hs).1 hno
    | grant =>
      obtain ⟨i, rest, op, -, hq, ht, -⟩ := Monitor.step_grant hstep
      rw [Monitor.guard_grant hq ht] at hno
      exact absurd (anyQueued _ _) hno
    | _ => exact absurd trivial hno
  · intro c a hnone
    cases a with
    | resume i out =>
      rw [Monitor.guard]
      split
      · rename_i sec ht
        have hsome : monitor.step c (.resume i out) =
            some (Monitor.advance c i (c.shared.continueFrom sec out)) := by
          rw [Monitor.step, ht]
          rfl
        rw [show monitor.step c (.resume i out) = none from hnone] at hsome
        cases hsome
      · trivial
    | grant =>
      rw [Monitor.guard]
      split
      · trivial
      · split
        · exact anyQueued _ _
        · trivial
    | _ => trivial

/-! ## Two targets with one key -/

section Shared

/-- A credential row with this key. -/
def sharedRow (id : ℕ) : CredentialRow :=
  ⟨id, .persistent, encryptCredential (deriveKeys "passphrase".toList [1]).streamKeyKek [2] [3]
    "live_0123456789".toList, [2], [3], "6789".toList⟩

/-- Two Twitch targets that push with the same key. -/
def sharedDb : Database where
  targets := (Dict.empty.insert 7
    ⟨.twitch, "main".toList, "rtmp://live.twitch.tv/app".toList, true, ∅⟩).insert 8
    ⟨.twitch, "copy".toList, "rtmp://fra.contribute.live-video.net/app".toList, true, ∅⟩
  credentials := (Dict.empty.insert 7 (sharedRow 1)).insert 8 (sharedRow 2)
  history := ∅

def sharedBoot : Config :=
  boot "rtmp://127.0.0.1/live/k".toList .empty
    (some (deriveKeys "passphrase".toList [1])) sharedDb

/-- Start both, then disable the first. -/
def sharedLabels : List Label :=
  [.call .startRun, .start 0] ++ List.replicate 8 (.resume 0 .ok) ++
    [.call (.disableTarget 7 false), .start 1, .resume 1 .ok]

/-- Disabling one of two targets with the same key leaves the other one live in
ARMED with its key unregistered. -/
theorem registry_loses_shared_key :
    ∃ c, monitor.machine.run sharedBoot sharedLabels = some c ∧ c.owner = none ∧
      c.shared.runState = .armed ∧ ¬ RegistryCovers ∅ c.shared := by
  refine ⟨_, rfl, rfl, rfl, not_registryCovers_of_empty (w := ⟨8, .primary⟩) ?_ ?_⟩
  · decide
  · decide

end Shared

end Supervisor

end RestreamPlus
