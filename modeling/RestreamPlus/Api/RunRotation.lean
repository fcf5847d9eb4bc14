import RestreamPlus.Api.Discipline
import RestreamPlus.Fanout.SupervisorFrame

/-!
# Rotations and runs

`rotate_passphrase` looks at the run state and at its lock without an await in
between, and `start_run` in `run.py` looks at the lock before it creates the
task of `Supervisor.start_run`. The task itself does not look at the lock, so a
rotation that takes the lock after the task was created and before it runs is
overtaken by it (`start_task_overtakes_rotation`).

`rotation_excludes_runs` says that this is the only way: in every run in which a
rotation takes the lock only while no `start_run` is pending, the run state is
OFFLINE and no worker is spawned while the lock is held.
-/

namespace RestreamPlus

open Interleaving WorkerIndex

namespace Supervisor

/-- The section reads a credential for a spawn, or is in one. -/
def Section.readsCredential : Section → Bool
  | .listing _ | .loading _ _ _ _ | .workerStarting _ _ _ _ _ | .reloading _ _
  | .reloadingCredential _ _ _ => true
  | _ => false

/-- Nothing but a `start_run` leaves OFFLINE. -/
theorem runState_enter {s : Supervisor} {op : Op} (h : s.runState = .offline)
    (hop : op ≠ .startRun) : (s.enter op).1.runState = .offline := by
  cases op with
  | startRun => exact absurd rfl hop
  | stopRun reason =>
    rw [enter, stopRun, if_pos (.inl h)]
    exact h
  | enableTarget id =>
    rw [enter, enableTarget]
    split <;> exact h
  | disableTarget id reversed =>
    rw [enter, disableTarget, fst_stopNext]
    exact h

/-- In OFFLINE an operation that is suspended reads no credential, and stays OFFLINE. -/
theorem runState_continueFrom {base : Finset Text} {s : Supervisor} {sec : Section}
    (h : InRun base s sec) (hoff : s.runState = .offline) (out : Outcome) :
    sec.readsCredential = false ∧ (s.continueFrom sec out).1.runState = .offline := by
  have hlocal := h.at_section
  cases sec with
  | opening | committingRun run | listing kek | loading kek t todo pairs | auditingFailures pairs =>
    cases hoff.symm.trans hlocal
  | workerStarting caller r key w roles =>
    cases caller with
    | startRun rest => cases hoff.symm.trans hlocal.2.2
    | enableTarget => exact absurd hoff (active_ne_offline hlocal.2.2.2)
  | auditingStart => rcases hlocal with h | h <;> cases hoff.symm.trans h
  | rollingBack ws => exact absurd hoff (active_ne_offline hlocal.1)
  | closingFailed run | draining ws reason | wiping ids reason | auditingWipe rest reason
  | closing run reason => cases hoff.symm.trans hlocal.1
  | auditingStop => exact ⟨rfl, hoff⟩
  | reloading kek id | reloadingCredential kek id row =>
    exact absurd hoff (active_ne_offline hlocal.2)
  | stoppingWorker id w rest =>
    refine ⟨rfl, ?_⟩
    rw [continueFrom, fst_stopNext]
    exact hoff

end Supervisor

namespace Api

open Supervisor

/-- The requests that start and stop runs and rotate the passphrase. -/
def Endpoint.RunOrRotation : Endpoint → Prop
  | .startRun | .stopRun | .rotatePassphrase .. => True
  | _ => False

instance : DecidablePred Endpoint.RunOrRotation := fun e => by
  cases e <;> unfold Endpoint.RunOrRotation <;> infer_instance

/-- The operation is a `start_run` that has not begun. -/
def pendingStart : Interleaving.Phase Op Section → Bool
  | .called .startRun | .queued .startRun => true
  | _ => false

namespace Backend

/-- The next step of request `i` takes the rotation lock. -/
def takesLock (c : Backend) (i : ℕ) : Bool :=
  match c.requests[i]? with
  | some ⟨.sync m _, none⟩ => match m c.view with | .takeRotationLock => true | _ => false
  | _ => false

/-- Some `start_run` is pending. -/
def startPending (c : Backend) : Bool := c.supervisor.tasks.any pendingStart

/-- A rotation takes its lock only while no `start_run` is pending. Other
requests than these three are left out. -/
def NoStartPending (c : Backend) : Label → Prop
  | .arrive e => e.RunOrRotation
  | .go i _ => c.takesLock i = true → c.startPending = false
  | .supervise _ => True

instance (c : Backend) : DecidablePred (NoStartPending c)
  | .arrive e => inferInstanceAs (Decidable e.RunOrRotation)
  | .go i _ => inferInstanceAs (Decidable (c.takesLock i = true → c.startPending = false))
  | .supervise _ => inferInstanceAs (Decidable True)

/-- The next step of request `i` commits re-wrapped rows or swaps the keys. -/
def Rekeys (c : Backend) (i : ℕ) : Prop :=
  match c.requests[i]? with
  | some ⟨.commit (.rewrap _) _, none⟩ => True
  | some ⟨.sync m _, none⟩ => ∃ salt keys, m c.view = .rotateInPlace salt keys
  | _ => False

end Backend

/-- A rotation and a run exclude each other. -/
structure Excludes (c : Backend) : Prop where
  offline : c.rotationLock.isSome → c.runState = .offline
  unread : c.rotationLock.isSome → ∀ (t : ℕ) sec, c.supervisor.tasks[t]? = some (.inside sec) →
    sec.readsCredential = false
  rekeys : ∀ i, c.Rekeys i → c.runState = .offline

/-- No operation of the supervisor is awaited. -/
abbrev NoCalls : Bool → Op → Prop := fun _ _ => False

theorem Endpoint.RunOrRotation.keeps {e : Endpoint} (h : e.RunOrRotation) : e.Keeps NoCalls := by
  intro issued keys
  cases e with
  | startRun => exact obeys_startRun
  | stopRun => exact obeys_stopRun
  | rotatePassphrase => exact obeys_rotatePassphrase _
  | createTarget | updateTarget | deleteTarget | setCredential | clearCredential => exact h.elim

/-- What holds between the steps. -/
structure Separated (base : Finset Text) (c : Backend) : Prop where
  disciplined : Disciplined NoCalls c
  sound : Monitor.Sound (Between base) (InRun base) c.supervisor
  /-- nothing but runs is asked for -/
  runs : ∀ t op, c.supervisor.Pending t op → op = .startRun ∨ ∃ reason, op = .stopRun reason
  locked : c.rotationLock.isSome → c.runState = .offline ∧ ∀ t, ¬ c.supervisor.Pending t .startRun

section Step

variable {base : Finset Text} {c c' : Backend} {i : ℕ}

theorem rotates_iff : (c.held i).rotates = true ↔ c.rotationLock = some i := decide_eq_true_iff

theorem Separated.excludes (h : Separated base c) : Excludes c := by
  refine ⟨fun hl => (h.locked hl).1, fun hl t sec ht => ?_, fun i hi => ?_⟩
  · exact (runState_continueFrom (h.sound.owning ht).2.1 (h.locked hl).1 .ok).1
  · -- who re-keys holds the lock
    suffices hmine : c.rotationLock = some i by
      refine (h.locked ?_).1
      rw [hmine]
      rfl
    rw [Backend.Rekeys] at hi
    split at hi
    · rename_i hreq
      exact rotates_iff.mp (h.disciplined.obeys i _ hreq).1
    · rename_i m k hreq
      obtain ⟨salt, keys, hm⟩ := hi
      have hmove := (h.disciplined.obeys i _ hreq c.view).1
      rw [hm] at hmove
      exact rotates_iff.mp hmove
    · exact hi.elim

/-- A change made outside the supervisor's lock is one of its external steps. -/
theorem sound_react (h : Monitor.Sound (Between base) (InRun base) c.supervisor) (e : Env) :
    Monitor.Sound (Between base) (InRun base) (c.react e).supervisor :=
  kept_inRun.rule.sound_step (a := .external e) h trivial rfl

/-- Request `i` went on without touching the supervisor or the rotation lock. -/
theorem Separated.quiet (h : Separated base c) (hd : Disciplined NoCalls c')
    (hs : c'.supervisor = c.supervisor) (hl : c'.rotationLock = c.rotationLock) :
    Separated base c' := by
  refine ⟨hd, ?_, ?_, ?_⟩
  · rw [hs]
    exact h.sound
  · rw [hs]
    exact h.runs
  · rw [Backend.runState, hs, hl]
    exact h.locked

/-- A task that is scheduled is pending. -/
theorem pending_schedule {op op' : Op} {t : ℕ}
    (h : (Monitor.Config.mk c.supervisor.shared c.supervisor.owner c.supervisor.queue
      (c.supervisor.tasks ++ [.called op])).Pending t op') :
    c.supervisor.Pending t op' ∨ op' = op := by
  rcases Nat.lt_or_ge t c.supervisor.tasks.length with hlt | hge
  · rw [Monitor.Config.Pending, List.getElem?_append_left hlt] at h
    exact .inl h
  · right
    rw [Monitor.Config.Pending, List.getElem?_append_right hge] at h
    rcases hn : t - c.supervisor.tasks.length with _ | n <;> rw [hn] at h <;> simp at h
    exact h.symm

theorem startPending_iff : c.startPending = false ↔ ∀ t, ¬ c.supervisor.Pending t .startRun := by
  rw [Backend.startPending, List.any_eq_false]
  constructor
  · intro h t ht
    rcases ht with ht | ht
    · exact h _ (List.mem_of_getElem? ht) rfl
    · exact h _ (List.mem_of_getElem? ht) rfl
  · intro h p hp hstart
    obtain ⟨t, ht⟩ := List.mem_iff_getElem?.mp hp
    refine h t ?_
    rw [pendingStart.eq_def] at hstart
    split at hstart
    · exact .inl ht
    · exact .inr ht
    · cases hstart

/-- **A stretch without await** of request `i`. -/
theorem separated_perform (h : Separated base c) {m : Move} {k : Handler}
    (hd : Disciplined NoCalls ((c.perform i m).goOn i k))
    (hm : (discipline NoCalls).move (c.held i) c.view m k)
    (hg : m = .takeRotationLock → c.startPending = false) :
    Separated base ((c.perform i m).goOn i k) := by
  cases m with
  | nothing => exact h.quiet hd rfl rfl
  | schedule op =>
    obtain ⟨-, hop⟩ := hm
    refine ⟨hd, h.sound.call op, fun t op' ht => ?_, fun hl => ⟨(h.locked hl).1, fun t ht => ?_⟩⟩
    · rcases pending_schedule ht with ht | rfl
      · exact h.runs t op' ht
      · exact hop.imp And.left id
    · rcases pending_schedule ht with ht | heq
      · exact (h.locked hl).2 t ht
      · -- `start_run` is scheduled while the lock is free only
        rcases hop with ⟨-, hfree⟩ | ⟨reason, hstop⟩
        · have hl' : c.rotationLock.isSome = true := hl
          have hfree' : c.rotationLock.isSome = false := hfree
          rw [hl'] at hfree'
          cases hfree'
        · cases heq.trans hstop
  | takeRotationLock =>
    exact ⟨hd, h.sound, h.runs, fun _ => ⟨hm.2.2.1, startPending_iff.mp (hg rfl)⟩⟩
  | releaseRotationLock =>
    exact ⟨hd, h.sound, h.runs, fun hl => Bool.noConfusion hl⟩
  | rotateInPlace salt keys =>
    exact ⟨hd, sound_react h.sound (.setKeys (some keys)), h.runs, fun hl => Bool.noConfusion hl⟩

/-- **A request goes on.** -/
theorem separated_go (h : Separated base c) {answer : Bool} (hd : Disciplined NoCalls c')
    (hg : c.takesLock i = true → c.startPending = false) (hs : c.go i answer = some c') :
    Separated base c' := by
  rw [Backend.go] at hs
  split at hs
  · cases hs
  · rename_i code hreq
    have hobeys := h.disciplined.obeys i _ hreq
    cases code with
    | done => cases hs
    | check k =>
      obtain rfl := Option.some.inj hs
      exact h.quiet hd rfl rfl
    | select k =>
      obtain rfl := Option.some.inj hs
      exact h.quiet hd rfl rfl
    | write s k =>
      rw [Backend.advance] at hs
      split at hs <;> split at hs
      · obtain rfl := Option.some.inj hs
        exact h.quiet hd rfl rfl
      · cases hs
      · cases hs
      · obtain rfl := Option.some.inj hs
        exact h.quiet hd rfl rfl
    | commit change k =>
      obtain rfl := Option.some.inj hs
      have hsup : (((c.react (.commit (change.apply c.db))).close i).goOn i k).supervisor =
          (c.react (.commit (change.apply c.db))).supervisor := supervisor_close _ i
      have hlock : (((c.react (.commit (change.apply c.db))).close i).goOn i k).rotationLock =
          c.rotationLock := rotationLock_close _ i
      refine ⟨hd, ?_, ?_, ?_⟩
      · rw [hsup]
        exact sound_react h.sound _
      · rw [hsup]
        exact h.runs
      · rw [Backend.runState, hsup, hlock]
        exact h.locked
    | rollback k =>
      obtain rfl := Option.some.inj hs
      exact h.quiet hd (supervisor_close c i) (rotationLock_close c i)
    | sync m k =>
      obtain rfl := Option.some.inj hs
      refine separated_perform h hd (hobeys c.view).1 fun hm => hg ?_
      rw [Backend.takesLock, hreq]
      dsimp only
      rw [hm]
    | await op k => exact hobeys.1.2.elim
  · split at hs
    · obtain rfl := Option.some.inj hs
      exact h.quiet hd rfl rfl
    · cases hs

/-- Only runs are let in, so every step of the supervisor is covered. -/
theorem Separated.covered (h : Separated base c) (l : Supervisor.Label) :
    Monitor.guard (Admitted fun st => st.isActive = true) (fun _ _ _ => True) c.supervisor l := by
  cases l with
  | call op | start j | external e => trivial
  | resume j out =>
    rw [Monitor.guard]
    split <;> trivial
  | grant =>
    rw [Monitor.guard]
    split
    · trivial
    · split
      · rename_i t _ _ _ op ht
        rcases h.runs t op (.inr ht) with rfl | ⟨reason, rfl⟩ <;> trivial
      · trivial

/-- **A step of the supervisor**: while the lock is held, what was pending is no
`start_run`, and what is inside reads no credential. -/
theorem separated_supervise (h : Separated base c) {l : Supervisor.Label}
    (hs : c.supervise l = some c') : Separated base c' := by
  have hd := disciplined_supervise h.disciplined hs
  obtain ⟨⟨s, hstep, w, rfl, -⟩, -, -, hcall⟩ := supervise_spec hs
  refine ⟨hd, kept_inRun.rule.sound_step h.sound (h.covered l) hstep,
    fun t op ht => h.runs t op (Monitor.pending_of_step hstep hcall ht), fun hl => ?_⟩
  obtain ⟨hoff, hnone⟩ := h.locked hl
  refine ⟨?_, fun t ht => hnone t (Monitor.pending_of_step hstep hcall ht)⟩
  show s.shared.runState = .offline
  rcases Monitor.shared_of_step hstep with heq | ⟨t, op, ht, heq⟩ | ⟨t, sec, out, r, -, ht, hr, heq⟩ |
    ⟨e, -, he⟩
  · rw [heq]
    exact hoff
  · rw [heq]
    refine runState_enter hoff ?_
    rintro rfl
    exact hnone t ht
  · obtain rfl := Option.some.inj hr
    rw [heq]
    exact (runState_continueFrom (h.sound.owning ht).2.1 hoff out).2
  · obtain heq := Option.some.inj he
    rw [← heq]
    exact runState_react hoff (by decide) (by decide)

/-- **Every step** keeps rotations and runs apart. -/
theorem separated_step (h : Separated base c) {l : Backend.Label}
    (hg : Backend.NoStartPending c l) (hs : Backend.machine.step c l = some c') :
    Separated base c' := by
  have hs' : c.step l = some c' := hs
  cases l with
  | arrive e =>
    have hd := disciplined_step (l := .arrive e) h.disciplined (Endpoint.RunOrRotation.keeps hg) hs
    obtain rfl := Option.some.inj hs'
    exact h.quiet hd rfl rfl
  | go i answer =>
    exact separated_go h (disciplined_step (l := .go i answer) h.disciplined trivial hs) hg hs'
  | supervise l => exact separated_supervise h hs'

end Step

theorem separated_boot (url : Text) (registry : CredentialRegistry) (keys : DerivedKeys)
    (kdfSalt : Bytes) (db : Database) :
    Separated registry.snapshot (Backend.boot url registry keys kdfSalt db) where
  disciplined := disciplined_boot url registry keys kdfSalt db
  sound := Monitor.sound_idle
    (free_init (fun _ => True) (fun _ => True) (fun _ _ => trivial) (fun _ _ => trivial) _ _ _ _)
  runs t op ht := by rcases ht with ht | ht <;> cases ht
  locked hl := by cases hl

/-- **Rotations and runs exclude each other**, in every run in which a rotation
takes its lock only while no `start_run` is pending. -/
theorem rotation_excludes_runs (url : Text) (registry : CredentialRegistry) (keys : DerivedKeys)
    (kdfSalt : Bytes) (db : Database) (labels : List Backend.Label)
    (h : Backend.machine.Meets Backend.NoStartPending
      (Backend.boot url registry keys kdfSalt db) labels) :
    Backend.machine.Always Excludes (Backend.boot url registry keys kdfSalt db) labels :=
  Machine.always_of_inv (I := Separated registry.snapshot)
    (fun _ _ _ hi hg hs => separated_step hi hg hs) (fun _ hi => hi.excludes)
    (separated_boot url registry keys kdfSalt db) h

/-! ## A run that overtakes a rotation -/

section Overtaking

/-- Request `i` gets through its next steps. -/
def goes (i n : ℕ) : List Backend.Label := List.replicate n (.go i true)

/-- The supervisor's task `i` gets through its next awaits. -/
def resumes (i n : ℕ) : List Backend.Label := List.replicate n (.supervise (.resume i .ok))

/-- A process without targets. -/
def overtakingBoot : Backend :=
  Backend.boot "rtmp://127.0.0.1/live/k".toList .empty
    (deriveKeys ['a'] [1]) [1] Database.empty

/-- START, and STOP up to its last audit row, in which the state is OFFLINE already. -/
def startAndStop : List Backend.Label :=
  .arrive .startRun :: goes 0 5 ++ .supervise (.start 0) :: resumes 0 4 ++
    .arrive .stopRun :: goes 1 5 ++ .supervise (.start 1) :: resumes 1 1

/-- A rotation from `a` to `b`. -/
def rotation : Endpoint := .rotatePassphrase ['a'] ['b'] [2] (fun _ => [3]) fun _ => [4]

/-- START again, whose task queues behind the STOP; a rotation takes its lock
and verifies the passphrase; the STOP ends, and the task is let in. -/
def overtaking : List Backend.Label :=
  .arrive .startRun :: goes 2 5 ++ .supervise (.start 2) :: .arrive rotation :: goes 3 7 ++
    resumes 1 1 ++ [.supervise .grant]

/-- **A `start_run` that was queued begins while a rotation holds its lock.** -/
theorem start_task_overtakes_rotation :
    ∃ c, Backend.machine.run overtakingBoot (startAndStop ++ overtaking) = some c ∧
      c.rotationLock = some 3 ∧ c.runState = .starting ∧ ¬ Excludes c := by
  refine ⟨_, rfl, rfl, rfl, fun h => ?_⟩
  -- the run is STARTING
  cases h.offline rfl

/-- The same rotation, before the second START. -/
theorem rotation_excludes_runs_first :
    Backend.machine.Always Excludes overtakingBoot
      (startAndStop ++ resumes 1 1 ++ .arrive rotation :: goes 2 7 ++ .arrive .startRun :: goes 3 3 ++
        [.go 3 true]) :=
  rotation_excludes_runs _ _ _ _ _ _ (by decide +kernel)

end Overtaking

end Api

end RestreamPlus
