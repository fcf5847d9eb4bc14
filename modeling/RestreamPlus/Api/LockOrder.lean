import RestreamPlus.Api.Discipline
import RestreamPlus.Lib.WaitingLine

/-!
# The write lock and the supervisor's lock

`start_run` and `stop_run` write to the database inside the supervisor's lock.
Nearly every handler commits before it calls the supervisor
(`Endpoint.keeps_commitFirst`); `delete_target` calls `disable_target` with the
write lock that its authentication took. Behind a `stop_run` it waits for the
supervisor while the `stop_run` waits for the database (`delete_behind_stop`),
until the write of `stop_run` fails.

`no_lock_cycle` says that nothing else closes the circle: it does not happen in
a run in which a request that calls the supervisor with the write lock in its
hands finds no `start_run` or `stop_run` inside the lock or in its queue.
-/

namespace RestreamPlus

open Interleaving Monitor

namespace Supervisor

/-- The operations that only start and stop workers of a target. -/
def Op.isTargetControl : Op → Prop
  | .enableTarget _ | .disableTarget _ _ => True
  | _ => False

instance : DecidablePred Op.isTargetControl
  | .enableTarget _ | .disableTarget _ _ => inferInstanceAs (Decidable True)
  | .startRun | .stopRun _ => inferInstanceAs (Decidable False)

/-- Their suspension points. -/
def Section.isTargetControl : Section → Prop
  | .reloading _ _ | .reloadingCredential _ _ _ | .workerStarting .enableTarget _ _ _ _
  | .stoppingWorker _ _ _ => True
  | _ => False

instance : DecidablePred Section.isTargetControl := fun sec => by
  unfold Section.isTargetControl
  split <;> infer_instance

/-- They write nothing. -/
theorem Section.isTargetControl.reads {sec : Section} (h : sec.isTargetControl) :
    sec.needsWrite = false := by
  cases sec <;> first | rfl | exact h.elim

theorem isTargetControl_stopNext (s : Supervisor) (id : TargetId) (ws : List WorkerId)
    {sec : Section} (h : (s.stopNext id ws).2 = some sec) : sec.isTargetControl := by
  induction ws with
  | nil => cases h
  | cons w rest ih =>
    rw [stopNext] at h
    split at h
    · obtain rfl := Option.some.inj h
      trivial
    · exact ih h

/-- The spawn loop on behalf of `enable_target`. -/
theorem isTargetControl_afterSpawn (r : Runnable) (key : Text) (p : Supervisor × SpawnEnd)
    {sec : Section} (h : (afterSpawn .enableTarget r key p).2 = some sec) :
    sec.isTargetControl := by
  obtain ⟨s, _ | _ | ⟨w, roles⟩⟩ := p
  · cases h
  · cases h
  · obtain rfl := Option.some.inj h
    trivial

/-- **`enable_target` and `disable_target` stay among themselves.** -/
theorem within_targetControl : monitor.Within Op.isTargetControl Section.isTargetControl where
  enter s op sec hop h := by
    cases op with
    | startRun => exact hop.elim
    | stopRun reason => exact hop.elim
    | enableTarget id =>
      change (s.enableTarget id).2 = some sec at h
      rw [enableTarget] at h
      split at h
      · cases h
      · obtain rfl := Option.some.inj h
        trivial
    | disableTarget id reversed => exact isTargetControl_stopNext s id _ h
  resume s sec out r sec' hsec hr h := by
    obtain rfl := Option.some.inj hr
    cases sec with
    | reloading kek id =>
      cases out with
      | ok =>
        rw [continueFrom] at h
        split at h
        · cases h
        · obtain rfl := Option.some.inj h
          trivial
      | raised => cases h
    | reloadingCredential kek id row =>
      cases out with
      | ok =>
        rw [continueFrom, enableReloaded] at h
        split at h
        · exact isTargetControl_afterSpawn _ _ _ h
        · cases h
      | raised => cases h
    | workerStarting caller r key w roles =>
      cases caller with
      | startRun rest => exact hsec.elim
      | enableTarget =>
        rw [continueFrom, workerStarted] at h
        split at h
        · exact isTargetControl_afterSpawn _ _ _ h
        · cases h
    | stoppingWorker id w rest => exact isTargetControl_stopNext _ id rest h
    | _ => exact hsec.elim

end Supervisor

namespace Api

open Supervisor

/-- A request holds the write lock and waits for the supervisor's lock, whose
owner waits for the write lock. -/
def LockCycle (c : Backend) : Prop :=
  ∃ (i : ℕ) (code : Handler) (t : ℕ) (op : Op) (j : ℕ) (sec : Section),
    c.requests[i]? = some ⟨code, some t⟩ ∧ c.writer = some (.request i) ∧
      c.supervisor.tasks[t]? = some (.queued op) ∧
        c.supervisor.tasks[j]? = some (.inside sec) ∧ sec.needsWrite = true

/-- Neither a run nor the end of one is inside the supervisor's lock or waits for it. -/
def noRunControl (c : Backend) : Bool :=
  c.supervisor.tasks.all fun
    | .inside sec => decide sec.isTargetControl
    | .queued op => decide op.isTargetControl
    | .called _ | .finished => true

/-- A request that calls the supervisor with the write lock in its hands finds no
`start_run` or `stop_run` there. -/
def CallsFreely (c : Backend) : Backend.Label → Prop
  | .go i _ =>
    match c.requests[i]? with
    | some ⟨.await _ _, none⟩ => c.writer = some (.request i) → noRunControl c = true
    | _ => True
  | _ => True

instance (c : Backend) (l : Backend.Label) : Decidable (CallsFreely c l) := by
  induction l using Backend.Label.casesOn with
  | go i answer =>
    unfold CallsFreely
    dsimp only
    generalize c.requests[i]? = r
    induction r using Option.casesOn with
    | none => infer_instance
    | some r =>
      induction r using InFlight.casesOn with
      | mk code task =>
        induction code using Interleaving.Code.casesOn <;> induction task using Option.casesOn <;>
          infer_instance
  | _ => unfold CallsFreely; infer_instance

/-- What holds between the steps. -/
structure InOrder (c : Backend) : Prop where
  lined : Lined c.supervisor
  /-- the operation that a request awaits was started when it was called -/
  awaited : ∀ (i : ℕ) code t, c.requests[i]? = some ⟨code, some t⟩ →
    ∃ p, c.supervisor.tasks[t]? = some p ∧ ∀ op, p ≠ .called op
  ahead : ∀ (i : ℕ) code t op, c.requests[i]? = some ⟨code, some t⟩ →
    c.writer = some (.request i) → c.supervisor.tasks[t]? = some (.queued op) →
      Ahead Op.isTargetControl Section.isTargetControl c.supervisor t

theorem InOrder.no_cycle {c : Backend} (h : InOrder c) : ¬ LockCycle c := by
  rintro ⟨i, code, t, op, j, sec, hreq, hw, ht, hj, hneeds⟩
  have hreads := ((h.ahead i code t op hreq hw ht).owner j sec hj).reads
  rw [hneeds] at hreads
  cases hreads

section Step

variable {c c' : Backend} {i : ℕ}

theorem noRunControl_iff : noRunControl c = true ↔
    (∀ (j : ℕ) sec, c.supervisor.tasks[j]? = some (.inside sec) → sec.isTargetControl) ∧
      ∀ (j : ℕ) op, c.supervisor.tasks[j]? = some (.queued op) → op.isTargetControl := by
  rw [noRunControl, List.all_eq_true]
  constructor
  · intro h
    exact ⟨fun j sec hj => of_decide_eq_true (h _ (List.mem_of_getElem? hj)),
      fun j op hj => of_decide_eq_true (h _ (List.mem_of_getElem? hj))⟩
  · rintro ⟨hin, hq⟩ p hp
    obtain ⟨j, hj⟩ := List.mem_iff_getElem?.mp hp
    cases p with
    | called op => rfl
    | queued op => exact decide_eq_true (hq j op hj)
    | inside sec => exact decide_eq_true (hin j sec hj)
    | finished => rfl

/-- The requests that still await something did so before, and the supervisor
made a step. -/
theorem InOrder.step (h : InOrder c) {l : Supervisor.Label}
    (hs : monitor.step c.supervisor l = some c'.supervisor)
    (hreq : ∀ (j : ℕ) code t, c'.requests[j]? = some ⟨code, some t⟩ →
      c.requests[j]? = some ⟨code, some t⟩)
    (hw : ∀ (j : ℕ) code t, c'.requests[j]? = some ⟨code, some t⟩ →
      c'.writer = some (.request j) → c.writer = some (.request j)) : InOrder c' where
  lined := lined_step h.lined hs
  awaited j code t ht := by
    obtain ⟨p, hp, hcalled⟩ := h.awaited j code t (hreq j code t ht)
    obtain ⟨p', hp', hcalled', -⟩ := queued_of_step hs hp hcalled
    exact ⟨p', hp', hcalled'⟩
  ahead j code t op ht hwr hq := by
    obtain ⟨p, hp, hcalled⟩ := h.awaited j code t (hreq j code t ht)
    obtain ⟨p', hp', -, hqueued⟩ := queued_of_step hs hp hcalled
    obtain rfl := Option.some.inj (hp'.symm.trans hq)
    obtain rfl := hqueued op rfl
    exact ahead_of_step within_targetControl h.lined
      (h.ahead j code t op (hreq j code t ht) (hw j code t ht hwr) hp) hs hp hq

/-- The same where the supervisor did not move. -/
theorem InOrder.still (h : InOrder c) (hs : c'.supervisor = c.supervisor)
    (hreq : ∀ (j : ℕ) code t, c'.requests[j]? = some ⟨code, some t⟩ →
      c.requests[j]? = some ⟨code, some t⟩)
    (hw : ∀ (j : ℕ) code t, c'.requests[j]? = some ⟨code, some t⟩ →
      c'.writer = some (.request j) → c.writer = some (.request j)) : InOrder c' where
  lined := hs ▸ h.lined
  awaited j code t ht := hs ▸ h.awaited j code t (hreq j code t ht)
  ahead j code t op ht hwr hq := by
    rw [hs] at hq ⊢
    exact h.ahead j code t op (hreq j code t ht) (hw j code t ht hwr) hq

/-- A request that goes on awaits nothing, the others are as they were. -/
theorem awaiting_set {code : Handler} {j : ℕ} {code' : Handler} {t : ℕ}
    (h : (c.requests.set i ⟨code, none⟩)[j]? = some ⟨code', some t⟩) :
    j ≠ i ∧ c.requests[j]? = some ⟨code', some t⟩ := by
  by_cases hij : i = j
  · subst hij
    rw [List.getElem?_set, if_pos rfl] at h
    split at h <;> cases h
  · rw [List.getElem?_set_ne hij] at h
    exact ⟨Ne.symm hij, h⟩

/-- Request `i` goes on. -/
theorem InOrder.goOn (h : InOrder c) {code : Handler} (hs : c'.supervisor = c.supervisor)
    (hreq : c'.requests = c.requests.set i ⟨code, none⟩)
    (hw : ∀ j, j ≠ i → c'.writer = some (.request j) → c.writer = some (.request j)) :
    InOrder c' := by
  refine h.still hs (fun j code' t ht => ?_) fun j code' t ht => ?_
  · rw [hreq] at ht
    exact (awaiting_set ht).2
  · rw [hreq] at ht
    exact hw j (awaiting_set ht).1

/-- The phase of a task that was started. -/
theorem tasks_start {s : Monitor.Config Supervisor Op Section} {t : ℕ} (op : Op)
    (ht : t < s.tasks.length) :
    ∃ p, (monitor.start s t op).tasks[t]? = some p ∧ (∀ op', p ≠ .called op') ∧
      ∀ op', p = .queued op' →
        monitor.start s t op = { s with queue := s.queue ++ [t], tasks := s.tasks.set t (.queued op) } := by
  rw [start]
  split
  · split
    · obtain ⟨p, hp, hne⟩ := tasks_begin (M := monitor) s t op
      refine ⟨p, ?_, fun op' => (hne op').1, fun op' h => absurd h (hne op').2⟩
      rw [hp]
      exact List.getElem?_set_self ht
    · exact ⟨.queued op, List.getElem?_set_self ht, by rintro _ ⟨⟩, fun _ _ => rfl⟩
  · exact ⟨.finished, List.getElem?_set_self ht, by rintro _ ⟨⟩, by rintro _ ⟨⟩⟩

/-- **A call of the supervisor**: the operation lines up behind what is there. -/
theorem inOrder_call (h : InOrder c) (hi : i < c.requests.length) {op : Op} {k : Handler}
    (hg : c.writer = some (.request i) → noRunControl c = true) : InOrder (c.call i op k) := by
  -- first the task is created, and request `i` awaits nothing yet
  have hcreate : InOrder { c with
      supervisor := { c.supervisor with tasks := c.supervisor.tasks ++ [.called op] }
      requests := c.requests.set i ⟨k, none⟩ } := by
    refine h.step (l := .call op) rfl (fun j code t ht => (awaiting_set ht).2) ?_
    exact fun _ _ _ _ hw => hw
  have hnew : (c.supervisor.tasks ++ [Phase.called op])[c.supervisor.tasks.length]? =
      some (.called op) := List.getElem?_concat_length
  have hstart : monitor.step { c.supervisor with tasks := c.supervisor.tasks ++ [.called op] }
      (.start c.supervisor.tasks.length) = some (c.call i op k).supervisor := by
    simp only [Monitor.step, hnew]
    rfl
  have hstarted : InOrder { c with
      supervisor := (c.call i op k).supervisor
      requests := c.requests.set i ⟨k, none⟩ } :=
    hcreate.step hstart (fun _ _ _ ht => ht) fun _ _ _ _ hw => hw
  obtain ⟨p, hp, hcalled, hqueued⟩ := tasks_start op
    (s := { c.supervisor with tasks := c.supervisor.tasks ++ [.called op] })
    (List.getElem?_eq_some_iff.mp hnew).1
  -- the others await what they awaited
  have hother : ∀ {j : ℕ} {code : Handler} {t : ℕ}, j ≠ i →
      (c.call i op k).requests[j]? = some ⟨code, some t⟩ →
      (c.requests.set i ⟨k, none⟩)[j]? = some ⟨code, some t⟩ := by
    intro j code t hj ht
    have ht' : (c.requests.set i ⟨k, some c.supervisor.tasks.length⟩)[j]? = some ⟨code, some t⟩ := ht
    rw [List.getElem?_set_ne (Ne.symm hj)] at ht' ⊢
    exact ht'
  have hmine : ∀ {code : Handler} {t : ℕ}, (c.call i op k).requests[i]? = some ⟨code, some t⟩ →
      t = c.supervisor.tasks.length := by
    intro code t ht
    have ht' : (c.requests.set i ⟨k, some c.supervisor.tasks.length⟩)[i]? = some ⟨code, some t⟩ := ht
    rw [List.getElem?_set_self hi] at ht'
    injection Option.some.inj ht' with _ ht'
    exact (Option.some.inj ht').symm
  refine ⟨hstarted.lined, fun j code t ht => ?_, fun j code t op' ht hw hq => ?_⟩
  · by_cases hj : j = i
    · subst hj
      obtain rfl := hmine ht
      exact ⟨p, hp, hcalled⟩
    · exact hstarted.awaited j code t (hother hj ht)
  · by_cases hj : j = i
    · subst hj
      obtain rfl := hmine ht
      obtain rfl := Option.some.inj (hp.symm.trans hq)
      obtain ⟨hin, hwait⟩ := noRunControl_iff.mp (hg hw)
      have heq : (c.call j op k).supervisor = _ := hqueued op' rfl
      rw [heq]
      -- the new task is neither inside nor waiting yet
      exact ahead_enqueue hcreate.lined
        (fun u sec hu => hin u sec (get?_of_append_called hu fun h => by cases h))
        (fun u op₁ hu => hwait u op₁ (get?_of_append_called hu fun h => by cases h)) hnew
    · exact hstarted.ahead j code t op' (hother hj ht) hw hq

/-- **A request goes on.** -/
theorem inOrder_go (h : InOrder c) {answer : Bool} (hg : CallsFreely c (.go i answer))
    (hs : c.go i answer = some c') : InOrder c' := by
  rw [Backend.go] at hs
  split at hs
  · cases hs
  · rename_i code hreq
    cases code with
    | done => cases hs
    | check k =>
      obtain rfl := Option.some.inj hs
      exact h.goOn rfl rfl fun _ _ hw => hw
    | select k =>
      obtain rfl := Option.some.inj hs
      exact h.goOn rfl rfl fun _ _ hw => hw
    | write s k =>
      rw [Backend.advance] at hs
      split at hs <;> split at hs
      · obtain rfl := Option.some.inj hs
        refine h.goOn rfl rfl fun j hj hw => ?_
        injection Option.some.inj hw with hw
        exact absurd hw.symm hj
      · cases hs
      · cases hs
      · obtain rfl := Option.some.inj hs
        exact h.goOn rfl rfl fun _ _ hw => hw
    | commit change k =>
      obtain rfl := Option.some.inj hs
      have hreact : InOrder (c.react (.commit (change.apply c.db))) :=
        h.step (l := .external (.commit (change.apply c.db))) rfl (fun _ _ _ ht => ht)
          fun _ _ _ _ hw => hw
      refine hreact.goOn (supervisor_close _ i) (congrArg (fun l => l.set i (InFlight.mk k none))
        (requests_close _ i)) fun j hj hw => ?_
      exact (writer_close _ i j hj).mp hw
    | rollback k =>
      obtain rfl := Option.some.inj hs
      refine h.goOn (supervisor_close c i) (congrArg (fun l => l.set i (InFlight.mk k none))
        (requests_close c i)) fun j hj hw => ?_
      exact (writer_close c i j hj).mp hw
    | sync m k =>
      obtain rfl := Option.some.inj hs
      cases m c.view with
      | nothing | takeRotationLock | releaseRotationLock =>
        exact h.goOn rfl rfl fun _ _ hw => hw
      | schedule op =>
        refine h.step (l := .call op) rfl (fun j code t ht => (awaiting_set ht).2) ?_
        exact fun _ _ _ _ hw => hw
      | rotateInPlace salt keys =>
        refine h.step (l := .external (.setKeys (some keys))) rfl
          (fun j code t ht => (awaiting_set ht).2) ?_
        exact fun _ _ _ _ hw => hw
    | await op k =>
      obtain rfl := Option.some.inj hs
      refine inOrder_call h (List.getElem?_eq_some_iff.mp hreq).1 fun hw => ?_
      rw [CallsFreely, hreq] at hg
      exact hg hw
  · split at hs
    · obtain rfl := Option.some.inj hs
      exact h.goOn rfl rfl fun _ _ hw => hw
    · cases hs

/-- **Every step** keeps the locks in order. -/
theorem inOrder_step (h : InOrder c) {l : Backend.Label} (hg : CallsFreely c l)
    (hs : Backend.machine.step c l = some c') : InOrder c' := by
  have hs' : c.step l = some c' := hs
  cases l with
  | arrive e =>
    obtain rfl := Option.some.inj hs'
    refine h.still rfl (fun j code t ht => ?_) fun _ _ _ _ hw => hw
    -- the new request awaits nothing
    rcases Nat.lt_or_ge j c.requests.length with hlt | hge
    · rwa [List.getElem?_append_left hlt] at ht
    · rw [List.getElem?_append_right hge] at ht
      rcases hn : j - c.requests.length with _ | n <;> rw [hn] at ht <;> cases ht
  | go i answer => exact inOrder_go h hg hs'
  | supervise l =>
    obtain ⟨⟨s, hstep, w, rfl, hw⟩, -⟩ := supervise_spec hs'
    exact h.step hstep (fun _ _ _ ht => ht) fun j _ _ _ => (hw j).mp

end Step

/-- **No lock-order cycle**, in every run in which a request that calls the
supervisor with the write lock in its hands finds no `start_run` or `stop_run`
inside its lock or waiting for it. -/
theorem no_lock_cycle (url : Text) (registry : CredentialRegistry) (keys : DerivedKeys)
    (kdfSalt : Bytes) (db : Database) (labels : List Backend.Label)
    (h : Backend.machine.Meets CallsFreely (Backend.boot url registry keys kdfSalt db) labels) :
    Backend.machine.Always (fun c => ¬ LockCycle c)
      (Backend.boot url registry keys kdfSalt db) labels := by
  refine Machine.always_of_inv (I := InOrder) (fun _ _ _ hi hg hs => inOrder_step hi hg hs)
    (fun _ hi => hi.no_cycle) ⟨lined_idle _, ?_, ?_⟩ h
  · intro i code t ht
    cases ht
  · intro i code t op ht
    cases ht

/-! ## Which handlers commit first -/

/-- The supervisor is called without the write lock. -/
abbrev CommitFirst : Bool → Op → Prop := fun writes _ => writes = false

/-- **Every handler but `delete_target` commits before it calls the supervisor.** -/
theorem Endpoint.keeps_commitFirst (e : Endpoint) (he : ∀ id reversed, e ≠ .deleteTarget id reversed) :
    e.Keeps CommitFirst := by
  intro issued keys
  cases e with
  | createTarget id body => exact obeys_createTarget (fun _ => rfl) id body
  | updateTarget id body reversed =>
    exact obeys_updateTarget (fun _ => rfl) (fun _ _ => rfl) id body reversed
  | deleteTarget id reversed => exact absurd rfl (he id reversed)
  | setCredential id body => exact obeys_setCredential (fun _ => rfl) id body keys
  | clearCredential id reversed => exact obeys_clearCredential (fun _ _ => rfl) id reversed
  | startRun => exact obeys_startRun
  | stopRun => exact obeys_stopRun
  | rotatePassphrase => exact obeys_rotatePassphrase _

/-! ## A cycle -/

section Cycle

/-- One target, which is not enabled. -/
def cycleBoot : Backend :=
  Backend.boot "rtmp://127.0.0.1/live/k".toList .empty
    (deriveKeys ['a'] [1]) [1]
    ⟨Dict.empty.insert 7 ⟨.twitch, ['t'], "rtmp://live.twitch.tv/app".toList, false, ∅⟩, ∅, ∅, 0⟩

/-- START, and STOP up to the closing of the run row. -/
def untilClosing : List Backend.Label :=
  .arrive .startRun :: List.replicate 5 (.go 0 true) ++ .supervise (.start 0) ::
    List.replicate 4 (.supervise (.resume 0 .ok)) ++ .arrive .stopRun ::
      List.replicate 5 (.go 1 true) ++ [.supervise (.start 1)]

/-- **`delete_target` waits for `stop_run`, which waits for the database.** -/
theorem delete_behind_stop :
    ∃ c, Backend.machine.run cycleBoot
      (untilClosing ++ .arrive (.deleteTarget 7 false) :: List.replicate 6 (.go 2 true)) = some c ∧
        LockCycle c :=
  ⟨_, rfl, 2, _, 2, _, 1, _, rfl, rfl, rfl, rfl, rfl⟩

/-- A moment later, when the run is over, the target can be deleted. -/
theorem no_lock_cycle_after_stop :
    Backend.machine.Always (fun c => ¬ LockCycle c) cycleBoot
      (untilClosing ++ List.replicate 2 (.supervise (.resume 1 .ok)) ++
        .arrive (.deleteTarget 7 false) :: List.replicate 8 (.go 2 true)) :=
  no_lock_cycle _ _ _ _ _ _ (by decide +kernel)

end Cycle

end Api

end RestreamPlus
