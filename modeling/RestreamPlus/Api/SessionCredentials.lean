import RestreamPlus.Api.Handlers
import RestreamPlus.Fanout.RunExclusion
import RestreamPlus.Fanout.SupervisorFrame

/-!
# Credentials that end with their run

A credential of a per-session target (VK) may be used in one run only. `stop_run`
wipes these credentials before it closes the row of the run, both as well as it
can; `start_run`'s error path and the recovery after a crash close the row and
wipe nothing.

Here a `Ledger` is kept beside the supervisor: for which targets a worker was
started during a run, which runs were wiped, and which runs had ended when the
credential of a target was stored. `credentials_die` says that a run whose row
is closed leaves no per-session credential behind, provided that a row is closed
only after the wipe of its run, or the run has no per-session target, and that no
such credential is stored between the wipe and the close.

Target identifiers are random and a target keeps its type, so an identifier has
one type for ever: the parameter `typeOf`.
-/

namespace RestreamPlus

open Interleaving

namespace SessionCredentials

open Supervisor (Op Section Env Caller Runnable SpawnEnd)

/-- What the runs leave on record. -/
structure Ledger : Type where
  /-- during this run `worker.start()` was called for this target -/
  started : List (RunId × TargetId)
  /-- the wipe of the run was committed -/
  wiped : List RunId
  /-- the runs that had ended when the credential of the target was stored -/
  storedAfter : TargetId → List RunId

/-- The supervisor and the record. -/
structure Tracked : Type where
  supervisor : Supervisor
  ledger : Ledger

namespace Ledger

/-- Before the first run. -/
def empty : Ledger := ⟨[], [], fun _ => []⟩

/-- A stretch of an operation ended here: at a `worker.start()`, perhaps. -/
def noteStart (g : Ledger) (s : Supervisor) : Option Section → Ledger
  | some (.workerStarting _ _ _ w _) =>
    match s.currentRunId with
    | none => g
    | some run => { g with started := (run, w.targetId) :: g.started }
  | _ => g

/-- The awaited call is over: the transaction of a wipe, perhaps. -/
def noteWipe (g : Ledger) (s : Supervisor) : Section → Supervisor.Outcome → Ledger
  | .wiping _ _, .ok =>
    match s.currentRunId with
    | none => g
    | some run => { g with wiped := run :: g.wiped }
  | _, _ => g

end Ledger

/-- What happens without the lock. -/
inductive Event : Type where
  /-- code of the supervisor -/
  | react (e : Env)
  /-- the transactions of the handlers -/
  | createTarget (id : TargetId) (body : TargetRow)
  | updateTarget (id : TargetId) (body : Database.TargetPatch)
  | deleteTarget (id : TargetId)
  | setCredential (id : TargetId) (kek : Key) (body : Api.CredentialSetRequest)
  | clearCredential (id : TargetId)
  /-- … and of a passphrase rotation -/
  | rewrap (rows : List CredentialRow)

section Machine

variable (typeOf : TargetId → TargetType)

/-- Store a transaction of a handler. -/
def Tracked.commit (p : Tracked) (db : Database) : Tracked :=
  { p with supervisor := { p.supervisor with db := db } }

/-- `set_credential`: the lifetime is the one of the target's type. -/
def Tracked.setCredential (p : Tracked) (id : TargetId) (kek : Key)
    (body : Api.CredentialSetRequest) (target : TargetRow) : Tracked where
  supervisor := { p.supervisor with
    db := p.supervisor.db.upsertCredential id (Api.credentialRow kek target.type body) }
  ledger := { p.ledger with
    storedAfter := Function.update p.ledger.storedAfter id p.supervisor.db.endedRuns }

/-- One event. A new identifier has its type. -/
def Event.apply (p : Tracked) : Event → Option Tracked
  | .react (.commit _) => none
  | .react e => some { p with supervisor := p.supervisor.react e }
  | .createTarget id body =>
    if (p.supervisor.db.getById id).isNone ∧ body.type = typeOf id then
      some (p.commit (p.supervisor.db.createTarget id body))
    else none
  | .updateTarget id body => some (p.commit (p.supervisor.db.updateTarget id body))
  | .deleteTarget id => some (p.commit (p.supervisor.db.deleteTarget id))
  | .setCredential id kek body => (p.supervisor.db.getById id).map (p.setCredential id kek body)
  | .clearCredential id => some (p.commit (p.supervisor.db.deleteForTarget id))
  | .rewrap rows => some (p.commit
      { p.supervisor.db with
        credentials := p.supervisor.db.credentials.mapValues (Api.rewrapRow rows) })

/-- A stretch of the supervisor, noted. -/
def Tracked.note (g : Ledger) (r : Supervisor × Option Section) : Tracked × Option Section :=
  (⟨r.1, g.noteStart r.1 r.2⟩, r.2)

/-- The supervisor with the ledger beside it. -/
def monitor : Monitor Tracked Op Section Supervisor.Outcome Event where
  precheck p op := p.supervisor.admits op
  enter p op := Tracked.note p.ledger (p.supervisor.enter op)
  resume p sec out := some (Tracked.note (p.ledger.noteWipe p.supervisor sec out)
    (p.supervisor.continueFrom sec out))
  external p e := e.apply typeOf p

/-- The supervisor in the middle of a history of runs. -/
abbrev Config : Type := Monitor.Config Tracked Op Section

/-- A process starts on this database. -/
def boot (url : Text) (registry : CredentialRegistry) (keys : Option DerivedKeys) (db : Database)
    (g : Ledger) : Config :=
  Monitor.idle ⟨Supervisor.init url registry keys db.recoverInterruptedSessions, g⟩

/-- What happens next: a step, or a crash and the next boot. -/
inductive Label : Type where
  | run (l : Monitor.Label Op Supervisor.Outcome Event)
  | reboot (url : Text) (registry : CredentialRegistry) (keys : Option DerivedKeys)

def step (c : Config) : Label → Option Config
  | .run l => (monitor typeOf).step c l
  | .reboot url registry keys => some (boot url registry keys c.shared.supervisor.db c.shared.ledger)

/-- Histories of runs. -/
def machine : Machine Config Label := ⟨step typeOf⟩

end Machine

/-- The first boot, on an empty database. -/
def firstBoot (url : Text) (registry : CredentialRegistry) (keys : Option DerivedKeys) : Config :=
  boot url registry keys Database.empty Ledger.empty

/-- **Per-session credentials die with their run**: a credential of a target that
was started in an ended run was stored after that run had ended. -/
def CredentialsDie (p : Tracked) : Prop :=
  ∀ run, p.supervisor.db.Ended run → ∀ id, (run, id) ∈ p.ledger.started →
    ∀ row, p.supervisor.db.getForTarget id = some row → row.lifetime = .perSession →
      run ∈ p.ledger.storedAfter id

/-! ## The steps that are considered -/

section Guard

variable (typeOf : TargetId → TargetType)

/-- The row of this run may be closed: the run was wiped, or no target whose
credentials end with it was started. -/
def MayClose (g : Ledger) (run : RunId) : Prop :=
  run ∈ g.wiped ∨ ∀ e ∈ g.started, e.1 = run → lifetimeFor (typeOf e.2) ≠ .perSession

instance (g : Ledger) (run : RunId) : Decidable (MayClose typeOf g run) :=
  inferInstanceAs (Decidable (_ ∨ _))

/-- The row of a run is closed as it may be. -/
def ClosesWiped (p : Tracked) : Section → Supervisor.Outcome → Prop
  | .closing run _, .ok => MayClose typeOf p.ledger run
  | .closingFailed run, .ok => MayClose typeOf p.ledger run
  | _, _ => True

instance (p : Tracked) (sec : Section) (out : Supervisor.Outcome) : Decidable (ClosesWiped typeOf p sec out) := by
  unfold ClosesWiped
  split <;> infer_instance

/-- No per-session credential is stored for a target of a run that was wiped and
is not closed. -/
def StoresNoneWiped (p : Tracked) : Event → Prop
  | .setCredential id _ _ => lifetimeFor (typeOf id) = .perSession →
      ∀ run ∈ p.ledger.wiped, p.supervisor.db.history.get? run = some none →
        (run, id) ∉ p.ledger.started
  | _ => True

instance (p : Tracked) (e : Event) : Decidable (StoresNoneWiped typeOf p e) := by
  unfold StoresNoneWiped
  split <;> infer_instance

/-- The steps of a history that are considered. -/
def Orderly (c : Config) : Label → Prop
  | .run (.external e) => StoresNoneWiped typeOf c.shared e
  | .run l => Monitor.guard (fun _ _ => True) (ClosesWiped typeOf) c l
  | .reboot _ _ _ => ∀ run ∈ c.shared.supervisor.db.openRuns, MayClose typeOf c.shared.ledger run

instance (c : Config) (l : Label) : Decidable (Orderly typeOf c l) := by
  unfold Orderly
  split <;> infer_instance

end Guard

/-! ## The invariant -/

section Invariant

variable (typeOf : TargetId → TargetType)

/-- Rows have the type of their identifier, credentials its lifetime. -/
structure Typed (db : Database) : Prop where
  targets : ∀ id row, db.targets.get? id = some row → row.type = typeOf id
  credentials : ∀ id row, db.credentials.get? id = some row → row.lifetime = lifetimeFor (typeOf id)

/-- No target started in this run has a per-session credential. -/
def Clean (p : Tracked) (run : RunId) : Prop :=
  ∀ id, (run, id) ∈ p.ledger.started → ∀ row,
    p.supervisor.db.credentials.get? id = some row → row.lifetime ≠ .perSession

/-- What holds at every suspension. -/
structure Recorded (p : Tracked) : Prop where
  typed : Typed typeOf p.supervisor.db
  die : CredentialsDie p
  clean : ∀ run ∈ p.ledger.wiped, p.supervisor.db.history.get? run = some none → Clean p run
  known_started : ∀ run id, (run, id) ∈ p.ledger.started →
    p.supervisor.db.history.get? run ≠ none
  known_wiped : ∀ run ∈ p.ledger.wiped, p.supervisor.db.history.get? run ≠ none
  aggregates : ∀ id dom, p.supervisor.targets.get? id = some dom →
    dom.id = id ∧ dom.type = typeOf id
  tracked : ∀ run, p.supervisor.currentRunId = some run → run ∉ p.ledger.wiped →
    ∀ id, (run, id) ∈ p.ledger.started → (p.supervisor.targets.get? id).isSome

/-- The row of the current run is open and the run is not wiped. -/
def Running (p : Tracked) : Prop :=
  ∀ run, p.supervisor.currentRunId = some run →
    p.supervisor.db.history.get? run = some none ∧ run ∉ p.ledger.wiped

/-- Nothing was started in the current run. -/
def Unstarted (p : Tracked) : Prop :=
  ∀ run, p.supervisor.currentRunId = some run → ∀ id, (run, id) ∉ p.ledger.started

/-- The supervisor tracks the target. -/
def HasTarget (s : Supervisor) (r : Runnable) : Prop := (s.targets.get? r.dom.id).isSome

/-- What a section may rely on besides. -/
def Local (p : Tracked) : Section → Prop
  | .opening | .rollingBack _ | .auditingWipe _ _ => True
  | .committingRun run => p.supervisor.currentRunId = some run ∧
      p.supervisor.db.history.get? run = none
  | .listing _ => Running p ∧ Unstarted p
  | .loading _ t todo pairs => Running p ∧ Unstarted p ∧
      (∀ e ∈ t :: todo, e.2.type = typeOf e.1) ∧ ∀ r ∈ pairs, r.dom.type = typeOf r.dom.id
  | .auditingFailures pairs => Running p ∧ Unstarted p ∧ ∀ r ∈ pairs, r.dom.type = typeOf r.dom.id
  | .workerStarting caller r _ _ _ => Running p ∧ HasTarget p.supervisor r ∧
      ∀ rest, caller = .startRun rest → ∀ r' ∈ rest, HasTarget p.supervisor r'
  | .closingFailed _ | .closing _ _ => p.supervisor.currentRunId = none
  | .wiping ids _ => Running p ∧ ids = p.supervisor.perSessionTargets
  | .reloadingCredential _ id row => Running p ∧ row.type = typeOf id
  | .auditingStart | .draining _ _ | .auditingStop | .reloading _ _ | .stoppingWorker _ _ _ =>
    Running p

/-- Between two operations. -/
def Free (p : Tracked) : Prop := Recorded typeOf p ∧ Running p

/-- At a suspension of the operation that holds the lock. -/
def Held (p : Tracked) (sec : Section) : Prop := Recorded typeOf p ∧ Local typeOf p sec

/-- Shorthand for the premise of the monitor rule. -/
abbrev Fine (g : Ledger) (r : Supervisor × Option Section) : Prop :=
  Monitor.Settled (Free typeOf) (Held typeOf) (Tracked.note g r)

variable {typeOf}

theorem running_of_none {p : Tracked} (h : p.supervisor.currentRunId = none) : Running p := by
  intro run hrun
  rw [h] at hrun
  cases hrun

/-- Attributes that are none of the recorded ones may change, and the current run
may be forgotten. -/
theorem Recorded.of_eq {s s' : Supervisor} {g : Ledger} (h : Recorded typeOf ⟨s, g⟩)
    (hdb : s'.db = s.db) (htargets : s'.targets = s.targets)
    (hrun : s'.currentRunId = s.currentRunId ∨ s'.currentRunId = none) :
    Recorded typeOf ⟨s', g⟩ := by
  refine ⟨?_, ?_, ?_, ?_, ?_, ?_, ?_⟩
  · exact hdb ▸ h.typed
  · simpa only [CredentialsDie, hdb] using h.die
  · simpa only [Clean, hdb] using h.clean
  · simpa only [hdb] using h.known_started
  · simpa only [hdb] using h.known_wiped
  · simpa only [htargets] using h.aggregates
  · intro run hcur
    dsimp only at hcur ⊢
    rcases hrun with heq | hnone
    · rw [htargets]
      exact h.tracked run (heq ▸ hcur)
    · rw [hnone] at hcur
      cases hcur

/-- A transaction that leaves the history alone, keeps the types, and stores no
new credential. -/
theorem Recorded.commit {p : Tracked} (h : Recorded typeOf p) (db : Database)
    (hhistory : db.history = p.supervisor.db.history)
    (htargets : ∀ id row, db.targets.get? id = some row → row.type = typeOf id)
    (hcredentials : ∀ id row, db.credentials.get? id = some row →
      ∃ old, p.supervisor.db.credentials.get? id = some old ∧ row.lifetime = old.lifetime) :
    Recorded typeOf (p.commit db) := by
  refine ⟨⟨htargets, ?_⟩, ?_, ?_, ?_, ?_, h.aggregates, h.tracked⟩
  · intro id row hrow
    obtain ⟨old, hold, hlife⟩ := hcredentials id row hrow
    exact hlife.trans (h.typed.credentials id old hold)
  · intro run hended id hstarted row hrow hlife
    obtain ⟨old, hold, heq⟩ := hcredentials id row hrow
    refine h.die run ?_ id hstarted old hold (heq ▸ hlife)
    simpa only [Database.Ended, Tracked.commit, hhistory] using hended
  · intro run hwiped hopen id hstarted row hrow
    obtain ⟨old, hold, heq⟩ := hcredentials id row hrow
    rw [heq]
    refine h.clean run hwiped ?_ id hstarted old hold
    simpa only [Tracked.commit, hhistory] using hopen
  · simpa only [Tracked.commit, hhistory] using h.known_started
  · simpa only [Tracked.commit, hhistory] using h.known_wiped

/-- The row of a run is closed. -/
theorem Recorded.endRun {p : Tracked} {run : RunId} {reason : EndReason} (h : Recorded typeOf p)
    (hclose : MayClose typeOf p.ledger run) :
    Recorded typeOf (p.commit (p.supervisor.db.endRun run reason)) := by
  obtain ⟨htargets, hcredentials⟩ := p.supervisor.db.tables_endRun run reason
  have hhistory := fun run' => p.supervisor.db.history_endRun run run' reason
  have hopen : ∀ run', (p.supervisor.db.endRun run reason).history.get? run' = some none →
      p.supervisor.db.history.get? run' = some none := by
    intro run' h'
    rw [hhistory] at h'
    split at h'
    · obtain ⟨_, -, habs⟩ := Option.map_eq_some_iff.mp h'
      cases habs
    · exact h'
  have hknown : ∀ run', p.supervisor.db.history.get? run' ≠ none →
      (p.supervisor.db.endRun run reason).history.get? run' ≠ none := by
    intro run' h'
    rw [hhistory]
    split
    · rename_i heq
      subst heq
      simpa using h'
    · exact h'
  -- the run leaves nothing behind
  have hclean : p.supervisor.db.history.get? run = some none → Clean p run := by
    intro hnone
    rcases hclose with hwiped | htypes
    · exact h.clean run hwiped hnone
    · intro id hstarted row hrow hlife
      refine htypes _ hstarted rfl ?_
      rw [← h.typed.credentials id row hrow]
      exact hlife
  refine ⟨⟨?_, ?_⟩, ?_, ?_, ?_, ?_, h.aggregates, h.tracked⟩
  · simpa only [Tracked.commit, htargets] using h.typed.targets
  · simpa only [Tracked.commit, hcredentials] using h.typed.credentials
  · intro run' hended id hstarted row hrow hlife
    have hrow' : p.supervisor.db.credentials.get? id = some row := by
      simpa only [Tracked.commit, Database.getForTarget, hcredentials] using hrow
    obtain ⟨reason', hr⟩ := hended
    rcases hold : p.supervisor.db.history.get? run' with _ | _ | reason₀
    · exact absurd hold (h.known_started run' id hstarted)
    · -- it is the run that is being closed
      have heq : run' = run := by
        by_contra hne
        rw [Tracked.commit, hhistory, if_neg hne, hold] at hr
        cases hr
      subst heq
      exact absurd hlife (hclean hold id hstarted row hrow')
    · exact h.die run' ⟨reason₀, hold⟩ id hstarted row hrow' hlife
  · intro run' hwiped hnone id hstarted row hrow
    refine h.clean run' hwiped (hopen run' hnone) id hstarted row ?_
    simpa only [Tracked.commit, hcredentials] using hrow
  · exact fun run' id hstarted => hknown run' (h.known_started run' id hstarted)
  · exact fun run' hwiped => hknown run' (h.known_wiped run' hwiped)

theorem setRunState_getD_frame (s : Supervisor) (a : RunAction) :
    ((s.setRunState a).getD s).db = s.db ∧ ((s.setRunState a).getD s).targets = s.targets ∧
      ((s.setRunState a).getD s).currentRunId = s.currentRunId := by
  obtain ⟨st, heq⟩ := Supervisor.setRunState_getD_eq s a
  rw [heq]
  exact ⟨rfl, rfl, rfl⟩

/-! ### The error path -/

theorem fine_afterRollBack {s : Supervisor} {g : Ledger} (h : Recorded typeOf ⟨s, g⟩) :
    Fine typeOf g s.afterRollBack := by
  have hf := setRunState_getD_frame s .unrecoverableFailed
  rw [Supervisor.afterRollBack, Supervisor.closeRunSession]
  generalize (s.setRunState .unrecoverableFailed).getD s = s' at hf
  have h' : Recorded typeOf ⟨{ s' with currentRunId := none }, g⟩ :=
    h.of_eq hf.1 hf.2.1 (.inr rfl)
  rcases s'.currentRunId with _ | run
  · exact ⟨h', running_of_none rfl⟩
  · exact ⟨h', rfl⟩

theorem fine_rollBack {s : Supervisor} {g : Ledger} (h : Recorded typeOf ⟨s, g⟩) :
    Fine typeOf g s.rollBack := by
  rw [Supervisor.rollBack]
  split
  · exact fine_afterRollBack h
  · exact ⟨h, trivial⟩

/-! ### `start_run` -/

theorem fine_finishStart {s : Supervisor} {g : Ledger} (h : Recorded typeOf ⟨s, g⟩)
    (hr : Running ⟨s, g⟩) : Fine typeOf g s.finishStart := by
  rw [Supervisor.finishStart]
  rcases hs : s.setRunState .workersSpawned with _ | s'
  · exact fine_rollBack h
  · obtain ⟨st, -, rfl⟩ := Supervisor.setRunState_eq_some hs
    exact ⟨h.of_eq rfl rfl (.inl rfl), hr⟩

/-- A worker is started for a target of the current run. -/
theorem Recorded.start {s : Supervisor} {g : Ledger} (h : Recorded typeOf ⟨s, g⟩)
    (hr : Running ⟨s, g⟩) {caller : Caller} {r : Runnable} {key : Text} {w : WorkerId}
    {roles : List WorkerRole} (hid : w.targetId = r.dom.id) (hhas : HasTarget s r)
    (hrest : ∀ rest, caller = .startRun rest → ∀ r' ∈ rest, HasTarget s r') :
    Fine typeOf g (s, some (.workerStarting caller r key w roles)) := by
  rcases hcur : s.currentRunId with _ | run
  · -- outside a run: nothing to note
    have hnote : g.noteStart s (some (.workerStarting caller r key w roles)) = g := by
      rw [Ledger.noteStart, hcur]
    rw [Fine, Tracked.note, hnote]
    exact ⟨h, hr, hhas, hrest⟩
  · obtain ⟨hopen, hwiped⟩ := hr run hcur
    have hnote : g.noteStart s (some (.workerStarting caller r key w roles)) =
        { g with started := (run, w.targetId) :: g.started } := by
      rw [Ledger.noteStart, hcur]
    rw [Fine, Tracked.note, hnote]
    refine ⟨⟨h.typed, ?_, ?_, ?_, h.known_wiped, h.aggregates, ?_⟩, ?_, hhas, hrest⟩
    · intro run' hended id hstarted
      rcases List.mem_cons.mp hstarted with heq | hold
      · -- the current run has not ended
        obtain ⟨rfl, -⟩ := Prod.mk.inj heq
        obtain ⟨reason, hreason⟩ := hended
        rw [hopen] at hreason
        cases hreason
      · exact h.die run' hended id hold
    · intro run' hw hnone id hstarted
      rcases List.mem_cons.mp hstarted with heq | hold
      · obtain ⟨rfl, -⟩ := Prod.mk.inj heq
        exact absurd hw hwiped
      · exact h.clean run' hw hnone id hold
    · intro run' id hstarted
      rcases List.mem_cons.mp hstarted with heq | hold
      · obtain ⟨rfl, -⟩ := Prod.mk.inj heq
        rw [hopen]
        nofun
      · exact h.known_started run' id hold
    · intro run' hcur' hw id hstarted
      rcases List.mem_cons.mp hstarted with heq | hold
      · obtain ⟨-, rfl⟩ := Prod.mk.inj heq
        rw [hid]
        exact hhas
      · exact h.tracked run' hcur' hw id hold
    · exact hr

theorem fine_spawnPairs {s : Supervisor} {g : Ledger} (pairs : List Runnable)
    (h : Recorded typeOf ⟨s, g⟩) (hr : Running ⟨s, g⟩) (hpairs : ∀ r ∈ pairs, HasTarget s r) :
    Fine typeOf g (s.spawnPairs pairs) := by
  induction pairs generalizing s with
  | nil => exact fine_finishStart h hr
  | cons r rest ih =>
    have hrest : ∀ r' ∈ rest, HasTarget s r' := fun r' hr' => hpairs r' (List.mem_cons_of_mem r hr')
    rw [Supervisor.spawnPairs]
    split
    · rename_i key _ _
      obtain ⟨x, e, heq, -, hnew⟩ := s.spawnRoles_grows r key (rolesFor r.dom)
      have hx : Recorded typeOf ⟨{ s with toWorkerIndex := x }, g⟩ := h.of_eq rfl rfl (.inl rfl)
      rw [heq]
      cases e with
      | returned => exact ih hx hr hrest
      | raised => exact fine_rollBack hx
      | starting w roles =>
        refine hx.start hr ((hnew w roles rfl).1) (hpairs r List.mem_cons_self) ?_
        rintro rest' hcaller
        cases hcaller
        exact hrest
    · exact ih h hr hrest

/-- What follows the spawn loop of a target. -/
theorem fine_afterSpawn {s : Supervisor} {g : Ledger} (caller : Caller) (r : Runnable) (key : Text)
    (roles : List WorkerRole) (h : Recorded typeOf ⟨s, g⟩) (hr : Running ⟨s, g⟩)
    (hhas : HasTarget s r) (hrest : ∀ rest, caller = .startRun rest → ∀ r' ∈ rest, HasTarget s r') :
    Fine typeOf g (Supervisor.afterSpawn caller r key (s.spawnRoles r key roles)) := by
  obtain ⟨x, e, heq, -, hnew⟩ := s.spawnRoles_grows r key roles
  have hx : Recorded typeOf ⟨{ s with toWorkerIndex := x }, g⟩ := h.of_eq rfl rfl (.inl rfl)
  rw [heq]
  cases e with
  | returned =>
    cases caller with
    | startRun rest => exact fine_spawnPairs rest hx hr (hrest rest rfl)
    | enableTarget => exact ⟨hx, hr⟩
  | raised =>
    cases caller with
    | startRun rest => exact fine_rollBack hx
    | enableTarget => exact ⟨hx, hr⟩
  | starting w roles' => exact hx.start hr ((hnew w roles' rfl).1) hhas hrest

theorem fine_beginSpawning {s : Supervisor} {g : Ledger} (pairs : List Runnable)
    (h : Recorded typeOf ⟨s, g⟩) (hr : Running ⟨s, g⟩) (hun : Unstarted ⟨s, g⟩)
    (hpairs : ∀ r ∈ pairs, r.dom.type = typeOf r.dom.id) :
    Fine typeOf g (s.beginSpawning pairs) := by
  rw [Supervisor.beginSpawning]
  refine fine_spawnPairs pairs ?_ hr ?_
  · refine ⟨h.typed, h.die, h.clean, h.known_started, h.known_wiped, ?_, ?_⟩
    · intro id dom hdom
      obtain ⟨r, hmem, heq⟩ := List.mem_map.mp (Dict.mem_of_get?_ofList hdom)
      obtain ⟨rfl, rfl⟩ := Prod.mk.inj heq
      exact ⟨rfl, hpairs r hmem⟩
    · intro run hcur _ id hstarted
      exact absurd hstarted (hun run hcur id)
  · intro r hmem
    apply Dict.isSome_get?_ofList
    rw [List.map_map]
    exact List.mem_map.mpr ⟨r, hmem, rfl⟩

theorem fine_flushFailures {s : Supervisor} {g : Ledger} (pairs : List Runnable)
    (h : Recorded typeOf ⟨s, g⟩) (hr : Running ⟨s, g⟩) (hun : Unstarted ⟨s, g⟩)
    (hpairs : ∀ r ∈ pairs, r.dom.type = typeOf r.dom.id) :
    Fine typeOf g (s.flushFailures pairs) := by
  rw [Supervisor.flushFailures]
  split
  · exact fine_beginSpawning pairs h hr hun hpairs
  · exact ⟨h.of_eq rfl rfl (.inl rfl), hr, hun, hpairs⟩

theorem fine_loadNext {s : Supervisor} {g : Ledger} (kek : Key) (todo : List (TargetId × TargetRow))
    (pairs : List Runnable) (h : Recorded typeOf ⟨s, g⟩) (hr : Running ⟨s, g⟩)
    (hun : Unstarted ⟨s, g⟩) (htodo : ∀ e ∈ todo, e.2.type = typeOf e.1)
    (hpairs : ∀ r ∈ pairs, r.dom.type = typeOf r.dom.id) :
    Fine typeOf g (s.loadNext kek todo pairs) := by
  cases todo with
  | nil => exact fine_flushFailures pairs h hr hun hpairs
  | cons t todo => exact ⟨h, hr, hun, htodo, hpairs⟩

/-- The row of a run is inserted. -/
theorem fine_opened {s : Supervisor} {g : Ledger} {run : RunId} (h : Recorded typeOf ⟨s, g⟩)
    (hcur : s.currentRunId = some run) (hnew : s.db.history.get? run = none) :
    Fine typeOf g { s with db := s.db.startRun run }.loadRunnableTargets := by
  have hwiped : ∀ run' ∈ g.wiped, run' ≠ run := by
    rintro run' hw rfl
    exact h.known_wiped run' hw hnew
  have hstarted : ∀ run' id, (run', id) ∈ g.started → run' ≠ run := by
    rintro run' id hs rfl
    exact h.known_started run' id hs hnew
  have hother : ∀ run', run' ≠ run →
      (s.db.startRun run).history.get? run' = s.db.history.get? run' :=
    fun run' hne => Dict.get?_insert_ne _ _ hne
  have hself : (s.db.startRun run).history.get? run = some none := Dict.get?_insert_self _ _ _
  have h' : Recorded typeOf ⟨{ s with db := s.db.startRun run }, g⟩ := by
    refine ⟨⟨h.typed.targets, h.typed.credentials⟩, ?_, ?_, ?_, ?_, h.aggregates, h.tracked⟩
    · rintro run' ⟨reason, hreason⟩ id hs
      exact h.die run' ⟨reason, (hother run' (hstarted run' id hs)).symm.trans hreason⟩ id hs
    · intro run' hw hnone
      exact h.clean run' hw ((hother run' (hwiped run' hw)).symm.trans hnone)
    · intro run' id hs
      dsimp only
      rw [hother run' (hstarted run' id hs)]
      exact h.known_started run' id hs
    · intro run' hw
      dsimp only
      rw [hother run' (hwiped run' hw)]
      exact h.known_wiped run' hw
  rw [Supervisor.loadRunnableTargets]
  split
  · exact fine_rollBack h'
  · refine ⟨h', ?_, ?_⟩
    · intro run' hcur'
      obtain rfl := Option.some.inj (hcur.symm.trans hcur')
      exact ⟨hself, fun hw => hwiped _ hw rfl⟩
    · intro run' hcur' id hs
      obtain rfl := Option.some.inj (hcur.symm.trans hcur')
      exact hstarted _ id hs rfl

/-! ### `stop_run` -/

theorem fine_afterClose {s : Supervisor} {g : Ledger} (h : Recorded typeOf ⟨s, g⟩)
    (hr : Running ⟨s, g⟩) : Fine typeOf g s.afterClose := by
  obtain ⟨hdb, htargets, hcur⟩ := setRunState_getD_frame s .workersDrained
  rw [Supervisor.afterClose]
  refine ⟨h.of_eq hdb htargets (.inl hcur), ?_⟩
  intro run hrun
  dsimp only at hrun ⊢
  rw [hdb]
  exact hr run (hcur ▸ hrun)

theorem fine_afterWipe {s : Supervisor} {g : Ledger} (reason : EndReason)
    (h : Recorded typeOf ⟨s, g⟩) : Fine typeOf g (s.afterWipe reason) := by
  have h' : Recorded typeOf ⟨{ s with currentRunId := none }, g⟩ := h.of_eq rfl rfl (.inr rfl)
  rw [Supervisor.afterWipe, Supervisor.closeRunSession]
  rcases s.currentRunId with _ | run
  · exact fine_afterClose h' (running_of_none rfl)
  · exact ⟨h', rfl⟩

theorem fine_auditWipe {s : Supervisor} {g : Ledger} (cleared : List TargetId) (reason : EndReason)
    (h : Recorded typeOf ⟨s, g⟩) : Fine typeOf g (s.auditWipe cleared reason) := by
  cases cleared with
  | nil => exact fine_afterWipe reason h
  | cons id rest => exact ⟨h, trivial⟩

theorem fine_afterDrain {s : Supervisor} {g : Ledger} (reason : EndReason)
    (h : Recorded typeOf ⟨s, g⟩) (hr : Running ⟨s, g⟩) : Fine typeOf g (s.afterDrain reason) := by
  rw [Supervisor.afterDrain]
  split
  · exact fine_afterWipe reason h
  · exact ⟨h, hr, rfl⟩

/-- Every target that was started and whose credentials end with the run is
among those that are wiped. -/
theorem mem_perSessionTargets {p : Tracked} (h : Recorded typeOf p) {run : RunId}
    (hcur : p.supervisor.currentRunId = some run) (hw : run ∉ p.ledger.wiped) {id : TargetId}
    (hstarted : (run, id) ∈ p.ledger.started) (htype : lifetimeFor (typeOf id) = .perSession) :
    id ∈ p.supervisor.perSessionTargets := by
  obtain ⟨dom, hdom⟩ := Option.isSome_iff_exists.mp (h.tracked run hcur hw id hstarted)
  obtain ⟨hid, htype'⟩ := h.aggregates id dom hdom
  rw [Supervisor.perSessionTargets, List.mem_map]
  refine ⟨dom, List.mem_filter.mpr ⟨Dict.mem_values.mpr ⟨id, hdom⟩, ?_⟩, hid⟩
  rw [decide_eq_true_eq, htype']
  exact htype

/-- The wipe is committed. -/
theorem Recorded.wipe {s : Supervisor} {g : Ledger} (h : Recorded typeOf ⟨s, g⟩)
    (hr : Running ⟨s, g⟩) (reason : EndReason) :
    Recorded typeOf ⟨{ s with db := s.perSessionTargets.foldl Database.deleteForTarget s.db },
      g.noteWipe s (.wiping s.perSessionTargets reason) .ok⟩ := by
  obtain ⟨htargets, hhistory⟩ := s.db.tables_deleteAll s.perSessionTargets
  have hsub : ∀ id row,
      (s.perSessionTargets.foldl Database.deleteForTarget s.db).credentials.get? id = some row →
        id ∉ s.perSessionTargets ∧ s.db.credentials.get? id = some row := by
    intro id row hrow
    rw [Database.credentials_deleteAll] at hrow
    split at hrow
    · cases hrow
    · rename_i hno
      exact ⟨hno, hrow⟩
  have h' := h.commit (s.perSessionTargets.foldl Database.deleteForTarget s.db) hhistory
    (by rw [htargets]; exact h.typed.targets)
    fun id row hrow => ⟨row, (hsub id row hrow).2, rfl⟩
  obtain hcur | ⟨run, hcur⟩ := Option.eq_none_or_eq_some s.currentRunId
  · have hnote : g.noteWipe s (.wiping s.perSessionTargets reason) .ok = g := by
      rw [Ledger.noteWipe, hcur]
    rw [hnote]
    exact h'
  · obtain ⟨hopen, hnot⟩ := hr run hcur
    have hnote : g.noteWipe s (.wiping s.perSessionTargets reason) .ok =
        { g with wiped := run :: g.wiped } := by
      rw [Ledger.noteWipe, hcur]
    rw [hnote]
    refine ⟨h'.typed, h'.die, ?_, h'.known_started, ?_, h'.aggregates, ?_⟩
    · intro run' hw hnone id hstarted row hrow
      rcases List.mem_cons.mp hw with rfl | hold
      · -- the run that was wiped just now
        intro hlife
        obtain ⟨hno, hrow'⟩ := hsub id row hrow
        refine hno (mem_perSessionTargets h hcur hnot hstarted ?_)
        rw [← h.typed.credentials id row hrow']
        exact hlife
      · exact h'.clean run' hold hnone id hstarted row hrow
    · intro run' hw
      rcases List.mem_cons.mp hw with rfl | hold
      · dsimp only
        rw [hhistory, hopen]
        exact Option.some_ne_none _
      · exact h'.known_wiped run' hold
    · intro run' hcur' hw
      exact h'.tracked run' hcur' fun hold => hw (List.mem_cons_of_mem run hold)

/-! ### `enable_target` and `disable_target` -/

theorem fine_enableReloaded {s : Supervisor} {g : Ledger} (kek : Key) (id : TargetId)
    (row : TargetRow) (h : Recorded typeOf ⟨s, g⟩) (hr : Running ⟨s, g⟩)
    (htype : row.type = typeOf id) : Fine typeOf g (s.enableReloaded kek id row) := by
  have h' : Recorded typeOf ⟨{ s with
      targets := s.targets.insert id (Supervisor.readTarget s.db kek (id, row)).dom
      targetToWorkers := Supervisor.setDefault s.targetToWorkers id }, g⟩ := by
    refine ⟨h.typed, h.die, h.clean, h.known_started, h.known_wiped, ?_, ?_⟩
    · intro id' dom hdom
      rw [Dict.get?_insert] at hdom
      split at hdom
      · rename_i heq
        obtain rfl := Option.some.inj hdom
        exact ⟨heq.symm, heq ▸ htype⟩
      · exact h.aggregates id' dom hdom
    · intro run hcur hw id' hstarted
      dsimp only
      rw [Dict.get?_insert]
      split
      · rfl
      · exact h.tracked run hcur hw id' hstarted
  rw [Supervisor.enableReloaded]
  split
  · refine fine_afterSpawn _ _ _ _ h' hr ?_ (by rintro _ ⟨⟩)
    rw [HasTarget]
    dsimp only
    rw [show (Supervisor.readTarget s.db kek (id, row)).dom.id = id from rfl, Dict.get?_insert_self]
    rfl
  · exact ⟨h', hr⟩

theorem fine_stopNext {s : Supervisor} {g : Ledger} (id : TargetId) (ws : List WorkerId)
    (h : Recorded typeOf ⟨s, g⟩) (hr : Running ⟨s, g⟩) : Fine typeOf g (s.stopNext id ws) := by
  induction ws with
  | nil => exact ⟨h, hr⟩
  | cons w rest ih =>
    rw [Supervisor.stopNext]
    split
    · exact ⟨h, hr⟩
    · exact ih

/-! ### The rule -/

theorem fine_enter {s : Supervisor} {g : Ledger} (op : Op) (h : Recorded typeOf ⟨s, g⟩)
    (hr : Running ⟨s, g⟩) : Fine typeOf g (s.enter op) := by
  cases op with
  | startRun =>
    rw [Supervisor.enter, Supervisor.startRun]
    split
    · rcases hs : s.setRunState .startRequested with _ | s'
      · exact ⟨h, hr⟩
      · obtain ⟨st, -, rfl⟩ := Supervisor.setRunState_eq_some hs
        exact ⟨h.of_eq rfl rfl (.inl rfl), trivial⟩
    · exact ⟨h, hr⟩
  | stopRun reason =>
    rw [Supervisor.enter, Supervisor.stopRun]
    split
    · exact ⟨h, hr⟩
    · rcases hs : s.setRunState .stopRequested with _ | s'
      · exact ⟨h, hr⟩
      · obtain ⟨st, -, rfl⟩ := Supervisor.setRunState_eq_some hs
        have h' : Recorded typeOf ⟨{ s with runState := st }, g⟩ := h.of_eq rfl rfl (.inl rfl)
        dsimp only
        split
        · exact fine_afterDrain reason h' hr
        · exact ⟨h', hr⟩
  | enableTarget id =>
    rw [Supervisor.enter, Supervisor.enableTarget]
    split
    · exact ⟨h, hr⟩
    · exact ⟨h, hr⟩
  | disableTarget id reversed => exact fine_stopNext id _ h hr

/-- One case for each suspension point. -/
theorem fine_continueFrom {s : Supervisor} {g : Ledger} (sec : Section) (out : Supervisor.Outcome)
    (h : Recorded typeOf ⟨s, g⟩) (hloc : Local typeOf ⟨s, g⟩ sec)
    (hok : ClosesWiped typeOf ⟨s, g⟩ sec out) :
    Fine typeOf (g.noteWipe s sec out) (s.continueFrom sec out) := by
  cases sec with
  | opening =>
    cases out with
    | ok =>
      have hfresh := s.db.history_freshRunId
      refine ⟨⟨h.typed, h.die, h.clean, h.known_started, h.known_wiped, h.aggregates, ?_⟩, rfl, hfresh⟩
      intro run hcur _ id hstarted
      obtain rfl := Option.some.inj hcur
      exact absurd hfresh (h.known_started _ id hstarted)
    | raised => exact fine_rollBack h
  | committingRun run =>
    obtain ⟨hcur, hnew⟩ := hloc
    cases out with
    | ok => exact fine_opened h hcur hnew
    | raised => exact fine_rollBack h
  | listing kek =>
    obtain ⟨hr, hun⟩ := hloc
    cases out with
    | ok =>
      refine fine_loadNext kek _ [] h hr hun (fun e he => ?_) (fun r hmem => absurd hmem List.not_mem_nil)
      have hrow := Dict.mem_entries.mp (List.mem_of_mem_filter he)
      exact h.typed.targets e.1 e.2 hrow
    | raised => exact fine_rollBack h
  | loading kek t todo pairs =>
    obtain ⟨hr, hun, htodo, hpairs⟩ := hloc
    cases out with
    | ok =>
      have hrest : ∀ e ∈ todo, e.2.type = typeOf e.1 := fun e he => htodo e (List.mem_cons_of_mem t he)
      have hread : (Supervisor.readTarget s.db kek t).dom.type =
          typeOf (Supervisor.readTarget s.db kek t).dom.id := htodo t List.mem_cons_self
      have hall : ∀ r ∈ pairs ++ [Supervisor.readTarget s.db kek t], r.dom.type = typeOf r.dom.id := by
        intro r hmem
        rcases List.mem_append.mp hmem with hold | hnew
        · exact hpairs r hold
        · obtain rfl := List.mem_singleton.mp hnew
          exact hread
      rw [Supervisor.continueFrom, Supervisor.readRunnable]
      dsimp only
      split
      · exact fine_loadNext kek todo _ (h.of_eq rfl rfl (.inl rfl)) hr hun hrest hall
      · exact fine_loadNext kek todo _ h hr hun hrest hall
    | raised => exact fine_rollBack h
  | auditingFailures pairs =>
    obtain ⟨hr, hun, hpairs⟩ := hloc
    exact fine_flushFailures pairs h hr hun hpairs
  | workerStarting caller r key w roles =>
    obtain ⟨hr, hhas, hrest⟩ := hloc
    rw [Supervisor.continueFrom, Supervisor.workerStarted]
    split
    · exact fine_afterSpawn caller r key roles h hr hhas hrest
    · have h' : Recorded typeOf
          ⟨{ s with toWorkerIndex := s.toWorkerIndex.dropWorker r.dom.id w }, g⟩ :=
        h.of_eq rfl rfl (.inl rfl)
      cases caller with
      | startRun rest => exact fine_rollBack h'
      | enableTarget => exact ⟨h', hr⟩
  | auditingStart =>
    cases out with
    | ok => exact ⟨h, hloc⟩
    | raised => exact fine_rollBack h
  | rollingBack ws =>
    cases out with
    | ok => exact fine_afterRollBack (h.of_eq rfl rfl (.inl rfl))
    | raised => exact fine_afterRollBack h
  | closingFailed run =>
    cases out with
    | ok => exact ⟨h.endRun hok, running_of_none hloc⟩
    | raised => exact ⟨h, running_of_none hloc⟩
  | draining ws reason =>
    cases out with
    | ok => exact fine_afterDrain reason (h.of_eq rfl rfl (.inl rfl)) hloc
    | raised => exact fine_afterDrain reason h hloc
  | wiping ids reason =>
    obtain ⟨hr, rfl⟩ := hloc
    cases out with
    | ok => exact fine_auditWipe _ reason (h.wipe hr reason)
    | raised => exact fine_afterWipe reason h
  | auditingWipe rest reason =>
    cases out with
    | ok => exact fine_auditWipe rest reason h
    | raised => exact fine_afterWipe reason h
  | closing run reason =>
    cases out with
    | ok => exact fine_afterClose (h.endRun hok) (running_of_none hloc)
    | raised => exact fine_afterClose h (running_of_none hloc)
  | auditingStop => exact ⟨h, hloc⟩
  | reloading kek id =>
    cases out with
    | ok =>
      rw [Supervisor.continueFrom]
      split
      · exact ⟨h, hloc⟩
      · rename_i row hrow
        exact ⟨h, hloc, h.typed.targets id row hrow⟩
    | raised => exact ⟨h, hloc⟩
  | reloadingCredential kek id row =>
    obtain ⟨hr, htype⟩ := hloc
    cases out with
    | ok => exact fine_enableReloaded kek id row h hr htype
    | raised => exact ⟨h, hr⟩
  | stoppingWorker id w rest => exact fine_stopNext id rest (h.of_eq rfl rfl (.inl rfl)) hloc

/-! ### Without the lock -/

/-- What the sections rely on stays as it is. -/
structure Undisturbed (p p' : Tracked) : Prop where
  targets : p'.supervisor.targets = p.supervisor.targets
  currentRunId : p'.supervisor.currentRunId = p.supervisor.currentRunId
  history : p'.supervisor.db.history = p.supervisor.db.history
  started : p'.ledger.started = p.ledger.started
  wiped : p'.ledger.wiped = p.ledger.wiped

theorem Undisturbed.running {p p' : Tracked} (hu : Undisturbed p p') (h : Running p) :
    Running p' := by
  intro run hcur
  rw [hu.history, hu.wiped]
  exact h run (hu.currentRunId ▸ hcur)

theorem Undisturbed.unstarted {p p' : Tracked} (hu : Undisturbed p p') (h : Unstarted p) :
    Unstarted p' := by
  intro run hcur
  rw [hu.started]
  exact h run (hu.currentRunId ▸ hcur)

theorem Undisturbed.local {p p' : Tracked} (hu : Undisturbed p p') {sec : Section}
    (h : Local typeOf p sec) : Local typeOf p' sec := by
  have hhas : ∀ r, HasTarget p.supervisor r → HasTarget p'.supervisor r := fun r hr => by
    rw [HasTarget, hu.targets]
    exact hr
  cases sec with
  | opening => trivial
  | rollingBack ws => trivial
  | auditingWipe rest reason => trivial
  | committingRun run => exact ⟨hu.currentRunId.trans h.1, by rw [hu.history]; exact h.2⟩
  | listing kek => exact ⟨hu.running h.1, hu.unstarted h.2⟩
  | loading kek t todo pairs => exact ⟨hu.running h.1, hu.unstarted h.2.1, h.2.2⟩
  | auditingFailures pairs => exact ⟨hu.running h.1, hu.unstarted h.2.1, h.2.2⟩
  | workerStarting caller r key w roles =>
    obtain ⟨hr, hown, hrest⟩ := h
    exact ⟨hu.running hr, hhas r hown, fun rest hc r' hr' => hhas r' (hrest rest hc r' hr')⟩
  | closingFailed run => exact hu.currentRunId.trans h
  | closing run reason => exact hu.currentRunId.trans h
  | wiping ids reason =>
    refine ⟨hu.running h.1, h.2.trans ?_⟩
    rw [Supervisor.perSessionTargets, Supervisor.perSessionTargets, hu.targets]
  | reloadingCredential kek id row => exact ⟨hu.running h.1, h.2⟩
  | auditingStart => exact hu.running h
  | draining ws reason => exact hu.running h
  | auditingStop => exact hu.running h
  | reloading kek id => exact hu.running h
  | stoppingWorker id w rest => exact hu.running h

/-- A credential is stored. -/
theorem Recorded.setCredential {p : Tracked} (h : Recorded typeOf p) {id : TargetId} {kek : Key}
    {body : Api.CredentialSetRequest} {target : TargetRow}
    (htarget : p.supervisor.db.getById id = some target)
    (hok : StoresNoneWiped typeOf p (.setCredential id kek body)) :
    Recorded typeOf (p.setCredential id kek body target) := by
  have htype : target.type = typeOf id := h.typed.targets id target htarget
  have hrows : ∀ id' row,
      (p.supervisor.db.upsertCredential id (Api.credentialRow kek target.type body)).credentials.get?
        id' = some row →
      id' = id ∧ row.lifetime = lifetimeFor (typeOf id) ∨
        id' ≠ id ∧ p.supervisor.db.credentials.get? id' = some row := by
    intro id' row hrow
    rw [Database.upsertCredential, Dict.get?_insert] at hrow
    split at hrow
    · rename_i heq
      obtain rfl := Option.some.inj hrow
      exact .inl ⟨heq, by rw [← htype]; rfl⟩
    · rename_i hne
      exact .inr ⟨hne, (Dict.get?_of_get?_erase hrow).2⟩
  refine ⟨⟨h.typed.targets, ?_⟩, ?_, ?_, h.known_started, h.known_wiped, h.aggregates, h.tracked⟩
  · intro id' row hrow
    rcases hrows id' row hrow with ⟨rfl, hlife⟩ | ⟨-, hold⟩
    · exact hlife
    · exact h.typed.credentials id' row hold
  · intro run hended id' hstarted row hrow hlife
    rcases hrows id' row hrow with ⟨rfl, -⟩ | ⟨hne, hold⟩
    · simp only [Tracked.setCredential, Function.update_self]
      exact Database.mem_endedRuns.mpr hended
    · simp only [Tracked.setCredential, Function.update_of_ne hne]
      exact h.die run hended id' hstarted row hold hlife
  · intro run hw hnone id' hstarted row hrow hlife
    rcases hrows id' row hrow with ⟨rfl, hlife'⟩ | ⟨-, hold⟩
    · exact hok (hlife'.symm.trans hlife) run hw hnone hstarted
    · exact h.clean run hw hnone id' hstarted row hold hlife

/-- The code of the supervisor that takes no lock. -/
theorem react_eq {s : Supervisor} {e : Env} (he : ∀ db, e ≠ .commit db) :
    (s.react e).db = s.db ∧ (s.react e).targets = s.targets ∧
      (s.react e).currentRunId = s.currentRunId := by
  cases e with
  | notifyObsPublishBegan =>
    rw [Supervisor.react]
    split
    · exact setRunState_getD_frame s _
    · exact ⟨rfl, rfl, rfl⟩
  | notifyObsPublishEnded =>
    rw [Supervisor.react]
    split
    · exact setRunState_getD_frame s _
    · exact ⟨rfl, rfl, rfl⟩
  | commit db => exact absurd rfl (he db)
  | resetTargetWorker w => exact ⟨rfl, rfl, rfl⟩
  | setKeys keys => exact ⟨rfl, rfl, rfl⟩
  | setSuperTg b => exact ⟨rfl, rfl, rfl⟩

theorem lifetime_rewrapRow (rows : List CredentialRow) (row : CredentialRow) :
    (Api.rewrapRow rows row).lifetime = row.lifetime := by
  rw [Api.rewrapRow]
  induction rows generalizing row with
  | nil => rfl
  | cons new rows ih =>
    rw [List.foldl_cons, ih]
    split <;> rfl

/-- **One case for each event.** -/
theorem Recorded.apply {p p' : Tracked} {e : Event} (h : Recorded typeOf p)
    (hok : StoresNoneWiped typeOf p e) (hp : e.apply typeOf p = some p') :
    Recorded typeOf p' ∧ Undisturbed p p' := by
  have hkept : ∀ id row, p.supervisor.db.credentials.get? id = some row →
      ∃ old, p.supervisor.db.credentials.get? id = some old ∧ row.lifetime = old.lifetime :=
    fun id row hrow => ⟨row, hrow, rfl⟩
  have herase : ∀ id' id row, (p.supervisor.db.credentials.erase id').get? id = some row →
      ∃ old, p.supervisor.db.credentials.get? id = some old ∧ row.lifetime = old.lifetime :=
    fun id' id row hrow => ⟨row, (Dict.get?_of_get?_erase hrow).2, rfl⟩
  cases e with
  | react e =>
    have hne : ∀ db, e ≠ .commit db := by
      rintro db rfl
      cases hp
    have hp' : p' = { p with supervisor := p.supervisor.react e } := by
      cases e <;> first | exact (Option.some.inj hp).symm | cases hp
    obtain ⟨hdb, htargets, hcur⟩ := react_eq (s := p.supervisor) hne
    subst hp'
    exact ⟨h.of_eq hdb htargets (.inl hcur), htargets, hcur, congrArg Database.history hdb, rfl, rfl⟩
  | createTarget id body =>
    rw [Event.apply] at hp
    split at hp
    · rename_i hnew
      obtain rfl := Option.some.inj hp
      refine ⟨h.commit _ rfl (fun id' row hrow => ?_) hkept, rfl, rfl, rfl, rfl, rfl⟩
      rw [Database.createTarget, Dict.get?_insert] at hrow
      split at hrow
      · rename_i heq
        obtain rfl := Option.some.inj hrow
        exact heq ▸ hnew.2
      · exact h.typed.targets id' row hrow
    · cases hp
  | updateTarget id body =>
    obtain rfl := Option.some.inj hp
    rcases hold : p.supervisor.db.targets.get? id with _ | old
    · have heq : p.supervisor.db.updateTarget id body = p.supervisor.db := by
        rw [Database.updateTarget, hold]
      rw [heq]
      exact ⟨h, rfl, rfl, rfl, rfl, rfl⟩
    · have heq : p.supervisor.db.updateTarget id body =
          { p.supervisor.db with
            targets := p.supervisor.db.targets.insert id (body.apply old) } := by
        rw [Database.updateTarget, hold]
      rw [heq]
      refine ⟨h.commit _ rfl (fun id' row hrow => ?_) hkept, rfl, rfl, rfl, rfl, rfl⟩
      dsimp only at hrow
      rw [Dict.get?_insert] at hrow
      split at hrow
      · rename_i hid
        obtain rfl := Option.some.inj hrow
        -- a patch leaves the type alone
        exact hid ▸ h.typed.targets id old hold
      · exact h.typed.targets id' row hrow
  | deleteTarget id =>
    obtain rfl := Option.some.inj hp
    refine ⟨h.commit _ rfl (fun id' row hrow => ?_) (herase id), rfl, rfl, rfl, rfl, rfl⟩
    exact h.typed.targets id' row (Dict.get?_of_get?_erase hrow).2
  | setCredential id kek body =>
    obtain ⟨target, htarget, rfl⟩ := Option.map_eq_some_iff.mp hp
    exact ⟨h.setCredential htarget hok, rfl, rfl, rfl, rfl, rfl⟩
  | clearCredential id =>
    obtain rfl := Option.some.inj hp
    exact ⟨h.commit _ rfl h.typed.targets (herase id), rfl, rfl, rfl, rfl, rfl⟩
  | rewrap rows =>
    obtain rfl := Option.some.inj hp
    refine ⟨h.commit _ rfl h.typed.targets (fun id row hrow => ?_), rfl, rfl, rfl, rfl, rfl⟩
    dsimp only at hrow
    rw [Dict.get?_mapValues] at hrow
    obtain ⟨old, hold, rfl⟩ := Option.map_eq_some_iff.mp hrow
    exact ⟨old, hold, lifetime_rewrapRow rows old⟩

/-! ### Every history -/

theorem recorded_of_sound {c : Config} (h : Monitor.Sound (Free typeOf) (Held typeOf) c) :
    Recorded typeOf c.shared := by
  rcases ho : c.owner with _ | i
  · exact (h.atRest ho).1
  · rw [Monitor.Sound, ho] at h
    obtain ⟨sec, -, hheld, -⟩ := h
    exact hheld.1

theorem rule_within : ((monitor typeOf).within (StoresNoneWiped typeOf)).Rule (Free typeOf)
    (Held typeOf) (fun _ _ => True) (ClosesWiped typeOf) where
  admitted _ _ _ _ := trivial
  enter p op h _ := fine_enter op h.1 h.2
  resume p sec out r h hok hr := by
    obtain rfl := Option.some.inj hr
    exact fine_continueFrom sec out h.1 h.2 hok
  external_free p e p' h hp := by
    obtain ⟨hok, hp⟩ := Option.ite_none_right_eq_some.mp hp
    obtain ⟨h', hu⟩ := h.1.apply hok hp
    exact ⟨h', hu.running h.2⟩
  external_held p sec e p' h hp := by
    obtain ⟨hok, hp⟩ := Option.ite_none_right_eq_some.mp hp
    obtain ⟨h', hu⟩ := h.1.apply hok hp
    exact ⟨h', hu.local h.2⟩

/-- A boot closes the rows that are open. -/
theorem Recorded.boot {p : Tracked} (h : Recorded typeOf p)
    (hclose : ∀ run ∈ p.supervisor.db.openRuns, MayClose typeOf p.ledger run) (url : Text)
    (registry : CredentialRegistry) (keys : Option DerivedKeys) :
    Recorded typeOf
      ⟨Supervisor.init url registry keys p.supervisor.db.recoverInterruptedSessions, p.ledger⟩ := by
  obtain ⟨htargets, hcredentials⟩ := p.supervisor.db.tables_recover
  have hclean : ∀ run, p.supervisor.db.history.get? run = some none → Clean p run := by
    intro run hopen
    rcases hclose run (Database.mem_openRuns.mpr hopen) with hw | htypes
    · exact h.clean run hw hopen
    · intro id hstarted row hrow hlife
      refine htypes _ hstarted rfl ?_
      rw [← h.typed.credentials id row hrow]
      exact hlife
  have hknown : ∀ run, p.supervisor.db.history.get? run ≠ none →
      p.supervisor.db.recoverInterruptedSessions.history.get? run ≠ none := by
    intro run hrun
    rw [Database.history_recover]
    split
    · exact Option.some_ne_none _
    · exact hrun
  refine ⟨⟨?_, ?_⟩, ?_, ?_, ?_, ?_, by rintro _ _ ⟨⟩, by rintro _ ⟨⟩⟩
  · simpa only [Supervisor.init, htargets] using h.typed.targets
  · simpa only [Supervisor.init, hcredentials] using h.typed.credentials
  · intro run hended id hstarted row hrow hlife
    have hrow' : p.supervisor.db.credentials.get? id = some row := by
      simpa only [Supervisor.init, Database.getForTarget, hcredentials] using hrow
    rcases hold : p.supervisor.db.history.get? run with _ | _ | reason
    · exact absurd hold (h.known_started run id hstarted)
    · exact absurd hlife (hclean run hold id hstarted row hrow')
    · exact h.die run ⟨reason, hold⟩ id hstarted row hrow' hlife
  · intro run hw hnone
    -- no row is open now
    dsimp only [Supervisor.init] at hnone
    rw [Database.history_recover] at hnone
    split at hnone
    · cases hnone
    · rename_i hne
      exact absurd hnone hne
  · exact fun run id hstarted => hknown run (h.known_started run id hstarted)
  · exact fun run hw => hknown run (h.known_wiped run hw)

/-- **One step** keeps the record. -/
theorem sound_step {c c' : Config} {l : Label}
    (h : Monitor.Sound (Free typeOf) (Held typeOf) c) (hok : Orderly typeOf c l)
    (hs : step typeOf c l = some c') : Monitor.Sound (Free typeOf) (Held typeOf) c' := by
  cases l with
  | reboot url registry keys =>
    obtain rfl := Option.some.inj hs
    exact Monitor.sound_idle ⟨(recorded_of_sound h).boot hok url registry keys, nofun⟩
  | run l =>
    have hguard : Monitor.guard (fun _ _ => True) (ClosesWiped typeOf) c l := by
      cases l <;> first | exact hok | trivial
    have hE : ∀ e, l = .external e → StoresNoneWiped typeOf c.shared e := by
      rintro e rfl
      exact hok
    rw [step, ← Monitor.step_within hE] at hs
    exact rule_within.sound_step h hguard hs

end Invariant

/-- **Per-session credentials die with their run**, in every state of every history
in which the row of a run is closed only after the run was wiped, or the run has
started no target whose credential ends with it, and in which no such credential
is stored between the wipe and the close. -/
theorem credentials_die (typeOf : TargetId → TargetType) (url : Text)
    (registry : CredentialRegistry) (keys : Option DerivedKeys) (labels : List Label)
    (h : (machine typeOf).Meets (Orderly typeOf) (firstBoot url registry keys) labels) :
    (machine typeOf).Always (fun c => CredentialsDie c.shared) (firstBoot url registry keys) labels := by
  refine Machine.always_of_inv (I := Monitor.Sound (Free typeOf) (Held typeOf)) ?_ ?_ ?_ h
  · intro c l c' hi hok hs
    exact sound_step hi hok hs
  · intro c hi
    exact (recorded_of_sound hi).die
  · refine Monitor.sound_idle ⟨⟨⟨nofun, nofun⟩, ?_, nofun, nofun, nofun, nofun, nofun⟩, nofun⟩
    exact fun _ _ _ hstarted => absurd hstarted List.not_mem_nil

/-! ## A credential that outlives its run -/

section Leak

/-- The key material is READY. -/
def vkBoot : Config :=
  firstBoot "rtmp://127.0.0.1:1935/live/k".toList .empty
    (some (deriveKeys "passphrase".toList [1]))

/-- An enabled VK target gets a stream key, and a run is started up to the start of
its worker. -/
def vkStart : List Label :=
  [.run (.external (.createTarget 7 ⟨.vkLive, "main".toList, "rtmp://vk.com/live".toList, true, ∅⟩)),
    .run (.external (.setCredential 7 (deriveKeys "passphrase".toList [1]).streamKeyKek
      ⟨"live_0123456789".toList, 1, [2], [3]⟩)),
    .run (.call .startRun), .run (.start 0), .run (.resume 0 .ok), .run (.resume 0 .ok),
    .run (.resume 0 .ok), .run (.resume 0 .ok)]

/-- The worker is started and the audit row of the start cannot be written: the worker
is stopped again, the run is closed, and its key is still there. -/
theorem failed_start_keeps_credential :
    ∃ c, (machine fun _ => .vkLive).run vkBoot
      (vkStart ++ [.run (.resume 0 .ok), .run (.resume 0 .raised), .run (.resume 0 .ok),
        .run (.resume 0 .ok)]) = some c ∧
      ¬ CredentialsDie c.shared := by
  refine ⟨_, rfl, fun h => ?_⟩
  -- the row of the run is closed with the reason of the error path
  have hstored := h 1 ⟨.error, rfl⟩ 7 (by decide) _ rfl rfl
  revert hstored
  decide

/-- The same run, stopped by the user. -/
theorem credentials_die_stopped :
    (machine fun _ => .vkLive).Always (fun c => CredentialsDie c.shared) vkBoot
      (vkStart ++ [.run (.resume 0 .ok), .run (.resume 0 .ok), .run (.call (.stopRun .userStop)),
        .run (.start 1), .run (.resume 1 .ok), .run (.resume 1 .ok), .run (.resume 1 .ok),
        .run (.resume 1 .ok), .run (.resume 1 .ok)]) :=
  credentials_die _ _ _ _ _ (by decide +kernel)

end Leak

end SessionCredentials

end RestreamPlus
