import RestreamPlus.Fanout.RunExclusion
import RestreamPlus.Fanout.SupervisorFrame

/-!
# The row of the current run (`sessions_history`)

`start_run` inserts a row without `ended_at` and keeps its id; `_close_run_session`
forgets the id and then closes the row in a transaction whose failure is suppressed.
A process can be killed at any point, and the next one closes every open row before
it does anything else.

The row of a run whose closing transaction failed stays open until then, and a
second run may open another one beside it (`open_rows_besides_current`). Nothing else
can: `open_runs` says that any other open row is that of the current run, or of
the run that is being closed at the moment, and that there is at most one.
-/

namespace RestreamPlus

open Interleaving

namespace RunHistory

open Supervisor (Op Section Env Resting OfTarget OnTarget)

/-- The supervisor, and the runs whose closing transaction failed since the boot. -/
structure Tracked : Type where
  supervisor : Supervisor
  unclosed : List RunId

/-- The run that the transaction at this point closes. -/
def closes : Section → Option RunId
  | .closingFailed run => some run
  | .closing run _ => some run
  | _ => none

/-- A closing transaction failed. -/
def Tracked.noteFailure (p : Tracked) (sec : Section) : Supervisor.Outcome → List RunId
  | .ok => p.unclosed
  | .raised => p.unclosed ++ (closes sec).toList

/-- The supervisor after a stretch, and the runs noted. -/
def Tracked.note (unclosed : List RunId) (r : Supervisor × Option Section) :
    Tracked × Option Section :=
  (⟨r.1, unclosed⟩, r.2)

/-- Code that takes no lock; no other code writes the history of the runs. -/
def Tracked.react (p : Tracked) : Env → Option Tracked
  | .commit db =>
    if db.history = p.supervisor.db.history then
      some { p with supervisor := { p.supervisor with db := db } }
    else none
  | e => some { p with supervisor := p.supervisor.react e }

/-- The supervisor with its record. -/
def monitor : Monitor Tracked Op Section Supervisor.Outcome Env where
  precheck p op := p.supervisor.admits op
  enter p op := Tracked.note p.unclosed (p.supervisor.enter op)
  resume p sec out := some (Tracked.note (p.noteFailure sec out) (p.supervisor.continueFrom sec out))
  external p e := p.react e

/-- The supervisor in the middle of a run. -/
abbrev Config : Type := Monitor.Config Tracked Op Section

/-- The control plane: up, or down with its database. -/
inductive Process : Type where
  | up : Config → Process
  | down : Database → List RunId → Process

namespace Process

/-- The committed tables. -/
def db : Process → Database
  | up c => c.shared.supervisor.db
  | down db _ => db

/-- The runs whose closing transaction failed since the last boot. -/
def unclosed : Process → List RunId
  | up c => c.shared.unclosed
  | down _ runs => runs

end Process

/-- What happens next. -/
inductive Event : Type where
  | run (l : Monitor.Label Op Supervisor.Outcome Env)
  | crash
  /-- `initialize_schema` completes and a supervisor is made -/
  | boot (url : Text) (registry : CredentialRegistry) (keys : Option DerivedKeys)
  /-- `initialize_schema` raises, its transaction being rolled back -/
  | bootFails

/-- One event. -/
def step : Process → Event → Option Process
  | .up c, .run l => (monitor.step c l).map .up
  | .up c, .crash => some (.down c.shared.supervisor.db c.shared.unclosed)
  | .down db _, .boot url registry keys =>
    some (.up (Monitor.idle ⟨Supervisor.init url registry keys db.recoverInterruptedSessions, []⟩))
  | .down db runs, .bootFails => some (.down db runs)
  | _, _ => none

/-- Histories of a control plane. -/
def machine : Machine Process Event := ⟨step⟩

/-- Before the first boot. -/
def install : Process := .down Database.empty []

/-! ## What should hold -/

/-- The closing transaction of the run is under way. -/
def BeingClosed (c : Config) (run : RunId) : Prop :=
  ∃ (i : ℕ) (sec : Section), c.tasks[i]? = some (.inside sec) ∧ closes sec = some run

/-- At most one open row, apart from those whose closing failed, and it is the
row of the current run or of the one that is being closed. -/
structure OneOpenRun (st : Process) : Prop where
  unique : ∀ run ∈ st.db.openRuns, ∀ run' ∈ st.db.openRuns,
    run ∉ st.unclosed → run' ∉ st.unclosed → run = run'
  current : ∀ c, st = .up c → ∀ run ∈ st.db.openRuns, run ∉ st.unclosed →
    c.shared.supervisor.currentRunId = some run ∨ BeingClosed c run

/-! ## The assertions of the monitor rule -/

/-- Every open row is the current one, this one, or its closing failed. -/
def Accounted (p : Tracked) (extra : Option RunId) : Prop :=
  ∀ run, p.supervisor.db.history.get? run = some none →
    p.supervisor.currentRunId = some run ∨ extra = some run ∨ run ∈ p.unclosed

/-- Without a run there is no current row. -/
def RestsClosed (s : Supervisor) : Prop := Resting s.runState → s.currentRunId = none

/-- What a section may rely on besides. -/
def Local (s : Supervisor) : Section → Prop
  | .opening | .closingFailed _ | .closing _ _ | .auditingStop => s.currentRunId = none
  | .committingRun run => s.currentRunId = some run
  | .reloading _ _ | .reloadingCredential _ _ _ | .stoppingWorker _ _ _ | .auditingStart
  | .workerStarting .enableTarget _ _ _ _ => RestsClosed s
  | _ => True

/-- Between two operations. -/
def Free (p : Tracked) : Prop := Accounted p none ∧ RestsClosed p.supervisor

/-- At a suspension of the operation that holds the lock. -/
def Held (p : Tracked) (sec : Section) : Prop := Accounted p (closes sec) ∧ Local p.supervisor sec

/-- Shorthand for the conclusions of the monitor rule. -/
abbrev Fine (unclosed : List RunId) (r : Supervisor × Option Section) : Prop :=
  Monitor.Settled Free Held (Tracked.note unclosed r)

/-- The current row is handed to its closing transaction, or there is none. -/
def HandsOver : Option Section → Prop
  | none | some (.closingFailed _) | some (.closing _ _) | some .auditingStop => True
  | _ => False

/-- The run goes on. -/
def GoesOn (s : Supervisor) : Section → Prop
  | .listing _ | .loading _ _ _ _ | .auditingFailures _ | .workerStarting (.startRun _) _ _ _ _
  | .rollingBack _ | .draining _ _ | .wiping _ _ | .auditingWipe _ _ => True
  | .auditingStart => ¬ Resting s.runState
  | _ => False

/-- A stretch of `start_run` or `stop_run` that writes no row: the run goes on,
or its row is handed over. -/
def Ends (s : Supervisor) (r : Supervisor × Option Section) : Prop :=
  r.1.db.history = s.db.history ∧
    (r.1.currentRunId = none ∧ HandsOver r.2 ∧ r.2.bind closes = s.currentRunId ∨
      r.1.currentRunId = s.currentRunId ∧ ∃ sec, r.2 = some sec ∧ GoesOn r.1 sec)

/-! ## The helpers of the operations -/

theorem Ends.of_eq {s s' : Supervisor} {r : Supervisor × Option Section} (h : Ends s' r)
    (hdb : s'.db.history = s.db.history) (hrun : s'.currentRunId = s.currentRunId) : Ends s r := by
  rw [Ends, ← hdb, ← hrun]
  exact h

theorem ends_suspend {s : Supervisor} {sec : Section} (h : GoesOn s sec) : Ends s (s, some sec) :=
  ⟨rfl, .inr ⟨rfl, sec, rfl, h⟩⟩

theorem ends_afterRollBack (s : Supervisor) : Ends s s.afterRollBack := by
  obtain ⟨st, heq⟩ := Supervisor.setRunState_getD_eq s .unrecoverableFailed
  rw [Supervisor.afterRollBack, heq, Supervisor.closeRunSession]
  refine ⟨rfl, .inl ⟨rfl, ?_, ?_⟩⟩
  · cases s.currentRunId <;> trivial
  · cases s.currentRunId <;> rfl

theorem ends_rollBack (s : Supervisor) : Ends s s.rollBack := by
  rw [Supervisor.rollBack]
  split
  · exact ends_afterRollBack s
  · exact ends_suspend trivial

theorem ends_finishStart (s : Supervisor) : Ends s s.finishStart := by
  rw [Supervisor.finishStart]
  split
  · exact ends_rollBack s
  · rename_i s' h
    obtain ⟨st, hst, rfl⟩ := Supervisor.setRunState_eq_some h
    refine ⟨rfl, .inr ⟨rfl, _, rfl, ?_⟩⟩
    rintro (hrest | hrest) <;> cases hs : s.runState <;> rw [hs] at hst <;> cases hst <;> cases hrest

theorem ends_spawnRaised (s : Supervisor) (rest : List Supervisor.Runnable) :
    Ends s (s.spawnRaised (.startRun rest)) := ends_rollBack s

theorem ends_spawnPairs (s : Supervisor) (pairs : List Supervisor.Runnable) :
    Ends s (s.spawnPairs pairs) := by
  induction pairs generalizing s with
  | nil => exact ends_finishStart s
  | cons r rest ih =>
    rw [Supervisor.spawnPairs]
    split
    · rename_i key _ _
      obtain ⟨x, e, heq, -, -⟩ := Supervisor.spawnRoles_grows s r key (rolesFor r.dom)
      rw [heq]
      refine Ends.of_eq (?_ : Ends { s with toWorkerIndex := x } _) rfl rfl
      cases e with
      | returned => exact ih _
      | raised => exact ends_rollBack _
      | starting w roles => exact ends_suspend trivial
    · exact ih s

theorem ends_afterSpawn (s : Supervisor) (rest : List Supervisor.Runnable)
    (r : Supervisor.Runnable) (key : Text) (roles : List WorkerRole) :
    Ends s (Supervisor.afterSpawn (.startRun rest) r key (s.spawnRoles r key roles)) := by
  obtain ⟨x, e, heq, -, -⟩ := Supervisor.spawnRoles_grows s r key roles
  rw [heq]
  refine Ends.of_eq (?_ : Ends { s with toWorkerIndex := x } _) rfl rfl
  cases e with
  | returned => exact ends_spawnPairs _ rest
  | raised => exact ends_rollBack _
  | starting w roles' => exact ends_suspend trivial

theorem ends_flushFailures (s : Supervisor) (pairs : List Supervisor.Runnable) :
    Ends s (s.flushFailures pairs) := by
  rw [Supervisor.flushFailures]
  split
  · exact (ends_spawnPairs _ pairs).of_eq rfl rfl
  · rename_i rest _
    have hgo : GoesOn { s with decryptFailures := rest } (.auditingFailures pairs) := trivial
    exact (ends_suspend hgo).of_eq rfl rfl

theorem ends_loadNext (s : Supervisor) (kek : Key) (todo : List (TargetId × TargetRow))
    (pairs : List Supervisor.Runnable) : Ends s (s.loadNext kek todo pairs) := by
  cases todo with
  | nil => exact ends_flushFailures s pairs
  | cons t todo => exact ends_suspend trivial

theorem ends_loadRunnableTargets (s : Supervisor) : Ends s s.loadRunnableTargets := by
  rw [Supervisor.loadRunnableTargets]
  split
  · exact ends_rollBack s
  · exact ends_suspend trivial

theorem ends_afterWipe (s : Supervisor) (reason : EndReason) : Ends s (s.afterWipe reason) := by
  rw [Supervisor.afterWipe, Supervisor.closeRunSession]
  rcases hrun : s.currentRunId with _ | run
  · obtain ⟨st, heq⟩ := Supervisor.setRunState_getD_eq { s with currentRunId := none } .workersDrained
    dsimp only
    rw [Supervisor.afterClose, heq]
    exact ⟨rfl, .inl ⟨rfl, trivial, hrun.symm⟩⟩
  · exact ⟨rfl, .inl ⟨rfl, trivial, hrun.symm⟩⟩

theorem ends_auditWipe (s : Supervisor) (cleared : List TargetId) (reason : EndReason) :
    Ends s (s.auditWipe cleared reason) := by
  cases cleared with
  | nil => exact ends_afterWipe s reason
  | cons id rest => exact ends_suspend trivial

theorem ends_afterDrain (s : Supervisor) (reason : EndReason) : Ends s (s.afterDrain reason) := by
  rw [Supervisor.afterDrain]
  split
  · exact ends_afterWipe s reason
  · exact ends_suspend trivial

/-! ## The rule -/

/-- Where the run goes on, no row is being closed, and nothing else is relied on. -/
theorem GoesOn.settles {s : Supervisor} {sec : Section} (h : GoesOn s sec) :
    closes sec = none ∧ Local s sec := by
  cases sec with
  | workerStarting caller =>
    cases caller with
    | startRun rest => exact ⟨rfl, trivial⟩
    | enableTarget => exact h.elim
  | auditingStart => exact ⟨rfl, fun hrest => absurd hrest h⟩
  | listing | loading | auditingFailures | rollingBack | draining | wiping | auditingWipe =>
    exact ⟨rfl, trivial⟩
  | opening | committingRun | closingFailed | closing | auditingStop | reloading
  | reloadingCredential | stoppingWorker => exact h.elim

/-- **A stretch that writes no row** keeps every open row accounted for. -/
theorem fine_of_ends {s : Supervisor} {unclosed : List RunId} {r : Supervisor × Option Section}
    (hacc : Accounted ⟨s, unclosed⟩ none) (h : Ends s r) : Fine unclosed r := by
  obtain ⟨s', next⟩ := r
  obtain ⟨hdb, ⟨hnone, hover, hcloses⟩ | ⟨hcur, sec, rfl, hgo⟩⟩ := h
  · have hacc' : Accounted ⟨s', unclosed⟩ (next.bind closes) := by
      intro run hopen
      change s'.db.history.get? run = some none at hopen
      rw [hdb] at hopen
      rcases hacc run hopen with hrun | hrun | hrun
      · exact .inr (.inl (hcloses.trans hrun))
      · cases hrun
      · exact .inr (.inr hrun)
    cases next with
    | none => exact ⟨hacc', fun _ => hnone⟩
    | some sec =>
      refine ⟨hacc', ?_⟩
      cases sec <;> first | exact hnone | exact hover.elim
  · obtain ⟨hsec, hloc⟩ := hgo.settles
    refine ⟨fun run hopen => ?_, hloc⟩
    change s'.db.history.get? run = some none at hopen
    rw [hdb] at hopen
    rw [hsec]
    change s'.currentRunId = some run ∨ _
    rw [show s'.currentRunId = s.currentRunId from hcur]
    exact hacc run hopen

theorem OfTarget.settles {s : Supervisor} {sec : Section} (h : OfTarget sec)
    (hrest : RestsClosed s) : closes sec = none ∧ Local s sec := by
  cases sec with
  | workerStarting caller =>
    cases caller with
    | startRun rest => exact h.elim
    | enableTarget => exact ⟨rfl, hrest⟩
  | reloading | reloadingCredential | stoppingWorker => exact ⟨rfl, hrest⟩
  | listing | loading | auditingFailures | rollingBack | draining | wiping | auditingWipe | opening
  | committingRun | closingFailed | closing | auditingStop | auditingStart => exact h.elim

theorem OfTarget.rests {s : Supervisor} {sec : Section} (h : OfTarget sec) (hloc : Local s sec) :
    closes sec = none ∧ RestsClosed s := by
  cases sec with
  | workerStarting caller =>
    cases caller with
    | startRun rest => exact h.elim
    | enableTarget => exact ⟨rfl, hloc⟩
  | reloading | reloadingCredential | stoppingWorker => exact ⟨rfl, hloc⟩
  | listing | loading | auditingFailures | rollingBack | draining | wiping | auditingWipe | opening
  | committingRun | closingFailed | closing | auditingStop | auditingStart => exact h.elim

/-- A stretch of an operation on a single target. -/
theorem fine_of_onTarget {s : Supervisor} {unclosed : List RunId}
    {r : Supervisor × Option Section} (hacc : Accounted ⟨s, unclosed⟩ none) (hrest : RestsClosed s)
    (h : OnTarget s r) : Fine unclosed r := by
  obtain ⟨s', next⟩ := r
  obtain ⟨hst, hcur, hdb, hnext⟩ := h
  dsimp only at hst hcur hdb hnext
  have hrest' : RestsClosed s' := by
    rw [RestsClosed, hst, hcur]
    exact hrest
  have hacc' : Accounted ⟨s', unclosed⟩ none := by
    rw [Accounted]
    dsimp only
    rw [hdb, hcur]
    exact hacc
  cases next with
  | none => exact ⟨hacc', hrest'⟩
  | some sec =>
    obtain ⟨hsec, hloc⟩ := OfTarget.settles (hnext sec rfl) hrest'
    exact ⟨hsec ▸ hacc', hloc⟩

theorem fine_enter (p : Tracked) (op : Op) (h : Free p) :
    Fine p.unclosed (p.supervisor.enter op) := by
  obtain ⟨s, unclosed⟩ := p
  obtain ⟨hacc, hrest⟩ := h
  cases op with
  | startRun =>
    rw [Supervisor.enter, Supervisor.startRun]
    split
    · rename_i hoff
      split
      · exact ⟨hacc, hrest⟩
      · rename_i s' h
        obtain ⟨st, -, rfl⟩ := Supervisor.setRunState_eq_some h
        exact ⟨hacc, hrest (.inl hoff)⟩
    · exact ⟨hacc, hrest⟩
  | stopRun reason =>
    rw [Supervisor.enter, Supervisor.stopRun]
    split
    · exact ⟨hacc, hrest⟩
    · split
      · exact ⟨hacc, hrest⟩
      · rename_i s' h
        obtain ⟨st, -, rfl⟩ := Supervisor.setRunState_eq_some h
        split
        · exact fine_of_ends hacc ((ends_afterDrain _ reason).of_eq rfl rfl)
        · exact ⟨hacc, trivial⟩
  | enableTarget id => exact fine_of_onTarget hacc hrest (Supervisor.onTarget_enableTarget s id)
  | disableTarget id reversed =>
    exact fine_of_onTarget hacc hrest (Supervisor.onTarget_stopNext s id _)

/-- Closing the row of `run` leaves only the others open. -/
theorem accounted_endRun {s : Supervisor} {unclosed : List RunId} {run : RunId}
    (hacc : Accounted ⟨s, unclosed⟩ (some run)) (reason : EndReason) :
    Accounted ⟨{ s with db := s.db.endRun run reason }, unclosed⟩ none := by
  intro run' hopen
  dsimp only at hopen
  rw [Database.history_endRun] at hopen
  split at hopen
  · obtain ⟨-, -, hreason⟩ := Option.map_eq_some_iff.mp hopen
    cases hreason
  · rename_i hne
    rcases hacc run' hopen with hrun | hrun | hrun
    · exact .inl hrun
    · exact absurd (Option.some.inj hrun).symm hne
    · exact .inr (.inr hrun)

/-- … and a failure to do so is noted. -/
theorem accounted_raised {s : Supervisor} {unclosed : List RunId} {run : RunId}
    (hacc : Accounted ⟨s, unclosed⟩ (some run)) :
    Accounted ⟨s, unclosed ++ [run]⟩ none := by
  intro run' hopen
  rcases hacc run' hopen with hrun | hrun | hrun
  · exact .inl hrun
  · exact .inr (.inr (List.mem_append_right _ (List.mem_singleton.mpr (Option.some.inj hrun).symm)))
  · exact .inr (.inr (List.mem_append_left _ hrun))

/-- The new row is the current one. -/
theorem accounted_startRun {s : Supervisor} {unclosed : List RunId} {run : RunId}
    (hacc : Accounted ⟨s, unclosed⟩ none) (hcur : s.currentRunId = some run) :
    Accounted ⟨{ s with db := s.db.startRun run }, unclosed⟩ none := by
  intro run' hopen
  by_cases hrun : run' = run
  · exact .inl (hrun ▸ hcur)
  · refine hacc run' ?_
    dsimp only [Database.startRun] at hopen
    rwa [Dict.get?_insert_ne _ _ hrun] at hopen

theorem noteFailure_of_none {p : Tracked} {sec : Section} (out : Supervisor.Outcome)
    (h : closes sec = none) : p.noteFailure sec out = p.unclosed := by
  cases out with
  | ok => rfl
  | raised => simp [Tracked.noteFailure, h]

/-- The transactions that close a row, and what follows them. -/
theorem fine_closing {s : Supervisor} {unclosed : List RunId}
    (hacc : Accounted ⟨s, unclosed⟩ none) (hcur : s.currentRunId = none) :
    Fine unclosed s.afterClose := by
  obtain ⟨st, heq⟩ := Supervisor.setRunState_getD_eq s .workersDrained
  rw [Supervisor.afterClose, heq]
  exact ⟨hacc, hcur⟩

/-- **One case for each suspension point.** -/
theorem fine_continueFrom (p : Tracked) (sec : Section) (out : Supervisor.Outcome)
    (h : Held p sec) : Fine (p.noteFailure sec out) (p.supervisor.continueFrom sec out) := by
  obtain ⟨s, unclosed⟩ := p
  obtain ⟨hacc, hloc⟩ := h
  by_cases htarget : OfTarget sec
  · obtain ⟨hsec, hrest⟩ := OfTarget.rests htarget hloc
    rw [noteFailure_of_none out hsec]
    rw [hsec] at hacc
    exact fine_of_onTarget hacc hrest (Supervisor.onTarget_continueFrom s out htarget)
  cases sec with
  | opening =>
    rw [noteFailure_of_none out rfl]
    cases out with
    | ok =>
      refine ⟨fun run hopen => ?_, rfl⟩
      have hcur : s.currentRunId = none := hloc
      rcases hacc run hopen with hrun | hrun | hrun
      · rw [hcur] at hrun
        cases hrun
      · cases hrun
      · exact .inr (.inr hrun)
    | raised => exact fine_of_ends hacc (ends_rollBack s)
  | committingRun run =>
    rw [noteFailure_of_none out rfl]
    cases out with
    | ok => exact fine_of_ends (accounted_startRun hacc hloc) (ends_loadRunnableTargets _)
    | raised => exact fine_of_ends hacc (ends_rollBack s)
  | listing kek =>
    rw [noteFailure_of_none out rfl]
    cases out with
    | ok => exact fine_of_ends hacc (ends_loadNext s kek _ _)
    | raised => exact fine_of_ends hacc (ends_rollBack s)
  | loading kek t todo pairs =>
    rw [noteFailure_of_none out rfl]
    cases out with
    | ok =>
      obtain ⟨failures, r, heq⟩ := Supervisor.readRunnable_spec s kek t
      rw [Supervisor.continueFrom, heq]
      exact fine_of_ends hacc ((ends_loadNext _ kek todo _).of_eq rfl rfl)
    | raised => exact fine_of_ends hacc (ends_rollBack s)
  | auditingFailures pairs =>
    rw [noteFailure_of_none out rfl]
    exact fine_of_ends hacc (ends_flushFailures s pairs)
  | workerStarting caller r key w roles =>
    rw [noteFailure_of_none out rfl]
    cases caller with
    | enableTarget => exact absurd trivial htarget
    | startRun rest =>
      rw [Supervisor.continueFrom, Supervisor.workerStarted]
      split
      · exact fine_of_ends hacc (ends_afterSpawn s rest r key roles)
      · exact fine_of_ends hacc ((ends_spawnRaised _ rest).of_eq rfl rfl)
  | auditingStart =>
    rw [noteFailure_of_none out rfl]
    cases out with
    | ok => exact ⟨hacc, hloc⟩
    | raised => exact fine_of_ends hacc (ends_rollBack s)
  | rollingBack ws =>
    rw [noteFailure_of_none out rfl]
    cases out with
    | ok => exact fine_of_ends hacc ((ends_afterRollBack _).of_eq rfl rfl)
    | raised => exact fine_of_ends hacc (ends_afterRollBack s)
  | closingFailed run =>
    cases out with
    | ok => exact ⟨accounted_endRun hacc .error, fun _ => hloc⟩
    | raised => exact ⟨accounted_raised hacc, fun _ => hloc⟩
  | draining ws reason =>
    rw [noteFailure_of_none out rfl]
    cases out with
    | ok => exact fine_of_ends hacc ((ends_afterDrain _ reason).of_eq rfl rfl)
    | raised => exact fine_of_ends hacc (ends_afterDrain s reason)
  | wiping ids reason =>
    rw [noteFailure_of_none out rfl]
    cases out with
    | ok =>
      exact fine_of_ends hacc
        ((ends_auditWipe _ _ reason).of_eq (s.db.tables_deleteAll ids).2 rfl)
    | raised => exact fine_of_ends hacc (ends_afterWipe s reason)
  | auditingWipe rest reason =>
    rw [noteFailure_of_none out rfl]
    cases out with
    | ok => exact fine_of_ends hacc (ends_auditWipe s rest reason)
    | raised => exact fine_of_ends hacc (ends_afterWipe s reason)
  | closing run reason =>
    cases out with
    | ok => exact fine_closing (accounted_endRun hacc reason) hloc
    | raised => exact fine_closing (accounted_raised hacc) hloc
  | auditingStop =>
    rw [noteFailure_of_none out rfl]
    exact ⟨hacc, fun _ => hloc⟩
  | reloading | reloadingCredential | stoppingWorker => exact absurd trivial htarget

/-- A step without the lock leaves the history and the current run alone. -/
theorem react_frame {p p' : Tracked} {e : Env} (h : p.react e = some p') :
    p'.unclosed = p.unclosed ∧ p'.supervisor.db.history = p.supervisor.db.history ∧
      p'.supervisor.currentRunId = p.supervisor.currentRunId ∧
      (Resting p'.supervisor.runState → Resting p.supervisor.runState) := by
  have hrests : ∀ e', Resting (p.supervisor.react e').runState → Resting p.supervisor.runState := by
    intro e' hrest
    obtain ⟨-, heq | ⟨-, heq⟩ | ⟨-, heq⟩⟩ := Supervisor.react_spec p.supervisor e'
    · exact heq ▸ hrest
    · rw [heq] at hrest
      rcases hrest with hrest | hrest <;> cases hrest
    · rw [heq] at hrest
      rcases hrest with hrest | hrest <;> cases hrest
  cases e with
  | commit db =>
    obtain ⟨hdb, heq⟩ := Option.ite_none_right_eq_some.mp h
    obtain rfl := Option.some.inj heq
    exact ⟨rfl, hdb, rfl, id⟩
  | notifyObsPublishBegan =>
    obtain rfl := Option.some.inj h
    refine ⟨rfl, ?_, ?_, hrests _⟩ <;>
      · obtain ⟨st, heq⟩ := Supervisor.setRunState_getD_eq p.supervisor .obsPublishBegan
        rw [Supervisor.react, heq]
        split <;> rfl
  | notifyObsPublishEnded =>
    obtain rfl := Option.some.inj h
    refine ⟨rfl, ?_, ?_, hrests _⟩ <;>
      · obtain ⟨st, heq⟩ := Supervisor.setRunState_getD_eq p.supervisor .obsPublishEnded
        rw [Supervisor.react, heq]
        split <;> rfl
  | resetTargetWorker | setKeys | setSuperTg =>
    obtain rfl := Option.some.inj h
    exact ⟨rfl, rfl, rfl, id⟩

theorem Accounted.of_eq {p p' : Tracked} {extra : Option RunId} (h : Accounted p extra)
    (hun : p'.unclosed = p.unclosed) (hdb : p'.supervisor.db.history = p.supervisor.db.history)
    (hcur : p'.supervisor.currentRunId = p.supervisor.currentRunId) : Accounted p' extra := by
  rw [Accounted, hun, hdb, hcur]
  exact h

theorem RestsClosed.of_eq {s s' : Supervisor} (h : RestsClosed s)
    (hcur : s'.currentRunId = s.currentRunId) (hrest : Resting s'.runState → Resting s.runState) :
    RestsClosed s' := fun hst => hcur.trans (h (hrest hst))

theorem local_of_eq {s s' : Supervisor} {sec : Section} (h : Local s sec)
    (hcur : s'.currentRunId = s.currentRunId) (hrest : Resting s'.runState → Resting s.runState) :
    Local s' sec := by
  cases sec with
  | workerStarting caller =>
    cases caller with
    | startRun rest => trivial
    | enableTarget => exact RestsClosed.of_eq h hcur hrest
  | reloading | reloadingCredential | stoppingWorker | auditingStart =>
    exact RestsClosed.of_eq h hcur hrest
  | opening | closingFailed | closing | auditingStop | committingRun => exact hcur.trans h
  | listing | loading | auditingFailures | rollingBack | draining | wiping | auditingWipe => trivial

/-- **The operations account for every open row.** -/
theorem rule : monitor.Rule Free Held (fun _ _ => True) fun _ _ _ => True where
  admitted _ _ _ _ := trivial
  enter p op h _ := fine_enter p op h
  resume p sec out r h _ hr := by
    obtain rfl := Option.some.inj hr
    exact fine_continueFrom p sec out h
  external_free p e p' h he := by
    obtain ⟨hun, hdb, hcur, hrest⟩ := react_frame he
    exact ⟨h.1.of_eq hun hdb hcur, h.2.of_eq hcur hrest⟩
  external_held p sec e p' h he := by
    obtain ⟨hun, hdb, hcur, hrest⟩ := react_frame he
    exact ⟨h.1.of_eq hun hdb hcur, local_of_eq h.2 hcur hrest⟩

/-! ## Histories -/

/-- The invariant of a control plane. -/
def Sound : Process → Prop
  | .up c => Monitor.Sound Free Held c
  | .down db runs =>
    ∀ run ∈ db.openRuns, ∀ run' ∈ db.openRuns, run ∉ runs → run' ∉ runs → run = run'

/-- In the middle of an operation, an open row is the current one or is being closed. -/
theorem current_or_closing {c : Config} (h : Monitor.Sound Free Held c) {run : RunId}
    (hopen : run ∈ c.shared.supervisor.db.openRuns) (hun : run ∉ c.shared.unclosed) :
    c.shared.supervisor.currentRunId = some run ∨
      c.shared.supervisor.currentRunId = none ∧ ∃ (i : ℕ) (sec : Section),
        c.owner = some i ∧ c.tasks[i]? = some (.inside sec) ∧ closes sec = some run := by
  have hget := Database.mem_openRuns.mp hopen
  rcases ho : c.owner with _ | i
  · rcases (h.atRest ho).1 run hget with hrun | hrun | hrun
    · exact .inl hrun
    · cases hrun
    · exact absurd hrun hun
  · rw [Monitor.Sound, ho] at h
    obtain ⟨sec, hsec, ⟨hacc, hloc⟩, -⟩ := h
    rcases hacc run hget with hrun | hrun | hrun
    · exact .inl hrun
    · refine .inr ⟨?_, i, sec, rfl, hsec, hrun⟩
      cases sec <;> first | exact hloc | cases hrun
    · exact absurd hrun hun

theorem unique_of_sound {c : Config} (h : Monitor.Sound Free Held c) :
    ∀ run ∈ c.shared.supervisor.db.openRuns, ∀ run' ∈ c.shared.supervisor.db.openRuns,
      run ∉ c.shared.unclosed → run' ∉ c.shared.unclosed → run = run' := by
  intro run hrun run' hrun' hun hun'
  rcases current_or_closing h hrun hun with hcur | ⟨hnone, i, sec, ho, hsec, hcloses⟩
  · rcases current_or_closing h hrun' hun' with hcur' | ⟨hnone', -⟩
    · exact Option.some.inj (hcur.symm.trans hcur')
    · rw [hnone'] at hcur
      cases hcur
  · rcases current_or_closing h hrun' hun' with hcur' | ⟨-, j, sec', ho', hsec', hcloses'⟩
    · rw [hnone] at hcur'
      cases hcur'
    · rw [ho] at ho'
      obtain rfl := Option.some.inj ho'
      rw [hsec] at hsec'
      obtain rfl : sec = sec' := by
        injection Option.some.inj hsec'
      exact Option.some.inj (hcloses.symm.trans hcloses')

theorem openRuns_recover (db : Database) : db.recoverInterruptedSessions.openRuns = [] := by
  refine List.eq_nil_iff_forall_not_mem.mpr fun run hrun => ?_
  rw [Database.mem_openRuns, Database.history_recover] at hrun
  split at hrun
  · cases hrun
  · contradiction

theorem sound_step {st st' : Process} {e : Event} (h : Sound st) (hs : step st e = some st') :
    Sound st' := by
  cases st with
  | up c =>
    cases e with
    | run l =>
      obtain ⟨c', hc, rfl⟩ := Option.map_eq_some_iff.mp hs
      exact rule.sound_step h (Monitor.guard_of_forall (fun _ _ => trivial)
        (fun _ _ _ => trivial) c l) hc
    | crash =>
      obtain rfl := Option.some.inj hs
      exact unique_of_sound h
    | boot | bootFails => cases hs
  | down db runs =>
    cases e with
    | boot url registry keys =>
      obtain rfl := Option.some.inj hs
      have hfree : Free ⟨Supervisor.init url registry keys db.recoverInterruptedSessions, []⟩ := by
        refine ⟨fun run hopen => ?_, fun _ => rfl⟩
        have hmem : run ∈ db.recoverInterruptedSessions.openRuns := Database.mem_openRuns.mpr hopen
        rw [openRuns_recover] at hmem
        cases hmem
      exact (Monitor.sound_idle hfree : Monitor.Sound Free Held _)
    | bootFails =>
      obtain rfl := Option.some.inj hs
      exact h
    | run | crash => cases hs

theorem sound_run {events : List Event} {st : Process} (hr : machine.run install events = some st) :
    Sound st := by
  have hok : machine.Meets (fun _ _ => True) install events :=
    Machine.meets_of_forall (fun _ _ => trivial) _ _
  refine Machine.inv_run (I := Sound) (fun _ _ _ h _ hs => sound_step h hs) ?_ hok hr
  intro run hrun
  rw [show Database.empty.openRuns = [] from rfl] at hrun
  cases hrun

/-- **Open rows.** In every reachable state there is at most one open row whose
closing transaction has not failed since the last boot, and while the process is
up it is the row of the current run, or of the run whose closing transaction is
under way; right after `initialize_schema` there is no open row at all. -/
theorem open_runs {events : List Event} {st : Process}
    (hr : machine.run install events = some st) :
    OneOpenRun st ∧ ∀ url registry keys st', step st (.boot url registry keys) = some st' →
      st'.db.openRuns = [] := by
  have h := sound_run hr
  refine ⟨⟨?_, ?_⟩, ?_⟩
  · cases st with
    | up c => exact unique_of_sound h
    | down db runs => exact h
  · rintro c rfl run hrun hun
    rcases current_or_closing h hrun hun with hcur | ⟨-, i, sec, -, hsec, hcloses⟩
    · exact .inl hcur
    · exact .inr ⟨i, sec, hsec, hcloses⟩
  · intro url registry keys st' hs
    cases st with
    | up c => cases hs
    | down db runs =>
      obtain rfl := Option.some.inj hs
      exact openRuns_recover db

/-- A closing transaction does not fail. -/
def ClosesReturn : Process → Event → Prop
  | .up c, .run (.resume i .raised) =>
    ∀ sec, c.tasks[i]? = some (.inside sec) → closes sec = none
  | _, _ => True

/-- As long as no closing transaction fails, every row counts. -/
theorem unclosed_eq_nil {events : List Event} {st : Process}
    (hok : machine.Meets ClosesReturn install events)
    (hr : machine.run install events = some st) : st.unclosed = [] := by
  refine Machine.inv_run (I := fun st => st.unclosed = []) (fun st e st' h hok hs => ?_) rfl hok hr
  cases st with
  | down db runs =>
    cases e with
    | boot | bootFails =>
      obtain rfl := Option.some.inj hs
      first | rfl | exact h
    | run | crash => cases hs
  | up c =>
    cases e with
    | crash =>
      obtain rfl := Option.some.inj hs
      exact h
    | boot | bootFails => cases hs
    | run l =>
      obtain ⟨c', hc, rfl⟩ := Option.map_eq_some_iff.mp hs
      change c.shared.unclosed = [] at h
      change c'.shared.unclosed = []
      rcases Monitor.shared_of_step hc with heq | ⟨-, op, -, heq⟩ |
        ⟨i, sec, out, r, rfl, hsec, hr, heq⟩ | ⟨e, rfl, he⟩
      · rw [heq, h]
      · rw [heq]
        exact h
      · obtain rfl := Option.some.inj hr
        rw [heq]
        cases out with
        | ok => exact h
        | raised => exact (noteFailure_of_none .raised (hok sec hsec)).trans h
      · exact (react_frame he).1.trans h

/-- **At most one open row**, as long as no closing transaction fails. -/
theorem at_most_one_open {events : List Event} {st : Process}
    (hok : machine.Meets ClosesReturn install events)
    (hr : machine.run install events = some st) :
    ∀ run ∈ st.db.openRuns, ∀ run' ∈ st.db.openRuns, run = run' := by
  have hnil := unclosed_eq_nil hok hr
  have h := sound_run hr
  intro run hrun run' hrun'
  have hun : ∀ r : RunId, r ∉ st.unclosed := fun r hmem => by
    rw [hnil] at hmem
    cases hmem
  cases st with
  | up c => exact unique_of_sound h run hrun run' hrun' (hun run) (hun run')
  | down db runs => exact h run hrun run' hrun' (hun run) (hun run')

/-- A boot, and a `start_run` up to the commit of its row. -/
def started : List Event :=
  [.boot [] .empty (some (deriveKeys [] [])),
    .run (.call .startRun), .run (.start 0), .run (.resume 0 .ok), .run (.resume 0 .ok)]

theorem open_runs_started : ∃ st, machine.run install started = some st ∧
    st.db.openRuns = [1] ∧ OneOpenRun st := by
  have hr : machine.run install started = some _ := rfl
  exact ⟨_, hr, rfl, (open_runs hr).1⟩

/-- The run becomes ARMED and is stopped; its closing transaction is under way. -/
def midClose : List Event :=
  started ++ ([.resume 0 .ok, .resume 0 .ok, .call (.stopRun .userStop), .start 1] :
    List (Monitor.Label Op Supervisor.Outcome Env)).map .run

/-- … and fails. Then another run is started and becomes ARMED. -/
def failedClose : List Event :=
  midClose ++ ([.resume 1 .raised, .resume 1 .ok, .call .startRun, .start 2, .resume 2 .ok,
    .resume 2 .ok, .resume 2 .ok, .resume 2 .ok] :
      List (Monitor.Label Op Supervisor.Outcome Env)).map .run

/-- While a run is being closed its row is open and there is no current run; and after a
failed close two rows are open with no operation in flight. -/
theorem open_rows_besides_current :
    (∃ c, machine.run install midClose = some (.up c) ∧ c.shared.supervisor.db.openRuns = [1] ∧
      c.shared.supervisor.currentRunId = none) ∧
    ∃ c, machine.run install failedClose = some (.up c) ∧ c.owner = none ∧
      c.shared.supervisor.db.openRuns = [1, 2] ∧ c.shared.supervisor.currentRunId = some 2 :=
  ⟨⟨_, rfl, rfl, rfl⟩, _, rfl, rfl, rfl, rfl⟩

end RunHistory

end RestreamPlus
