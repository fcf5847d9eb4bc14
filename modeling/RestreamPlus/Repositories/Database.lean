import RestreamPlus.Auth.KeyMaterial

/-!
# The tables (`app/db/schema.sql`, `app/repositories`)

The committed contents of `targets`, `credentials` and `sessions_history`. The
primary keys, and the uniqueness of `credentials.target_id`, are the keys of the
dictionaries. Of `http_sessions` and `api_tokens` it says here only how often all
of their rows have been deleted. A transaction is a function on the contents,
applied when it commits.
-/

namespace RestreamPlus

/-- The committed contents of the tables the fan-out reads and writes. -/
structure Database : Type where
  targets : Dict TargetId TargetRow
  /-- by the target they belong to -/
  credentials : Dict TargetId CredentialRow
  /-- the reason each run ended for, `none` while `ended_at` is NULL -/
  history : Dict RunId (Option EndReason)
  /-- how often all sessions and tokens have been deleted -/
  revocations : ℕ := 0
  deriving DecidableEq

namespace Database

/-- Empty tables. -/
def empty : Database := ⟨∅, ∅, ∅, 0⟩

/-! ## Targets (`TargetsRepository`) -/

def getById (db : Database) (id : TargetId) : Option TargetRow := db.targets.get? id

def listEnabled (db : Database) : List (TargetId × TargetRow) :=
  db.targets.entries.filter fun e => e.2.enabled

def createTarget (db : Database) (id : TargetId) (row : TargetRow) : Database :=
  { db with targets := db.targets.insert id row }

/-- The optional fields of `TargetsRepository.update`. -/
structure TargetPatch : Type where
  label : Option Text
  url : Option Text
  enabled : Option Bool
  settings : Option Settings

/-- A row with the fields of a patch written over it. -/
def TargetPatch.apply (p : TargetPatch) (row : TargetRow) : TargetRow :=
  { row with
    label := p.label.getD row.label
    url := p.url.getD row.url
    enabled := p.enabled.getD row.enabled
    settings := p.settings.getD row.settings }

def updateTarget (db : Database) (id : TargetId) (p : TargetPatch) : Database :=
  match db.targets.get? id with
  | none => db
  | some row => { db with targets := db.targets.insert id (p.apply row) }

/-- Deleting a target takes its credential along (`ON DELETE CASCADE`). -/
def deleteTarget (db : Database) (id : TargetId) : Database :=
  { db with targets := db.targets.erase id, credentials := db.credentials.erase id }

/-! ## Credentials (`CredentialsRepository`) -/

def getForTarget (db : Database) (id : TargetId) : Option CredentialRow :=
  db.credentials.get? id

/-- Delete the target's row, if any, and insert the new one. -/
def upsertCredential (db : Database) (id : TargetId) (row : CredentialRow) : Database :=
  { db with credentials := (db.credentials.erase id).insert id row }

def deleteForTarget (db : Database) (id : TargetId) : Database :=
  { db with credentials := db.credentials.erase id }

/-! ## Runs (`SessionsHistoryRepository`) -/

/-- Some identifier that is not in use (random in the source). -/
def freshRunId (db : Database) : RunId := db.history.keys.foldr max 0 + 1

def startRun (db : Database) (id : RunId) : Database :=
  { db with history := db.history.insert id none }

/-- `end`: an `UPDATE` that matches nothing is no error. -/
def endRun (db : Database) (id : RunId) (reason : EndReason) : Database :=
  match db.history.get? id with
  | none => db
  | some _ => { db with history := db.history.insert id (some reason) }

/-- The runs whose `ended_at` is NULL. -/
def openRuns (db : Database) : List RunId :=
  db.history.keys.filter fun run => db.history.get? run = some none

/-- `_recover_interrupted_sessions`, one transaction: an `UPDATE` for each open row. -/
def recoverInterruptedSessions (db : Database) : Database :=
  db.openRuns.foldl (fun db run => db.endRun run .controlPlaneCrash) db

/-- `ended_at` of the run is set. -/
def Ended (db : Database) (run : RunId) : Prop := ∃ reason, db.history.get? run = some (some reason)

/-- The runs whose `ended_at` is set. -/
def endedRuns (db : Database) : List RunId :=
  db.history.keys.filter fun run => ((db.history.get? run).getD none).isSome

/-! ## What the transactions change -/

theorem mem_endedRuns {db : Database} {run : RunId} : run ∈ db.endedRuns ↔ db.Ended run := by
  rw [endedRuns, List.mem_filter, Dict.mem_keys, Ended]
  rcases db.history.get? run with _ | _ | reason <;> simp

theorem mem_openRuns {db : Database} {run : RunId} :
    run ∈ db.openRuns ↔ db.history.get? run = some none := by
  rw [openRuns, List.mem_filter, Dict.mem_keys]
  rcases db.history.get? run with _ | _ | reason <;> simp

theorem credentials_deleteAll (db : Database) (ids : List TargetId) (id : TargetId) :
    (ids.foldl deleteForTarget db).credentials.get? id =
      if id ∈ ids then none else db.credentials.get? id := by
  induction ids generalizing db with
  | nil => simp
  | cons id' ids ih =>
    rw [List.foldl_cons, ih, deleteForTarget, Dict.get?_erase]
    by_cases h : id = id'
    · simp [h]
    · simp [h]

/-- Deleting credentials changes no other table. -/
theorem tables_deleteAll (db : Database) (ids : List TargetId) :
    (ids.foldl deleteForTarget db).targets = db.targets ∧
      (ids.foldl deleteForTarget db).history = db.history := by
  induction ids generalizing db with
  | nil => exact ⟨rfl, rfl⟩
  | cons id ids ih => exact ih (db.deleteForTarget id)

/-- Closing a run changes no other table. -/
theorem tables_endRun (db : Database) (run : RunId) (reason : EndReason) :
    (db.endRun run reason).targets = db.targets ∧
      (db.endRun run reason).credentials = db.credentials := by
  rw [endRun]
  split <;> exact ⟨rfl, rfl⟩

theorem history_endRun (db : Database) (run run' : RunId) (reason : EndReason) :
    (db.endRun run reason).history.get? run' =
      if run' = run then (db.history.get? run).map fun _ => some reason
      else db.history.get? run' := by
  rw [endRun]
  rcases h : db.history.get? run with _ | ended
  · by_cases hr : run' = run
    · simp [hr, h]
    · simp [hr]
  · simp [Dict.get?_insert]

/-- Only the history changes when interrupted sessions are recovered. -/
theorem tables_recover (db : Database) :
    db.recoverInterruptedSessions.targets = db.targets ∧
      db.recoverInterruptedSessions.credentials = db.credentials := by
  suffices h : ∀ (runs : List RunId) (db : Database),
      (runs.foldl (fun db run => db.endRun run .controlPlaneCrash) db).targets = db.targets ∧
        (runs.foldl (fun db run => db.endRun run .controlPlaneCrash) db).credentials =
          db.credentials from h db.openRuns db
  intro runs
  induction runs with
  | nil => exact fun db => ⟨rfl, rfl⟩
  | cons run runs ih =>
    intro db
    obtain ⟨htargets, hcredentials⟩ := ih (db.endRun run .controlPlaneCrash)
    obtain ⟨htargets', hcredentials'⟩ := db.tables_endRun run .controlPlaneCrash
    exact ⟨htargets.trans htargets', hcredentials.trans hcredentials'⟩

/-- An open run is ended, any other is left as it is. -/
theorem history_recover (db : Database) (run : RunId) :
    db.recoverInterruptedSessions.history.get? run =
      if db.history.get? run = some none then some (some .controlPlaneCrash)
      else db.history.get? run := by
  suffices h : ∀ (runs : List RunId) (db : Database),
      (runs.foldl (fun db run => db.endRun run .controlPlaneCrash) db).history.get? run =
        if run ∈ runs then (db.history.get? run).map fun _ => some .controlPlaneCrash
        else db.history.get? run by
    rw [recoverInterruptedSessions, h, if_congr mem_openRuns rfl rfl]
    split
    · rename_i hopen
      rw [hopen]
      rfl
    · rfl
  intro runs
  induction runs with
  | nil => exact fun db => rfl
  | cons run' runs ih =>
    intro db
    rw [List.foldl_cons, ih, history_endRun]
    by_cases h : run = run'
    · subst h
      by_cases h' : run ∈ runs <;> simp [h', Function.comp_def]
    · simp [h]

theorem history_freshRunId (db : Database) : db.history.get? db.freshRunId = none := by
  have hle : ∀ (l : List RunId), ∀ run ∈ l, run ≤ l.foldr max 0 := by
    intro l
    induction l with
    | nil => exact fun run h => absurd h List.not_mem_nil
    | cons r l ih =>
      intro run h
      rcases List.mem_cons.mp h with rfl | h
      · exact le_max_left _ _
      · exact (ih run h).trans (le_max_right _ _)
  rw [← Dict.not_mem_keys]
  intro hmem
  exact Nat.not_succ_le_self _ (hle _ _ hmem)

end Database

end RestreamPlus
