import RestreamPlus.Repositories.Accounts
import RestreamPlus.Repositories.Database

/-!
# Bring-up of the database and crash recovery (`app/db/schema_init.py`)

`initialize_schema` on the contents of the database file. The banner of a generated
password and its registration with the redaction registry are left out, and so is the
content of an audit row but for what it names.
-/

namespace RestreamPlus

/-- `SCHEMA_VERSION`. -/
def schemaVersion : ℕ := 2

/-- `ADMIN_USERNAME`. -/
def adminUsername : Text := ['a', 'd', 'm', 'i', 'n']

/-- `MIN_ADMIN_PASSWORD_LENGTH`. -/
def minAdminPasswordLength : ℕ := 12

/-- The settings of a boot that concern the administrator, validated. -/
structure AppSettings : Type where
  adminPassword : Option Text
  resetAdminPassword : Bool
  /-- `_validate_admin_password_length` -/
  length_admin : ∀ password ∈ adminPassword, minAdminPasswordLength ≤ password.length
  /-- `_validate_reset_flag_pairing` -/
  reset_paired : resetAdminPassword = true → adminPassword.isSome = true

/-- What is audited during a boot. -/
inductive AuditEvent : Type where
  | adminPasswordSet (last4 : Text)
  | adminPasswordAutogenerated (last4 : Text)
  | adminPasswordReset (last4 : Text)
  | interruptedSessionRecovered (run : RunId)
  deriving DecidableEq

/-- A row of `audit_log`. -/
structure AuditRow : Type where
  loggedAt : ℤ
  event : AuditEvent
  deriving DecidableEq

/-- The singleton row of `settings`, whole. -/
structure GeneralSettings : Type where
  firstRunComplete : Bool
  idleTimeoutSeconds : ℕ
  logRetentionDays : ℕ
  ingest : SettingsRow
  deriving DecidableEq

variable [Argon2]

/-- The database file. -/
structure DatabaseFile : Type where
  /-- `PRAGMA user_version`; 0 for a new file -/
  userVersion : ℕ
  settings : Option GeneralSettings
  accounts : Accounts
  database : Database
  auditLog : List AuditRow
  deriving DecidableEq

/-- The path that wrote the hash of the administrator during a boot. -/
inductive PasswordSource : Type where
  | env
  | autogen
  | reset
  deriving DecidableEq

/-- `InitResult`. -/
structure InitResult : Type where
  fresh : Bool
  recoveredSessionIds : List RunId
  passwordSource : Option PasswordSource
  deriving DecidableEq

/-- Why a boot is refused. -/
inductive InitError : Type where
  | schemaVersionMismatch (onDisk expected : ℕ)
  /-- the `ValueError` of `hash_password` -/
  | emptyPassword
  deriving DecidableEq

/-- The clock and the random values of a boot. -/
structure BootInput : Type where
  now : ℚ
  adminId : UserId
  salt : Bytes
  ingestKey : Text
  /-- `secrets.token_urlsafe(_AUTOGEN_PASSWORD_BYTES)` -/
  autogenerated : Text
  length_autogenerated : autogenerated.length = 20

/-- `password[-4:]`. -/
def lastFour (password : Text) : Text := password.drop (password.length - 4)

/-- `hash_password` in a thread. -/
def hashForBoot (password : Text) (salt : Bytes) : Except InitError PasswordHash :=
  match hashPassword password salt with
  | none => .error .emptyPassword
  | some hash => .ok hash

/-- `_resolve_bootstrap_password`. -/
def resolveBootstrapPassword (settings : AppSettings) (x : BootInput) : Text × PasswordSource :=
  match settings.adminPassword with
  | some password => (password, .env)
  | none => (x.autogenerated, .autogen)

/-- The `UPDATE` of `_reset_admin_password`. -/
def Accounts.resetAdmin (a : Accounts) (passwordHash : PasswordHash) : Accounts :=
  { a with users := a.users.mapValues fun row =>
      if row.username = adminUsername then { row with passwordHash := passwordHash } else row }

namespace DatabaseFile

/-- `_sync_bootstrap_schema`: a new file gets the tables. -/
def syncBootstrapSchema (file : DatabaseFile) : Except InitError (DatabaseFile × Bool) :=
  if file.userVersion = 0 then
    .ok (⟨schemaVersion, none, ⟨∅, ∅, ∅⟩, Database.empty, []⟩, true)
  else if file.userVersion ≠ schemaVersion then
    .error (.schemaVersionMismatch file.userVersion schemaVersion)
  else .ok (file, false)

/-- `_seed_initial_rows`, one transaction. -/
def seedInitialRows (file : DatabaseFile) (passwordHash : PasswordHash) (source : PasswordSource)
    (last4 : Text) (x : BootInput) : DatabaseFile :=
  let event : AuditEvent :=
    if source = .autogen then .adminPasswordAutogenerated last4 else .adminPasswordSet last4
  { file with
    settings := some ⟨true, 600, 14, SettingsRow.seed x.ingestKey⟩
    accounts := { file.accounts with
      users := file.accounts.users.insert x.adminId ⟨adminUsername, passwordHash, none⟩ }
    auditLog := file.auditLog ++ [⟨epochSeconds x.now, event⟩] }

/-- `_reset_admin_password`, one transaction. -/
def resetAdminPassword (file : DatabaseFile) (passwordHash : PasswordHash) (last4 : Text)
    (now : ℚ) : DatabaseFile :=
  { file with
    settings := file.settings.map fun row => { row with firstRunComplete := true }
    accounts := file.accounts.resetAdmin passwordHash
    auditLog := file.auditLog ++ [⟨epochSeconds now, .adminPasswordReset last4⟩] }

/-- `_recover_interrupted_sessions`, one transaction. -/
def recoverInterruptedSessions (file : DatabaseFile) (now : ℚ) : DatabaseFile :=
  { file with
    database := file.database.recoverInterruptedSessions
    auditLog := file.auditLog ++ file.database.openRuns.map fun run =>
      ⟨epochSeconds now, .interruptedSessionRecovered run⟩ }

/-- The hash of the administrator is written, if this boot writes it. -/
def writeAdminPassword (file : DatabaseFile) (fresh : Bool) (settings : AppSettings)
    (x : BootInput) : Except InitError (DatabaseFile × Option PasswordSource) :=
  if fresh then do
    let (password, source) := resolveBootstrapPassword settings x
    let passwordHash ← hashForBoot password x.salt
    pure (file.seedInitialRows passwordHash source (lastFour password) x, some source)
  else
    match settings.resetAdminPassword, settings.adminPassword with
    | true, some password => do
      let passwordHash ← hashForBoot password x.salt
      pure (file.resetAdminPassword passwordHash (lastFour password) x.now, some .reset)
    | _, _ => pure (file, none)

/-- `initialize_schema`. -/
def initializeSchema (file : DatabaseFile) (settings : AppSettings) (x : BootInput) :
    Except InitError (DatabaseFile × InitResult) := do
  let (file, fresh) ← file.syncBootstrapSchema
  let (file, source) ← file.writeAdminPassword fresh settings x
  pure (file.recoverInterruptedSessions x.now, ⟨fresh, file.database.openRuns, source⟩)

end DatabaseFile

/-! ## What a boot does to the accounts -/

/-- A password that is not empty is hashed. -/
theorem hashForBoot_of_ne_nil {password : Text} (salt : Bytes) (h : password ≠ []) :
    ∃ hash, hashForBoot password salt = .ok hash ∧ hash.password = password := by
  have hhash : hashPassword password salt = some (hasher.hash password salt h) := by
    rw [hashPassword, dif_pos h]
  exact ⟨_, by rw [hashForBoot, hhash], password_hash hasher salt h⟩

omit [Argon2] in
/-- A password that passed the validation is not empty. -/
theorem AppSettings.ne_nil (settings : AppSettings) {password : Text}
    (h : settings.adminPassword = some password) : password ≠ [] := by
  rintro rfl
  exact absurd (settings.length_admin [] h) (by decide)

omit [Argon2] in
theorem BootInput.ne_nil (x : BootInput) : x.autogenerated ≠ [] := by
  intro h
  have hlen := x.length_autogenerated
  rw [h] at hlen
  cases hlen

/-- The three ways of a boot that is not refused. -/
inductive Accounts.Booted (settings : AppSettings) (x : BootInput) (version : ℕ) (a a' : Accounts) :
    Option PasswordSource → Prop where
  /-- a new file: the administrator and nobody else, and no way in -/
  | seeded (source : PasswordSource) (hash : PasswordHash) (hversion : version = 0)
      (hsource : source ≠ .reset)
      (ha : a' = ⟨(∅ : Dict UserId UserRow).insert x.adminId ⟨adminUsername, hash, none⟩, ∅, ∅⟩) :
      Booted settings x version a a' (some source)
  | reset (password : Text) (hash : PasswordHash) (hversion : version = schemaVersion)
      (hflag : settings.resetAdminPassword = true)
      (hpassword : settings.adminPassword = some password) (hhash : hash.password = password)
      (ha : a' = a.resetAdmin hash) : Booted settings x version a a' (some .reset)
  | kept (hversion : version = schemaVersion) (ha : a' = a) : Booted settings x version a a' none

namespace DatabaseFile

variable {file file' : DatabaseFile} {settings : AppSettings} {x : BootInput} {result : InitResult}

theorem writeAdminPassword_fresh (file : DatabaseFile) (settings : AppSettings) (x : BootInput) :
    ∃ hash source, source ≠ .reset ∧ file.writeAdminPassword true settings x =
      .ok (file.seedInitialRows hash source
        (lastFour (resolveBootstrapPassword settings x).1) x, some source) := by
  have hne : (resolveBootstrapPassword settings x).1 ≠ [] := by
    rw [resolveBootstrapPassword]
    split
    · rename_i password hpassword
      exact settings.ne_nil hpassword
    · exact x.ne_nil
  have hsource : (resolveBootstrapPassword settings x).2 ≠ .reset := by
    rw [resolveBootstrapPassword]
    split <;> simp
  obtain ⟨hash, hhash, -⟩ := hashForBoot_of_ne_nil x.salt hne
  refine ⟨hash, _, hsource, ?_⟩
  rw [writeAdminPassword, if_pos rfl]
  simp only [hhash]
  rfl

theorem writeAdminPassword_existing (file : DatabaseFile) (settings : AppSettings) (x : BootInput) :
    (∃ password hash, settings.resetAdminPassword = true ∧
      settings.adminPassword = some password ∧ hash.password = password ∧
      file.writeAdminPassword false settings x =
        .ok (file.resetAdminPassword hash (lastFour password) x.now, some .reset)) ∨
    settings.resetAdminPassword = false ∧
      file.writeAdminPassword false settings x = .ok (file, none) := by
  rw [writeAdminPassword, if_neg Bool.false_ne_true]
  rcases hflag : settings.resetAdminPassword with _ | _
  · exact .inr ⟨rfl, rfl⟩
  · obtain ⟨password, hpassword⟩ := Option.isSome_iff_exists.mp (settings.reset_paired hflag)
    obtain ⟨hash, hhash, heq⟩ := hashForBoot_of_ne_nil x.salt (settings.ne_nil hpassword)
    refine .inl ⟨password, hash, rfl, hpassword, heq, ?_⟩
    simp only [hpassword, hhash]
    rfl

/-- **A boot is refused** exactly when the version of the file is another one. -/
theorem initializeSchema_error (file : DatabaseFile) (settings : AppSettings) (x : BootInput) :
    (∃ e, file.initializeSchema settings x = .error e) ↔
      file.userVersion ≠ 0 ∧ file.userVersion ≠ schemaVersion := by
  rw [initializeSchema, syncBootstrapSchema]
  split
  · rename_i hzero
    obtain ⟨hash, source, -, hwrite⟩ := writeAdminPassword_fresh
      ⟨schemaVersion, none, ⟨∅, ∅, ∅⟩, Database.empty, []⟩ settings x
    simp [hzero, hwrite, bind, Except.bind, pure, Except.pure]
  · rename_i hne
    split
    · rename_i hversion
      exact ⟨fun _ => ⟨hne, hversion⟩, fun _ => ⟨_, rfl⟩⟩
    · rename_i hversion
      obtain ⟨password, hash, -, -, -, hwrite⟩ | ⟨-, hwrite⟩ :=
        writeAdminPassword_existing file settings x
      · simp [hversion, hwrite, bind, Except.bind, pure, Except.pure]
      · simp [hversion, hwrite, bind, Except.bind, pure, Except.pure]

/-- **What a boot does**: it never touches a session row or a token of an existing file. -/
theorem booted_of_initializeSchema (h : file.initializeSchema settings x = .ok (file', result)) :
    file'.userVersion = schemaVersion ∧
      Accounts.Booted settings x file.userVersion file.accounts file'.accounts
        result.passwordSource := by
  rw [initializeSchema, syncBootstrapSchema] at h
  split at h
  · rename_i hzero
    obtain ⟨hash, source, hsource, hwrite⟩ := writeAdminPassword_fresh
      ⟨schemaVersion, none, ⟨∅, ∅, ∅⟩, Database.empty, []⟩ settings x
    simp only [bind, Except.bind, hwrite, pure, Except.pure] at h
    obtain ⟨rfl, rfl⟩ := Prod.mk.inj (Except.ok.inj h)
    exact ⟨rfl, .seeded source hash hzero hsource rfl⟩
  · split at h
    · cases h
    · rename_i hversion
      have hversion : file.userVersion = schemaVersion := not_not.mp hversion
      obtain ⟨password, hash, hflag, hpassword, hhash, hwrite⟩ | ⟨-, hwrite⟩ :=
        writeAdminPassword_existing file settings x
      · simp only [bind, Except.bind, hwrite, pure, Except.pure] at h
        obtain ⟨rfl, rfl⟩ := Prod.mk.inj (Except.ok.inj h)
        exact ⟨hversion, .reset password hash hversion hflag hpassword hhash rfl⟩
      · simp only [bind, Except.bind, hwrite, pure, Except.pure] at h
        obtain ⟨rfl, rfl⟩ := Prod.mk.inj (Except.ok.inj h)
        exact ⟨hversion, .kept hversion rfl⟩

end DatabaseFile

end RestreamPlus
