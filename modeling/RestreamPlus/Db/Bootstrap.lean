import RestreamPlus.Db.SchemaInit

/-!
# The bring-up of a new database, one durable step at a time (`app/db/schema_init.py`)

`executescript` runs outside a transaction, and `schema.sql` opens none: every
`CREATE` of it is durable by itself. `PRAGMA user_version` is the next step, and
the rows are seeded in a transaction of another connection after the password has
been hashed in a thread. A boot that raises or is killed leaves what the steps
before have written; an instance is that, together with the passwords printed so far.

`user_version` alone decides whether a boot is the first one. So a boot that
stopped between the first `CREATE` and the commit of the seed cannot be repaired by
another boot, and `bootstrap_atomic_iff` says that these are the only ones.
-/

namespace RestreamPlus

/-- The tables and indexes of `schema.sql`. -/
inductive SchemaObject : Type where
  | users
  | sessions
  | idxSessionsUserId
  | idxSessionsExpiresAt
  | apiTokens
  | idxApiTokensUserId
  | idxApiTokensRevokedAt
  | targets
  | idxTargetsType
  | idxTargetsEnabled
  | credentials
  | auditLog
  | idxAuditLogAt
  | idxAuditLogEventType
  | idxAuditLogTargetId
  | sessionsHistory
  | idxSessionsHistoryStartedAt
  | idxSessionsHistoryEndedAt
  | settings
  | system
  deriving DecidableEq

/-- The statements of `schema.sql`, each a plain `CREATE`. -/
def schemaSql : List SchemaObject :=
  [.users, .sessions, .idxSessionsUserId, .idxSessionsExpiresAt, .apiTokens, .idxApiTokensUserId,
    .idxApiTokensRevokedAt, .targets, .idxTargetsType, .idxTargetsEnabled, .credentials, .auditLog,
    .idxAuditLogAt, .idxAuditLogEventType, .idxAuditLogTargetId, .sessionsHistory,
    .idxSessionsHistoryStartedAt, .idxSessionsHistoryEndedAt, .settings, .system]

section Instances

variable [Argon2]

/-- A database file with its schema, and what the operator has been shown. -/
structure Instance : Type where
  objects : List SchemaObject
  file : DatabaseFile
  shown : List Text
  deriving DecidableEq

/-- The steps of `initialize_schema` that leave something behind. -/
inductive BootStep : Type where
  /-- a statement of the script -/
  | create : SchemaObject → BootStep
  | setUserVersion
  /-- `_resolve_bootstrap_password` prints a generated password -/
  | resolvePassword
  /-- the hash, then the transaction of `_seed_initial_rows` -/
  | seed
  /-- the hash, then the transaction of `_reset_admin_password` -/
  | reset
  /-- the transaction of `_recover_interrupted_sessions` -/
  | recover

namespace Instance

/-- An empty data directory. -/
def blank : Instance := ⟨[], ⟨0, none, ⟨∅, ∅, ∅⟩, Database.empty, []⟩, []⟩

/-- One step, `none` when it raises. -/
def execute (d : Instance) (settings : AppSettings) (x : BootInput) : BootStep → Option Instance
  -- without `IF NOT EXISTS`
  | .create o => if o ∈ d.objects then none else some { d with objects := d.objects ++ [o] }
  | .setUserVersion => some { d with file := { d.file with userVersion := schemaVersion } }
  | .resolvePassword =>
    match settings.adminPassword with
    | some _ => some d
    | none => some { d with shown := d.shown ++ [x.autogenerated] }
  | .seed =>
    let (password, source) := resolveBootstrapPassword settings x
    match hashForBoot password x.salt with
    | .error _ => none
    | .ok hash => some { d with file := d.file.seedInitialRows hash source (lastFour password) x }
  | .reset =>
    match settings.adminPassword with
    | none => none
    | some password =>
      match hashForBoot password x.salt with
      | .error _ => none
      | .ok hash => some { d with file := d.file.resetAdminPassword hash (lastFour password) x.now }
  | .recover => some { d with file := d.file.recoverInterruptedSessions x.now }

/-- The steps of a boot, `none` when the version is another one. -/
def bootSteps (d : Instance) (settings : AppSettings) : Option (List BootStep) :=
  if d.file.userVersion = 0 then
    some (schemaSql.map .create ++ [.setUserVersion, .resolvePassword, .seed, .recover])
  else if d.file.userVersion ≠ schemaVersion then none
  else if settings.resetAdminPassword ∧ settings.adminPassword.isSome then some [.reset, .recover]
  else some [.recover]

/-- All of these steps, `none` as soon as one raises. -/
def executeAll (settings : AppSettings) (x : BootInput) : List BootStep → Instance → Option Instance
  | [], d => some d
  | step :: steps, d => (d.execute settings x step).bind (executeAll settings x steps)

/-- The first `k` of these steps, as far as they do not raise. -/
def executeFirst (settings : AppSettings) (x : BootInput) :
    ℕ → List BootStep → Instance → Instance
  | 0, _, d | _, [], d => d
  | k + 1, step :: steps, d =>
    match d.execute settings x step with
    | none => d
    | some d' => executeFirst settings x k steps d'

/-- `initialize_schema` to completion, `none` when it raises. -/
def boot (d : Instance) (settings : AppSettings) (x : BootInput) : Option Instance :=
  (d.bootSteps settings).bind fun steps => executeAll settings x steps d

/-- `initialize_schema`, stopped after `k` steps. -/
def interrupted (d : Instance) (settings : AppSettings) (x : BootInput) (k : ℕ) : Instance :=
  executeFirst settings x k ((d.bootSteps settings).getD []) d

/-- The version, the settings row, and one administrator with a password that is known to
the operator, who supplied `supplied`. -/
structure Bootstrapped (supplied : Text → Prop) (d : Instance) : Prop where
  version : d.file.userVersion = schemaVersion
  settings : d.file.settings.isSome = true
  admin : ∃ id row, d.file.accounts.users.get? id = some row ∧ row.username = adminUsername ∧
    (∀ id' row', d.file.accounts.users.get? id' = some row' → row'.username = adminUsername →
      id' = id) ∧
    ∃ password, (supplied password ∨ password ∈ d.shown) ∧
      (verifyPassword row.passwordHash password).ok = true

/-! ## The script -/

variable {d d' : Instance} {settings : AppSettings} {x : BootInput}

theorem executeFirst_nil (k : ℕ) : executeFirst settings x k [] d = d := by
  cases k <;> rfl

theorem executeFirst_cons {step : BootStep} (k : ℕ) (steps : List BootStep)
    (h : d.execute settings x step = some d') :
    executeFirst settings x (k + 1) (step :: steps) d = executeFirst settings x k steps d' := by
  rw [executeFirst, h]

theorem executeAll_cons {step : BootStep} (steps : List BootStep)
    (h : d.execute settings x step = some d') :
    executeAll settings x (step :: steps) d = executeAll settings x steps d' := by
  rw [executeAll, h, Option.bind_some]

/-- The statements create what is not there yet. -/
theorem executeAll_create {os : List SchemaObject} (hnd : (d.objects ++ os).Nodup)
    (steps : List BootStep) :
    executeAll settings x (os.map .create ++ steps) d =
      executeAll settings x steps { d with objects := d.objects ++ os } := by
  induction os generalizing d with
  | nil => simp
  | cons o os ih =>
    have hnew : o ∉ d.objects := fun ho =>
      (List.nodup_append.mp hnd).2.2 o ho o List.mem_cons_self rfl
    have hnext : d.execute settings x (.create o) = some { d with objects := d.objects ++ [o] } :=
      if_neg hnew
    rw [List.map_cons, List.cons_append, executeAll_cons _ hnext, ih (by simpa using hnd)]
    simp

/-- … as many as there is time for. -/
theorem executeFirst_create {os : List SchemaObject} (hnd : (d.objects ++ os).Nodup)
    (steps : List BootStep) (k : ℕ) :
    executeFirst settings x k (os.map .create ++ steps) d =
      executeFirst settings x (k - os.length) steps
        { d with objects := d.objects ++ os.take k } := by
  induction os generalizing d k with
  | nil => simp
  | cons o os ih =>
    cases k with
    | zero => simp [executeFirst]
    | succ k =>
      have hnew : o ∉ d.objects := fun ho =>
        (List.nodup_append.mp hnd).2.2 o ho o List.mem_cons_self rfl
      have hnext : d.execute settings x (.create o) = some { d with objects := d.objects ++ [o] } :=
        if_neg hnew
      rw [List.map_cons, List.cons_append, executeFirst_cons _ _ hnext, ih (by simpa using hnd)]
      simp

omit [Argon2] in
theorem nodup_schemaSql : schemaSql.Nodup := by decide

/-! ## Instances beyond repair -/

/-- The script was not finished, or the version is set and nothing is seeded. -/
def Unseeded (d : Instance) : Prop :=
  d.file.userVersion = 0 ∧ SchemaObject.users ∈ d.objects ∨
    d.file.userVersion = schemaVersion ∧ d.file.settings = none

theorem Unseeded.not_bootstrapped {supplied : Text → Prop} (h : Unseeded d) :
    ¬ Bootstrapped supplied d := by
  intro hb
  rcases h with ⟨hv, -⟩ | ⟨-, hs⟩
  · rw [hb.version] at hv
    cases hv
  · have hsome := hb.settings
    rw [hs] at hsome
    cases hsome

/-- The script of another boot raises at its first statement. -/
theorem execute_create_users (ho : SchemaObject.users ∈ d.objects) :
    d.execute settings x (.create .users) = none := if_pos ho

/-- The steps of a boot that is not the first one. -/
theorem bootSteps_existing (settings : AppSettings) (hv : d.file.userVersion = schemaVersion) :
    d.bootSteps settings = some [.reset, .recover] ∨ d.bootSteps settings = some [.recover] := by
  have hne : d.file.userVersion ≠ 0 := by
    rw [hv]
    decide
  rw [bootSteps, if_neg hne, if_neg (not_not.mpr hv)]
  split
  · exact .inl rfl
  · exact .inr rfl

/-- Neither a reset nor a recovery adds a row. -/
theorem unseeded_execute {step : BootStep} (hstep : step = .reset ∨ step = .recover)
    (hv : d.file.userVersion = schemaVersion) (hs : d.file.settings = none)
    (h : d.execute settings x step = some d') :
    d'.file.userVersion = schemaVersion ∧ d'.file.settings = none := by
  rcases hstep with rfl | rfl
  · simp only [execute] at h
    split at h
    · cases h
    · split at h
      · cases h
      · obtain rfl := Option.some.inj h
        exact ⟨hv, by simp [DatabaseFile.resetAdminPassword, hs]⟩
  · obtain rfl := Option.some.inj h
    exact ⟨hv, hs⟩

theorem unseeded_executeFirst {steps : List BootStep}
    (hsteps : ∀ step ∈ steps, step = .reset ∨ step = .recover) (k : ℕ)
    (hv : d.file.userVersion = schemaVersion) (hs : d.file.settings = none) :
    Unseeded (executeFirst settings x k steps d) := by
  induction steps generalizing d k with
  | nil =>
    rw [executeFirst_nil]
    exact .inr ⟨hv, hs⟩
  | cons step steps ih =>
    cases k with
    | zero => exact .inr ⟨hv, hs⟩
    | succ k =>
      rcases hd : d.execute settings x step with _ | d'
      · rw [executeFirst, hd]
        exact .inr ⟨hv, hs⟩
      · obtain ⟨hv', hs'⟩ := unseeded_execute (hsteps step List.mem_cons_self) hv hs hd
        rw [executeFirst_cons k steps hd]
        exact ih (fun step' h' => hsteps step' (List.mem_cons_of_mem step h')) k hv' hs'

/-- The steps of a boot of a file without a version. -/
theorem bootSteps_fresh (settings : AppSettings) (hv : d.file.userVersion = 0) :
    d.bootSteps settings = some (schemaSql.map .create ++
      [.setUserVersion, .resolvePassword, .seed, .recover]) :=
  if_pos hv

/-- **No boot repairs it**, however often and with whatever settings it is tried. -/
theorem Unseeded.interrupted (h : Unseeded d) (k : ℕ) :
    Unseeded (d.interrupted settings x k) := by
  rcases h with ⟨hv, ho⟩ | ⟨hv, hs⟩
  · rw [Instance.interrupted, bootSteps_fresh settings hv, Option.getD_some]
    cases k with
    | zero => exact .inl ⟨hv, ho⟩
    | succ k =>
      -- the first statement of the script raises
      rw [schemaSql, List.map_cons, List.cons_append, executeFirst, execute_create_users ho]
      exact .inl ⟨hv, ho⟩
  · rw [Instance.interrupted]
    rcases bootSteps_existing settings hv with hsteps | hsteps
    · rw [hsteps]
      exact unseeded_executeFirst (by simp) k hv hs
    · rw [hsteps]
      exact unseeded_executeFirst (by simp) k hv hs

/-- A boot that completes is one that was not stopped. -/
theorem executeAll_eq_executeFirst {steps : List BootStep}
    (h : executeAll settings x steps d = some d') :
    executeFirst settings x steps.length steps d = d' := by
  induction steps generalizing d with
  | nil => exact Option.some.inj h
  | cons step steps ih =>
    obtain ⟨d₁, h₁, h₂⟩ := Option.bind_eq_some_iff.mp h
    rw [List.length_cons, executeFirst_cons _ _ h₁]
    exact ih h₂

theorem Unseeded.boot (h : Unseeded d) (hb : d.boot settings x = some d') : Unseeded d' := by
  obtain ⟨steps, hsteps, hall⟩ := Option.bind_eq_some_iff.mp hb
  have hk : Unseeded (d.interrupted settings x steps.length) := h.interrupted steps.length
  rwa [Instance.interrupted, hsteps, Option.getD_some, executeAll_eq_executeFirst hall] at hk

/-! ## Instances with an administrator -/

section Bootstrapped

variable {supplied : Text → Prop}

theorem Bootstrapped.mono {supplied' : Text → Prop} (h : Bootstrapped supplied d)
    (hle : ∀ password, supplied password → supplied' password) : Bootstrapped supplied' d where
  version := h.version
  settings := h.settings
  admin := by
    obtain ⟨id, row, hrow, hname, honly, password, hknown, hverify⟩ := h.admin
    exact ⟨id, row, hrow, hname, honly, password, hknown.imp_left (hle password), hverify⟩

/-- A reset gives the administrator the password that the operator supplied for it. -/
theorem Bootstrapped.reset (h : Bootstrapped supplied d) {password : Text} {hash : PasswordHash}
    (hhash : hash.password = password) (hsupplied : supplied password) (last4 : Text) (now : ℚ) :
    Bootstrapped supplied { d with file := d.file.resetAdminPassword hash last4 now } where
  version := h.version
  settings := by
    have hs := h.settings
    simpa [DatabaseFile.resetAdminPassword] using hs
  admin := by
    obtain ⟨id, row, hrow, hname, honly, -⟩ := h.admin
    have hget : ∀ id', (d.file.resetAdminPassword hash last4 now).accounts.users.get? id' =
        (d.file.accounts.users.get? id').map fun row =>
          if row.username = adminUsername then { row with passwordHash := hash } else row :=
      fun id' => Dict.get?_mapValues _ _ id'
    refine ⟨id, { row with passwordHash := hash }, ?_, hname, fun id' row' hrow' hname' => ?_,
      password, .inl hsupplied, ?_⟩
    · rw [hget, hrow, Option.map_some, if_pos hname]
    · rw [hget] at hrow'
      obtain ⟨old, hold, rfl⟩ := Option.map_eq_some_iff.mp hrow'
      refine honly id' old hold ?_
      split at hname' <;> assumption
    · exact verifyPassword_ok.mpr hhash.symm

theorem Bootstrapped.recover (h : Bootstrapped supplied d) (now : ℚ) :
    Bootstrapped supplied { d with file := d.file.recoverInterruptedSessions now } :=
  ⟨h.version, h.settings, h.admin⟩

/-- The password of a boot is supplied by the operator or printed. -/
def Supplied (settings : AppSettings) (password : Text) : Prop :=
  settings.adminPassword = some password

/-- What a reset leaves behind. -/
theorem exists_reset {password : Text} (hpassword : settings.adminPassword = some password)
    (x : BootInput) : ∃ hash, hashForBoot password x.salt = .ok hash ∧ hash.password = password ∧
      ∀ d : Instance, d.execute settings x .reset = some { d with
        file := d.file.resetAdminPassword hash (lastFour password) x.now } := by
  obtain ⟨hash, hhash, heq⟩ := hashForBoot_of_ne_nil x.salt (settings.ne_nil hpassword)
  exact ⟨hash, hhash, heq, fun d => by simp only [execute, hpassword, hhash]⟩

/-- **Another boot keeps it that way.** -/
theorem Bootstrapped.boot (h : Bootstrapped supplied d) (settings : AppSettings) (x : BootInput) :
    ∃ d', d.boot settings x = some d' ∧
      Bootstrapped (fun password => supplied password ∨ Supplied settings password) d' := by
  have h' : Bootstrapped (fun password => supplied password ∨ Supplied settings password) d :=
    h.mono fun _ => .inl
  have hne : d.file.userVersion ≠ 0 := by
    rw [h.version]
    decide
  unfold Instance.boot bootSteps
  rw [if_neg hne, if_neg (not_not.mpr h.version)]
  split
  · rename_i hflag
    obtain ⟨password, hpassword⟩ := Option.isSome_iff_exists.mp hflag.2
    obtain ⟨hash, -, heq, hreset⟩ := exists_reset hpassword x
    exact ⟨_, by rw [Option.bind_some, executeAll_cons _ (hreset d)]; rfl,
      (h'.reset heq (.inr hpassword) _ _).recover x.now⟩
  · exact ⟨_, rfl, h'.recover x.now⟩

end Bootstrapped

/-! ## Every point at which the first boot can stop -/

theorem interrupted_blank (settings : AppSettings) (x : BootInput) (k : ℕ) :
    blank.interrupted settings x k = executeFirst settings x (k - schemaSql.length)
      [.setUserVersion, .resolvePassword, .seed, .recover]
      { blank with objects := schemaSql.take k } := by
  rw [Instance.interrupted, bootSteps_fresh settings rfl, Option.getD_some,
    executeFirst_create (by exact nodup_schemaSql)]
  rfl

/-- The password of a first boot can be hashed. -/
theorem exists_seedHash (settings : AppSettings) (x : BootInput) :
    ∃ hash, hashForBoot (resolveBootstrapPassword settings x).1 x.salt = .ok hash ∧
      hash.password = (resolveBootstrapPassword settings x).1 := by
  refine hashForBoot_of_ne_nil x.salt ?_
  rw [resolveBootstrapPassword]
  split
  · rename_i password hpassword
    exact settings.ne_nil hpassword
  · exact x.ne_nil

/-- What the seed leaves behind. -/
theorem execute_seed {hash : PasswordHash}
    (hhash : hashForBoot (resolveBootstrapPassword settings x).1 x.salt = .ok hash) (d : Instance) :
    d.execute settings x .seed = some { d with
      file := d.file.seedInitialRows hash (resolveBootstrapPassword settings x).2
        (lastFour (resolveBootstrapPassword settings x).1) x } := by
  simp only [execute, hhash]

/-- The printed password, if one was generated. -/
def printed (settings : AppSettings) (x : BootInput) : List Text :=
  match settings.adminPassword with
  | some _ => []
  | none => [x.autogenerated]

theorem execute_resolvePassword (d : Instance) : d.execute settings x .resolvePassword =
    some { d with shown := d.shown ++ printed settings x } := by
  simp only [execute, printed]
  split <;> simp

theorem bootstrapped_seed (settings : AppSettings) (x : BootInput) {hash : PasswordHash}
    (hhash : hash.password = (resolveBootstrapPassword settings x).1) (source : PasswordSource)
    (last4 : Text) {d : Instance} (hv : d.file.userVersion = schemaVersion)
    (hu : d.file.accounts.users = ∅) (hshown : d.shown = printed settings x) :
    Bootstrapped (Supplied settings)
      { d with file := d.file.seedInitialRows hash source last4 x } where
  version := hv
  settings := rfl
  admin := by
    have hget : ∀ id, (d.file.seedInitialRows hash source last4 x).accounts.users.get? id =
        if id = x.adminId then some ⟨adminUsername, hash, none⟩ else none := by
      intro id
      simp only [DatabaseFile.seedInitialRows, hu, Dict.get?_insert, Dict.get?_empty]
    refine ⟨x.adminId, ⟨adminUsername, hash, none⟩, by rw [hget, if_pos rfl], rfl,
      fun id row hrow _ => ?_, hash.password, ?_, verifyPassword_ok.mpr rfl⟩
    · rw [hget] at hrow
      by_contra hne
      rw [if_neg hne] at hrow
      cases hrow
    · rw [hhash, hshown]
      unfold resolveBootstrapPassword printed Supplied
      cases hpassword : settings.adminPassword with
      | some password => exact .inl rfl
      | none => exact .inr (List.mem_singleton.mpr rfl)

/-- The steps after the script, on an empty database: the seed is the third. -/
theorem bootstrapped_of_script (settings : AppSettings) (x : BootInput)
    (os : List SchemaObject) : ∃ d, Bootstrapped (Supplied settings) d ∧
      executeAll settings x [.setUserVersion, .resolvePassword, .seed, .recover]
        { blank with objects := os } = executeAll settings x [.recover] d ∧
      ∀ k, executeFirst settings x (k + 3) [.setUserVersion, .resolvePassword, .seed, .recover]
        { blank with objects := os } = executeFirst settings x k [.recover] d := by
  obtain ⟨hash, hhash, heq⟩ := exists_seedHash settings x
  have hd := bootstrapped_seed settings x heq (resolveBootstrapPassword settings x).2
    (lastFour (resolveBootstrapPassword settings x).1) (d := ⟨os, ⟨schemaVersion, none, ⟨∅, ∅, ∅⟩,
      Database.empty, []⟩, printed settings x⟩) rfl rfl rfl
  refine ⟨_, hd, ?_, fun k => ?_⟩
  · rw [executeAll_cons _ rfl, executeAll_cons _ (execute_resolvePassword _),
      executeAll_cons _ (execute_seed hhash _)]
    rfl
  · rw [executeFirst_cons _ _ rfl, executeFirst_cons _ _ (execute_resolvePassword _),
      executeFirst_cons _ _ (execute_seed hhash _)]
    rfl

/-- A first boot that completes. -/
theorem bootstrapped_first_boot (settings : AppSettings) (x : BootInput) :
    ∃ d, blank.boot settings x = some d ∧ Bootstrapped (Supplied settings) d := by
  obtain ⟨d, hd, hall, -⟩ := bootstrapped_of_script settings x schemaSql
  refine ⟨_, ?_, hd.recover x.now⟩
  rw [Instance.boot, bootSteps_fresh settings rfl, Option.bind_some, executeAll_create (by exact nodup_schemaSql)]
  exact hall

/-- **The steps are those of `initialize_schema`**: a boot that completes does to the file
what `initializeSchema` says. -/
theorem initializeSchema_of_boot
    (hnew : d.file.userVersion = 0 → d.objects = [] ∧ d.file = blank.file)
    (h : d.boot settings x = some d') :
    ∃ result, d.file.initializeSchema settings x = .ok (d'.file, result) := by
  rw [DatabaseFile.initializeSchema, DatabaseFile.syncBootstrapSchema]
  unfold Instance.boot bootSteps at h
  split at h
  · rename_i hv
    obtain ⟨hobjects, hfile⟩ := hnew hv
    obtain ⟨hash, hhash, -⟩ := exists_seedHash settings x
    rw [Option.bind_some, executeAll_create (by rw [hobjects]; exact nodup_schemaSql),
      executeAll_cons _ rfl, executeAll_cons _ (execute_resolvePassword _),
      executeAll_cons _ (execute_seed hhash _), executeAll_cons _ rfl] at h
    obtain rfl := Option.some.inj h
    rw [if_pos hv]
    simp only [bind, Except.bind, pure, Except.pure, DatabaseFile.writeAdminPassword, if_true,
      hhash]
    exact ⟨_, by rw [hfile]; rfl⟩
  · rename_i hv
    rw [if_neg hv]
    split at h
    · cases h
    · rename_i hversion
      rw [if_neg hversion]
      split at h
      · rename_i hflag
        obtain ⟨password, hpassword⟩ := Option.isSome_iff_exists.mp hflag.2
        obtain ⟨hash, hhash, -, hreset⟩ := exists_reset hpassword x
        rw [Option.bind_some, executeAll_cons _ (hreset d), executeAll_cons _ rfl] at h
        obtain rfl := Option.some.inj h
        simp only [bind, Except.bind, pure, Except.pure, DatabaseFile.writeAdminPassword,
          Bool.false_eq_true, if_false, hflag.1, hpassword, hhash]
        exact ⟨_, rfl⟩
      · rename_i hflag
        rw [Option.bind_some, executeAll_cons _ rfl] at h
        obtain rfl := Option.some.inj h
        have hreset : settings.resetAdminPassword = false := by
          by_contra hr
          have hr := Bool.eq_true_of_not_eq_false hr
          exact hflag ⟨hr, settings.reset_paired hr⟩
        simp only [bind, Except.bind, pure, Except.pure, DatabaseFile.writeAdminPassword,
          Bool.false_eq_true, if_false, hreset]
        exact ⟨_, rfl⟩

/-- Before the seed has been committed: in the middle of the script or after it. -/
theorem unseeded_interrupted (settings : AppSettings) (x : BootInput) {k : ℕ} (hpos : k ≠ 0)
    (hk : k < schemaSql.length + 3) : Unseeded (blank.interrupted settings x k) := by
  rw [interrupted_blank]
  have husers : SchemaObject.users ∈ schemaSql.take k := by
    obtain ⟨j, rfl⟩ := Nat.exists_eq_succ_of_ne_zero hpos
    exact List.mem_cons_self
  have hlt : k - schemaSql.length < 3 := by omega
  generalize k - schemaSql.length = n at hlt
  match n, hlt with
  | 0, _ => exact .inl ⟨rfl, husers⟩
  | 1, _ => exact .inr ⟨rfl, rfl⟩
  | 2, _ =>
    rw [executeFirst_cons _ _ rfl, executeFirst_cons _ _ (execute_resolvePassword _)]
    exact .inr ⟨rfl, rfl⟩

/-- From the commit of the seed on. -/
theorem bootstrapped_interrupted (settings : AppSettings) (x : BootInput) {k : ℕ}
    (hk : schemaSql.length + 3 ≤ k) :
    Bootstrapped (Supplied settings) (blank.interrupted settings x k) := by
  obtain ⟨d, hd, -, hfirst⟩ := bootstrapped_of_script settings x (schemaSql.take k)
  have hn : k - schemaSql.length = (k - schemaSql.length - 3) + 3 := by omega
  rw [interrupted_blank, hn, hfirst]
  cases k - schemaSql.length - 3 with
  | zero => exact hd
  | succ n =>
    rw [executeFirst_cons n [] rfl, executeFirst_nil]
    exact hd.recover x.now

/-- **Exactly when the bring-up survives a crash.** The first boot of an empty data
directory stops after `k` durable steps, and another boot is run to completion,
with settings of its own. It ends with the right version, one settings row and
one administrator whose password is known to the operator, if and only if the
first boot had not begun the script yet or had committed the seed. -/
theorem bootstrap_atomic_iff (settings settings' : AppSettings) (x x' : BootInput) (k : ℕ) :
    (∃ d, (blank.interrupted settings x k).boot settings' x' = some d ∧
      Bootstrapped (fun password => Supplied settings password ∨ Supplied settings' password) d) ↔
    k = 0 ∨ schemaSql.length + 3 ≤ k := by
  constructor
  · rintro ⟨d, hboot, hd⟩
    by_contra hno
    obtain ⟨hpos, hk⟩ := not_or.mp hno
    have hun := unseeded_interrupted settings x hpos (Nat.lt_of_not_le hk)
    exact (hun.boot hboot).not_bootstrapped hd
  · rintro (rfl | hk)
    · obtain ⟨d, hboot, hd⟩ := bootstrapped_first_boot settings' x'
      exact ⟨d, hboot, hd.mono fun _ => .inr⟩
    · exact (bootstrapped_interrupted settings x hk).boot settings' x'

end Instance

end Instances

namespace Instance

attribute [local instance] recordingArgon2

/-- No password is configured. -/
def noPassword : AppSettings := ⟨none, false, nofun, nofun⟩

/-- A boot at the epoch. -/
def someBoot : BootInput := ⟨0, 7, [], [], List.replicate 20 'a', rfl⟩

/-- The process is killed while the password is hashed, after it has been
printed: the next boot is no first boot, and there is no administrator. -/
theorem killed_while_hashing : ∃ d, (blank.interrupted noPassword someBoot 22).boot noPassword
    someBoot = some d ∧ d.shown = [List.replicate 20 'a'] ∧ d.file.settings = none ∧
      d.file.accounts.users.keys = [] ∧ ¬ Bootstrapped (Supplied noPassword) d := by
  have hun : Unseeded (blank.interrupted noPassword someBoot 22) :=
    unseeded_interrupted noPassword someBoot (by decide) (by decide)
  have hboot : (blank.interrupted noPassword someBoot 22).boot noPassword someBoot = some _ := rfl
  exact ⟨_, hboot, rfl, rfl, rfl, (hun.boot hboot).not_bootstrapped⟩

end Instance

end RestreamPlus
