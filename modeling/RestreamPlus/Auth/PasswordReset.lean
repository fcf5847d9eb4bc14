import RestreamPlus.Auth.PasswordChange
import RestreamPlus.Db.SchemaInit

/-!
# The password reset at boot

A history of a database file: boots, and between them the requests that the process
serves. A boot ends the process before it, so its tasks and what they did not commit
are gone. With `RESTREAM_RESET_ADMIN_PASSWORD` set, `initialize_schema` writes the hash of the
administrator and nothing else: the session rows and the tokens of an existing file stay,
and with the variable still set the next boot writes the hash once more.

The invariant is one about the rows that are older than the last reset: no such session
row is good after it, and no such token is active.
-/

namespace RestreamPlus

open Interleaving

namespace PasswordReset

section Histories

variable [Argon2]

/-- A database file with its process, and what is noted about its history. -/
structure Installation : Type where
  /-- as the last boot left it -/
  file : DatabaseFile
  auth : AuthConfig
  /-- `none` while no process is up -/
  keys : Option DerivedKeys
  clock : ℚ
  /-- the boot that reset the password last, and its time -/
  resetBoot : ℕ
  resetAt : ℚ
  /-- the password of the last boot if it reset the password -/
  lastReset : Option Text
  /-- the accounts before and after each boot that repeats the reset of the boot before -/
  repeats : List (Accounts × Accounts)

/-- What happens next: the process is started, with the keys it will be READY with, or a
task moves. -/
inductive Label : Type where
  | boot (settings : AppSettings) (keys : DerivedKeys) (x : BootInput)
  | run (l : AuthLabel)

/-- The time of a step. The clock does not go back. -/
def timeOf (clock : ℚ) : AuthLabel → ℚ
  | .resume _ x => x.now
  | _ => clock

namespace Installation

def accounts (i : Installation) : Accounts := i.auth.committed.accounts

/-- What is on disk. -/
def onDisk (i : Installation) : DatabaseFile := { i.file with accounts := i.accounts }

/-- The record after a boot: the password changes are counted anew. -/
def reboot (i : Installation) (a : Accounts) : Tracked where
  accounts := a
  record :=
    { a.boot.record with
      boots := i.auth.committed.record.boots + 1
      sessionBoot := i.auth.committed.record.sessionBoot
      tokenBoot := i.auth.committed.record.tokenBoot }

/-- A boot that is not refused. -/
def booted (i : Installation) (settings : AppSettings) (keys : DerivedKeys) (now : ℚ)
    (file : DatabaseFile) (source : Option PasswordSource) : Installation :=
  let reset := source = some .reset
  { file
    auth := Client.idle (i.reboot file.accounts)
    keys := some keys
    clock := now
    resetBoot := if reset then i.auth.committed.record.boots + 1 else i.resetBoot
    resetAt := if reset then now else i.resetAt
    lastReset := if reset then settings.adminPassword else none
    repeats :=
      if reset ∧ i.lastReset = settings.adminPassword then
        i.repeats ++ [(i.accounts, file.accounts)]
      else i.repeats }

/-- One step. -/
def step (normalize : Text → Text) (i : Installation) : Label → Option Installation
  | .boot settings keys x =>
    if x.now < i.clock then none
    else
      match i.onDisk.initializeSchema settings x with
      | .error _ => some { i with
          auth := Client.idle i.auth.committed, keys := none, clock := x.now }
      | .ok (file, result) => some (i.booted settings keys x.now file result.passwordSource)
  | .run l =>
    match i.keys with
    | none => none
    | some keys =>
      if timeOf i.clock l < i.clock then none
      else ((authClient normalize keys).step i.auth l).map fun c =>
        { i with auth := c, clock := timeOf i.clock l }

/-- Histories as a machine. -/
def machine (normalize : Text → Text) : Machine Installation Label := ⟨step normalize⟩

/-- A database file that was found like this. -/
def found (file : DatabaseFile) : Installation where
  file := file
  auth := Client.idle file.accounts.boot
  keys := none
  clock := 0
  resetBoot := 0
  resetAt := 0
  lastReset := none
  repeats := []

end Installation

/-- The same passwords are in force. -/
def SamePasswords (a a' : Accounts) : Prop :=
  ∀ user, (a'.users.get? user).map (fun row => row.passwordHash.password) =
    (a.users.get? user).map fun row => row.passwordHash.password

/-- What a password reset is for. -/
structure ResetHolds (i : Installation) : Prop where
  /-- nobody is authenticated by a session row or a token from before the last reset -/
  revoked : ∀ t ∈ i.auth.tasks, ∀ n, t.credential = some n → i.resetBoot ≤ n
  /-- a boot that repeats a reset leaves the passwords alone -/
  kept : ∀ p ∈ i.repeats, SamePasswords p.1 p.2

/-- A boot that resets the password finds no session row that is still good and no active
token; if it repeats the reset of the boot before, the password is still in force. -/
def MayBoot (i : Installation) (settings : AppSettings) (now : ℚ) : Prop :=
  i.file.userVersion = schemaVersion → settings.resetAdminPassword = true →
    (∀ row ∈ i.accounts.sessions.values, (row.expiresAt : ℚ) ≤ now) ∧
      (∀ row ∈ i.accounts.apiTokens.values, row.revokedAt ≠ none) ∧
      (i.lastReset = settings.adminPassword → ∀ password ∈ settings.adminPassword,
        ∀ row ∈ i.accounts.users.values, row.username = adminUsername →
          (verifyPassword row.passwordHash password).ok = true)

instance (i : Installation) (settings : AppSettings) (now : ℚ) :
    Decidable (MayBoot i settings now) := by
  unfold MayBoot
  infer_instance

/-- The steps that the theorem is about. -/
def Orderly (i : Installation) : Label → Prop
  | .boot settings _ x => MayBoot i settings x.now
  | .run _ => True

instance (i : Installation) (l : Label) : Decidable (Orderly i l) := by
  unfold Orderly
  split <;> infer_instance

/-! ## While the process is up -/

/-- Of the rows from before boot `n` no session is good after `time` and no token is active. -/
structure Clean (n : ℕ) (time : ℚ) (s : Tracked) : Prop where
  boots : n ≤ s.record.boots
  sessions : ∀ token row, s.accounts.sessions.get? token = some row →
    n ≤ s.record.sessionBoot token ∨ (row.expiresAt : ℚ) ≤ time
  apiTokens : ∀ id row, s.accounts.apiTokens.get? id = some row → row.revokedAt = none →
    n ≤ s.record.tokenBoot id

/-- The task was not authenticated by a row from before boot `n`. -/
def Recent (n : ℕ) (t : AuthTask) : Prop := ∀ m, t.credential = some m → n ≤ m

variable {n : ℕ} {time : ℚ} {s s' : Tracked} {t t' : AuthTask} {x : Input}

theorem Recent.same (h : Recent n t) (hsame : t.SameNotes t') : Recent n t' := by
  intro m hm
  exact h m (hsame.credential ▸ hm)

theorem Clean.createSession {readAt : ℕ} {token : TokenHash} {user : UserId} {now created : ℚ}
    (h : Clean n time s) (hs : s.createSession readAt token user now created = some s') :
    Clean n time s' := by
  obtain ⟨a, ha, rfl⟩ := Option.map_eq_some_iff.mp hs
  have htokens : a.apiTokens = s.accounts.apiTokens := by
    rw [Accounts.createSession] at ha
    obtain ⟨-, heq⟩ := Option.ite_none_right_eq_some.mp ha
    rw [← Option.some.inj heq]
  obtain ⟨-, -, row', -, hsessions⟩ := Accounts.createSession_eq_some ha
  refine ⟨h.boots, fun token' row hrow => ?_, fun id row hrow => h.apiTokens id row (htokens ▸ hrow)⟩
  by_cases htoken : token' = token
  · subst htoken
    exact .inl (by simpa using h.boots)
  · rw [hsessions, Dict.get?_insert_ne _ _ htoken] at hrow
    simpa [htoken] using h.sessions token' row hrow

theorem Clean.createToken {id : TokenId} {user : UserId} {token : TokenHash} {label : Text} {now : ℚ}
    (h : Clean n time s) (hs : s.createToken id user token label now = some s') :
    Clean n time s' := by
  obtain ⟨a, ha, rfl⟩ := Option.map_eq_some_iff.mp hs
  obtain ⟨-, hsessions, row', htokens⟩ := Accounts.createToken_eq_some ha
  refine ⟨h.boots, fun token' row hrow => h.sessions token' row (hsessions ▸ hrow),
    fun id' row hrow hactive => ?_⟩
  by_cases hid : id' = id
  · subst hid
    simpa using h.boots
  · rw [htokens, Dict.get?_insert_ne _ _ hid] at hrow
    simpa [hid] using h.apiTokens id' row hrow hactive

/-- The other statements bring no row back. -/
theorem Clean.exec {f : Accounts → Accounts} (h : Clean n time s)
    (hf : ∀ a : Accounts, a.Touched (f a)) : Clean n time (s.exec f) := by
  refine ⟨h.boots, fun token row hrow => ?_, fun id row hrow hactive => ?_⟩
  · obtain ⟨old, hold, -, hexpires⟩ := (hf s.accounts).sessions token row hrow
    rw [hexpires]
    exact h.sessions token old hold
  · obtain ⟨old, hold, hrevoked⟩ := (hf s.accounts).apiTokens id row hrow
    exact h.apiTokens id old hold (hrevoked hactive)

variable (normalize : Text → Text) (keys : DerivedKeys)

/-- A request is authenticated by a row that is good now. -/
theorem recent_goOn (h : Clean n time s) (ht : Recent n t) (hnow : time ≤ x.now)
    (hs : t.resume keys s x = some (.goOn t')) : Recent n t' := by
  obtain ⟨-, -, hnotes⟩ := AuthTask.resume_goOn hs
  cases hnotes with
  | same hsame => exact ht.same hsame
  | session token row hrow _ _ hcredential =>
    intro m hm
    rcases hcredential with heq | ⟨hlive, heq⟩
    · exact ht m (heq ▸ hm)
    · obtain rfl := Option.some.inj (heq.symm.trans hm)
      refine (h.sessions token row hrow).resolve_right fun hdead => ?_
      exact absurd hlive (not_lt.mpr (hdead.trans hnow))
  | apiToken id row hrow hactive _ _ heq =>
    intro m hm
    obtain rfl := Option.some.inj (heq.symm.trans hm)
    exact h.apiTokens id row hrow hactive

theorem clean_write (h : Clean n time s) (hs : t.resume keys s x = some (.write s' t')) :
    Clean n time s' := by
  obtain ⟨-, hwrite⟩ := AuthTask.resume_write hs
  cases hwrite with
  | login user password needsRehash token now created hawait hs hnone' => exact h.createSession hs
  | change user newHash hawait hs hsome' => exact hs ▸ ⟨h.boots, h.sessions, h.apiTokens⟩
  | revoke user hsome hs hnone' => exact hs ▸ h.exec fun a => a.touched_deleteAllForUser user
  | create user id label token now hs hnone hnone' => exact h.createToken hs
  | touch f hf hs hnone hnone' => exact hs ▸ h.exec hf

theorem rule (n : ℕ) (time : ℚ) : (authClient normalize keys).Rule AuthTask.Rehashes (Clean n time)
    (fun _ => Clean n time) (fun _ _ => True) (fun _ => Recent n) (fun _ _ x => time ≤ x.now) where
  toLocking := authLocking normalize keys
  refl _ := trivial
  trans _ _ _ _ _ := trivial
  own_of_inv _ _ h := h
  fact_mono _ _ _ _ h := h
  fact_accept _ _ _ _ hm := absurd hm (Option.some_ne_none _).symm
  goOn _ _ _ _ _ _ hclean ht hnow h := ⟨hclean, recent_goOn keys hclean ht hnow h⟩
  write _ _ _ _ _ _ _ hclean ht _ h :=
    ⟨trivial, clean_write keys hclean h, ht.same (AuthTask.resume_write h).1⟩
  commit _ _ t _ _ _ hclean ht _ h := by
    rw [(AuthTask.resume_commit h).2]
    exact ⟨hclean, ht.same (t.sameNotes_moveTo .returned)⟩
  rollback _ _ t _ _ _ _ ht _ h := by
    rw [AuthTask.resume_rollback h]
    exact ht.same (t.sameNotes_moveTo .raised)
  busy _ _ t _ _ _ _ _ hclean ht _ h := by
    rw [(AuthTask.resume_separate h).2]
    exact ⟨hclean, ht.same (t.sameNotes_moveTo .committing)⟩
  failed _ t t' ht h := by
    obtain ⟨-, heq⟩ := Option.ite_none_left_eq_some.mp h
    obtain rfl := Option.some.inj heq
    exact ht

/-! ## Histories -/

/-- What holds of an installation throughout. -/
structure Sane (i : Installation) : Prop where
  sound : Client.Sound AuthTask.Rehashes (Clean i.resetBoot i.resetAt)
    (fun _ => Clean i.resetBoot i.resetAt) (fun _ _ => True) (fun _ => Recent i.resetBoot) i.auth
  resetAt_le : i.resetAt ≤ i.clock
  kept : ∀ p ∈ i.repeats, SamePasswords p.1 p.2

/-- The password that is in force is written once more. -/
theorem samePasswords_resetAdmin {a : Accounts} {hash : PasswordHash}
    (h : ∀ row ∈ a.users.values, row.username = adminUsername →
      (verifyPassword row.passwordHash hash.password).ok = true) :
    SamePasswords a (a.resetAdmin hash) := by
  intro user
  rw [Accounts.resetAdmin, Dict.get?_mapValues, Option.map_map]
  rcases hrow : a.users.get? user with _ | row
  · rfl
  · have hmem : row ∈ a.users.values := Dict.mem_values.mpr ⟨user, hrow⟩
    simp only [Option.map_some, Function.comp_apply]
    split
    · rename_i hadmin
      rw [verifyPassword_ok.mp (h row hmem hadmin)]
    · rfl

variable {i i' : Installation}

/-- **A boot** that is not refused. -/
theorem Sane.booted {settings : AppSettings} {x : BootInput} {file : DatabaseFile}
    {source : Option PasswordSource} (h : Sane i) (hclock : i.clock ≤ x.now)
    (hok : MayBoot i settings x.now)
    (hb : Accounts.Booted settings x i.file.userVersion i.accounts file.accounts source) :
    Sane (i.booted settings keys x.now file source) := by
  have hclean : Clean i.resetBoot i.resetAt i.auth.committed := h.sound.committed
  have hboots : i.resetBoot ≤ i.auth.committed.record.boots + 1 :=
    hclean.boots.trans (Nat.le_succ _)
  cases hb with
  | seeded source hash hversion hsource ha =>
    have hno : some source ≠ some PasswordSource.reset := fun heq => hsource (Option.some.inj heq)
    simp only [Installation.booted, if_neg hno, if_neg (fun hand => hno (And.left hand))]
    refine ⟨Client.sound_idle ⟨hboots, fun token row hrow => ?_, fun id row hrow => ?_⟩,
      h.resetAt_le.trans hclock, h.kept⟩
    · rw [Installation.reboot, ha] at hrow
      cases hrow
    · rw [Installation.reboot, ha] at hrow
      cases hrow
  | kept hversion ha =>
    have hno : (none : Option PasswordSource) ≠ some .reset := nofun
    simp only [Installation.booted, if_neg hno, if_neg (fun hand => hno (And.left hand))]
    refine ⟨Client.sound_idle ⟨hboots, fun token row hrow => ?_, fun id row hrow => ?_⟩,
      h.resetAt_le.trans hclock, h.kept⟩
    · rw [Installation.reboot, ha] at hrow
      exact hclean.sessions token row hrow
    · rw [Installation.reboot, ha] at hrow
      exact hclean.apiTokens id row hrow
  | reset password hash hversion hflag hpassword hhash ha =>
    obtain ⟨hsessions, htokens, hrepeat⟩ := hok hversion hflag
    simp only [Installation.booted, if_pos trivial, true_and]
    refine ⟨Client.sound_idle ⟨le_rfl, fun token row hrow => ?_, fun id row hrow hactive => ?_⟩,
      le_rfl, ?_⟩
    · rw [Installation.reboot, ha] at hrow
      exact .inr (hsessions row (Dict.mem_values.mpr ⟨token, hrow⟩))
    · rw [Installation.reboot, ha] at hrow
      exact absurd hactive (htokens row (Dict.mem_values.mpr ⟨id, hrow⟩))
    · intro p hp
      split at hp
      · rename_i hsame
        rcases List.mem_append.mp hp with hold | hnew
        · exact h.kept p hold
        · rw [List.mem_singleton.mp hnew, ha]
          refine samePasswords_resetAdmin fun row hrow hadmin => ?_
          rw [hhash]
          exact hrepeat hsame password hpassword row hrow hadmin
      · exact h.kept p hp

/-- **A step of the process**. -/
theorem Sane.run {l : AuthLabel} {c : AuthConfig} (h : Sane i) (hclock : i.clock ≤ timeOf i.clock l)
    (hs : (authClient normalize keys).step i.auth l = some c) :
    Sane { i with auth := c, clock := timeOf i.clock l } := by
  refine ⟨(rule normalize keys i.resetBoot i.resetAt).sound_step h.sound ?_ hs,
    h.resetAt_le.trans hclock, h.kept⟩
  cases l with
  | resume j x => exact fun _ _ => h.resetAt_le.trans hclock
  | arrive _ | fail _ => trivial

/-- **One step** of a history. -/
theorem sane_step {l : Label} (h : Sane i) (hok : Orderly i l)
    (hs : i.step normalize l = some i') : Sane i' := by
  cases l with
  | boot settings keys x =>
    simp only [Installation.step] at hs
    split at hs
    · cases hs
    · rename_i hclock
      split at hs
      · -- refused: the process is down, and the file is what it was
        obtain rfl := Option.some.inj hs
        exact ⟨Client.sound_idle h.sound.committed, h.resetAt_le.trans (not_lt.mp hclock), h.kept⟩
      · rename_i file result hinit
        obtain rfl := Option.some.inj hs
        exact h.booted keys (not_lt.mp hclock) hok
          (DatabaseFile.booted_of_initializeSchema hinit).2
  | run l =>
    simp only [Installation.step] at hs
    split at hs
    · cases hs
    · rename_i keys _
      split at hs
      · cases hs
      · rename_i hclock
        obtain ⟨c, hc, rfl⟩ := Option.map_eq_some_iff.mp hs
        exact h.run normalize keys (not_lt.mp hclock) hc

/-- **A password reset invalidates prior access, once**, in every state of every history
in which a boot that resets the password finds no session row that is still good and no
active token, and one that repeats a reset finds its password in force. -/
theorem reset_holds (file : DatabaseFile) (labels : List Label)
    (h : (Installation.machine normalize).Meets Orderly (.found file) labels) :
    (Installation.machine normalize).Always ResetHolds (.found file) labels := by
  refine Machine.always_of_inv (I := Sane) ?_ ?_ ?_ h
  · intro i l i' hsane hok hs
    exact sane_step normalize hsane hok hs
  · exact fun i hsane => ⟨hsane.sound.tasks, hsane.kept⟩
  · exact ⟨Client.sound_idle ⟨le_rfl, fun _ _ _ => .inl le_rfl, fun _ _ _ _ => le_rfl⟩, le_rfl, nofun⟩

end Histories

/-! ## What the reset leaves -/

section Left

open PasswordChange

attribute [local instance] recordingArgon2

/-- The variables that the operator sets to get back in. -/
def resetSettings : AppSettings where
  adminPassword := some "reset password 3".toList
  resetAdminPassword := true
  length_admin := by decide
  reset_paired := by decide

def resetInput : BootInput where
  now := 10
  adminId := 0
  salt := [3]
  ingestKey := "ingest".toList
  autogenerated := List.replicate 20 'x'
  length_autogenerated := by decide

/-- A database file with these accounts. -/
def resetFile (a : Accounts) : DatabaseFile where
  userVersion := schemaVersion
  settings := some ⟨true, 600, 14, SettingsRow.seed "ingest".toList⟩
  accounts := a
  database := Database.empty
  auditLog := []

/-- Somebody else has a cookie and a token. -/
def sharedAccounts : Accounts where
  users := changeAccounts.users
  sessions := changeAccounts.sessions
  apiTokens := (∅ : Dict TokenId ApiTokenRow).insert 0
    ⟨0, computeTokenHash "rpat_secret".toList changeKeys.apiTokenMacKey, "cli".toList, 0, none, none⟩

/-- Nobody is logged in. -/
def quietAccounts : Accounts := ⟨changeAccounts.users, ∅, ∅⟩

def bootReset : Label := .boot resetSettings changeKeys resetInput

def serve (labels : List AuthLabel) : List Label := labels.map .run

/-- A request with the cookie, and one with the token. -/
def otherAccess : List Label :=
  serve ([.arrive (.authenticated (.cookie "here".toList) .other)] ++ stretches 0 4 ++
    [.arrive (.authenticated (.bearer "rpat_secret".toList) .other)] ++ stretches 1 4)

/-- The operator logs in with the password of the reset. -/
def operatorLogin : List Label :=
  serve ([.arrive (.login adminUsername "reset password 3".toList)] ++ stretches 0 5)

/-- … and changes it. -/
def operatorChange : List Label :=
  serve ([.arrive (.authenticated (.cookie "elsewhere".toList) (.changePassword
    ⟨"reset password 3".toList, changeBody.newPassword, by decide, changeBody.new_length⟩))] ++ stretches 1 8)

/-- The cookie and the token of somebody else are good after the reset. And when the operator
has changed the password, the next start puts the one of the reset back. -/
theorem reset_spares_access :
    (∃ i, (Installation.machine id).run (.found (resetFile sharedAccounts))
        ([bootReset] ++ otherAccess) = some i ∧
      (∀ t ∈ i.auth.tasks, t.succeeded = true ∧ t.credential = some 0) ∧ i.auth.tasks.length = 2 ∧
      i.resetBoot = 1 ∧ ¬ ResetHolds i) ∧
    ∃ i, (Installation.machine id).run (.found (resetFile quietAccounts))
        ([bootReset] ++ operatorLogin ++ operatorChange ++ [bootReset]) = some i ∧
      ¬ ResetHolds i := by
  constructor
  · have hlast : ((Installation.machine id).run (.found (resetFile sharedAccounts))
        ([bootReset] ++ otherAccess)).any (fun i =>
          (∀ t ∈ i.auth.tasks, t.succeeded = true ∧ t.credential = some 0) ∧
            i.auth.tasks.length = 2 ∧ i.resetBoot = 1) = true := by decide +kernel
    obtain ⟨i, hi, htest⟩ := (Option.any_eq_true _ _).mp hlast
    obtain ⟨hserved, hlen, hboot⟩ := of_decide_eq_true htest
    refine ⟨i, hi, hserved, hlen, hboot, fun h => ?_⟩
    have hmem : i.auth.tasks[0] ∈ i.auth.tasks := List.getElem_mem (by rw [hlen]; decide)
    have hle : i.resetBoot ≤ 0 := h.revoked _ hmem 0 (hserved _ hmem).2
    rw [hboot] at hle
    exact absurd hle (by decide)
  · have hlast : ((Installation.machine id).run (.found (resetFile quietAccounts))
        ([bootReset] ++ operatorLogin ++ operatorChange ++ [bootReset])).any (fun i =>
          i.repeats.any fun p =>
            (p.2.users.get? 0).map (fun row => row.passwordHash.password) ≠
              (p.1.users.get? 0).map fun row => row.passwordHash.password) = true := by
      decide +kernel
    obtain ⟨i, hi, htest⟩ := (Option.any_eq_true _ _).mp hlast
    obtain ⟨p, hp, hne⟩ := List.any_eq_true.mp htest
    exact ⟨i, hi, fun h => of_decide_eq_true hne (h.kept p hp 0)⟩

/-- Somebody else had a cookie, which has expired, and a token, which is revoked. -/
def formerAccounts : Accounts where
  users := changeAccounts.users
  sessions := (∅ : Dict TokenHash HttpSessionRow).insert
    (computeTokenHash "here".toList changeKeys.sessionTokenMacKey) ⟨0, 0, 5, 0⟩
  apiTokens := (∅ : Dict TokenId ApiTokenRow).insert 0
    ⟨0, computeTokenHash "rpat_secret".toList changeKeys.apiTokenMacKey, "cli".toList, 0, none,
      some 5⟩

/-- A request with the cookie, one with the token, and a login with the old password. -/
def formerAccess : List Label :=
  serve ([.arrive (.authenticated (.cookie "here".toList) .other)] ++ stretches 0 3 ++
    [.arrive (.authenticated (.bearer "rpat_secret".toList) .other)] ++ stretches 1 2 ++
    [.arrive (.login adminUsername "old password 1".toList)] ++ stretches 2 2)

/-- What others had is not good any more, all of them are refused after the reset, and the
operator keeps the password of the reset. -/
theorem reset_holds_when_alone :
    (Installation.machine id).Always ResetHolds (.found (resetFile formerAccounts))
        ([bootReset] ++ formerAccess ++ [bootReset]) ∧
      ((Installation.machine id).run (.found (resetFile formerAccounts))
        ([bootReset] ++ formerAccess)).map (fun i =>
          i.auth.tasks.map fun t => (t.isOver, t.succeeded)) =
        some [(true, false), (true, false), (true, false)] :=
  ⟨reset_holds _ _ _ (by decide +kernel), by decide +kernel⟩

end Left

end PasswordReset

end RestreamPlus
