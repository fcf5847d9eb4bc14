import RestreamPlus.Lib.WriteLock
import RestreamPlus.Repositories.Accounts

/-!
# Logins, authenticated requests and password changes

`SessionAuthService` (`app/auth/sessions.py`), `ApiTokenService`
(`app/auth/api_tokens.py`), the authentication of a request by cookie or by bearer token
(`app/auth/deps.py`), the endpoints of `app/api/auth.py` that touch users or sessions,
with `_rehash_admin_password`, and those of `app/api/api_tokens_api.py`, as tasks that
share the three tables behind SQLite's write lock. An `Await` is a point where a task
awaits a statement, a commit or a thread; its arguments are the local variables that are
still needed.

A request has one database session. The first statement of it that writes is the
touch of the session row or of the token, so a password change has the write lock from
its authentication on, through both Argon2 runs, until its commit. A request that
raises is rolled back. The commit of `get_db_session` comes when the response has been
sent and its background tasks are over, so a rehash runs while its login has the write
lock; the session that the rehash opens waits for that lock and gives up.

Whether the rate limiter lets a login pass and whether a grant is good is left open:
a task may raise at any await. One process has one set of keys.

A `Record` is kept beside the tables: how often the password of a user was changed, the
password that was set last, how many changes the password had behind it that a
stored hash belongs to, and that the login of a session row verified; and which boot of
the process a session row or a token stems from.
-/

namespace RestreamPlus

open Interleaving

variable [Argon2]

/-- `SESSION_COOKIE_LIFETIME`: thirty days. -/
def sessionCookieLifetime : ℚ := 30 * 24 * 60 * 60

/-- `API_TOKEN_PREFIX`. -/
def apiTokenPrefix : Text := ['r', 'p', 'a', 't', '_']

/-- `generate_api_token_plaintext`, from the random part. -/
def generateApiTokenPlaintext (secret : Text) : Text := apiTokenPrefix ++ secret

/-- `_TOKEN_PREFIX_RE`: the prefix and at least one character that is URL-safe. -/
def hasTokenShape (plaintext : Text) : Bool :=
  let rest := plaintext.drop apiTokenPrefix.length
  apiTokenPrefix.isPrefixOf plaintext ∧ rest ≠ [] ∧
    rest.all fun c => c.isAlphanum || c = '_' || c = '-'

/-- The body of `POST /change-password`, validated. -/
structure ChangePasswordRequest : Type where
  currentPassword : Text
  newPassword : Text
  current_length : 1 ≤ currentPassword.length ∧ currentPassword.length ≤ 1024
  new_length : 12 ≤ newPassword.length ∧ newPassword.length ≤ 1024

/-- What an authenticated request is for. -/
inductive Endpoint : Type where
  /-- nothing that concerns these tables -/
  | other
  | changePassword (body : ChangePasswordRequest)
  | logoutAll
  /-- with the label as `strip` leaves it -/
  | createToken (label : Text)
  | revokeToken (id : TokenId)

/-- Where a task is suspended. -/
inductive Await : Type where
  /-- `_login_body`: `get_by_username` -/
  | gettingByUsername (username password : Text)
  /-- … `verify_password` in a thread, on the user that was found -/
  | verifyingLogin (user : Option UserDto) (password : Text)
  /-- … the `INSERT` of the session row; `created` is the clock that the repository reads -/
  | creatingSession (user : UserDto) (password : Text) (needsRehash : Bool) (token : TokenHash)
      (now created : ℚ)
  /-- … `touch_last_login` -/
  | touchingLogin (user : UserDto) (password : Text) (needsRehash : Bool) (now : ℚ)
  /-- `_rehash_admin_password`, with the response of the login sent: `hash_password` in a
  thread -/
  | rehashing (user : UserId) (plaintext : Text)
  /-- … `update_password_hash` in a session of its own, and the commit of that session -/
  | updatingRehash (user : UserId) (newHash : PasswordHash)
  /-- `verify_cookie`: `get_by_token_hash` -/
  | gettingSession (token : TokenHash) (e : Endpoint)
  /-- … `get_by_id` of the owner of the row -/
  | gettingOwner (token : TokenHash) (user : UserId) (now : ℚ) (e : Endpoint)
  /-- … `touch_last_seen` -/
  | touchingSession (token : TokenHash) (user : UserDto) (now : ℚ) (e : Endpoint)
  /-- … the deletion of a dead row -/
  | deletingSession (token : TokenHash)
  /-- the rollback of a request that is not authenticated -/
  | refusing
  /-- `verify_bearer`: `get_active_by_token_hash` -/
  | gettingToken (token : TokenHash) (e : Endpoint)
  /-- … `touch_last_used` -/
  | touchingToken (id : TokenId) (user : UserId) (now : ℚ) (e : Endpoint)
  /-- `get_current_user_via_bearer`: `get_by_id` of the owner of the token -/
  | gettingTokenOwner (user : UserId) (e : Endpoint)
  /-- `change_password`: `verify_password` in a thread -/
  | verifyingCurrent (user : UserDto) (body : ChangePasswordRequest)
  /-- … `hash_password` in a thread -/
  | hashingNew (user : UserDto) (body : ChangePasswordRequest)
  /-- … `update_password_hash` -/
  | updatingPassword (user : UserDto) (newHash : PasswordHash)
  /-- … `revoke_all_for_user` -/
  | revokingAll (user : UserDto)
  /-- `logout_all`: `revoke_all_for_user` -/
  | loggingOut (user : UserId)
  /-- `logout`: the deletion of the session row -/
  | revoking (token : TokenHash)
  /-- `ApiTokenService.create`: the `INSERT` -/
  | creatingToken (user : UserId) (id : TokenId) (label : Text) (token : TokenHash) (now : ℚ)
  /-- `ApiTokenService.revoke` -/
  | revokingToken (id : TokenId) (now : ℚ)
  /-- the commit of a request -/
  | committing
  | returned
  | raised

/-- What is on record about the users, the session rows and the tokens. -/
structure Record : Type where
  /-- how often the password of the user was changed -/
  changes : UserId → ℕ
  /-- the password of the user that was set last -/
  current : UserId → Text
  /-- the changes that had been made when the password of the stored hash was set -/
  hashAt : UserId → ℕ
  /-- the same for the hash that the login of this row verified -/
  verifiedAt : TokenHash → ℕ
  /-- how often the process was started -/
  boots : ℕ
  /-- the boot before the `INSERT` of this row -/
  sessionBoot : TokenHash → ℕ
  tokenBoot : TokenId → ℕ

/-- The tables and the record. -/
structure Tracked : Type where
  accounts : Accounts
  record : Record

/-- A task, and what is noted about it. -/
structure AuthTask : Type where
  await : Await
  /-- the changes that had been made when the task began -/
  startedAt : UserId → ℕ
  /-- for a login and its rehash: `hashAt` of the hash that the login read -/
  readAt : ℕ
  /-- for a request: the owner of the session row it came with, and the changes at
  the login of that row -/
  matched : Option (UserId × ℕ)
  /-- for a request: the boot that the session row or the token stems from that it was
  authenticated by -/
  credential : Option ℕ

/-- The clock and the random values of a stretch. -/
structure Input : Type where
  now : ℚ
  /-- the clock when it is read once more -/
  later : ℚ
  cookieValue : Text
  salt : Bytes
  tokenId : TokenId
  tokenSecret : Text

/-- How a request authenticates. -/
inductive Authorization : Type where
  | cookie (value : Text)
  | bearer (plaintext : Text)

/-- What comes in. -/
inductive AuthRequest : Type where
  | login (username password : Text)
  | authenticated (a : Authorization) (e : Endpoint)
  | logout (cookie : Text)

namespace Tracked

/-- The `INSERT` of a session row, noted. -/
def createSession (s : Tracked) (readAt : ℕ) (token : TokenHash) (user : UserId)
    (now created : ℚ) : Option Tracked :=
  (s.accounts.createSession token user created (now + sessionCookieLifetime)).map fun a =>
    ⟨a, { s.record with
      verifiedAt := Function.update s.record.verifiedAt token readAt
      sessionBoot := Function.update s.record.sessionBoot token s.record.boots }⟩

/-- The `INSERT` of a token, noted. -/
def createToken (s : Tracked) (id : TokenId) (user : UserId) (token : TokenHash) (label : Text)
    (now : ℚ) : Option Tracked :=
  (s.accounts.createToken id user token label now).map fun a =>
    ⟨a, { s.record with tokenBoot := Function.update s.record.tokenBoot id s.record.boots }⟩

/-- The `UPDATE` of a password change, noted. -/
def changePassword (s : Tracked) (user : UserId) (newHash : PasswordHash) : Tracked where
  accounts := s.accounts.updatePasswordHash user newHash
  record := { s.record with
    changes := Function.update s.record.changes user (s.record.changes user + 1)
    current := Function.update s.record.current user newHash.password
    hashAt := Function.update s.record.hashAt user (s.record.changes user + 1) }

/-- The `UPDATE` of a rehash, noted: the password of the login is back in force. -/
def rehash (s : Tracked) (readAt : ℕ) (user : UserId) (newHash : PasswordHash) : Tracked where
  accounts := s.accounts.updatePasswordHash user newHash
  record := { s.record with hashAt := Function.update s.record.hashAt user readAt }

/-- Another statement. -/
def exec (s : Tracked) (f : Accounts → Accounts) : Tracked := { s with accounts := f s.accounts }

end Tracked

namespace AuthTask

/-- The task is suspended elsewhere. -/
def moveTo (t : AuthTask) (a : Await) : AuthTask := { t with await := a }

/-- After the last statement of a login: its background task, if the hash is outdated. -/
def background (t : AuthTask) (user : UserId) (password : Text) (needsRehash : Bool) : AuthTask :=
  t.moveTo (if needsRehash then .rehashing user password else .committing)

/-- An authenticated request goes on. -/
def authenticated (keys : DerivedKeys) (t : AuthTask) (user : UserDto) (x : Input) :
    Endpoint → AuthTask
  | .other => t.moveTo .committing
  | .changePassword body => t.moveTo (.verifyingCurrent user body)
  | .logoutAll => t.moveTo (.loggingOut user.id)
  | .createToken label =>
    if label = [] then t.moveTo .refusing
    else
      let token := computeTokenHash (generateApiTokenPlaintext x.tokenSecret) keys.apiTokenMacKey
      t.moveTo (.creatingToken user.id x.tokenId label token x.now)
  | .revokeToken id => t.moveTo (.revokingToken id x.now)

/-- The code from an await to the next one, on what the session of the task sees. -/
def resume (keys : DerivedKeys) (t : AuthTask) (s : Tracked) (x : Input) :
    Option (Effect Tracked AuthTask) :=
  match t.await with
  | .gettingByUsername username password =>
    let user := s.accounts.getByUsername username
    some (.goOn { t with
      await := .verifyingLogin user password
      readAt := (user.map fun u => s.record.hashAt u.id).getD 0 })
  | .verifyingLogin none _ => some (.rollback (t.moveTo .raised))
  | .verifyingLogin (some user) password =>
    let result := verifyPassword user.passwordHash password
    if result.ok then
      let token := computeTokenHash x.cookieValue keys.sessionTokenMacKey
      some (.goOn (t.moveTo
        (.creatingSession user password result.needsRehash token x.now x.later)))
    else some (.rollback (t.moveTo .raised))
  | .creatingSession user password needsRehash token now created =>
    match s.createSession t.readAt token user.id now created with
    | none => some (.rollback (t.moveTo .raised))
    | some s => some (.write s (t.moveTo (.touchingLogin user password needsRehash now)))
  | .touchingLogin user password needsRehash now =>
    some (.write (s.exec fun a => a.touchLastLogin user.id now)
      (t.background user.id password needsRehash))
  -- the rehash catches what is raised in it
  | .rehashing user plaintext =>
    match hashPassword plaintext x.salt with
    | none => some (.goOn (t.moveTo .committing))
    | some newHash => some (.goOn (t.moveTo (.updatingRehash user newHash)))
  | .updatingRehash user newHash =>
    some (.separate (fun s => s.rehash t.readAt user newHash) (t.moveTo .committing)
      (t.moveTo .committing))
  | .gettingSession token e =>
    match s.accounts.getByTokenHash token with
    | none => some (.goOn (t.moveTo .refusing))
    | some row =>
      let t := { t with matched := some (row.userId, s.record.verifiedAt token) }
      if (row.expiresAt : ℚ) ≤ x.now then some (.goOn (t.moveTo (.deletingSession token)))
      else
        let t := { t with credential := some (s.record.sessionBoot token) }
        some (.goOn (t.moveTo (.gettingOwner token row.userId x.now e)))
  | .gettingOwner token user now e =>
    match s.accounts.getById user with
    | none => some (.goOn (t.moveTo (.deletingSession token)))
    | some user => some (.goOn (t.moveTo (.touchingSession token user now e)))
  | .touchingSession token user now e =>
    some (.write (s.exec fun a => a.touchLastSeen token now) (t.authenticated keys user x e))
  | .deletingSession token =>
    some (.write (s.exec fun a => a.deleteSession token) (t.moveTo .refusing))
  | .refusing => some (.rollback (t.moveTo .raised))
  | .gettingToken token e =>
    match s.accounts.getActiveByTokenHash token with
    | none => some (.goOn (t.moveTo .refusing))
    | some (id, row) =>
      let t := { t with credential := some (s.record.tokenBoot id) }
      some (.goOn (t.moveTo (.touchingToken id row.userId x.now e)))
  | .touchingToken id user now e =>
    some (.write (s.exec fun a => a.touchLastUsed id now) (t.moveTo (.gettingTokenOwner user e)))
  | .gettingTokenOwner user e =>
    match s.accounts.getById user with
    | none => some (.goOn (t.moveTo .refusing))
    | some user => some (.goOn (t.authenticated keys user x e))
  | .verifyingCurrent user body =>
    if (verifyPassword user.passwordHash body.currentPassword).ok then
      some (.goOn (t.moveTo (.hashingNew user body)))
    else some (.rollback (t.moveTo .raised))
  | .hashingNew user body =>
    match hashPassword body.newPassword x.salt with
    | none => some (.rollback (t.moveTo .raised))
    | some newHash => some (.goOn (t.moveTo (.updatingPassword user newHash)))
  | .updatingPassword user newHash =>
    some (.write (s.changePassword user.id newHash) (t.moveTo (.revokingAll user)))
  | .revokingAll user =>
    some (.write (s.exec fun a => a.deleteAllForUser user.id) (t.moveTo .committing))
  | .loggingOut user =>
    some (.write (s.exec fun a => a.deleteAllForUser user) (t.moveTo .committing))
  | .revoking token =>
    some (.write (s.exec fun a => a.deleteSession token) (t.moveTo .committing))
  | .creatingToken user id label token now =>
    match s.createToken id user token label now with
    | none => some (.rollback (t.moveTo .raised))
    | some s => some (.write s (t.moveTo .committing))
  | .revokingToken id now =>
    -- a token that is not there, or is revoked, is a 404
    let revoked := ∃ row ∈ s.accounts.apiTokens.get? id, row.revokedAt = none
    some (.write (s.exec fun a => a.revokeToken id now)
      (if revoked then t.moveTo .committing else t.moveTo .refusing))
  | .committing => some (.commit (t.moveTo .returned))
  | .returned | .raised => none

/-- The task is over. -/
def isOver (t : AuthTask) : Bool :=
  match t.await with
  | .returned | .raised => true
  | _ => false

/-- It came to its end: a request was authenticated. -/
def succeeded (t : AuthTask) : Bool :=
  match t.await with
  | .returned => true
  | _ => false

/-! ### What a stretch can do -/

variable {keys : DerivedKeys} {t t' : AuthTask} {s s' : Tracked} {x : Input}

/-- What is noted about a task stays. -/
structure SameNotes (t t' : AuthTask) : Prop where
  startedAt : t'.startedAt = t.startedAt
  matched : t'.matched = t.matched
  credential : t'.credential = t.credential

/-- What a stretch may note that writes nothing. -/
inductive Notes (s : Tracked) (x : Input) (t t' : AuthTask) : Prop where
  | same (h : SameNotes t t')
  /-- the session row that a cookie fits; it authenticates if it is not expired -/
  | session (token : TokenHash) (row : HttpSessionRow)
      (hrow : s.accounts.sessions.get? token = some row) (hstarted : t'.startedAt = t.startedAt)
      (hmatched : t'.matched = some (row.userId, s.record.verifiedAt token))
      (hcredential : t'.credential = t.credential ∨
        x.now < row.expiresAt ∧ t'.credential = some (s.record.sessionBoot token))
  /-- the active token that a bearer presents -/
  | apiToken (id : TokenId) (row : ApiTokenRow) (hrow : s.accounts.apiTokens.get? id = some row)
      (hactive : row.revokedAt = none) (hstarted : t'.startedAt = t.startedAt)
      (hmatched : t'.matched = t.matched)
      (hcredential : t'.credential = some (s.record.tokenBoot id))

/-- It is between the `UPDATE` and the revocation of a password change. -/
def revokes (t : AuthTask) : Option UserId :=
  match t.await with
  | .revokingAll user => some user.id
  | _ => none

theorem Notes.startedAt (h : Notes s x t t') : t'.startedAt = t.startedAt := by
  cases h with
  | same h => exact h.startedAt
  | session _ _ _ hstarted _ _ => exact hstarted
  | apiToken _ _ _ _ hstarted _ _ => exact hstarted

theorem background_notes (t : AuthTask) (user : UserId) (password : Text) (needsRehash : Bool) :
    SameNotes t (t.background user password needsRehash) ∧
      (t.background user password needsRehash).revokes = none := by
  cases needsRehash <;> exact ⟨⟨rfl, rfl, rfl⟩, rfl⟩

theorem authenticated_notes (keys : DerivedKeys) (t : AuthTask) (user : UserDto) (x : Input)
    (e : Endpoint) :
    SameNotes t (t.authenticated keys user x e) ∧ (t.authenticated keys user x e).revokes = none := by
  cases e with
  | createToken label =>
    rw [authenticated]
    split
    · exact ⟨⟨rfl, rfl, rfl⟩, rfl⟩
    · exact ⟨⟨rfl, rfl, rfl⟩, rfl⟩
  | other | changePassword _ | logoutAll | revokeToken _ => exact ⟨⟨rfl, rfl, rfl⟩, rfl⟩

/-- **A stretch that writes nothing.** -/
theorem resume_goOn (h : t.resume keys s x = some (.goOn t')) :
    t.revokes = none ∧ t'.revokes = none ∧ Notes s x t t' := by
  obtain ⟨await, startedAt, readAt, matched, credential⟩ := t
  cases await with
  | gettingByUsername username password =>
    obtain rfl := Effect.goOn.inj (Option.some.inj h)
    exact ⟨rfl, rfl, .same ⟨rfl, rfl, rfl⟩⟩
  | verifyingLogin user password =>
    cases user with
    | none => cases h
    | some user =>
      simp only [resume] at h
      split at h
      · obtain rfl := Effect.goOn.inj (Option.some.inj h)
        exact ⟨rfl, rfl, .same ⟨rfl, rfl, rfl⟩⟩
      · cases h
  | creatingSession _ _ _ _ _ _ | creatingToken _ _ _ _ _ =>
    simp only [resume] at h
    split at h <;> cases h
  | rehashing user plaintext =>
    simp only [resume] at h
    split at h <;> obtain rfl := Effect.goOn.inj (Option.some.inj h) <;>
      exact ⟨rfl, rfl, .same ⟨rfl, rfl, rfl⟩⟩
  | gettingSession token e =>
    simp only [resume] at h
    split at h
    · obtain rfl := Effect.goOn.inj (Option.some.inj h)
      exact ⟨rfl, rfl, .same ⟨rfl, rfl, rfl⟩⟩
    · rename_i row hrow
      split at h
      · obtain rfl := Effect.goOn.inj (Option.some.inj h)
        exact ⟨rfl, rfl, .session token row hrow rfl rfl (.inl rfl)⟩
      · rename_i hlive
        obtain rfl := Effect.goOn.inj (Option.some.inj h)
        exact ⟨rfl, rfl, .session token row hrow rfl rfl (.inr ⟨not_le.mp hlive, rfl⟩)⟩
  | gettingOwner token user now e =>
    simp only [resume] at h
    split at h
    · obtain rfl := Effect.goOn.inj (Option.some.inj h)
      exact ⟨rfl, rfl, .same ⟨rfl, rfl, rfl⟩⟩
    · obtain rfl := Effect.goOn.inj (Option.some.inj h)
      exact ⟨rfl, rfl, .same ⟨rfl, rfl, rfl⟩⟩
  | gettingToken token e =>
    simp only [resume] at h
    split at h
    · obtain rfl := Effect.goOn.inj (Option.some.inj h)
      exact ⟨rfl, rfl, .same ⟨rfl, rfl, rfl⟩⟩
    · rename_i id row hfound
      obtain ⟨hrow, hactive⟩ := Accounts.getActiveByTokenHash_eq_some hfound
      obtain rfl := Effect.goOn.inj (Option.some.inj h)
      exact ⟨rfl, rfl, .apiToken id row hrow hactive rfl rfl rfl⟩
  | gettingTokenOwner user e =>
    simp only [resume] at h
    split at h
    · obtain rfl := Effect.goOn.inj (Option.some.inj h)
      exact ⟨rfl, rfl, .same ⟨rfl, rfl, rfl⟩⟩
    · rename_i dto _
      obtain rfl := Effect.goOn.inj (Option.some.inj h)
      obtain ⟨hsame, hnone⟩ := authenticated_notes keys
        ⟨.gettingTokenOwner user e, startedAt, readAt, matched, credential⟩ dto x e
      exact ⟨rfl, hnone, .same hsame⟩
  | verifyingCurrent user body =>
    simp only [resume] at h
    split at h
    · obtain rfl := Effect.goOn.inj (Option.some.inj h)
      exact ⟨rfl, rfl, .same ⟨rfl, rfl, rfl⟩⟩
    · cases h
  | hashingNew user body =>
    simp only [resume] at h
    split at h
    · cases h
    · obtain rfl := Effect.goOn.inj (Option.some.inj h)
      exact ⟨rfl, rfl, .same ⟨rfl, rfl, rfl⟩⟩
  | touchingLogin _ _ _ _ | updatingRehash _ _ | touchingSession _ _ _ _ | deletingSession _
  | refusing | touchingToken _ _ _ _ | updatingPassword _ _ | revokingAll _ | loggingOut _
  | revoking _ | revokingToken _ _ | committing | returned | raised => cases h

/-- What a statement that writes does to tables and record, by the task before and after it. -/
inductive Wrote (t t' : AuthTask) (s s' : Tracked) : Prop where
  | login (user : UserDto) (password : Text) (needsRehash : Bool) (token : TokenHash)
      (now created : ℚ)
      (hawait : t.await = .creatingSession user password needsRehash token now created)
      (hs : s.createSession t.readAt token user.id now created = some s')
      (hnone' : t'.revokes = none)
  | change (user : UserDto) (newHash : PasswordHash)
      (hawait : t.await = .updatingPassword user newHash)
      (hs : s' = s.changePassword user.id newHash) (hsome' : t'.revokes = some user.id)
  | revoke (user : UserId) (hsome : t.revokes = some user)
      (hs : s' = s.exec fun a => a.deleteAllForUser user) (hnone' : t'.revokes = none)
  | create (user : UserId) (id : TokenId) (label : Text) (token : TokenHash) (now : ℚ)
      (hs : s.createToken id user token label now = some s') (hnone : t.revokes = none)
      (hnone' : t'.revokes = none)
  | touch (f : Accounts → Accounts) (hf : ∀ a : Accounts, a.Touched (f a)) (hs : s' = s.exec f)
      (hnone : t.revokes = none) (hnone' : t'.revokes = none)

/-- **A statement that writes.** -/
theorem resume_write (h : t.resume keys s x = some (.write s' t')) :
    SameNotes t t' ∧ Wrote t t' s s' := by
  obtain ⟨await, startedAt, readAt, matched, credential⟩ := t
  cases await with
  | creatingSession user password needsRehash token now created =>
    simp only [resume] at h
    split at h
    · cases h
    · rename_i s₁ hs
      obtain ⟨rfl, rfl⟩ := Effect.write.inj (Option.some.inj h)
      exact ⟨⟨rfl, rfl, rfl⟩, .login user password needsRehash token now created rfl hs rfl⟩
  | touchingLogin user password needsRehash now =>
    obtain ⟨rfl, rfl⟩ := Effect.write.inj (Option.some.inj h)
    obtain ⟨hsame, hnone⟩ := background_notes
      ⟨.touchingLogin user password needsRehash now, startedAt, readAt, matched, credential⟩ user.id
      password needsRehash
    exact ⟨hsame, .touch _ (fun a => a.touched_touchLastLogin user.id now) rfl rfl hnone⟩
  | touchingSession token user now e =>
    obtain ⟨rfl, rfl⟩ := Effect.write.inj (Option.some.inj h)
    obtain ⟨hsame, hnone⟩ := authenticated_notes keys
      ⟨.touchingSession token user now e, startedAt, readAt, matched, credential⟩ user x e
    exact ⟨hsame, .touch _ (fun a => a.touched_touchLastSeen token now) rfl rfl hnone⟩
  | deletingSession token | revoking token =>
    obtain ⟨rfl, rfl⟩ := Effect.write.inj (Option.some.inj h)
    exact ⟨⟨rfl, rfl, rfl⟩, .touch _ (fun a => a.touched_deleteSession token) rfl rfl rfl⟩
  | touchingToken id user now e =>
    obtain ⟨rfl, rfl⟩ := Effect.write.inj (Option.some.inj h)
    exact ⟨⟨rfl, rfl, rfl⟩, .touch _ (fun a => a.touched_touchLastUsed id now) rfl rfl rfl⟩
  | updatingPassword user newHash =>
    obtain ⟨rfl, rfl⟩ := Effect.write.inj (Option.some.inj h)
    exact ⟨⟨rfl, rfl, rfl⟩, .change user newHash rfl rfl rfl⟩
  | revokingAll user =>
    obtain ⟨rfl, rfl⟩ := Effect.write.inj (Option.some.inj h)
    exact ⟨⟨rfl, rfl, rfl⟩, .revoke user.id rfl rfl rfl⟩
  | loggingOut user =>
    obtain ⟨rfl, rfl⟩ := Effect.write.inj (Option.some.inj h)
    exact ⟨⟨rfl, rfl, rfl⟩, .touch _ (fun a => a.touched_deleteAllForUser user) rfl rfl rfl⟩
  | creatingToken user id label token now =>
    simp only [resume] at h
    split at h
    · cases h
    · rename_i s₁ hs
      obtain ⟨rfl, rfl⟩ := Effect.write.inj (Option.some.inj h)
      exact ⟨⟨rfl, rfl, rfl⟩, .create user id label token now hs rfl rfl⟩
  | revokingToken id now =>
    obtain ⟨rfl, rfl⟩ := Effect.write.inj (Option.some.inj h)
    refine ⟨?_, .touch _ (fun a => a.touched_revokeToken id now) rfl rfl ?_⟩
    · split <;> exact ⟨rfl, rfl, rfl⟩
    · split <;> rfl
  | verifyingLogin user password =>
    cases user with
    | none => cases h
    | some user =>
      simp only [resume] at h
      split at h <;> cases h
  | gettingSession token e =>
    simp only [resume] at h
    split at h
    · cases h
    · split at h <;> cases h
  | rehashing _ _ | gettingOwner _ _ _ _ | gettingToken _ _ | gettingTokenOwner _ _
  | verifyingCurrent _ _ | hashingNew _ _ =>
    simp only [resume] at h
    split at h <;> cases h
  | gettingByUsername _ _ | updatingRehash _ _ | refusing | committing | returned | raised => cases h

/-- A request commits at its end only. -/
theorem resume_commit (h : t.resume keys s x = some (.commit t')) :
    t.await = .committing ∧ t' = t.moveTo .returned := by
  obtain ⟨await, startedAt, readAt, matched, credential⟩ := t
  cases await with
  | committing =>
    obtain rfl := Effect.commit.inj (Option.some.inj h)
    exact ⟨rfl, rfl⟩
  | verifyingLogin user password =>
    cases user with
    | none => cases h
    | some user =>
      simp only [resume] at h
      split at h <;> cases h
  | gettingSession token e =>
    simp only [resume] at h
    split at h
    · cases h
    · split at h <;> cases h
  | creatingSession _ _ _ _ _ _ | creatingToken _ _ _ _ _ | rehashing _ _ | gettingOwner _ _ _ _
  | gettingToken _ _ | gettingTokenOwner _ _ | verifyingCurrent _ _ | hashingNew _ _ =>
    simp only [resume] at h
    split at h <;> cases h
  | gettingByUsername _ _ | touchingLogin _ _ _ _ | updatingRehash _ _ | touchingSession _ _ _ _
  | deletingSession _ | refusing | touchingToken _ _ _ _ | updatingPassword _ _ | revokingAll _
  | loggingOut _ | revoking _ | revokingToken _ _ | returned | raised => cases h

theorem resume_rollback (h : t.resume keys s x = some (.rollback t')) : t' = t.moveTo .raised := by
  obtain ⟨await, startedAt, readAt, matched, credential⟩ := t
  cases await with
  | refusing => exact (Effect.rollback.inj (Option.some.inj h)).symm
  | verifyingLogin user password =>
    cases user with
    | none => exact (Effect.rollback.inj (Option.some.inj h)).symm
    | some user =>
      simp only [resume] at h
      split at h
      · cases h
      · exact (Effect.rollback.inj (Option.some.inj h)).symm
  | gettingSession token e =>
    simp only [resume] at h
    split at h
    · cases h
    · split at h <;> cases h
  | creatingSession _ _ _ _ _ _ | creatingToken _ _ _ _ _ | rehashing _ _ | gettingOwner _ _ _ _
  | gettingToken _ _ | gettingTokenOwner _ _ | verifyingCurrent _ _ | hashingNew _ _ =>
    simp only [resume] at h
    split at h <;> cases h <;> rfl
  | gettingByUsername _ _ | touchingLogin _ _ _ _ | updatingRehash _ _ | touchingSession _ _ _ _
  | deletingSession _ | touchingToken _ _ _ _ | updatingPassword _ _ | revokingAll _ | loggingOut _
  | revoking _ | revokingToken _ _ | committing | returned | raised => cases h

/-- Only a rehash writes beside its request. -/
theorem resume_separate {f : Tracked → Tracked} {done busy : AuthTask}
    (h : t.resume keys s x = some (.separate f done busy)) :
    (∃ user newHash, t.await = .updatingRehash user newHash) ∧ busy = t.moveTo .committing := by
  obtain ⟨await, startedAt, readAt, matched, credential⟩ := t
  cases await with
  | updatingRehash user newHash =>
    obtain ⟨-, -, rfl⟩ := Effect.separate.inj (Option.some.inj h)
    exact ⟨⟨user, newHash, rfl⟩, rfl⟩
  | verifyingLogin user password =>
    cases user with
    | none => cases h
    | some user =>
      simp only [resume] at h
      split at h <;> cases h
  | gettingSession token e =>
    simp only [resume] at h
    split at h
    · cases h
    · split at h <;> cases h
  | creatingSession _ _ _ _ _ _ | creatingToken _ _ _ _ _ | rehashing _ _ | gettingOwner _ _ _ _
  | gettingToken _ _ | gettingTokenOwner _ _ | verifyingCurrent _ _ | hashingNew _ _ =>
    simp only [resume] at h
    split at h <;> cases h
  | gettingByUsername _ _ | touchingLogin _ _ _ _ | touchingSession _ _ _ _ | deletingSession _
  | refusing | touchingToken _ _ _ _ | updatingPassword _ _ | revokingAll _ | loggingOut _
  | revoking _ | revokingToken _ _ | committing | returned | raised => cases h

theorem sameNotes_moveTo (t : AuthTask) (a : Await) : SameNotes t (t.moveTo a) := ⟨rfl, rfl, rfl⟩

/-! ### Where the lock is held -/

/-- A rehash runs in the transaction of its login. -/
def Rehashes (t : AuthTask) : Prop :=
  match t.await with
  | .rehashing _ _ | .updatingRehash _ _ => True
  | _ => False

theorem not_rehashes_authenticated (keys : DerivedKeys) (t : AuthTask) (user : UserDto) (x : Input)
    (e : Endpoint) : ¬ (t.authenticated keys user x e).Rehashes := by
  cases e with
  | createToken label =>
    rw [authenticated]
    split <;> exact id
  | other | changePassword _ | logoutAll | revokeToken _ => exact id

/-- A rehash begins with the last statement of its login, and nowhere else. -/
theorem rehashes_of_goOn (h : t.resume keys s x = some (.goOn t')) (h' : t'.Rehashes) :
    t.Rehashes := by
  obtain ⟨await, startedAt, readAt, matched, credential⟩ := t
  cases await with
  | rehashing _ _ | updatingRehash _ _ => trivial
  | gettingByUsername username password =>
    obtain rfl := Effect.goOn.inj (Option.some.inj h)
    cases h'
  | verifyingLogin user password =>
    cases user with
    | none => cases h
    | some user =>
      simp only [resume] at h
      split at h <;> cases h
      cases h'
  | gettingSession token e =>
    simp only [resume] at h
    split at h
    · cases h
      cases h'
    · split at h <;> cases h <;> cases h'
  | gettingTokenOwner user e =>
    simp only [resume] at h
    split at h <;> obtain rfl := Effect.goOn.inj (Option.some.inj h)
    · cases h'
    · exact absurd h' (not_rehashes_authenticated _ _ _ _ _)
  | creatingSession _ _ _ _ _ _ | creatingToken _ _ _ _ _ | gettingOwner _ _ _ _
  | gettingToken _ _ | verifyingCurrent _ _ | hashingNew _ _ =>
    simp only [resume] at h
    split at h <;> cases h <;> cases h'
  | touchingLogin _ _ _ _ | touchingSession _ _ _ _ | deletingSession _ | refusing
  | touchingToken _ _ _ _ | updatingPassword _ _ | revokingAll _ | loggingOut _ | revoking _
  | revokingToken _ _ | committing | returned | raised => cases h

end AuthTask

/-- Where a request begins. -/
def AuthRequest.begin (normalize : Text → Text) (keys : DerivedKeys) : AuthRequest → Await
  | .login username password => .gettingByUsername (normalize username) password
  | .authenticated (.cookie value) e =>
    if value = [] then .refusing
    else .gettingSession (computeTokenHash value keys.sessionTokenMacKey) e
  | .authenticated (.bearer plaintext) e =>
    if hasTokenShape plaintext then
      .gettingToken (computeTokenHash plaintext keys.apiTokenMacKey) e
    else .refusing
  | .logout cookie =>
    if cookie = [] then .committing
    else .revoking (computeTokenHash cookie keys.sessionTokenMacKey)

/-- The tasks of a process that is READY. `normalize` is `normalize_username`. -/
def authClient (normalize : Text → Text) (keys : DerivedKeys) :
    Client Tracked AuthTask AuthRequest Input where
  accept s r := ⟨r.begin normalize keys, s.record.changes, 0, none, none⟩
  resume := AuthTask.resume keys
  fail t := if t.isOver then none else some (t.moveTo .raised)

/-- **A task that rehashes has the lock**, so that the `UPDATE` of the rehash never gets it. -/
theorem authLocking (normalize : Text → Text) (keys : DerivedKeys) :
    (authClient normalize keys).Locking AuthTask.Rehashes where
  accept _ r := by
    rcases r with ⟨username, password⟩ | ⟨value | plaintext, e⟩ | cookie
    · exact id
    all_goals
      dsimp only [authClient, AuthRequest.begin]
      split <;> exact id
  resume t v x e h := by
    cases e with
    | goOn t' => exact AuthTask.rehashes_of_goOn h
    | write s t' => trivial
    | commit t' =>
      rw [Effect.Locks, (AuthTask.resume_commit h).2]
      exact id
    | rollback t' =>
      rw [Effect.Locks, AuthTask.resume_rollback h]
      exact id
    | separate f done busy =>
      obtain ⟨⟨user, newHash, hawait⟩, -⟩ := AuthTask.resume_separate h
      rw [Effect.Locks, AuthTask.Rehashes, hawait]
      trivial
  fail t t' h := by
    obtain ⟨-, heq⟩ := Option.ite_none_left_eq_some.mp h
    rw [← Option.some.inj heq]
    exact id

/-- The process in the middle of a run. -/
abbrev AuthConfig : Type := Client.Config Tracked AuthTask

abbrev AuthLabel : Type := Client.Label AuthRequest Input

/-- The process starts on these tables: the passwords in force are the first ones. -/
def Accounts.boot (a : Accounts) : Tracked where
  accounts := a
  record :=
    { changes := fun _ => 0
      current := fun id => ((a.users.get? id).map fun row => row.passwordHash.password).getD []
      hashAt := fun _ => 0
      verifiedAt := fun _ => 0
      boots := 0
      sessionBoot := fun _ => 0
      tokenBoot := fun _ => 0 }

end RestreamPlus
