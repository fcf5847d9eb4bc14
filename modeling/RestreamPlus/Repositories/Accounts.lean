import RestreamPlus.Auth.KeyMaterial
import RestreamPlus.Auth.Passwords
import RestreamPlus.Repositories.Settings

/-!
# Users, browser sessions and API tokens (`app/repositories`)

`users.py`, `sessions.py` and `api_tokens.py` over the three tables they own. A
session and a token are stored by the keyed fingerprint of their value.
-/

namespace RestreamPlus

open Symbolic

abbrev UserId : Type := ℕ

abbrev TokenId : Type := ℕ

/-- The keyed fingerprint of a cookie or of a bearer token. -/
abbrev TokenHash : Type := Mac Key Text

/-- `compute_session_token_hash` and `compute_api_token_hash`. -/
def computeTokenHash (value : Text) (macKey : Key) : TokenHash := ⟨macKey, value⟩

variable [Argon2]

/-- A row of `users`. -/
structure UserRow : Type where
  username : Text
  passwordHash : PasswordHash
  lastLoginAt : Option ℤ
  deriving DecidableEq

/-- A user as the repository returns it. -/
structure UserDto : Type where
  id : UserId
  username : Text
  passwordHash : PasswordHash
  lastLoginAt : Option ℤ
  deriving DecidableEq

def UserRow.dto (id : UserId) (row : UserRow) : UserDto :=
  ⟨id, row.username, row.passwordHash, row.lastLoginAt⟩

/-- A row of `sessions`. -/
structure HttpSessionRow : Type where
  userId : UserId
  createdAt : ℤ
  expiresAt : ℤ
  lastSeenAt : ℤ
  deriving DecidableEq

/-- A row of `api_tokens`. -/
structure ApiTokenRow : Type where
  userId : UserId
  tokenHash : TokenHash
  label : Text
  createdAt : ℤ
  lastUsedAt : Option ℤ
  revokedAt : Option ℤ
  deriving DecidableEq

/-- The contents of the three tables, by their primary keys. -/
structure Accounts : Type where
  users : Dict UserId UserRow
  sessions : Dict TokenHash HttpSessionRow
  apiTokens : Dict TokenId ApiTokenRow
  deriving DecidableEq

namespace Accounts

/-! ## Users (`UsersRepository`) -/

def getById (a : Accounts) (id : UserId) : Option UserDto := (a.users.get? id).map (UserRow.dto id)

/-- The column is unique, so the first match is the only one. -/
def getByUsername (a : Accounts) (username : Text) : Option UserDto :=
  (a.users.entries.find? fun e => e.2.username = username).map fun e => UserRow.dto e.1 e.2

def updatePasswordHash (a : Accounts) (id : UserId) (hash : PasswordHash) : Accounts :=
  { a with users := a.users.modify id fun row => { row with passwordHash := hash } }

def touchLastLogin (a : Accounts) (id : UserId) (now : ℚ) : Accounts :=
  { a with users := a.users.modify id fun row => { row with lastLoginAt := some (epochSeconds now) } }

/-! ## Browser sessions (`HttpSessionsRepository`) -/

/-- `create`; `none` is the `IntegrityError` of a fingerprint that is taken or of a user
that does not exist. -/
def createSession (a : Accounts) (tokenHash : TokenHash) (user : UserId) (now expiresAt : ℚ) :
    Option Accounts :=
  if (a.sessions.get? tokenHash).isNone ∧ (a.users.get? user).isSome then
    some { a with
      sessions := a.sessions.insert tokenHash
        ⟨user, epochSeconds now, epochSeconds expiresAt, epochSeconds now⟩ }
  else none

def getByTokenHash (a : Accounts) (tokenHash : TokenHash) : Option HttpSessionRow :=
  a.sessions.get? tokenHash

def touchLastSeen (a : Accounts) (tokenHash : TokenHash) (now : ℚ) : Accounts :=
  { a with
    sessions := a.sessions.modify tokenHash fun row => { row with lastSeenAt := epochSeconds now } }

def deleteSession (a : Accounts) (tokenHash : TokenHash) : Accounts :=
  { a with sessions := a.sessions.erase tokenHash }

def deleteAllForUser (a : Accounts) (user : UserId) : Accounts :=
  { a with sessions := a.sessions.filterValues fun row => row.userId ≠ user }

/-! ## API tokens (`ApiTokensRepository`) -/

/-- `create`; `none` as for a session. -/
def createToken (a : Accounts) (id : TokenId) (user : UserId) (tokenHash : TokenHash) (label : Text)
    (now : ℚ) : Option Accounts :=
  if (a.apiTokens.get? id).isNone ∧ (∀ row ∈ a.apiTokens.values, row.tokenHash ≠ tokenHash) ∧
      (a.users.get? user).isSome then
    some { a with
      apiTokens := a.apiTokens.insert id ⟨user, tokenHash, label, epochSeconds now, none, none⟩ }
  else none

/-- The column is unique, so the first match is the only one. -/
def getActiveByTokenHash (a : Accounts) (tokenHash : TokenHash) : Option (TokenId × ApiTokenRow) :=
  a.apiTokens.entries.find? fun e => e.2.tokenHash = tokenHash ∧ e.2.revokedAt = none

def touchLastUsed (a : Accounts) (id : TokenId) (now : ℚ) : Accounts :=
  { a with
    apiTokens := a.apiTokens.modify id fun row => { row with lastUsedAt := some (epochSeconds now) } }

/-- `revoke`: a token that is revoked stays as it is. -/
def revokeToken (a : Accounts) (id : TokenId) (now : ℚ) : Accounts :=
  { a with
    apiTokens := a.apiTokens.modify id fun row =>
      if row.revokedAt = none then { row with revokedAt := some (epochSeconds now) } else row }

/-! ## What the statements leave alone -/

/-- No user gets another hash, no session row is added, gets another owner or lives longer,
and no token is added or comes back. -/
structure Touched (a a' : Accounts) : Prop where
  users : ∀ id row', a'.users.get? id = some row' →
    ∃ row, a.users.get? id = some row ∧ row'.passwordHash = row.passwordHash
  sessions : ∀ token row', a'.sessions.get? token = some row' →
    ∃ row, a.sessions.get? token = some row ∧ row'.userId = row.userId ∧
      row'.expiresAt = row.expiresAt
  apiTokens : ∀ id row', a'.apiTokens.get? id = some row' →
    ∃ row, a.apiTokens.get? id = some row ∧ (row'.revokedAt = none → row.revokedAt = none)

/-- Nothing happens to the users. -/
theorem users_refl (a : Accounts) (id : UserId) (row' : UserRow) (h : a.users.get? id = some row') :
    ∃ row, a.users.get? id = some row ∧ row'.passwordHash = row.passwordHash := ⟨row', h, rfl⟩

/-- Nothing happens to the session rows. -/
theorem sessions_refl (a : Accounts) (token : TokenHash) (row' : HttpSessionRow)
    (h : a.sessions.get? token = some row') : ∃ row, a.sessions.get? token = some row ∧
      row'.userId = row.userId ∧ row'.expiresAt = row.expiresAt := ⟨row', h, rfl, rfl⟩

/-- Nothing happens to the tokens. -/
theorem apiTokens_refl (a : Accounts) (id : TokenId) (row' : ApiTokenRow)
    (h : a.apiTokens.get? id = some row') : ∃ row, a.apiTokens.get? id = some row ∧
      (row'.revokedAt = none → row.revokedAt = none) := ⟨row', h, fun h => h⟩

omit [Argon2] in
/-- The rows after an `UPDATE` of one of them. -/
theorem get?_of_modify {K V : Type} [DecidableEq K] {d : Dict K V} {k k' : K} {f : V → V} {v' : V}
    (h : (d.modify k f).get? k' = some v') : ∃ v, d.get? k' = some v ∧ (v' = v ∨ v' = f v) := by
  rw [Dict.get?_modify] at h
  split at h
  · rename_i heq
    obtain ⟨v, hv, rfl⟩ := Option.map_eq_some_iff.mp h
    exact ⟨v, heq ▸ hv, .inr rfl⟩
  · exact ⟨v', h, .inl rfl⟩

theorem touched_touchLastLogin (a : Accounts) (id : UserId) (now : ℚ) :
    a.Touched (a.touchLastLogin id now) := by
  refine ⟨fun id row' h => ?_, a.sessions_refl, a.apiTokens_refl⟩
  obtain ⟨row, hrow, rfl | rfl⟩ := get?_of_modify h <;> exact ⟨_, hrow, rfl⟩

theorem touched_touchLastSeen (a : Accounts) (token : TokenHash) (now : ℚ) :
    a.Touched (a.touchLastSeen token now) := by
  refine ⟨a.users_refl, fun token row' h => ?_, a.apiTokens_refl⟩
  obtain ⟨row, hrow, rfl | rfl⟩ := get?_of_modify h <;> exact ⟨_, hrow, rfl, rfl⟩

theorem touched_touchLastUsed (a : Accounts) (id : TokenId) (now : ℚ) :
    a.Touched (a.touchLastUsed id now) := by
  refine ⟨a.users_refl, a.sessions_refl, fun id row' h => ?_⟩
  obtain ⟨row, hrow, rfl | rfl⟩ := get?_of_modify h <;> exact ⟨_, hrow, fun h => h⟩

theorem touched_revokeToken (a : Accounts) (id : TokenId) (now : ℚ) :
    a.Touched (a.revokeToken id now) := by
  refine ⟨a.users_refl, a.sessions_refl, fun id row' h => ?_⟩
  obtain ⟨row, hrow, rfl | rfl⟩ := get?_of_modify h
  · exact ⟨_, hrow, fun h => h⟩
  · refine ⟨row, hrow, fun hnone => ?_⟩
    split at hnone
    · cases hnone
    · exact hnone

theorem touched_deleteSession (a : Accounts) (token : TokenHash) :
    a.Touched (a.deleteSession token) :=
  ⟨a.users_refl, fun token _ h => a.sessions_refl token _ (Dict.get?_of_get?_erase h).2,
    a.apiTokens_refl⟩

/-- The rows that survive a revocation are those of the others. -/
theorem get?_deleteAllForUser {a : Accounts} {user : UserId} {token : TokenHash}
    {row : HttpSessionRow} (h : (a.deleteAllForUser user).sessions.get? token = some row) :
    a.sessions.get? token = some row ∧ row.userId ≠ user := by
  rw [deleteAllForUser, Dict.get?_filterValues, Option.filter_eq_some_iff] at h
  exact ⟨h.1, of_decide_eq_true h.2⟩

theorem touched_deleteAllForUser (a : Accounts) (user : UserId) :
    a.Touched (a.deleteAllForUser user) :=
  ⟨a.users_refl, fun token _ h => a.sessions_refl token _ (get?_deleteAllForUser h).1,
    a.apiTokens_refl⟩

/-- A session row that was just inserted. -/
theorem createSession_eq_some {a a' : Accounts} {token : TokenHash} {user : UserId} {now expires : ℚ}
    (h : a.createSession token user now expires = some a') :
    a.sessions.get? token = none ∧ a'.users = a.users ∧ ∃ row : HttpSessionRow,
      row.userId = user ∧ a'.sessions = a.sessions.insert token row := by
  rw [createSession] at h
  obtain ⟨⟨hnew, -⟩, heq⟩ := Option.ite_none_right_eq_some.mp h
  obtain rfl := Option.some.inj heq
  exact ⟨Option.isNone_iff_eq_none.mp hnew, rfl, _, rfl, rfl⟩

/-- A token that was just inserted. -/
theorem createToken_eq_some {a a' : Accounts} {id : TokenId} {user : UserId} {token : TokenHash}
    {label : Text} {now : ℚ} (h : a.createToken id user token label now = some a') :
    a'.users = a.users ∧ a'.sessions = a.sessions ∧
      ∃ row, a'.apiTokens = a.apiTokens.insert id row := by
  rw [createToken] at h
  obtain ⟨-, heq⟩ := Option.ite_none_right_eq_some.mp h
  obtain rfl := Option.some.inj heq
  exact ⟨rfl, rfl, _, rfl⟩

theorem getActiveByTokenHash_eq_some {a : Accounts} {token : TokenHash} {id : TokenId}
    {row : ApiTokenRow} (h : a.getActiveByTokenHash token = some (id, row)) :
    a.apiTokens.get? id = some row ∧ row.revokedAt = none := by
  rw [getActiveByTokenHash] at h
  have hactive := List.find?_some h
  exact ⟨Dict.mem_entries.mp (List.mem_of_find?_eq_some h), (of_decide_eq_true hactive).2⟩

/-- The hash of one user is replaced. -/
theorem get?_updatePasswordHash {a : Accounts} {id id' : UserId} {hash : PasswordHash}
    {row : UserRow} (h : (a.updatePasswordHash id hash).users.get? id' = some row) :
    ∃ old, a.users.get? id' = some old ∧
      row.passwordHash = if id' = id then hash else old.passwordHash := by
  rw [updatePasswordHash, Dict.get?_modify] at h
  split at h
  · rename_i heq
    obtain ⟨old, hold, rfl⟩ := Option.map_eq_some_iff.mp h
    exact ⟨old, heq ▸ hold, by rw [if_pos heq]⟩
  · rename_i hne
    exact ⟨row, h, by rw [if_neg hne]⟩

end Accounts

end RestreamPlus
