import RestreamPlus.Auth.PasswordChange

/-!
# The life of a session and of an API token

What the tables say about a credential between two moments of a run, whatever logins,
requests, logouts, revocations and password changes are interleaved in between, and what
becomes of a request that presents it then: `verify_cookie` (`app/auth/sessions.py`) looks up
the row of the cookie and its owner, `verify_bearer` (`app/auth/api_tokens.py`) the active row
of the token, and `get_current_user_via_bearer` (`app/auth/deps.py`) its owner. The process
has one set of keys: rotating the passphrase, which deletes all of these rows, is not among
the requests.

The first statement of a request never has the write lock yet, so it sees what is committed.
-/

namespace RestreamPlus

open Interleaving

/-! ## The rows -/

/-- The columns of a token that no statement writes again. -/
structure ApiTokenRow.SameToken (row row' : ApiTokenRow) : Prop where
  userId : row'.userId = row.userId
  tokenHash : row'.tokenHash = row.tokenHash
  label : row'.label = row.label
  createdAt : row'.createdAt = row.createdAt

theorem ApiTokenRow.SameToken.refl (row : ApiTokenRow) : row.SameToken row := ⟨rfl, rfl, rfl, rfl⟩

theorem ApiTokenRow.SameToken.trans {row row' row'' : ApiTokenRow} (h : row.SameToken row')
    (h' : row'.SameToken row'') : row.SameToken row'' :=
  ⟨h'.userId.trans h.userId, h'.tokenHash.trans h.tokenHash, h'.label.trans h.label,
    h'.createdAt.trans h.createdAt⟩

section Tables

variable [Argon2]

namespace Accounts

/-- Every token stays, and stays revoked at the instant it was revoked at. -/
def KeepsTokens (a a' : Accounts) : Prop :=
  ∀ id row, a.apiTokens.get? id = some row → ∃ row', a'.apiTokens.get? id = some row' ∧
    row.SameToken row' ∧ ∀ instant, row.revokedAt = some instant → row'.revokedAt = some instant

/-- The fingerprint column is unique. -/
def TokensDistinct (a : Accounts) : Prop :=
  ∀ id id' row row', a.apiTokens.get? id = some row → a.apiTokens.get? id' = some row' →
    row.tokenHash = row'.tokenHash → id = id'

/-- The row of this session, if it is still there, was there before. -/
def KeepsSession (token : TokenHash) (a a' : Accounts) : Prop :=
  ∀ row', a'.sessions.get? token = some row' → ∃ row, a.sessions.get? token = some row ∧
    row'.userId = row.userId ∧ row'.createdAt = row.createdAt ∧ row'.expiresAt = row.expiresAt

/-- Sessions end thirty days after they were created, at the latest. -/
def SessionsLast (a : Accounts) : Prop :=
  ∀ token row, a.sessions.get? token = some row →
    (row.expiresAt : ℚ) ≤ row.createdAt + sessionCookieLifetime

/-- The owners of the rows are there. -/
structure Owned (a : Accounts) : Prop where
  sessions : ∀ token row, a.sessions.get? token = some row → (a.users.get? row.userId).isSome
  apiTokens : ∀ id row, a.apiTokens.get? id = some row → (a.users.get? row.userId).isSome

/-- No user is deleted. -/
def KeepsUsers (a a' : Accounts) : Prop :=
  ∀ id, (a.users.get? id).isSome → (a'.users.get? id).isSome

variable {a a' a'' : Accounts} {token : TokenHash}

theorem keepsUsers_of_eq (h : a'.users = a.users) : a.KeepsUsers a' := by
  intro id hid
  rwa [h]

/-- An `UPDATE` of one user. -/
theorem keepsUsers_modify {id : UserId} {f : UserRow → UserRow}
    (h : a'.users = a.users.modify id f) : a.KeepsUsers a' := by
  intro id' hid
  rw [h, Dict.get?_modify]
  split
  · rename_i heq
    subst heq
    rwa [Option.isSome_map]
  · exact hid

/-- Rows that were owned before still are. -/
theorem Owned.of_keeps (h : a.Owned) (husers : a.KeepsUsers a')
    (hsessions : ∀ token row', a'.sessions.get? token = some row' →
      ∃ row, a.sessions.get? token = some row ∧ row'.userId = row.userId)
    (htokens : ∀ id row', a'.apiTokens.get? id = some row' →
      ∃ row, a.apiTokens.get? id = some row ∧ row'.userId = row.userId) : a'.Owned := by
  refine ⟨fun token row' hrow' => ?_, fun id row' hrow' => ?_⟩
  · obtain ⟨row, hrow, howner⟩ := hsessions token row' hrow'
    exact husers _ (howner ▸ h.sessions token row hrow)
  · obtain ⟨row, hrow, howner⟩ := htokens id row' hrow'
    exact husers _ (howner ▸ h.apiTokens id row hrow)

theorem keepsTokens_of_eq (h : a'.apiTokens = a.apiTokens) : a.KeepsTokens a' := by
  intro id row hrow
  exact ⟨row, h ▸ hrow, .refl row, fun _ h => h⟩

theorem KeepsTokens.trans (h : a.KeepsTokens a') (h' : a'.KeepsTokens a'') :
    a.KeepsTokens a'' := by
  intro id row hrow
  obtain ⟨row', hrow', hsame, hrevoked⟩ := h id row hrow
  obtain ⟨row'', hrow'', hsame', hrevoked'⟩ := h' id row' hrow'
  exact ⟨row'', hrow'', hsame.trans hsame', fun r hr => hrevoked' r (hrevoked r hr)⟩

/-- An `UPDATE` of one token. -/
theorem keepsTokens_modify {id : TokenId} {f : ApiTokenRow → ApiTokenRow}
    (h : a'.apiTokens = a.apiTokens.modify id f) (hsame : ∀ row : ApiTokenRow, row.SameToken (f row))
    (hrevoked : ∀ (row : ApiTokenRow) instant, row.revokedAt = some instant →
      (f row).revokedAt = some instant) : a.KeepsTokens a' := by
  intro id' row hrow
  rw [h, Dict.get?_modify]
  split
  · rename_i heq
    exact ⟨f row, by rw [← heq, hrow]; rfl, hsame row, hrevoked row⟩
  · exact ⟨row, hrow, .refl row, fun _ h => h⟩

theorem tokensDistinct_modify {id : TokenId} {f : ApiTokenRow → ApiTokenRow}
    (h : a'.apiTokens = a.apiTokens.modify id f) (hsame : ∀ row : ApiTokenRow, row.SameToken (f row))
    (hd : a.TokensDistinct) : a'.TokensDistinct := by
  intro id₁ id₂ row₁ row₂ h₁ h₂ heq
  rw [h] at h₁ h₂
  obtain ⟨old₁, hold₁, hrow₁⟩ := get?_of_modify h₁
  obtain ⟨old₂, hold₂, hrow₂⟩ := get?_of_modify h₂
  refine hd id₁ id₂ old₁ old₂ hold₁ hold₂ ?_
  have hhash₁ : row₁.tokenHash = old₁.tokenHash := by
    rcases hrow₁ with rfl | rfl
    · rfl
    · exact (hsame old₁).tokenHash
  have hhash₂ : row₂.tokenHash = old₂.tokenHash := by
    rcases hrow₂ with rfl | rfl
    · rfl
    · exact (hsame old₂).tokenHash
  rw [← hhash₁, ← hhash₂, heq]

/-- What the `INSERT` of a token adds. -/
theorem createToken_spec {id : TokenId} {user : UserId} {label : Text} {now : ℚ}
    (h : a.createToken id user token label now = some a') :
    a.apiTokens.get? id = none ∧ (∀ row ∈ a.apiTokens.values, row.tokenHash ≠ token) ∧
      (a.users.get? user).isSome ∧ a'.users = a.users ∧ a'.sessions = a.sessions ∧ a'.apiTokens =
        a.apiTokens.insert id ⟨user, token, label, epochSeconds now, none, none⟩ := by
  rw [createToken] at h
  obtain ⟨⟨hid, hhash, huser⟩, heq⟩ := Option.ite_none_right_eq_some.mp h
  obtain rfl := Option.some.inj heq
  exact ⟨Option.isNone_iff_eq_none.mp hid, hhash, huser, rfl, rfl, rfl⟩

theorem keepsTokens_createToken {id : TokenId} {user : UserId} {label : Text} {now : ℚ}
    (h : a.createToken id user token label now = some a') : a.KeepsTokens a' := by
  obtain ⟨hnew, -, -, -, -, htokens⟩ := createToken_spec h
  intro id' row hrow
  have hne : id' ≠ id := by
    rintro rfl
    rw [hnew] at hrow
    cases hrow
  exact ⟨row, by rw [htokens, Dict.get?_insert_ne _ _ hne, hrow], .refl row, fun _ h => h⟩

theorem tokensDistinct_createToken {id : TokenId} {user : UserId} {label : Text} {now : ℚ}
    (h : a.createToken id user token label now = some a') (hd : a.TokensDistinct) :
    a'.TokensDistinct := by
  obtain ⟨-, hhash, -, -, -, htokens⟩ := createToken_spec h
  intro id₁ id₂ row₁ row₂ h₁ h₂ heq
  rw [htokens, Dict.get?_insert] at h₁ h₂
  split at h₁ <;> split at h₂
  · rename_i heq₁ heq₂
    rw [heq₁, heq₂]
  · obtain rfl := Option.some.inj h₁
    exact absurd heq.symm (hhash row₂ (Dict.mem_values.mpr ⟨id₂, h₂⟩))
  · obtain rfl := Option.some.inj h₂
    exact absurd heq (hhash row₁ (Dict.mem_values.mpr ⟨id₁, h₁⟩))
  · exact hd id₁ id₂ row₁ row₂ h₁ h₂ heq

/-- **The lookup of a token** by its fingerprint. -/
theorem getActiveByTokenHash_of_distinct {id : TokenId} {row : ApiTokenRow} (hd : a.TokensDistinct)
    (hrow : a.apiTokens.get? id = some row) : a.getActiveByTokenHash row.tokenHash =
      if row.revokedAt = none then some (id, row) else none := by
  -- whatever is found is this token
  have honly : ∀ e, a.getActiveByTokenHash row.tokenHash = some e →
      e = (id, row) ∧ row.revokedAt = none := by
    intro e he
    obtain ⟨hrow', hactive⟩ := getActiveByTokenHash_eq_some he
    have hfits := List.find?_some he
    have hhash := (of_decide_eq_true hfits).1
    obtain rfl := hd e.1 id e.2 row hrow' hrow hhash
    obtain rfl := Option.some.inj (hrow'.symm.trans hrow)
    exact ⟨rfl, hactive⟩
  rcases hfound : a.getActiveByTokenHash row.tokenHash with _ | e
  · split
    · rename_i hactive
      have hnot := List.find?_eq_none.mp hfound (id, row) (Dict.mem_entries.mpr hrow)
      exact absurd (decide_eq_true ⟨rfl, hactive⟩) hnot
    · rfl
  · obtain ⟨rfl, hactive⟩ := honly e hfound
    rw [if_pos hactive]

/-- The owner of a token that is created is there. -/
theorem owned_createToken {id : TokenId} {user : UserId} {label : Text} {now : ℚ}
    (h : a.createToken id user token label now = some a') (ho : a.Owned) : a'.Owned := by
  obtain ⟨-, -, huser, husers, hsessions, htokens⟩ := createToken_spec h
  refine ⟨fun token' row hrow => ?_, fun id' row hrow => ?_⟩
  · rw [hsessions] at hrow
    rw [husers]
    exact ho.sessions token' row hrow
  · rw [htokens, Dict.get?_insert] at hrow
    rw [husers]
    split at hrow
    · obtain rfl := Option.some.inj hrow
      exact huser
    · exact ho.apiTokens id' row hrow

theorem keepsSession_of_eq (h : a'.sessions = a.sessions) : a.KeepsSession token a' := by
  intro row hrow
  exact ⟨row, h ▸ hrow, rfl, rfl, rfl⟩

theorem KeepsSession.trans (h : a.KeepsSession token a') (h' : a'.KeepsSession token a'') :
    a.KeepsSession token a'' := by
  intro row'' hrow''
  obtain ⟨row', hrow', huser', hcreated', hexpires'⟩ := h' row'' hrow''
  obtain ⟨row, hrow, huser, hcreated, hexpires⟩ := h row' hrow'
  exact ⟨row, hrow, huser'.trans huser, hcreated'.trans hcreated, hexpires'.trans hexpires⟩

/-- Rows may go. -/
theorem keepsSession_of_imp
    (h : ∀ row, a'.sessions.get? token = some row → a.sessions.get? token = some row) :
    a.KeepsSession token a' :=
  fun row hrow => ⟨row, h row hrow, rfl, rfl, rfl⟩

theorem keepsSession_touchLastSeen (a : Accounts) (token token' : TokenHash) (now : ℚ) :
    a.KeepsSession token (a.touchLastSeen token' now) := by
  intro row' hrow'
  obtain ⟨row, hrow, rfl | rfl⟩ := get?_of_modify hrow' <;> exact ⟨_, hrow, rfl, rfl, rfl⟩

/-- The row of a login. -/
theorem createSession_spec {user : UserId} {now expires : ℚ}
    (h : a.createSession token user now expires = some a') :
    (a.users.get? user).isSome ∧ a'.users = a.users ∧ a'.apiTokens = a.apiTokens ∧
      a'.sessions = a.sessions.insert token
        ⟨user, epochSeconds now, epochSeconds expires, epochSeconds now⟩ := by
  rw [createSession] at h
  obtain ⟨⟨-, huser⟩, heq⟩ := Option.ite_none_right_eq_some.mp h
  obtain rfl := Option.some.inj heq
  exact ⟨huser, rfl, rfl, rfl⟩

/-- The owner of a session that is created is there. -/
theorem owned_createSession {user : UserId} {now expires : ℚ}
    (h : a.createSession token user now expires = some a') (ho : a.Owned) : a'.Owned := by
  obtain ⟨huser, husers, htokens, hsessions⟩ := createSession_spec h
  refine ⟨fun token' row hrow => ?_, fun id row hrow => ?_⟩
  · rw [hsessions, Dict.get?_insert] at hrow
    rw [husers]
    split at hrow
    · obtain rfl := Option.some.inj hrow
      exact huser
    · exact ho.sessions token' row hrow
  · rw [htokens] at hrow
    rw [husers]
    exact ho.apiTokens id row hrow

omit [Argon2] in
/-- A clock that does not run before 1970 is rounded down. -/
theorem epochSeconds_lifetime {now created : ℚ} (h : 0 ≤ now) (hle : now ≤ created) :
    (epochSeconds (now + sessionCookieLifetime) : ℚ) ≤
      epochSeconds created + sessionCookieLifetime := by
  have hnum : sessionCookieLifetime = ((2592000 : ℤ) : ℚ) := by norm_num [sessionCookieLifetime]
  have hlater : 0 ≤ now + sessionCookieLifetime := by
    rw [hnum]
    positivity
  have hfloor : ((⌊now⌋ : ℤ) : ℚ) ≤ ((⌊created⌋ : ℤ) : ℚ) := by exact_mod_cast Int.floor_mono hle
  rw [epochSeconds, epochSeconds, if_pos (h.trans hle), if_pos hlater, hnum, Int.floor_add_intCast]
  push_cast
  linarith

theorem sessionsLast_createSession {user : UserId} {now created : ℚ} (hnow : 0 ≤ now)
    (hle : now ≤ created)
    (h : a.createSession token user created (now + sessionCookieLifetime) = some a')
    (hlast : a.SessionsLast) : a'.SessionsLast := by
  obtain ⟨-, -, -, hsessions⟩ := createSession_spec h
  intro token' row hrow
  rw [hsessions, Dict.get?_insert] at hrow
  split at hrow
  · obtain rfl := Option.some.inj hrow
    exact epochSeconds_lifetime hnow hle
  · exact hlast token' row hrow

/-- No statement but the `INSERT` sets an expiry. -/
theorem SessionsLast.of_keeps (hlast : a.SessionsLast) (h : ∀ token, a.KeepsSession token a') :
    a'.SessionsLast := by
  intro token row' hrow'
  obtain ⟨row, hrow, -, hcreated, hexpires⟩ := h token row' hrow'
  rw [hcreated, hexpires]
  exact hlast token row hrow

end Accounts

/-! ## The statements -/

namespace CredentialHistory

/-- What a statement that writes does to the tables, by the await of the task. -/
inductive Executed (await : Await) (a a' : Accounts) : Prop where
  | createSession (user : UserDto) (password : Text) (needsRehash : Bool) (token : TokenHash)
      (now created : ℚ)
      (hawait : await = .creatingSession user password needsRehash token now created)
      (h : a.createSession token user.id created (now + sessionCookieLifetime) = some a')
  | createToken (user : UserId) (id : TokenId) (label : Text) (token : TokenHash) (now : ℚ)
      (h : a.createToken id user token label now = some a')
  | touchLastLogin (id : UserId) (now : ℚ) (h : a' = a.touchLastLogin id now)
  | updatePasswordHash (id : UserId) (hash : PasswordHash) (h : a' = a.updatePasswordHash id hash)
  | touchLastSeen (token : TokenHash) (now : ℚ) (h : a' = a.touchLastSeen token now)
  | deleteSession (token : TokenHash) (h : a' = a.deleteSession token)
  | deleteAllForUser (user : UserId) (h : a' = a.deleteAllForUser user)
  | touchLastUsed (id : TokenId) (now : ℚ) (h : a' = a.touchLastUsed id now)
  | revokeToken (id : TokenId) (now : ℚ) (h : a' = a.revokeToken id now)

/-- The task looks for its credential. -/
def AtGate (t : AuthTask) : Prop :=
  match t.await with
  | .gettingSession _ _ | .gettingToken _ _ => True
  | _ => False

/-- The `INSERT` of a login, if it is next, has these clocks and this cookie. -/
def InsertMeets (P : ℚ → ℚ → TokenHash → Prop) (t : AuthTask) : Prop :=
  match t.await with
  | .creatingSession _ _ _ token now created => P now created token
  | _ => True

/-- The task has looked for its credential, and what a login inserts comes from this stretch. -/
structure Past (keys : DerivedKeys) (x : Input) (t : AuthTask) : Prop where
  gate : ¬ AtGate t
  insert : InsertMeets (fun now created token => now = x.now ∧ created = x.later ∧
    token = computeTokenHash x.cookieValue keys.sessionTokenMacKey) t

variable {keys : DerivedKeys} {t t' : AuthTask} {s s' : Tracked} {x : Input} {token : TokenHash}

theorem past_authenticated (keys : DerivedKeys) (t : AuthTask) (user : UserDto) (x : Input)
    (e : Endpoint) : Past keys x (t.authenticated keys user x e) := by
  cases e with
  | createToken label =>
    rw [AuthTask.authenticated]
    split <;> exact ⟨id, trivial⟩
  | other | changePassword _ | logoutAll | revokeToken _ => exact ⟨id, trivial⟩

/-- **Every stretch** leads past the lookup of the credential. -/
theorem resume_past {e : Effect Tracked AuthTask} (h : t.resume keys s x = some e) :
    ∀ t' ∈ e.tasks, Past keys x t' := by
  have hone : ∀ {t₀ : AuthTask}, Past keys x t₀ → ∀ t' ∈ [t₀], Past keys x t' := by
    intro t₀ h₀ t' hmem
    rwa [List.mem_singleton.mp hmem]
  obtain ⟨await, startedAt, readAt, matched, credential⟩ := t
  cases await with
  | gettingByUsername _ _ | deletingSession _ | refusing | touchingToken _ _ _ _
  | updatingPassword _ _ | revokingAll _ | loggingOut _ | revoking _ | committing =>
    obtain rfl := Option.some.inj h
    exact hone ⟨id, trivial⟩
  | touchingLogin _ _ needsRehash _ =>
    obtain rfl := Option.some.inj h
    cases needsRehash <;> exact hone ⟨id, trivial⟩
  | updatingRehash _ _ =>
    obtain rfl := Option.some.inj h
    intro t' hmem
    rcases List.mem_pair.mp hmem with rfl | rfl <;> exact ⟨id, trivial⟩
  | verifyingLogin user password =>
    cases user with
    | none =>
      obtain rfl := Option.some.inj h
      exact hone ⟨id, trivial⟩
    | some user =>
      simp only [AuthTask.resume] at h
      split at h
      · obtain rfl := Option.some.inj h
        exact hone ⟨id, rfl, rfl, rfl⟩
      · obtain rfl := Option.some.inj h
        exact hone ⟨id, trivial⟩
  | touchingSession token user now e =>
    obtain rfl := Option.some.inj h
    exact hone (past_authenticated keys _ user x e)
  | gettingTokenOwner user e =>
    simp only [AuthTask.resume] at h
    split at h
    · obtain rfl := Option.some.inj h
      exact hone ⟨id, trivial⟩
    · obtain rfl := Option.some.inj h
      exact hone (past_authenticated keys _ _ x e)
  | gettingSession token e =>
    simp only [AuthTask.resume] at h
    split at h
    · obtain rfl := Option.some.inj h
      exact hone ⟨id, trivial⟩
    · split at h <;> obtain rfl := Option.some.inj h <;> exact hone ⟨id, trivial⟩
  | creatingSession _ _ _ _ _ _ | creatingToken _ _ _ _ _ | rehashing _ _ | gettingOwner _ _ _ _
  | gettingToken _ _ | verifyingCurrent _ _ | hashingNew _ _ =>
    simp only [AuthTask.resume] at h
    split at h <;> obtain rfl := Option.some.inj h <;> exact hone ⟨id, trivial⟩
  | revokingToken id now =>
    obtain rfl := Option.some.inj h
    dsimp only [Effect.tasks]
    split <;> exact hone ⟨fun h => h, trivial⟩
  | returned | raised => cases h

/-- **Every statement that writes** is one of these. -/
theorem resume_executed (h : t.resume keys s x = some (.write s' t')) :
    Executed t.await s.accounts s'.accounts := by
  obtain ⟨await, startedAt, readAt, matched, credential⟩ := t
  cases await with
  | creatingSession user password needsRehash token now created =>
    simp only [AuthTask.resume] at h
    split at h
    · cases h
    · rename_i s₁ hs
      obtain ⟨rfl, rfl⟩ := Effect.write.inj (Option.some.inj h)
      obtain ⟨a, ha, rfl⟩ := Option.map_eq_some_iff.mp hs
      exact .createSession user password needsRehash token now created rfl ha
  | creatingToken user id label token now =>
    simp only [AuthTask.resume] at h
    split at h
    · cases h
    · rename_i s₁ hs
      obtain ⟨rfl, rfl⟩ := Effect.write.inj (Option.some.inj h)
      obtain ⟨a, ha, rfl⟩ := Option.map_eq_some_iff.mp hs
      exact .createToken user id label token now ha
  | touchingLogin user _ _ now =>
    obtain ⟨rfl, rfl⟩ := Effect.write.inj (Option.some.inj h)
    exact .touchLastLogin user.id now rfl
  | updatingPassword user newHash =>
    obtain ⟨rfl, rfl⟩ := Effect.write.inj (Option.some.inj h)
    exact .updatePasswordHash user.id newHash rfl
  | touchingSession token user now e =>
    obtain ⟨rfl, rfl⟩ := Effect.write.inj (Option.some.inj h)
    exact .touchLastSeen token now rfl
  | deletingSession token | revoking token =>
    obtain ⟨rfl, rfl⟩ := Effect.write.inj (Option.some.inj h)
    exact .deleteSession token rfl
  | touchingToken id user now e =>
    obtain ⟨rfl, rfl⟩ := Effect.write.inj (Option.some.inj h)
    exact .touchLastUsed id now rfl
  | revokingAll user =>
    obtain ⟨rfl, rfl⟩ := Effect.write.inj (Option.some.inj h)
    exact .deleteAllForUser user.id rfl
  | loggingOut user =>
    obtain ⟨rfl, rfl⟩ := Effect.write.inj (Option.some.inj h)
    exact .deleteAllForUser user rfl
  | revokingToken id now =>
    obtain ⟨rfl, rfl⟩ := Effect.write.inj (Option.some.inj h)
    exact .revokeToken id now rfl
  | verifyingLogin user password =>
    cases user with
    | none => cases h
    | some user =>
      simp only [AuthTask.resume] at h
      split at h <;> cases h
  | gettingSession token e =>
    simp only [AuthTask.resume] at h
    split at h
    · cases h
    · split at h <;> cases h
  | rehashing _ _ | gettingOwner _ _ _ _ | gettingToken _ _ | gettingTokenOwner _ _
  | verifyingCurrent _ _ | hashingNew _ _ =>
    simp only [AuthTask.resume] at h
    split at h <;> cases h
  | gettingByUsername _ _ | updatingRehash _ _ | refusing | committing | returned | raised => cases h

namespace Executed

variable {await : Await} {a a' : Accounts}

theorem keepsTokens (h : Executed await a a') : a.KeepsTokens a' := by
  cases h with
  | createSession _ _ _ _ _ _ _ h =>
    exact Accounts.keepsTokens_of_eq (Accounts.createSession_spec h).2.2.1
  | createToken _ _ _ _ _ h => exact Accounts.keepsTokens_createToken h
  | touchLastLogin _ _ h | updatePasswordHash _ _ h | touchLastSeen _ _ h | deleteSession _ h
  | deleteAllForUser _ h =>
    subst h
    exact Accounts.keepsTokens_of_eq rfl
  | touchLastUsed id now h =>
    subst h
    exact Accounts.keepsTokens_modify rfl (fun _ => ⟨rfl, rfl, rfl, rfl⟩) fun _ _ h => h
  | revokeToken id now h =>
    subst h
    refine Accounts.keepsTokens_modify rfl (fun row => ?_) fun row r hr => ?_
    · split <;> exact ⟨rfl, rfl, rfl, rfl⟩
    · -- a token that is revoked stays as it is
      rw [if_neg (by rw [hr]; exact Option.some_ne_none r)]
      exact hr

theorem tokensDistinct (h : Executed await a a') (hd : a.TokensDistinct) : a'.TokensDistinct := by
  have hsame : a'.apiTokens = a.apiTokens → a'.TokensDistinct := by
    intro heq id id' row row' hrow hrow'
    exact hd id id' row row' (heq ▸ hrow) (heq ▸ hrow')
  cases h with
  | createSession _ _ _ _ _ _ _ h => exact hsame (Accounts.createSession_spec h).2.2.1
  | createToken _ _ _ _ _ h => exact Accounts.tokensDistinct_createToken h hd
  | touchLastLogin _ _ h | updatePasswordHash _ _ h | touchLastSeen _ _ h | deleteSession _ h
  | deleteAllForUser _ h =>
    subst h
    exact hsame rfl
  | touchLastUsed id now h =>
    subst h
    exact Accounts.tokensDistinct_modify rfl (fun _ => ⟨rfl, rfl, rfl, rfl⟩) hd
  | revokeToken id now h =>
    subst h
    refine Accounts.tokensDistinct_modify rfl (fun row => ?_) hd
    split <;> exact ⟨rfl, rfl, rfl, rfl⟩

/-- A session row only comes with the `INSERT` of its login. -/
theorem keepsSession (h : Executed await a a') {token : TokenHash}
    (hinsert : ∀ user password needsRehash now created,
      await ≠ .creatingSession user password needsRehash token now created) :
    a.KeepsSession token a' := by
  cases h with
  | createSession user password needsRehash token' now created hawait h =>
    have hne : token ≠ token' := by
      rintro rfl
      exact hinsert user password needsRehash now created hawait
    refine Accounts.keepsSession_of_imp fun row hrow => ?_
    rwa [(Accounts.createSession_spec h).2.2.2, Dict.get?_insert_ne _ _ hne] at hrow
  | createToken _ _ _ _ _ h =>
    obtain ⟨-, -, -, -, hsessions, -⟩ := Accounts.createToken_spec h
    exact Accounts.keepsSession_of_eq hsessions
  | touchLastSeen token' now h => exact h ▸ Accounts.keepsSession_touchLastSeen a token token' now
  | deleteSession token' h =>
    refine Accounts.keepsSession_of_imp fun row hrow => ?_
    rw [h] at hrow
    exact (Dict.get?_of_get?_erase hrow).2
  | deleteAllForUser user h =>
    refine Accounts.keepsSession_of_imp fun row hrow => ?_
    rw [h] at hrow
    exact (Accounts.get?_deleteAllForUser hrow).1
  | touchLastLogin _ _ h | updatePasswordHash _ _ h | touchLastUsed _ _ h | revokeToken _ _ h =>
    subst h
    exact Accounts.keepsSession_of_eq rfl

/-- Every statement but the `INSERT` of a login keeps the rows of all sessions. -/
theorem inserts_or_keeps (h : Executed await a a') :
    (∃ user password needsRehash token now created,
      await = .creatingSession user password needsRehash token now created ∧
        a.createSession token user.id created (now + sessionCookieLifetime) = some a') ∨
      ∀ token, a.KeepsSession token a' := by
  have hkeeps : Executed .committing a a' → ∀ token, a.KeepsSession token a' := by
    intro h token
    refine h.keepsSession ?_
    rintro _ _ _ _ _ ⟨⟩
  cases h with
  | createSession user password needsRehash token now created hawait h =>
    exact .inl ⟨user, password, needsRehash, token, now, created, hawait, h⟩
  | createToken user id label token now h =>
    exact .inr (hkeeps (.createToken user id label token now h))
  | touchLastLogin id now h => exact .inr (hkeeps (.touchLastLogin id now h))
  | updatePasswordHash id hash h => exact .inr (hkeeps (.updatePasswordHash id hash h))
  | touchLastSeen token now h => exact .inr (hkeeps (.touchLastSeen token now h))
  | deleteSession token h => exact .inr (hkeeps (.deleteSession token h))
  | deleteAllForUser user h => exact .inr (hkeeps (.deleteAllForUser user h))
  | touchLastUsed id now h => exact .inr (hkeeps (.touchLastUsed id now h))
  | revokeToken id now h => exact .inr (hkeeps (.revokeToken id now h))

theorem sessionsLast (h : Executed await a a')
    (hinsert : ∀ user password needsRehash token now created,
      await = .creatingSession user password needsRehash token now created →
        0 ≤ now ∧ now ≤ created)
    (hlast : a.SessionsLast) : a'.SessionsLast := by
  rcases h.inserts_or_keeps with ⟨_, _, _, _, now, created, hawait, h⟩ | hkeeps
  · obtain ⟨hnow, hle⟩ := hinsert _ _ _ _ _ _ hawait
    exact Accounts.sessionsLast_createSession hnow hle h hlast
  · exact hlast.of_keeps hkeeps

theorem keepsUsers (h : Executed await a a') : a.KeepsUsers a' := by
  cases h with
  | createSession _ _ _ _ _ _ _ h =>
    exact Accounts.keepsUsers_of_eq (Accounts.createSession_spec h).2.1
  | createToken _ _ _ _ _ h =>
    obtain ⟨-, -, -, husers, -⟩ := Accounts.createToken_spec h
    exact Accounts.keepsUsers_of_eq husers
  | touchLastLogin _ _ h | updatePasswordHash _ _ h =>
    subst h
    exact Accounts.keepsUsers_modify rfl
  | touchLastSeen _ _ h | deleteSession _ h | deleteAllForUser _ h | touchLastUsed _ _ h
  | revokeToken _ _ h =>
    subst h
    exact Accounts.keepsUsers_of_eq rfl

/-- The tokens after a statement that inserts none are those before it. -/
theorem creates_or_same (h : Executed await a a') :
    (∃ user id label token now, a.createToken id user token label now = some a') ∨
      ∀ id row', a'.apiTokens.get? id = some row' →
        ∃ row, a.apiTokens.get? id = some row ∧ row'.userId = row.userId := by
  have hsame : a'.apiTokens = a.apiTokens → ∀ id row', a'.apiTokens.get? id = some row' →
      ∃ row, a.apiTokens.get? id = some row ∧ row'.userId = row.userId :=
    fun heq id row' hrow' => ⟨row', heq ▸ hrow', rfl⟩
  cases h with
  | createSession _ _ _ _ _ _ _ h => exact .inr (hsame (Accounts.createSession_spec h).2.2.1)
  | createToken user id label token now h => exact .inl ⟨user, id, label, token, now, h⟩
  | touchLastLogin _ _ h | updatePasswordHash _ _ h | touchLastSeen _ _ h | deleteSession _ h
  | deleteAllForUser _ h =>
    subst h
    exact .inr (hsame rfl)
  | touchLastUsed id now h =>
    subst h
    refine .inr fun id row' hrow' => ?_
    obtain ⟨row, hrow, rfl | rfl⟩ := Accounts.get?_of_modify hrow' <;> exact ⟨_, hrow, rfl⟩
  | revokeToken id now h =>
    subst h
    refine .inr fun id row' hrow' => ?_
    obtain ⟨row, hrow, rfl | rfl⟩ := Accounts.get?_of_modify hrow'
    · exact ⟨_, hrow, rfl⟩
    · refine ⟨_, hrow, ?_⟩
      split <;> rfl

theorem owned (h : Executed await a a') (ho : a.Owned) : a'.Owned := by
  rcases h.creates_or_same with ⟨_, _, _, _, _, hcreate⟩ | hsame
  · exact Accounts.owned_createToken hcreate ho
  · rcases h.inserts_or_keeps with ⟨_, _, _, _, _, _, -, hinsert⟩ | hkeeps
    · exact Accounts.owned_createSession hinsert ho
    · refine ho.of_keeps h.keepsUsers (fun token row' hrow' => ?_) hsame
      obtain ⟨row, hrow, howner, -⟩ := hkeeps token row' hrow'
      exact ⟨row, hrow, howner⟩

end Executed

/-! ## The rules -/

section Rules

variable (normalize : Text → Text) (keys : DerivedKeys)

/-- The clock is past 1970 and does not go back, and none of these cookies is drawn. -/
def Draws (V : TokenHash → Prop) (_ : AuthTask) (_ : Tracked) (x : Input) : Prop :=
  (0 ≤ x.now ∧ x.now ≤ x.later) ∧ ¬ V (computeTokenHash x.cookieValue keys.sessionTokenMacKey)

instance {V : TokenHash → Prop} [DecidablePred V] (t : AuthTask) (s : Tracked) (x : Input) :
    Decidable (Draws keys V t s x) := inferInstanceAs (Decidable (_ ∧ _))

/-- **Owners** stay. -/
theorem ownerRule : (authClient normalize keys).Rule AuthTask.Rehashes (fun s => s.accounts.Owned)
    (fun _ s => s.accounts.Owned) (fun s s' => s.accounts.KeepsUsers s'.accounts)
    (fun _ _ => True) (fun _ _ _ => True) where
  toLocking := authLocking normalize keys
  refl _ := Accounts.keepsUsers_of_eq rfl
  trans _ _ _ h h' id hid := h' id (h id hid)
  own_of_inv _ _ h := h
  fact_mono _ _ _ _ _ := trivial
  fact_accept _ _ _ := trivial
  goOn _ _ _ _ _ _ ho _ _ _ := ⟨ho, trivial⟩
  write _ _ _ _ _ _ _ ho _ _ h := ⟨(resume_executed h).keepsUsers, (resume_executed h).owned ho, trivial⟩
  commit _ _ _ _ _ _ ho _ _ _ := ⟨ho, trivial⟩
  rollback _ _ _ _ _ _ _ _ _ _ := trivial
  busy _ _ _ _ _ _ _ _ ho _ _ _ := ⟨ho, trivial⟩
  failed _ _ _ _ _ := trivial

/-- **Tokens**: whatever commits keeps them. -/
theorem tokenRule : (authClient normalize keys).Rule AuthTask.Rehashes
    (fun s => s.accounts.TokensDistinct) (fun _ s => s.accounts.TokensDistinct)
    (fun s s' => s.accounts.KeepsTokens s'.accounts) (fun _ _ => True) (fun _ _ _ => True) where
  toLocking := authLocking normalize keys
  refl _ := Accounts.keepsTokens_of_eq rfl
  trans _ _ _ := Accounts.KeepsTokens.trans
  own_of_inv _ _ h := h
  fact_mono _ _ _ _ _ := trivial
  fact_accept _ _ _ := trivial
  goOn _ _ _ _ _ _ hd _ _ _ := ⟨hd, trivial⟩
  write _ _ _ _ _ _ _ hd _ _ h :=
    ⟨(resume_executed h).keepsTokens, (resume_executed h).tokensDistinct hd, trivial⟩
  commit _ _ _ _ _ _ hd _ _ _ := ⟨hd, trivial⟩
  rollback _ _ _ _ _ _ _ _ _ _ := trivial
  busy _ _ _ _ _ _ _ _ hd _ _ _ := ⟨hd, trivial⟩
  failed _ _ _ _ _ := trivial

/-- A login is only going to insert what was drawn for it. -/
abbrev Insertable (V : TokenHash → Prop) (_ : Tracked) (t : AuthTask) : Prop :=
  InsertMeets (fun now created token => (0 ≤ now ∧ now ≤ created) ∧ ¬ V token) t

/-- No task is at its `INSERT` when it begins. -/
theorem insertMeets_begin (P : ℚ → ℚ → TokenHash → Prop) (r : AuthRequest) (startedAt : UserId → ℕ) :
    InsertMeets P ⟨r.begin normalize keys, startedAt, 0, none, none⟩ := by
  rcases r with ⟨username, password⟩ | ⟨value | plaintext, e⟩ | cookie
  · trivial
  · rw [AuthRequest.begin]
    split <;> trivial
  · rw [AuthRequest.begin]
    split <;> trivial
  · rw [AuthRequest.begin]
    split <;> trivial

/-- After a stretch that draws as it should. -/
theorem Past.insertable {V : TokenHash → Prop} (h : Past keys x t') (hx : Draws keys V t s x) :
    Insertable V s' t' := by
  obtain ⟨await, _, _, _, _⟩ := t'
  cases await with
  | creatingSession user password needsRehash token now created =>
    obtain ⟨rfl, rfl, rfl⟩ : now = x.now ∧ created = x.later ∧
      token = computeTokenHash x.cookieValue keys.sessionTokenMacKey := h.insert
    exact hx
  | _ => trivial

/-- **Sessions** that nobody inserts. -/
theorem sessionRule (V : TokenHash → Prop) :
    (authClient normalize keys).Rule AuthTask.Rehashes (fun s => s.accounts.SessionsLast)
      (fun _ s => s.accounts.SessionsLast)
      (fun s s' => ∀ token, V token → s.accounts.KeepsSession token s'.accounts) (Insertable V)
      (Draws keys V) where
  toLocking := authLocking normalize keys
  refl _ _ _ := Accounts.keepsSession_of_eq rfl
  trans _ _ _ h h' token hV := (h token hV).trans (h' token hV)
  own_of_inv _ _ h := h
  fact_mono _ _ _ _ h := h
  fact_accept _ r _ := insertMeets_begin normalize keys _ r _
  goOn _ _ _ _ t' _ hlast _ hx h :=
    ⟨hlast, (resume_past h t' List.mem_cons_self).insertable keys hx⟩
  write s v t x v' t' _ hlast hfact hx h := by
    refine ⟨fun token hV => (resume_executed h).keepsSession ?_,
      (resume_executed h).sessionsLast ?_ hlast,
      (resume_past h t' List.mem_cons_self).insertable keys hx⟩
    · intro user password needsRehash now created hawait
      simp only [Insertable, InsertMeets, hawait] at hfact
      exact hfact.2 hV
    · intro user password needsRehash token now created hawait
      simp only [Insertable, InsertMeets, hawait] at hfact
      exact hfact.1
  commit _ _ _ _ t' _ hlast _ hx h :=
    ⟨hlast, (resume_past h t' List.mem_cons_self).insertable keys hx⟩
  rollback _ _ _ _ t' _ _ _ hx h := (resume_past h t' List.mem_cons_self).insertable keys hx
  busy _ _ _ _ _ _ t' _ hlast _ hx h :=
    ⟨hlast, (resume_past h t' (List.mem_cons_of_mem _ List.mem_cons_self)).insertable keys hx⟩
  failed _ t t' _ h := by
    dsimp only [authClient] at h
    split at h
    · cases h
    · obtain rfl := Option.some.inj h
      trivial

end Rules

/-! ## A request with a credential -/

section Tokens

variable {normalize : Text → Text} {c c' : AuthConfig} {i : ℕ} {user : UserId}

/-- Whoever has the lock has looked for its credential: one that still looks sees what is
committed. -/
theorem view_at_gate {a : Accounts} {labels : List AuthLabel}
    (hrun : (authClient normalize keys).machine.run (Client.idle a.boot) labels = some c)
    (ht : c.tasks[i]? = some t) (hgate : AtGate t) : c.view i = c.committed := by
  have hpast : Client.WriterMeets (fun t => ¬ AtGate t) c := by
    refine Client.writerMeets_run ?_ hrun
    intro t v x e h t' hmem
    exact (resume_past h t' hmem).gate
  exact hpast.view_eq ht (not_not_intro hgate)

/-- Request `i` is handled, with this user. -/
def Handled (keys : DerivedKeys) (e : Endpoint) (user : UserId) (i : ℕ) (x : Input)
    (c : AuthConfig) : Prop :=
  ∃ t dto, dto.id = user ∧ c.tasks[i]? = some (AuthTask.authenticated keys t dto x e)

/-- Request `i` is going to be answered with a 401. -/
def Refused (i : ℕ) (c : AuthConfig) : Prop :=
  ∃ t, c.tasks[i]? = some t ∧ (t.await = .refusing ∨ ∃ token, t.await = .deletingSession token)

/-- Request `i` executes two more statements, with the others moving before each of them, and
is then handled with this user. -/
def Serves (normalize : Text → Text) (keys : DerivedKeys) (e : Endpoint) (user : UserId) (i : ℕ)
    (c : AuthConfig) : Prop :=
  ∀ (others others' : List AuthLabel) (x x' : Input) (c' : AuthConfig),
    (∀ l ∈ others ++ others', l.Others i) →
    (authClient normalize keys).machine.run c
      (others ++ .resume i x :: (others' ++ [.resume i x'])) = some c' →
    Handled keys e user i x' c'

/-- The owner of a credential is there whenever the request looks later. -/
theorem owner_seen {others : List AuthLabel}
    (hsound : Client.Sound AuthTask.Rehashes (fun s : Tracked => s.accounts.Owned)
      (fun _ s => s.accounts.Owned) (fun s s' => s.accounts.KeepsUsers s'.accounts)
      (fun _ _ => True) c)
    (howner : (c.committed.accounts.users.get? user).isSome)
    (hrun : (authClient normalize keys).machine.run c others = some c')
    (ht : c'.tasks[i]? = some t) :
    ∃ dto : UserDto, dto.id = user ∧ (c'.view i).accounts.getById user = some dto := by
  obtain ⟨hsound', hkept⟩ := (ownerRule normalize keys).le_run hsound
    (Client.meets_guard_true _ _) hrun
  have hseen := (hsound'.view (ownerRule normalize keys) ht).1 user (hkept user howner)
  obtain ⟨row, hrow⟩ := Option.isSome_iff_exists.mp hseen
  exact ⟨row.dto user, rfl, by rw [Accounts.getById, hrow]; rfl⟩

/-- What is known of the owners when a task has moved. -/
theorem owners_after {a : Accounts} {labels : List AuthLabel} {x : Input} (howned : a.Owned)
    (hrun : (authClient normalize keys).machine.run (Client.idle a.boot) labels = some c)
    (hs : (authClient normalize keys).step c (.resume i x) = some c') :
    c.committed.accounts.Owned ∧
      c.committed.accounts.KeepsUsers c'.committed.accounts ∧
      Client.Sound AuthTask.Rehashes (fun s : Tracked => s.accounts.Owned)
        (fun _ s => s.accounts.Owned) (fun s s' => s.accounts.KeepsUsers s'.accounts)
        (fun _ _ => True) c' := by
  obtain ⟨hsound, -⟩ := (ownerRule normalize keys).le_run (Client.sound_idle howned)
    (Client.meets_guard_true _ _) hrun
  obtain ⟨hsound', hkept⟩ := (ownerRule normalize keys).le_run hsound
    (Client.meets_guard_true _ [.resume i x]) (by rw [Machine.run_cons_of_step _ hs]; rfl)
  exact ⟨hsound.committed, hkept, hsound'⟩

/-- A request whose token was found. -/
theorem serves_token {id : TokenId} {now : ℚ} {e : Endpoint}
    (hsound : Client.Sound AuthTask.Rehashes (fun s : Tracked => s.accounts.Owned)
      (fun _ s => s.accounts.Owned) (fun s s' => s.accounts.KeepsUsers s'.accounts)
      (fun _ _ => True) c)
    (howner : (c.committed.accounts.users.get? user).isSome) (ht : c.tasks[i]? = some t)
    (hawait : t.await = .touchingToken id user now e) : Serves normalize keys e user i c := by
  intro others others' x x' c' hothers hrun
  have hboth := List.forall_mem_append.mp hothers
  obtain ⟨d, d', hd, htd, hs, hrest⟩ := Client.run_others hboth.1 ht hrun
  -- `touch_last_used`
  have hwrite : t.resume keys (d.view i) x = some (.write
      ((d.view i).exec fun a => a.touchLastUsed id now) (t.moveTo (.gettingTokenOwner user e))) := by
    simp only [AuthTask.resume, hawait]
  have htouched : d'.tasks[i]? = some (t.moveTo (.gettingTokenOwner user e)) :=
    Client.task_of_write htd hwrite hs
  obtain ⟨d₁, d₂, hd₁, htd₁, hs', hend⟩ := Client.run_others hboth.2 htouched hrest
  obtain rfl := Option.some.inj hend
  -- `get_by_id` of the owner
  have hreach : (authClient normalize keys).machine.run c (others ++ .resume i x :: others') =
      some d₁ := by
    rw [Machine.run_append, hd, Option.bind_some, Machine.run_cons_of_step _ hs, hd₁]
  obtain ⟨dto, hid, hdto⟩ := owner_seen hsound howner hreach htd₁
  refine ⟨t.moveTo (.gettingTokenOwner user e), dto, hid, Client.task_of_goOn htd₁ ?_ hs'⟩
  simp only [authClient, AuthTask.resume, AuthTask.moveTo, hdto]

/-- A request whose session row was found. -/
theorem serves_session {token : TokenHash} {now : ℚ} {e : Endpoint}
    (hsound : Client.Sound AuthTask.Rehashes (fun s : Tracked => s.accounts.Owned)
      (fun _ s => s.accounts.Owned) (fun s s' => s.accounts.KeepsUsers s'.accounts)
      (fun _ _ => True) c)
    (howner : (c.committed.accounts.users.get? user).isSome) (ht : c.tasks[i]? = some t)
    (hawait : t.await = .gettingOwner token user now e) : Serves normalize keys e user i c := by
  intro others others' x x' c' hothers hrun
  have hboth := List.forall_mem_append.mp hothers
  obtain ⟨d, d', hd, htd, hs, hrest⟩ := Client.run_others hboth.1 ht hrun
  -- `get_by_id` of the owner
  obtain ⟨dto, hid, hdto⟩ := owner_seen hsound howner hd htd
  have hfound : d'.tasks[i]? = some (t.moveTo (.touchingSession token dto now e)) := by
    refine Client.task_of_goOn htd ?_ hs
    simp only [authClient, AuthTask.resume, hawait, hdto]
  obtain ⟨d₁, d₂, hd₁, htd₁, hs', hend⟩ := Client.run_others hboth.2 hfound hrest
  obtain rfl := Option.some.inj hend
  -- `touch_last_seen`
  have hwrite : (t.moveTo (.touchingSession token dto now e)).resume keys (d₁.view i) x' =
      some (.write ((d₁.view i).exec fun a => a.touchLastSeen token now)
        (AuthTask.authenticated keys (t.moveTo (.touchingSession token dto now e)) dto x' e)) := rfl
  exact ⟨_, dto, hid, Client.task_of_write htd₁ hwrite hs'⟩

end Tokens

end CredentialHistory

end Tables

namespace CredentialHistory

section Revocation

open PasswordChange

attribute [local instance] recordingArgon2

/-- A bearer token of the administrator. -/
def lifePlaintext : Text := generateApiTokenPlaintext "secret".toList

def lifeToken : ApiTokenRow :=
  ⟨0, computeTokenHash lifePlaintext changeKeys.apiTokenMacKey, "ci".toList, 0, none, none⟩

/-- The administrator with one session and one token. -/
def lifeAccounts : Accounts where
  users := changeAccounts.users
  sessions := (∅ : Dict TokenHash HttpSessionRow).insert
    (computeTokenHash "here".toList changeKeys.sessionTokenMacKey) ⟨0, 0, 2592000, 0⟩
  apiTokens := (∅ : Dict TokenId ApiTokenRow).insert 0 lifeToken

/-- The token is revoked at 10, by a request with the cookie. -/
def revocation : List AuthLabel :=
  [.arrive (.authenticated (.cookie "here".toList) (.revokeToken 0))] ++ stretches 0 5

theorem tokensDistinct_lifeAccounts : lifeAccounts.TokensDistinct := by
  have honly : ∀ id row, lifeAccounts.apiTokens.get? id = some row → id = 0 := by
    intro id row hrow
    rw [lifeAccounts, Dict.get?_insert] at hrow
    split at hrow
    · assumption
    · cases hrow
  intro id id' row row' hrow hrow' _
  rw [honly id row hrow, honly id' row' hrow']

theorem owned_lifeAccounts : lifeAccounts.Owned := by
  refine ⟨fun token row hrow => ?_, fun id row hrow => ?_⟩ <;>
    rw [lifeAccounts, Dict.get?_insert] at hrow <;> split at hrow
  · obtain rfl := Option.some.inj hrow
    rfl
  · cases hrow
  · obtain rfl := Option.some.inj hrow
    rfl
  · cases hrow

/-- A request with the token. -/
def presented : List AuthLabel := [.arrive (.authenticated (.bearer lifePlaintext) .other)]

end Revocation

section Sessions

variable [Argon2] {normalize : Text → Text} {keys : DerivedKeys} {c c' : AuthConfig} {i : ℕ}
  {t : AuthTask}

/-- No login that is under way has drawn this cookie. -/
structure Settled (token : TokenHash) (c : AuthConfig) : Prop where
  tasks : ∀ t ∈ c.tasks, InsertMeets (fun _ _ token' => token' ≠ token) t
  /-- nor has the transaction under way inserted its row -/
  writer : ∀ i s, c.writer = some (i, s) → c.committed.accounts.KeepsSession token s.accounts

/-- The rule for the sessions with this cookie can be taken up here. -/
theorem Settled.sound {token : TokenHash} (h : Settled token c)
    (hsound : Client.Sound AuthTask.Rehashes (fun s : Tracked => s.accounts.SessionsLast)
      (fun _ s => s.accounts.SessionsLast)
      (fun s s' => ∀ token', False → s.accounts.KeepsSession token' s'.accounts)
      (Insertable fun _ => False) c) :
    Client.Sound AuthTask.Rehashes (fun s : Tracked => s.accounts.SessionsLast)
      (fun _ s => s.accounts.SessionsLast)
      (fun s s' => ∀ token', token' = token → s.accounts.KeepsSession token' s'.accounts)
      (Insertable fun token' => token' = token) c := by
  refine ⟨hsound.locked, hsound.committed, fun i s hw => ?_, fun t hmem => ?_⟩
  · obtain ⟨-, t, ht, hown⟩ := hsound.writing i s hw
    refine ⟨?_, t, ht, hown⟩
    rintro _ rfl
    exact h.writer i s hw
  · have hclock := hsound.tasks t hmem
    have hother := h.tasks t hmem
    obtain ⟨await, _, _, _, _⟩ := t
    cases await with
    | creatingSession _ _ _ _ _ _ => exact ⟨hclock.1, hother⟩
    | _ => trivial

/-- The row is looked up: it is found with its end to come, or the request is refused. -/
theorem session_looked_up {token : TokenHash} {e : Endpoint} {x : Input} (ht : c.tasks[i]? = some t)
    (hawait : t.await = .gettingSession token e) (hview : c.view i = c.committed)
    (hs : (authClient normalize keys).step c (.resume i x) = some c') :
    (∀ row, c.committed.accounts.sessions.get? token = some row → x.now < row.expiresAt →
      ∃ t', c'.tasks[i]? = some t' ∧ t'.await = .gettingOwner token row.userId x.now e) ∧
    ((∀ row, c.committed.accounts.sessions.get? token = some row → row.expiresAt ≤ x.now) →
      Refused i c') := by
  rcases hrow : c.committed.accounts.sessions.get? token with _ | row
  · refine ⟨nofun, fun _ => ⟨t.moveTo .refusing, Client.task_of_goOn ht ?_ hs, .inl rfl⟩⟩
    simp only [authClient, AuthTask.resume, hawait, hview, Accounts.getByTokenHash, hrow]
  · by_cases hlive : (row.expiresAt : ℚ) ≤ x.now
    · refine ⟨fun row' heq hless => ?_, fun _ => ⟨AuthTask.moveTo
        { t with matched := some (row.userId, c.committed.record.verifiedAt token) }
        (.deletingSession token), Client.task_of_goOn ht ?_ hs, .inr ⟨token, rfl⟩⟩⟩
      · obtain rfl := Option.some.inj heq
        exact absurd hlive (not_le.mpr hless)
      · simp only [authClient, AuthTask.resume, hawait, hview, Accounts.getByTokenHash, hrow,
          if_pos hlive]
    · refine ⟨fun row' heq _ => ?_, fun hdead => absurd (hdead row rfl) hlive⟩
      obtain rfl := Option.some.inj heq
      refine ⟨{ t with
        matched := some (row.userId, c.committed.record.verifiedAt token)
        credential := some (c.committed.record.sessionBoot token)
        await := .gettingOwner token row.userId x.now e }, Client.task_of_goOn ht ?_ hs, rfl⟩
      simp only [authClient, AuthTask.resume, hawait, hview, Accounts.getByTokenHash, hrow,
        if_neg hlive, AuthTask.moveTo]

end Sessions

section Login

open PasswordChange

attribute [local instance] recordingArgon2

/-- The cookie that the login draws. -/
def drawnToken : TokenHash := computeTokenHash "elsewhere".toList changeKeys.sessionTokenMacKey

def login : List AuthLabel :=
  [.arrive (.login "admin".toList "old password 1".toList)] ++ stretches 0 5

theorem sessionsLast_lifeAccounts : lifeAccounts.SessionsLast := by
  intro token row hrow
  rw [lifeAccounts, Dict.get?_insert] at hrow
  split at hrow
  · obtain rfl := Option.some.inj hrow
    norm_num [sessionCookieLifetime]
  · cases hrow

/-- A request with the cookie of the login. -/
def returning : List AuthLabel :=
  [.arrive (.authenticated (.cookie "elsewhere".toList) .other)]

end Login

end CredentialHistory

end RestreamPlus
