import RestreamPlus.Auth.PasswordChange

/-!
# The stored hash and the newest password

A login that finds outdated Argon2 parameters has a background task: the rehash of the
password it has verified. The `UPDATE` of the rehash does not look at the row, so one that
came late would put an old password back. It never comes at all: the task is over before
the session of its login is committed, and that session has the write lock since the
`INSERT` of the session row. The rehash waits for a lock that its own login holds, and
gives up; a hash is only replaced by a change of its password.

The invariant is the same for the committed tables and for the copy of the task
with the write lock, because a password change sets the hash in one statement.
-/

namespace RestreamPlus

open Interleaving

namespace Rehash

section Newest

variable [Argon2]

/-- Every stored hash is one of the password that was set last. -/
def Newest (s : Tracked) : Prop :=
  ∀ user row, s.accounts.users.get? user = some row →
    row.passwordHash.password = s.record.current user

/-! ## The statements -/

variable {s s' : Tracked}

theorem Newest.createSession {readAt : ℕ} {token : TokenHash} {user : UserId} {now created : ℚ}
    (h : Newest s) (hs : s.createSession readAt token user now created = some s') : Newest s' := by
  obtain ⟨a, ha, rfl⟩ := Option.map_eq_some_iff.mp hs
  obtain ⟨-, husers, -⟩ := Accounts.createSession_eq_some ha
  intro user' row hrow
  exact h user' row (husers ▸ hrow)

theorem Newest.createToken {id : TokenId} {user : UserId} {token : TokenHash} {label : Text}
    {now : ℚ} (h : Newest s) (hs : s.createToken id user token label now = some s') :
    Newest s' := by
  obtain ⟨a, ha, rfl⟩ := Option.map_eq_some_iff.mp hs
  obtain ⟨husers, -⟩ := Accounts.createToken_eq_some ha
  intro user' row hrow
  exact h user' row (husers ▸ hrow)

theorem Newest.changePassword {user : UserId} {newHash : PasswordHash} (h : Newest s) :
    Newest (s.changePassword user newHash) := by
  intro user' row hrow
  obtain ⟨old, hold, hhash⟩ := Accounts.get?_updatePasswordHash hrow
  by_cases huser : user' = user
  · subst huser
    simp [hhash, Tracked.changePassword]
  · simpa [hhash, huser, Tracked.changePassword] using h user' old hold

/-- The other statements leave the hashes alone. -/
theorem Newest.exec {f : Accounts → Accounts} (h : Newest s)
    (hf : ∀ a : Accounts, ∀ user row, (f a).users.get? user = some row →
      ∃ old, a.users.get? user = some old ∧ row.passwordHash = old.passwordHash) :
    Newest (s.exec f) := by
  intro user row hrow
  obtain ⟨old, hold, hhash⟩ := hf s.accounts user row hrow
  rw [hhash]
  exact h user old hold

/-! ## The rule -/

variable (normalize : Text → Text) (keys : DerivedKeys)

/-- A statement that writes. -/
theorem newest_write {v v' : Tracked} {t t' : AuthTask} {x : Input} (h : Newest v)
    (hs : t.resume keys v x = some (.write v' t')) : Newest v' := by
  obtain ⟨-, hwrite⟩ := AuthTask.resume_write hs
  cases hwrite with
  | login user password needsRehash token now created hawait hs hnone' => exact h.createSession hs
  | change user newHash hawait hs hsome' => exact hs ▸ h.changePassword
  | revoke user hsome hs hnone' =>
    exact hs ▸ h.exec fun a => (a.touched_deleteAllForUser user).users
  | create user id label token now hs hnone hnone' => exact h.createToken hs
  | touch f hf hs hnone hnone' => exact hs ▸ h.exec fun a => (hf a).users

theorem rule : (authClient normalize keys).Rule AuthTask.Rehashes Newest (fun _ => Newest)
    (fun _ _ => True) (fun _ _ => True) (fun _ _ _ => True) where
  toLocking := authLocking normalize keys
  refl _ := trivial
  trans _ _ _ _ _ := trivial
  own_of_inv _ _ h := h
  fact_mono _ _ _ _ _ := trivial
  fact_accept _ _ _ := trivial
  goOn _ _ _ _ _ _ hnewest _ _ _ := ⟨hnewest, trivial⟩
  write _ _ _ _ _ _ _ hnewest _ _ h := ⟨trivial, newest_write keys hnewest h, trivial⟩
  commit _ _ _ _ _ _ hnewest _ _ _ := ⟨hnewest, trivial⟩
  rollback _ _ _ _ _ _ _ _ _ _ := trivial
  busy _ _ _ _ _ _ _ _ hnewest _ _ _ := ⟨hnewest, trivial⟩
  failed _ _ _ _ _ := trivial

/-- Exactly the password that was set last verifies. -/
def VerifiesNewest (c : AuthConfig) : Prop :=
  ∀ user row, c.committed.accounts.users.get? user = some row → ∀ password,
    (verifyPassword row.passwordHash password).ok = true ↔ password = c.committed.record.current user

theorem newest_boot (a : Accounts) : Newest a.boot := by
  intro user row hrow
  have hrow' : a.users.get? user = some row := hrow
  simp [Accounts.boot, hrow']

end Newest

section Outdated

open PasswordChange

attribute [local instance] recordingArgon2

/-- The hash of the administrator was made with fewer passes. -/
def outdatedHash : PasswordHash :=
  { hasher with timeCost := 2 }.hash "old password 1".toList [1] oldPassword_ne_nil

def outdatedAccounts : Accounts where
  users := (∅ : Dict UserId UserRow).insert 0 ⟨"admin".toList, outdatedHash, none⟩
  sessions := changeAccounts.sessions
  apiTokens := ∅

/-- A login of the administrator and its rehash: the outdated hash is still there. -/
example : ((authClient id changeKeys).machine.run (Client.idle outdatedAccounts.boot)
    ([.arrive (.login "admin".toList "old password 1".toList)] ++ stretches 0 7)).map
      (fun c => (c.tasks.map AuthTask.succeeded,
        c.committed.accounts.users.values.map UserRow.passwordHash)) =
    some ([true], [outdatedHash]) := by decide +kernel

end Outdated

end Rehash

end RestreamPlus
