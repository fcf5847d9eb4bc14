import RestreamPlus.Auth.Sessions

/-!
# A password change revokes the sessions of the old password

`change_password` sets the hash and deletes the session rows of the user in one
transaction, and it has the write lock from its authentication on. So a login that
inserts its row before is revoked, and one that reads the hash afterwards reads the new
one. Between the two stands a login that reads the old hash, is busy with Argon2
while the change commits, and then inserts a row of a password that is superseded.

The invariant is about the committed tables and, for the task that has the write
lock, about its copy: between the `UPDATE` and the revocation the rows of one
user are behind.
-/

namespace RestreamPlus

open Interleaving

namespace PasswordChange

section Changes

variable [Argon2]

/-! ## The invariant -/

/-- The stored hashes belong to the last passwords, and so do the session rows, but for
those of one user. -/
structure UpToDate (but : Option UserId) (s : Tracked) : Prop where
  hashes : ∀ user, s.record.hashAt user = s.record.changes user
  sessions : ∀ token row, s.accounts.sessions.get? token = some row → but ≠ some row.userId →
    s.record.verifiedAt token = s.record.changes row.userId

/-- Passwords are changed, never changed back. -/
def Later (s s' : Tracked) : Prop := ∀ user, s.record.changes user ≤ s'.record.changes user

/-- A task began in the past, and a row it was matched with is not older. -/
structure Noted (s : Tracked) (t : AuthTask) : Prop where
  started : ∀ user, t.startedAt user ≤ s.record.changes user
  matched : ∀ user n, t.matched = some (user, n) → t.startedAt user ≤ n

/-- A login inserts its session row before the password is changed that it verified. -/
def WritesInTime (t : AuthTask) (s : Tracked) (_ : Input) : Prop :=
  match t.await with
  | .creatingSession user _ _ _ _ _ => t.readAt = s.record.changes user.id
  | _ => True

instance (t : AuthTask) (s : Tracked) (x : Input) : Decidable (WritesInTime t s x) := by
  unfold WritesInTime
  split <;> infer_instance

theorem Later.refl (s : Tracked) : Later s s := fun _ => le_rfl

theorem Later.trans {s s' s'' : Tracked} (h : Later s s') (h' : Later s' s'') : Later s s'' :=
  fun user => (h user).trans (h' user)

theorem UpToDate.weaken {s : Tracked} (h : UpToDate none s) (but : Option UserId) :
    UpToDate but s :=
  ⟨h.hashes, fun token row hrow _ => h.sessions token row hrow nofun⟩

theorem Noted.later {s s' : Tracked} {t : AuthTask} (h : Noted s t) (hle : Later s s') :
    Noted s' t :=
  ⟨fun user => (h.started user).trans (hle user), h.matched⟩

theorem Noted.same {s : Tracked} {t t' : AuthTask} (h : Noted s t) (hsame : t.SameNotes t') :
    Noted s t' := by
  obtain ⟨hstarted, hmatched, -⟩ := hsame
  refine ⟨fun user => ?_, fun user n hm => ?_⟩
  · rw [hstarted]
    exact h.started user
  · rw [hstarted]
    exact h.matched user n (hmatched ▸ hm)

/-! ## The statements -/

variable {s s' : Tracked}

/-- A login in time adds a row of the password in force. -/
theorem UpToDate.createSession {readAt : ℕ} {token : Symbolic.Mac Key Text} {user : UserId}
    {now created : ℚ} (h : UpToDate none s) (hread : readAt = s.record.changes user)
    (hs : s.createSession readAt token user now created = some s') :
    UpToDate none s' ∧ Later s s' := by
  obtain ⟨a, ha, rfl⟩ := Option.map_eq_some_iff.mp hs
  obtain ⟨-, -, row', howner, hsessions⟩ := Accounts.createSession_eq_some ha
  refine ⟨⟨h.hashes, fun token' row hrow _ => ?_⟩, Later.refl s⟩
  rw [hsessions, Dict.get?_insert] at hrow
  by_cases htoken : token' = token
  · rw [if_pos htoken] at hrow
    obtain rfl := Option.some.inj hrow
    subst htoken
    rw [howner]
    exact (Function.update_self ..).trans hread
  · rw [if_neg htoken] at hrow
    exact (Function.update_of_ne htoken ..).trans (h.sessions token' row hrow nofun)

/-- A password change leaves the rows of its user behind … -/
theorem UpToDate.changePassword {user : UserId} {newHash : PasswordHash} (h : UpToDate none s) :
    UpToDate (some user) (s.changePassword user newHash) ∧
      Later s (s.changePassword user newHash) := by
  refine ⟨⟨fun user' => ?_, fun token row hrow hother => ?_⟩, fun user' => ?_⟩
  · by_cases huser : user' = user
    · subst huser
      simp [Tracked.changePassword]
    · simpa [Tracked.changePassword, huser] using h.hashes user'
  · have huser : row.userId ≠ user := fun heq => hother (by rw [heq])
    simpa [Tracked.changePassword, huser] using h.sessions token row hrow nofun
  · by_cases huser : user' = user
    · subst huser
      simp [Tracked.changePassword]
    · simp [Tracked.changePassword, huser]

/-- … and deletes them. -/
theorem UpToDate.deleteAllForUser {user : UserId} (h : UpToDate (some user) s) :
    UpToDate none (s.exec fun a => a.deleteAllForUser user) := by
  refine ⟨h.hashes, fun token row hrow _ => ?_⟩
  obtain ⟨hold, hne⟩ := Accounts.get?_deleteAllForUser hrow
  exact h.sessions token row hold fun heq => hne (Option.some.inj heq).symm

/-- A token that is created leaves them alone. -/
theorem UpToDate.createToken {id : TokenId} {user : UserId} {token : TokenHash} {label : Text}
    {now : ℚ} (h : UpToDate none s) (hs : s.createToken id user token label now = some s') :
    UpToDate none s' ∧ Later s s' := by
  obtain ⟨a, ha, rfl⟩ := Option.map_eq_some_iff.mp hs
  obtain ⟨-, hsessions, -⟩ := Accounts.createToken_eq_some ha
  exact ⟨⟨h.hashes, fun token' row hrow => h.sessions token' row (hsessions ▸ hrow)⟩, Later.refl s⟩

/-- The other statements touch rows that are there. -/
theorem UpToDate.exec {f : Accounts → Accounts} (h : UpToDate none s)
    (hf : ∀ a : Accounts, a.Touched (f a)) : UpToDate none (s.exec f) := by
  refine ⟨h.hashes, fun token row hrow _ => ?_⟩
  obtain ⟨old, hold, howner, -⟩ := (hf s.accounts).sessions token row hrow
  rw [howner]
  exact h.sessions token old hold nofun

/-! ## The rule -/

variable (normalize : Text → Text) (keys : DerivedKeys)

/-- A stretch without a statement that writes. -/
theorem noted_goOn {v : Tracked} {t t' : AuthTask} {x : Input} (hle : Later s v)
    (hown : UpToDate t.revokes v) (hnoted : Noted s t)
    (h : t.resume keys v x = some (.goOn t')) : UpToDate t'.revokes v ∧ Noted s t' := by
  obtain ⟨hnone, hnone', hnotes⟩ := AuthTask.resume_goOn h
  rw [hnone] at hown
  rw [hnone']
  refine ⟨hown, ?_⟩
  cases hnotes with
  | same hsame => exact hnoted.same hsame
  | apiToken _ _ _ _ hstarted hmatched _ =>
    refine ⟨fun user => by rw [hstarted]; exact hnoted.started user, fun user n hm => ?_⟩
    rw [hstarted]
    exact hnoted.matched user n (hmatched ▸ hm)
  | session token row hrow hstarted hmatched _ =>
    -- the row that the cookie fits was there all the time
    refine ⟨fun user => by rw [hstarted]; exact hnoted.started user, fun user n hm => ?_⟩
    obtain ⟨rfl, rfl⟩ := Prod.mk.inj (Option.some.inj (hmatched.symm.trans hm))
    rw [hstarted, hown.sessions token row hrow nofun]
    exact (hnoted.started _).trans (hle _)

/-- A statement that writes. -/
theorem noted_write {v v' : Tracked} {t t' : AuthTask} {x : Input}
    (hown : UpToDate t.revokes v) (hnoted : Noted s t) (hok : WritesInTime t v x)
    (h : t.resume keys v x = some (.write v' t')) :
    Later v v' ∧ UpToDate t'.revokes v' ∧ Noted s t' := by
  obtain ⟨hsame, hwrite⟩ := AuthTask.resume_write h
  have hnoted' : Noted s t' := hnoted.same hsame
  cases hwrite with
  | login user password needsRehash token now created hawait hs hnone' =>
    rw [AuthTask.revokes, hawait] at hown
    rw [WritesInTime, hawait] at hok
    obtain ⟨hdate, hlater⟩ := hown.createSession hok hs
    exact ⟨hlater, hnone' ▸ hdate, hnoted'⟩
  | change user newHash hawait hs hsome' =>
    rw [AuthTask.revokes, hawait] at hown
    subst hs
    obtain ⟨hdate, hlater⟩ := hown.changePassword
    exact ⟨hlater, hsome' ▸ hdate, hnoted'⟩
  | revoke user hsome hs hnone' =>
    rw [hsome] at hown
    subst hs
    exact ⟨Later.refl v, hnone' ▸ hown.deleteAllForUser, hnoted'⟩
  | create user id label token now hs hnone hnone' =>
    rw [hnone] at hown
    obtain ⟨hdate, hlater⟩ := hown.createToken hs
    exact ⟨hlater, hnone' ▸ hdate, hnoted'⟩
  | touch f hf hs hnone hnone' =>
    rw [hnone] at hown
    subst hs
    exact ⟨Later.refl v, hnone' ▸ hown.exec hf, hnoted'⟩

theorem rule : (authClient normalize keys).Rule AuthTask.Rehashes (UpToDate none)
    (fun t => UpToDate t.revokes) Later Noted WritesInTime where
  toLocking := authLocking normalize keys
  refl := Later.refl
  trans _ _ _ h h' := h.trans h'
  own_of_inv t _ h := h.weaken t.revokes
  fact_mono _ _ _ hle h := h.later hle
  fact_accept s _ _ := ⟨fun _ => le_rfl, fun _ _ hm => absurd hm (Option.some_ne_none _).symm⟩
  goOn _ _ _ _ _ hle hown hnoted _ h := noted_goOn keys hle hown hnoted h
  write _ _ _ _ _ _ _ hown hnoted hok h := noted_write keys hown hnoted hok h
  commit _ v t _ _ hle hown hnoted _ h := by
    -- nobody commits between the `UPDATE` and the revocation of a password change
    obtain ⟨hawait, rfl⟩ := AuthTask.resume_commit h
    rw [AuthTask.revokes, hawait] at hown
    exact ⟨hown, (hnoted.later hle).same (t.sameNotes_moveTo .returned)⟩
  rollback _ _ t _ _ _ _ hnoted _ h := by
    rw [AuthTask.resume_rollback h]
    exact hnoted.same (t.sameNotes_moveTo .raised)
  busy _ _ t _ _ _ _ _ hown hnoted _ h := by
    obtain ⟨⟨user, newHash, hawait⟩, rfl⟩ := AuthTask.resume_separate h
    rw [AuthTask.revokes, hawait] at hown
    exact ⟨hown, hnoted.same (t.sameNotes_moveTo .committing)⟩
  failed _ t t' hnoted h := by
    obtain ⟨-, heq⟩ := Option.ite_none_left_eq_some.mp h
    obtain rfl := Option.some.inj heq
    exact ⟨hnoted.started, hnoted.matched⟩

/-- Whoever starts after a password change is not matched with a row whose login verified
the password before it. -/
def NoSupersededSession (c : AuthConfig) : Prop :=
  ∀ t ∈ c.tasks, ∀ user n, t.matched = some (user, n) → t.startedAt user ≤ n

theorem upToDate_boot (a : Accounts) : UpToDate none a.boot := ⟨fun _ => rfl, fun _ _ _ _ => rfl⟩

/-- **A password change revokes every session of the old password**, in every state of
every run in which a login's row is written before the next change. -/
theorem no_superseded_session (a : Accounts) (labels : List AuthLabel)
    (h : (authClient normalize keys).machine.Meets (Client.guard WritesInTime)
      (Client.idle a.boot) labels) :
    (authClient normalize keys).machine.Always NoSupersededSession (Client.idle a.boot) labels := by
  refine (rule normalize keys).always ?_ (upToDate_boot a) h
  intro c hsound t hmem
  exact (hsound.tasks t hmem).matched

end Changes

/-! ## A login that straddles the change -/

section Straddle

attribute [local instance] recordingArgon2

/-- A process whose administrator is logged in on one device. -/
def changeKeys : DerivedKeys := deriveKeys "passphrase".toList [1]

theorem oldPassword_ne_nil : "old password 1".toList ≠ [] := by decide

def changeAccounts : Accounts where
  users := (∅ : Dict UserId UserRow).insert 0
    ⟨"admin".toList, hasher.hash "old password 1".toList [1] oldPassword_ne_nil, none⟩
  sessions := (∅ : Dict TokenHash HttpSessionRow).insert
    (computeTokenHash "here".toList changeKeys.sessionTokenMacKey) ⟨0, 0, 1000, 0⟩
  apiTokens := ∅

def changeBody : ChangePasswordRequest :=
  ⟨"old password 1".toList, "new password 2".toList, by decide, by decide⟩

/-- The clock, the cookie and the salt that are drawn in these runs. -/
def changeInput : Input := ⟨10, 10, "elsewhere".toList, [2], 0, "secret".toList⟩

/-- A number of stretches of one task. -/
def stretches (i n : ℕ) : List AuthLabel := List.replicate n (.resume i changeInput)

/-- The login of another device, and the password change. -/
def changeArrivals : List AuthLabel :=
  [.arrive (.login "admin".toList "old password 1".toList),
    .arrive (.authenticated (.cookie "here".toList) (.changePassword changeBody))]

/-- A request with the cookie of that login. -/
def changeProbe : List AuthLabel :=
  [.arrive (.authenticated (.cookie "elsewhere".toList) .other)] ++ stretches 2 4

/-- The login has verified the old password when the change commits. Its session row comes
after the revocation, and the cookie is good for a request that starts later. -/
theorem login_outlives_password_change :
    ∃ c, (authClient id changeKeys).machine.run (Client.idle changeAccounts.boot)
        (changeArrivals ++ stretches 0 2 ++ stretches 1 8 ++ stretches 0 3 ++ changeProbe) = some c ∧
      (∃ t ∈ c.tasks, t.succeeded = true ∧ t.matched = some (0, 0) ∧ t.startedAt 0 = 1) ∧
      ¬ NoSupersededSession c := by
  have hlast : ((authClient id changeKeys).machine.run (Client.idle changeAccounts.boot)
      (changeArrivals ++ stretches 0 2 ++ stretches 1 8 ++ stretches 0 3 ++ changeProbe)).any
      (fun c => ∃ t ∈ c.tasks, t.succeeded = true ∧ t.matched = some (0, 0) ∧ t.startedAt 0 = 1) =
        true := by decide +kernel
  obtain ⟨c, hc, hstale⟩ := (Option.any_eq_true _ _).mp hlast
  obtain ⟨t, hmem, hserved, hmatched, hstarted⟩ := of_decide_eq_true hstale
  refine ⟨c, hc, ⟨t, hmem, hserved, hmatched, hstarted⟩, fun h => ?_⟩
  have hle : t.startedAt 0 ≤ 0 := h t hmem 0 0 hmatched
  rw [hstarted] at hle
  exact absurd hle (by decide)

/-- The same login, over before the change commits. -/
theorem no_superseded_session_in_time :
    (authClient id changeKeys).machine.Always NoSupersededSession (Client.idle changeAccounts.boot)
      (changeArrivals ++ stretches 0 5 ++ stretches 1 8 ++ changeProbe) :=
  no_superseded_session _ _ _ _ (by decide +kernel)

end Straddle

end PasswordChange

end RestreamPlus
