import RestreamPlus.Auth.Passwords
import RestreamPlus.Auth.Reprompts
import RestreamPlus.Lib.Machine
import RestreamPlus.Lib.Tickets

/-!
# Sensitive requests (`app/api`)

Eight requests ask for the password once more. `POST /api/auth/reprompt` verifies it in a
thread and issues a grant; the request that follows carries the grant in a header and
consumes it before it does anything else.

`Desk` is the store of the grants with the requests of both kinds around it. They come in
any order, from any user and with any header, several passwords can be under
verification at once, and the pruner and restarts come in between.
`sensitive_requests_matched`: every request that was let through has a password
verification of its own behind it, by the same user, for the same scope, and less than
60 s earlier.
-/

namespace RestreamPlus

open Interleaving

namespace Api

/-- The error codes of these endpoints. -/
inductive RepromptError : Type where
  /-- `BAD_REQUEST` -/
  | badRequest
  /-- `INVALID_CREDENTIALS` -/
  | invalidCredentials
  /-- `REPROMPT_REQUIRED` -/
  | repromptRequired
  /-- `REPROMPT_INVALID_OR_EXPIRED` -/
  | repromptInvalidOrExpired
  /-- the `ValueError` of `issue`, a 500 -/
  | emptyUserId
  deriving DecidableEq

end Api

/-- The value of a scope. -/
def RepromptScope.value : RepromptScope → Text
  | .revealStreamKey => "reveal_stream_key".toList
  | .regenerateIngestKey => "regenerate_ingest_key".toList
  | .rotatePassphrase => "rotate_passphrase".toList
  | .changePassword => "change_password".toList
  | .deleteTarget => "delete_target".toList
  | .revokeApiToken => "revoke_api_token".toList
  | .clearCredential => "clear_credential".toList
  | .revealIngestKey => "reveal_ingest_key".toList

/-- The members of `RepromptScope`. -/
def RepromptScope.all : List RepromptScope :=
  [.revealStreamKey, .regenerateIngestKey, .rotatePassphrase, .changePassword, .deleteTarget,
    .revokeApiToken, .clearCredential, .revealIngestKey]

namespace Api

open RepromptScope in
/-- `_scope_or_400`. -/
def scopeOr400 (scope : Text) : Except RepromptError RepromptScope :=
  match all.find? fun s => s.value = scope with
  | some s => .ok s
  | none => .error .badRequest

/-- Every scope can be asked for, under its own value only. -/
theorem scopeOr400_eq_ok {text : Text} {scope : RepromptScope} :
    scopeOr400 text = .ok scope ↔ text = scope.value := by
  constructor
  · intro h
    rw [scopeOr400] at h
    split at h
    · rename_i s hs
      cases h
      have hvalue := List.find?_some hs
      exact (of_decide_eq_true hvalue).symm
    · cases h
  · rintro rfl
    cases scope <;> rfl

section Requests

variable [Argon2]

/-- What `require_authenticated` hands to a handler, as far as it is used here: the row of
the user as authentication read it. -/
structure AuthenticatedUser : Type where
  id : Text
  passwordHash : PasswordHash
  deriving DecidableEq

/-- `RepromptIssueRequest`. -/
structure RepromptIssueRequest : Type where
  password : Text
  scope : Text
  password_length : 1 ≤ password.length ∧ password.length ≤ 1024
  scope_length : 1 ≤ scope.length ∧ scope.length ≤ 64
  deriving DecidableEq

/-! ## The gate -/

/-- How a sensitive request begins: `if not x_reprompt_grant`, `if not reprompts.consume`. -/
def gate (scope : RepromptScope) (reprompts : RepromptStore) (now : ℚ) (auth : AuthenticatedUser)
    (xRepromptGrant : Option Text) : RepromptStore × Except RepromptError Unit :=
  match xRepromptGrant with
  | none | some [] => (reprompts, .error .repromptRequired)
  | some grantId =>
    let (reprompts, ok) := reprompts.consume grantId auth.id scope now
    (reprompts, if ok then .ok () else .error .repromptInvalidOrExpired)

/-- The sensitive requests. -/
inductive SensitiveRequest : Type where
  | changePassword
  | deleteTarget
  | revealCredential
  | clearCredential
  | rotateIngestKey
  | revealIngestKey
  | revokeToken
  | rotatePassphrase
  deriving DecidableEq

namespace SensitiveRequest

/-- The scope a handler names. -/
def scope : SensitiveRequest → RepromptScope
  | .changePassword => .changePassword
  | .deleteTarget => .deleteTarget
  | .revealCredential => .revealStreamKey
  | .clearCredential => .clearCredential
  | .rotateIngestKey => .regenerateIngestKey
  | .revealIngestKey => .revealIngestKey
  | .revokeToken => .revokeApiToken
  | .rotatePassphrase => .rotatePassphrase

/-- The beginning of its handler. -/
def enter (r : SensitiveRequest) : RepromptStore → ℚ → AuthenticatedUser → Option Text →
    RepromptStore × Except RepromptError Unit :=
  gate r.scope

end SensitiveRequest

/-! ## The desk -/

/-- A request of `issue_reprompt_grant` whose password is verified in a thread. -/
structure Verification : Type where
  auth : AuthenticatedUser
  password : Text
  scope : RepromptScope
  deriving DecidableEq

/-- On record: a grant was issued. -/
structure Proof : Type extends Verification where
  time : ℚ
  deriving DecidableEq

/-- On record: a sensitive request was let through. -/
structure Pass : Type where
  userId : Text
  request : SensitiveRequest
  time : ℚ
  deriving DecidableEq

/-- The store, what is in flight around it, and the record. -/
structure Desk : Type where
  reprompts : RepromptStore
  /-- `time.monotonic()` -/
  now : ℚ
  verifying : List Verification
  proofs : List Proof
  passes : List Pass

namespace Desk

/-- What happens next. -/
inductive Label : Type where
  | clock (now : ℚ)
  /-- `issue_reprompt_grant`, up to `to_thread` -/
  | reprompt (auth : AuthenticatedUser) (body : RepromptIssueRequest)
  /-- `verify_password` of one of them returns; the id is the one `token_urlsafe` draws -/
  | verified (i : ℕ) (grantId : Text)
  /-- one of them is cancelled -/
  | cancelled (i : ℕ)
  /-- a sensitive request, up to the end of its gate -/
  | enter (request : SensitiveRequest) (auth : AuthenticatedUser) (xRepromptGrant : Option Text)
  /-- `_reprompt_pruner_loop` -/
  | pruneExpired
  /-- another process -/
  | restart
  deriving DecidableEq

/-- `RepromptStore()`, and nothing in flight. -/
def boot (now : ℚ) : Desk := ⟨.default, now, [], [], []⟩

/-- `issue_reprompt_grant` up to `to_thread`. -/
def reprompt (c : Desk) (auth : AuthenticatedUser) (body : RepromptIssueRequest) : Desk :=
  match scopeOr400 body.scope with
  | .ok scope => { c with verifying := c.verifying ++ [⟨auth, body.password, scope⟩] }
  | .error _ => c

/-- … and from there on. -/
def verified (c : Desk) (i : ℕ) (v : Verification) (grantId : Text) :
    Desk × Except RepromptError Text :=
  let c := { c with verifying := c.verifying.eraseIdx i }
  if (verifyPassword v.auth.passwordHash v.password).ok then
    match c.reprompts.issue grantId v.auth.id v.scope c.now with
    | some reprompts =>
      ({ c with reprompts := reprompts, proofs := c.proofs ++ [⟨v, c.now⟩] }, .ok grantId)
    | none => (c, .error .emptyUserId)
  else (c, .error .invalidCredentials)

/-- A sensitive request up to the end of its gate. -/
def enter (c : Desk) (request : SensitiveRequest) (auth : AuthenticatedUser)
    (xRepromptGrant : Option Text) : Desk :=
  match request.enter c.reprompts c.now auth xRepromptGrant with
  | (reprompts, .ok ()) =>
    { c with reprompts := reprompts, passes := c.passes ++ [⟨auth.id, request, c.now⟩] }
  | (reprompts, .error _) => { c with reprompts := reprompts }

def step (c : Desk) : Label → Option Desk
  | .clock now => if c.now ≤ now then some { c with now := now } else none
  | .reprompt auth body => some (c.reprompt auth body)
  | .verified i grantId => (c.verifying[i]?).map fun v => (c.verified i v grantId).1
  | .cancelled i => some { c with verifying := c.verifying.eraseIdx i }
  | .enter request auth xRepromptGrant => some (c.enter request auth xRepromptGrant)
  | .pruneExpired => some { c with reprompts := (c.reprompts.pruneExpired c.now).1 }
  | .restart => some { c with reprompts := .default, verifying := [] }

/-- The requests of a server, in any order. -/
def machine : Machine Desk Label := ⟨step⟩

/-- The proof entitles to the request: it is by the same user, for the scope of the request,
less than 60 s old, and the password was the one that was stored. -/
structure Entitles (p : Proof) (q : Pass) : Prop where
  user : p.auth.id = q.userId
  scope : p.scope = q.request.scope
  password : p.password = p.auth.passwordHash.password
  before : p.time ≤ q.time
  fresh : q.time < p.time + 60

/-! ## The invariant -/

/-- The ticket `k` is good for the issue `good k`, which its grant is from. -/
structure Sound (c : Desk) (good : Text → Option ℕ) (spent : List ℕ) : Prop where
  account : Tickets.Account Entitles c.proofs c.passes good spent
  ttl : c.reprompts.ttl = 60
  grants : ∀ k grant, c.reprompts.grants.get? k = some grant → ∃ n p, good k = some n ∧
    c.proofs[n]? = some p ∧ p.auth.id = grant.userId ∧ p.scope = grant.scope ∧
    p.time = grant.issuedAt ∧ p.password = p.auth.passwordHash.password ∧ p.time ≤ c.now

section Steps

variable {c c' : Desk} {good : Text → Option ℕ} {spent : List ℕ}

theorem sound_boot (now : ℚ) : Sound (boot now) (fun _ => none) [] where
  account := .empty
  ttl := rfl
  grants _ _ h := absurd h (Option.some_ne_none _).symm

/-- The store loses grants, and time goes by. -/
theorem Sound.fewer (h : Sound c good spent) {reprompts : RepromptStore} {now : ℚ}
    {verifying : List Verification} (httl : reprompts.ttl = 60) (hnow : c.now ≤ now)
    (hsub : ∀ k grant, reprompts.grants.get? k = some grant →
      c.reprompts.grants.get? k = some grant) :
    Sound { c with reprompts := reprompts, now := now, verifying := verifying } good spent where
  account := h.account
  ttl := httl
  grants k grant hget := by
    obtain ⟨n, p, hn, hp, huser, hscope, htime, hpassword, hle⟩ := h.grants k grant (hsub k grant hget)
    exact ⟨n, p, hn, hp, huser, hscope, htime, hpassword, hle.trans hnow⟩

/-- A grant is issued. -/
theorem Sound.issue (h : Sound c good spent) {p : Proof} {k : Text} {reprompts : RepromptStore}
    (hissue : c.reprompts.issue k p.auth.id p.scope c.now = some reprompts) (htime : p.time = c.now)
    (hpassword : p.password = p.auth.passwordHash.password) :
    Sound { c with reprompts := reprompts, proofs := c.proofs ++ [p] }
      (Function.update good k (some c.proofs.length)) spent := by
  rw [RepromptStore.issue] at hissue
  obtain ⟨-, heq⟩ := Option.ite_none_left_eq_some.mp hissue
  obtain rfl := Option.some.inj heq
  refine ⟨h.account.issue p k, h.ttl, fun k' grant hget => ?_⟩
  by_cases hk : k' = k
  · subst hk
    obtain rfl := Option.some.inj ((Dict.get?_insert_self _ _ _).symm.trans hget)
    refine ⟨c.proofs.length, p, Function.update_self .., ?_, rfl, rfl, htime, hpassword, htime.le⟩
    exact List.getElem?_concat_length
  · obtain ⟨n, p', hn, hp', hrest⟩ := h.grants k' grant ((Dict.get?_insert_ne _ _ hk).symm.trans hget)
    refine ⟨n, p', by rwa [Function.update_of_ne hk], ?_, hrest⟩
    exact (List.getElem?_append_left (List.getElem?_eq_some_iff.mp hp').1).trans hp'

omit [Argon2] in
/-- `consume` of a grant that is there. -/
theorem consume_of_get? {s : RepromptStore} {k : Text} {grant : RepromptGrant}
    (hget : s.grants.get? k = some grant) (u : Text) (scope : RepromptScope) (now : ℚ) :
    s.consume k u scope now = ({ s with grants := s.grants.erase k },
      decide (now - grant.issuedAt < s.ttl ∧ grant.userId = u ∧ grant.scope = scope)) := by
  rw [RepromptStore.consume, hget]
  refine Prod.ext rfl ?_
  dsimp only
  split
  · rename_i hexpired
    exact (decide_eq_false fun h => hexpired.not_gt h.1).symm
  · rename_i hlive
    rw [← Bool.decide_and]
    exact decide_eq_decide.mpr (and_iff_right (not_le.mp hlive)).symm

/-- **The gate** takes a grant out of the store, if there is one under the key, and lets the
request through if the grant is good for it. -/
theorem gate_cases (scope : RepromptScope) (s : RepromptStore) (now : ℚ) (auth : AuthenticatedUser)
    (xRepromptGrant : Option Text) :
    (∃ s' e, gate scope s now auth xRepromptGrant = (s', .error e) ∧ s'.ttl = s.ttl ∧
      ∀ k grant, s'.grants.get? k = some grant → s.grants.get? k = some grant) ∨
      ∃ k grant, s.grants.get? k = some grant ∧
        gate scope s now auth xRepromptGrant = ({ s with grants := s.grants.erase k }, .ok ()) ∧
        now - grant.issuedAt < s.ttl ∧ grant.userId = auth.id ∧ grant.scope = scope := by
  rcases xRepromptGrant with _ | _ | ⟨ch, t⟩
  · exact .inl ⟨s, _, rfl, rfl, fun _ _ h => h⟩
  · exact .inl ⟨s, _, rfl, rfl, fun _ _ h => h⟩
  · generalize hk : ch :: t = k
    have hgate : gate scope s now auth (some k) = ((s.consume k auth.id scope now).1,
        if (s.consume k auth.id scope now).2 then .ok ()
        else .error .repromptInvalidOrExpired) := by
      rw [← hk]
      rfl
    rw [hgate]
    cases hget : s.grants.get? k with
    | none =>
      have hnone : s.consume k auth.id scope now = (s, false) := by
        rw [RepromptStore.consume, hget]
      rw [hnone]
      exact .inl ⟨s, _, rfl, rfl, fun _ _ h => h⟩
    | some grant =>
      rw [consume_of_get? hget]
      by_cases hgood : now - grant.issuedAt < s.ttl ∧ grant.userId = auth.id ∧ grant.scope = scope
      · rw [decide_eq_true hgood]
        exact .inr ⟨k, grant, hget, rfl, hgood⟩
      · rw [decide_eq_false hgood]
        exact .inl ⟨_, _, rfl, rfl, fun k' grant' h => (Dict.get?_of_get?_erase h).2⟩

/-- Whoever is let through uses up a grant that entitles to it. -/
theorem Sound.enter (h : Sound c good spent) (request : SensitiveRequest) (auth : AuthenticatedUser)
    (xRepromptGrant : Option Text) :
    ∃ good spent, Sound (c.enter request auth xRepromptGrant) good spent := by
  rw [Desk.enter, SensitiveRequest.enter]
  rcases gate_cases request.scope c.reprompts c.now auth xRepromptGrant with
    ⟨s', e, heq, httl, hsub⟩ | ⟨k, grant, hget, heq, hlive, huser, hscope⟩
  · rw [heq]
    exact ⟨good, spent, h.fewer (httl.trans h.ttl) le_rfl hsub⟩
  · rw [heq]
    obtain ⟨n, p, hn, hp, hpuser, hpscope, hptime, hpassword, hle⟩ := h.grants k grant hget
    rw [h.ttl, ← hptime] at hlive
    have hentitles : Entitles p ⟨auth.id, request, c.now⟩ :=
      ⟨hpuser.trans huser, hpscope.trans hscope, hpassword, hle, sub_lt_iff_lt_add'.mp hlive⟩
    refine ⟨_, _, h.account.use hn hp hentitles, h.ttl, fun k' grant' hget' => ?_⟩
    obtain ⟨hk, hget'⟩ := Dict.get?_of_get?_erase hget'
    obtain ⟨n', p', hn', hrest⟩ := h.grants k' grant' hget'
    exact ⟨n', p', by rwa [Function.update_of_ne hk], hrest⟩

/-- A verification is over. -/
theorem Sound.verified (h : Sound c good spent) (i : ℕ) (v : Verification) (grantId : Text) :
    ∃ good, Sound (c.verified i v grantId).1 good spent := by
  have hrest : Sound { c with verifying := c.verifying.eraseIdx i } good spent :=
    h.fewer h.ttl le_rfl fun _ _ hget => hget
  rw [Desk.verified]
  dsimp only
  split
  · rename_i hok
    split
    · rename_i reprompts hissue
      exact ⟨_, hrest.issue (p := ⟨v, c.now⟩) hissue rfl (verifyPassword_ok.mp hok)⟩
    · exact ⟨good, hrest⟩
  · exact ⟨good, hrest⟩

/-- **One step.** -/
theorem Sound.step (h : Sound c good spent) {l : Label} (hs : step c l = some c') :
    ∃ good spent, Sound c' good spent := by
  cases l with
  | clock now =>
    obtain ⟨hle, heq⟩ := Option.ite_none_right_eq_some.mp hs
    obtain rfl := Option.some.inj heq
    exact ⟨good, spent, h.fewer h.ttl hle fun _ _ hget => hget⟩
  | reprompt auth body =>
    obtain rfl := Option.some.inj hs
    rw [Desk.reprompt]
    split
    · exact ⟨good, spent, h.fewer h.ttl le_rfl fun _ _ hget => hget⟩
    · exact ⟨good, spent, h⟩
  | verified i grantId =>
    obtain ⟨v, -, rfl⟩ := Option.map_eq_some_iff.mp hs
    obtain ⟨good, h⟩ := h.verified i v grantId
    exact ⟨good, spent, h⟩
  | cancelled i =>
    obtain rfl := Option.some.inj hs
    exact ⟨good, spent, h.fewer h.ttl le_rfl fun _ _ hget => hget⟩
  | enter request auth xRepromptGrant =>
    obtain rfl := Option.some.inj hs
    exact h.enter request auth xRepromptGrant
  | pruneExpired =>
    obtain rfl := Option.some.inj hs
    refine ⟨good, spent, h.fewer h.ttl le_rfl fun k grant hget => ?_⟩
    rw [RepromptStore.pruneExpired, Dict.get?_filterValues] at hget
    exact (Option.filter_eq_some_iff.mp hget).1
  | restart =>
    obtain rfl := Option.some.inj hs
    exact ⟨good, spent, h.fewer rfl le_rfl fun _ _ hget => absurd hget (Option.some_ne_none _).symm⟩

end Steps

/-- **Every sensitive request that was let through has a password verification of its own
behind it**, by the same user, for its scope and less than 60 s earlier, whatever the order
in which requests of any users arrive, are verified and are pruned. -/
theorem sensitive_requests_matched (now : ℚ) (labels : List Label) :
    machine.Always (fun c => Tickets.Matched Entitles c.proofs c.passes) (boot now) labels := by
  have hmeets : machine.Meets (fun _ _ => True) (boot now) labels :=
    Machine.meets_of_forall (fun _ _ => trivial) _ _
  refine Machine.always_of_inv (I := fun c => ∃ good spent, Sound c good spent)
    (fun c l c' ⟨good, spent, h⟩ _ hs => h.step hs) (fun c ⟨good, spent, h⟩ => h.account.matched)
    ⟨_, _, sound_boot now⟩ hmeets

end Desk

end Requests

namespace Desk

attribute [local instance] recordingArgon2

/-- One grant, two requests: only the first is let through, and a later grant is of no use for
another scope. -/
def twice : List Label :=
  let admin : AuthenticatedUser := ⟨['a'], hasher.hash ['p'] [] (List.cons_ne_nil _ _)⟩
  let body (scope : RepromptScope) (h : 1 ≤ scope.value.length ∧ scope.value.length ≤ 64) :
      RepromptIssueRequest := ⟨['p'], scope.value, by decide, h⟩
  [.reprompt admin (body .deleteTarget (by decide)), .verified 0 ['1'],
    .enter .deleteTarget admin (some ['1']), .enter .deleteTarget admin (some ['1']),
    .reprompt admin (body .clearCredential (by decide)), .verified 0 ['2'],
    .enter .rotatePassphrase admin (some ['2']), .enter .clearCredential admin (some ['2'])]

example : ((machine.run (boot 0) twice).map fun c => (c.proofs.length, c.passes.map (·.request))) =
    some (2, [.deleteTarget]) := by decide +kernel

end Desk

end Api

end RestreamPlus
