import RestreamPlus.Api.Admission
import RestreamPlus.Api.KeyCoherence
import RestreamPlus.Auth.RateLimit

/-!
# Unlocking with the wrong passphrase (`app/api/auth.py`, `app/auth/key_material.py`)

A process starts LOCKED. `POST /api/unlock` asks its limiter and then
`KeyMaterial.unlock`, which derives three keys from the passphrase and the salt on
disk, under a lock of its own. Nothing compares the keys with what is stored: an
unlock fails when the derivation raises and never because of the passphrase. The
first passphrase that is derived from makes the process READY, no failure is
counted, and `set_credential` encrypts under its keys.

`unlock_iff` says when the three guarantees hold together: exactly in the runs in
which every derivation that ends had the passphrase of the stored rows.
-/

namespace RestreamPlus

open Interleaving

namespace Api

/-- `KeyMaterialState`. -/
inductive KeyMaterialState : Type where
  | locked
  | unlocking
  | ready
  deriving DecidableEq

/-- What an unlock request is answered. -/
inductive UnlockAnswer : Type where
  | ready
  | unlockFailed
  | rateLimited
  deriving DecidableEq

/-- Where an unlock request is. -/
inductive UnlockPhase : Type where
  /-- waiting for the lock of the key material -/
  | queued
  /-- holding it, `_derive_sync` running in another thread -/
  | deriving
  | answered (answer : UnlockAnswer)
  deriving DecidableEq

/-- A request of `POST /api/unlock`. -/
structure UnlockAttempt : Type where
  passphrase : Text
  ip : Text
  phase : UnlockPhase
  deriving DecidableEq

/-- How the derivation in the thread ends. -/
inductive Derivation : Type where
  | done
  | raised
  deriving DecidableEq

/-- The key material of a process, the requests around it, and what is on disk. -/
structure UnlockDesk : Type where
  /-- `.kdf_salt`, on disk -/
  kdfSalt : Bytes
  /-- on disk -/
  db : Database
  state : KeyMaterialState
  keys : Option DerivedKeys
  /-- the attempt that holds the lock -/
  owner : Option ℕ
  queue : List ℕ
  limiter : LoginRateLimiter
  now : ℚ
  attempts : List UnlockAttempt
  /-- the rows that `set_credential` has encrypted and not committed -/
  writes : List (TargetId × CredentialRow)

namespace UnlockDesk

/-- The limiter of the endpoint: three failures in 15 minutes. -/
def unlockLimiter : LoginRateLimiter := ⟨3, 15 * 60, by decide, LoginRateLimiter.quarterHour_pos, ∅, ∅⟩

/-- The username every attempt is bucketed under. -/
def sentinel : Text := "__unlock__".toList

/-- A process that has just started, in paste mode. -/
def boot (kdfSalt : Bytes) (db : Database) (now : ℚ) : UnlockDesk where
  kdfSalt := kdfSalt
  db := db
  state := .locked
  keys := none
  owner := none
  queue := []
  limiter := unlockLimiter
  now := now
  attempts := []
  writes := []

/-- What happens next. -/
inductive Label : Type where
  | clock (now : ℚ)
  /-- `unlock`, up to its first await -/
  | unlock (passphrase ip : Text)
  /-- the head of the queue gets the lock -/
  | grant
  /-- the derivation of an attempt ends -/
  | derived (i : ℕ) (out : Derivation)
  /-- `set_credential`, up to its commit -/
  | setCredential (id : TargetId) (body : CredentialSetRequest)
  /-- its commit -/
  | commit (j : ℕ)
  /-- the process is replaced by a new one, in env mode with this passphrase -/
  | restart (env : Option Text)

section Steps

variable (normalize : Text → Text)

/-- An attempt that has not been made before. -/
def add (c : UnlockDesk) (passphrase ip : Text) (phase : UnlockPhase) : UnlockDesk :=
  { c with attempts := c.attempts ++ [⟨passphrase, ip, phase⟩] }

def moveTo (c : UnlockDesk) (i : ℕ) (a : UnlockAttempt) (phase : UnlockPhase) : UnlockDesk :=
  { c with attempts := c.attempts.set i { a with phase := phase } }

/-- `unlock` up to its first await. The lock is free if no attempt holds it and none waits. -/
def unlock (c : UnlockDesk) (passphrase ip : Text) : UnlockDesk :=
  let (limiter, decision) := c.limiter.check normalize c.now ip sentinel
  let c := { c with limiter := limiter }
  if decision.allowed = false then c.add passphrase ip (.answered .rateLimited)
  else if c.state = .ready then c.add passphrase ip (.answered .ready)
  else if c.owner = none ∧ c.queue = [] then
    { c.add passphrase ip .deriving with state := .unlocking, owner := some c.attempts.length }
  else { c.add passphrase ip .queued with queue := c.queue ++ [c.attempts.length] }

/-- Attempt `i` gets the lock and looks at the state once more. -/
def grant (c : UnlockDesk) (i : ℕ) (a : UnlockAttempt) : UnlockDesk :=
  if c.state = .ready then c.moveTo i a (.answered .ready)
  else { c.moveTo i a .deriving with state := .unlocking, owner := some i }

/-- The derivation of attempt `i` ends and the lock is released. -/
def derived (c : UnlockDesk) (i : ℕ) (a : UnlockAttempt) : Derivation → UnlockDesk
  | .done => { c.moveTo i a (.answered .ready) with
      state := .ready, keys := some (deriveKeys a.passphrase c.kdfSalt), owner := none }
  | .raised => { c.moveTo i a (.answered .unlockFailed) with
      state := .locked, owner := none
      limiter := c.limiter.recordFailure normalize c.now a.ip sentinel }

/-- `set_credential` up to its commit: `require_ready`, the target, the encryption. -/
def setCredential (c : UnlockDesk) (id : TargetId) (body : CredentialSetRequest) : UnlockDesk :=
  match c.state, c.keys, c.db.getById id with
  | .ready, some keys, some target =>
    { c with writes := c.writes ++ [(id, credentialRow keys.streamKeyKek target.type body)] }
  | _, _, _ => c

/-- The new process; in env mode the lifespan unlocks before anything is served. -/
def restart (c : UnlockDesk) : Option Text → UnlockDesk
  | none => boot c.kdfSalt c.db c.now
  | some passphrase => { boot c.kdfSalt c.db c.now with
      state := .ready, keys := some (deriveKeys passphrase c.kdfSalt) }

def step (c : UnlockDesk) : Label → Option UnlockDesk
  | .clock now => if c.now ≤ now then some { c with now := now } else none
  | .unlock passphrase ip =>
    -- the bounds of `UnlockRequest`
    if Within 1 4096 passphrase then some (c.unlock normalize passphrase ip) else none
  | .grant =>
    match c.owner, c.queue with
    | none, i :: rest =>
      match c.attempts[i]? with
      | some a => some ({ c with queue := rest }.grant i a)
      | none => none
    | _, _ => none
  | .derived i out =>
    match c.attempts[i]? with
    | some a => if a.phase = .deriving then some (c.derived normalize i a out) else none
    | none => none
  | .setCredential id body =>
    if Accepted (.setCredential id body) then some (c.setCredential id body) else none
  | .commit j =>
    match c.writes[j]? with
    | some (id, row) =>
      some { c with db := c.db.upsertCredential id row, writes := c.writes.eraseIdx j }
    | none => none
  -- an empty passphrase in the environment ends the lifespan
  | .restart env => if env = some [] then none else some (c.restart env)

/-- Unlock attempts, writes and restarts in any order. -/
def machine : Machine UnlockDesk Label := ⟨step normalize⟩

end Steps

/-! ## The guarantees and their condition -/

/-- The process is READY only with keys that decrypt every row, and every row is under the
one key. -/
structure Sound (kek : Key) (c : UnlockDesk) : Prop where
  decrypts : c.state = .ready → ∃ keys, c.keys = some keys ∧ Decryptable keys.streamKeyKek c.db
  stored : Decryptable kek c.db

/-- The passphrase derives other keys than those of the rows. -/
def Wrong (kek : Key) (c : UnlockDesk) (passphrase : Text) : Prop :=
  (deriveKeys passphrase c.kdfSalt).streamKeyKek ≠ kek

/-- An attempt that derives other keys ends LOCKED and is counted. -/
def Rejects (normalize : Text → Text) (kek : Key) (c : UnlockDesk) (l : Label) : Prop :=
  ∀ c', c.step normalize l = some c' →
    match l with
    | .derived i _ => ∀ a, c.attempts[i]? = some a → Wrong kek c a.passphrase →
        c'.state = .locked ∧ c'.limiter = c.limiter.recordFailure normalize c.now a.ip sentinel
    | .restart (some passphrase) => Wrong kek c passphrase → c'.state = .locked
    | _ => True

/-- A derivation that is carried through has the passphrase of the rows. -/
def RightPassphrase (kek : Key) (c : UnlockDesk) : Label → Prop
  | .derived i .done => ∀ a ∈ c.attempts[i]?, a.phase = .deriving →
      (deriveKeys a.passphrase c.kdfSalt).streamKeyKek = kek
  | .restart (some passphrase) =>
    passphrase ≠ [] → (deriveKeys passphrase c.kdfSalt).streamKeyKek = kek
  | _ => True

instance (kek : Key) (c : UnlockDesk) (l : Label) : Decidable (RightPassphrase kek c l) := by
  unfold RightPassphrase
  split <;> infer_instance

section Guarantees

variable {normalize : Text → Text} {kek : Key} {c c' : UnlockDesk}

theorem step_derived {i : ℕ} {out : Derivation}
    (h : c.step normalize (.derived i out) = some c') :
    ∃ a, c.attempts[i]? = some a ∧ a.phase = .deriving ∧ c' = c.derived normalize i a out := by
  rw [step] at h
  rcases ha : c.attempts[i]? with _ | a <;> simp only [ha] at h
  · cases h
  · split at h
    · rename_i hphase
      exact ⟨a, rfl, hphase, (Option.some.inj h).symm⟩
    · cases h

theorem step_restart {env : Option Text} (h : c.step normalize (.restart env) = some c') :
    env ≠ some [] ∧ c' = c.restart env := by
  rw [step] at h
  split at h
  · cases h
  · rename_i henv
    exact ⟨henv, (Option.some.inj h).symm⟩

/-- A derivation with a wrong passphrase is rejected only if it is not carried through: nothing
else is looked at. -/
theorem rejects_iff (l : Label) : Rejects normalize kek c l ↔ RightPassphrase kek c l := by
  constructor
  · intro h
    cases l with
    | derived i out =>
      cases out with
      | raised => trivial
      | done =>
        intro a ha hphase
        by_contra hwrong
        have hstep :
            c.step normalize (.derived i .done) = some (c.derived normalize i a .done) := by
          rw [step, Option.mem_def.mp ha]
          exact if_pos hphase
        cases (h _ hstep a ha hwrong).1
    | restart env =>
      cases env with
      | none => trivial
      | some passphrase =>
        intro hne
        by_contra hwrong
        have hstep : c.step normalize (.restart (some passphrase)) =
            some (c.restart (some passphrase)) :=
          if_neg fun heq => hne (Option.some.inj heq)
        cases h _ hstep hwrong
    | clock _ | unlock _ _ | grant | setCredential _ _ | commit _ => trivial
  · intro h c' hstep
    cases l with
    | derived i out =>
      intro a ha hwrong
      obtain ⟨a', ha', hphase, rfl⟩ := step_derived hstep
      rw [ha] at ha'
      obtain rfl := Option.some.inj ha'
      cases out with
      | done => exact absurd (h a ha hphase) hwrong
      | raised => exact ⟨rfl, rfl⟩
    | restart env =>
      cases env with
      | none => trivial
      | some passphrase =>
        intro hwrong
        obtain ⟨hne, -⟩ := step_restart hstep
        exact absurd (h fun heq => hne (by rw [heq])) hwrong
    | clock _ | unlock _ _ | grant | setCredential _ _ | commit _ => trivial

/-- Keys, rows and the rows on their way all belong to the one key. -/
structure OneKek (kek : Key) (c : UnlockDesk) : Prop where
  ready : c.state = .ready → c.keys.isSome
  keys : ∀ keys ∈ c.keys, keys.streamKeyKek = kek
  stored : Decryptable kek c.db
  written : ∀ w ∈ c.writes, w.2.SealedUnder kek

theorem OneKek.sound (h : OneKek kek c) : Sound kek c := by
  refine ⟨fun hready => ?_, h.stored⟩
  obtain ⟨keys, hkeys⟩ := Option.isSome_iff_exists.mp (h.ready hready)
  refine ⟨keys, hkeys, ?_⟩
  rw [h.keys keys hkeys]
  exact h.stored

theorem oneKek_boot {kdfSalt : Bytes} {db : Database} (now : ℚ) (h : Decryptable kek db) :
    OneKek kek (boot kdfSalt db now) :=
  ⟨nofun, nofun, h, fun _ hw => absurd hw List.not_mem_nil⟩

/-- The attempts, the lock and the limiter do not matter, nor does a state other than READY. -/
theorem OneKek.congr (h : OneKek kek c) (hkeys : c'.keys = c.keys) (hdb : c'.db = c.db)
    (hwrites : c'.writes = c.writes) (hstate : c'.state = .ready → c.state = .ready) :
    OneKek kek c' := by
  refine ⟨fun hr => ?_, ?_, ?_, ?_⟩
  · rw [hkeys]
    exact h.ready (hstate hr)
  · rw [hkeys]
    exact h.keys
  · rw [hdb]
    exact h.stored
  · rw [hwrites]
    exact h.written

theorem OneKek.unlock (h : OneKek kek c) (passphrase ip : Text) :
    OneKek kek (c.unlock normalize passphrase ip) := by
  rw [UnlockDesk.unlock]
  dsimp only
  split
  · exact h.congr rfl rfl rfl id
  · split
    · exact h.congr rfl rfl rfl id
    · split
      · exact h.congr rfl rfl rfl nofun
      · exact h.congr rfl rfl rfl id

theorem OneKek.grant (h : OneKek kek c) (i : ℕ) (a : UnlockAttempt) :
    OneKek kek (c.grant i a) := by
  rw [UnlockDesk.grant]
  split
  · exact h.congr rfl rfl rfl id
  · exact h.congr rfl rfl rfl nofun

/-- The keys of the right passphrase. -/
theorem OneKek.withKeys (h : OneKek kek c) {keys : DerivedKeys} (hkeys : c'.keys = some keys)
    (hright : keys.streamKeyKek = kek) (hdb : c'.db = c.db)
    (hwrites : ∀ w ∈ c'.writes, w ∈ c.writes) : OneKek kek c' := by
  refine ⟨fun _ => by rw [hkeys]; rfl, fun keys' hkeys' => ?_, ?_,
    fun w hw => h.written w (hwrites w hw)⟩
  · rw [hkeys] at hkeys'
    obtain rfl := Option.some.inj hkeys'
    exact hright
  · rw [hdb]
    exact h.stored

theorem OneKek.derived (h : OneKek kek c) {i : ℕ} {a : UnlockAttempt} {out : Derivation}
    (hright : out = .done → (deriveKeys a.passphrase c.kdfSalt).streamKeyKek = kek) :
    OneKek kek (c.derived normalize i a out) := by
  cases out with
  | done => exact h.withKeys rfl (hright rfl) rfl fun _ hw => hw
  | raised => exact h.congr rfl rfl rfl nofun

theorem OneKek.setCredential (h : OneKek kek c) (id : TargetId) (body : CredentialSetRequest) :
    OneKek kek (c.setCredential id body) := by
  rw [UnlockDesk.setCredential]
  split
  · rename_i keys target hstate hkeys htarget
    refine ⟨h.ready, h.keys, h.stored, fun w hw => ?_⟩
    rcases List.mem_append.mp hw with hw | hw
    · exact h.written w hw
    · obtain rfl := List.mem_singleton.mp hw
      rw [← h.keys keys hkeys]
      exact sealedUnder_credentialRow _ _ body
  · exact h

theorem OneKek.commit (h : OneKek kek c) {j : ℕ} {id : TargetId} {row : CredentialRow}
    (hj : c.writes[j]? = some (id, row)) :
    OneKek kek { c with db := c.db.upsertCredential id row, writes := c.writes.eraseIdx j } :=
  ⟨h.ready, h.keys, decryptable_upsert h.stored (h.written _ (List.mem_of_getElem? hj)),
    fun w hw => h.written w (List.mem_of_mem_eraseIdx hw)⟩

/-- **One step** keeps to the one key unless it carries a wrong derivation through. -/
theorem oneKek_step {l : Label} (h : OneKek kek c) (hright : RightPassphrase kek c l)
    (hstep : c.step normalize l = some c') : OneKek kek c' := by
  cases l with
  | clock now =>
    rw [step] at hstep
    split at hstep <;> cases hstep
    exact h.congr rfl rfl rfl id
  | unlock passphrase ip =>
    rw [step] at hstep
    split at hstep <;> cases hstep
    exact h.unlock passphrase ip
  | grant =>
    rw [step] at hstep
    split at hstep
    · split at hstep <;> cases hstep
      refine OneKek.grant ?_ _ _
      exact h.congr rfl rfl rfl id
    · cases hstep
  | derived i out =>
    obtain ⟨a, ha, hphase, rfl⟩ := step_derived hstep
    refine h.derived ?_
    rintro rfl
    exact hright a ha hphase
  | setCredential id body =>
    rw [step] at hstep
    split at hstep <;> cases hstep
    exact h.setCredential id body
  | commit j =>
    rw [step] at hstep
    rcases hj : c.writes[j]? with _ | ⟨id, row⟩ <;> simp only [hj] at hstep <;> cases hstep
    exact h.commit hj
  | restart env =>
    obtain ⟨hne, rfl⟩ := step_restart hstep
    cases env with
    | none => exact oneKek_boot c.now h.stored
    | some passphrase =>
      exact h.withKeys rfl (hright fun heq => hne (by rw [heq])) rfl
        fun _ hw => absurd hw List.not_mem_nil

/-- **Unlocking is sound exactly for the right passphrase.** In any order of unlock attempts,
writes and restarts over rows encrypted under `passphrase`: the process is READY only with keys
that decrypt every row, no row is stored under another key, and an attempt that derives other
keys ends LOCKED and counted, if and only if every derivation that is carried through has a
passphrase with the key of the rows. -/
theorem unlock_iff (normalize : Text → Text) (passphrase : Text) (kdfSalt : Bytes) (db : Database)
    (now : ℚ) (labels : List Label)
    (hdb : Decryptable (deriveKeys passphrase kdfSalt).streamKeyKek db) :
    ((machine normalize).Always (Sound (deriveKeys passphrase kdfSalt).streamKeyKek)
          (boot kdfSalt db now) labels ∧
        (machine normalize).Meets (Rejects normalize (deriveKeys passphrase kdfSalt).streamKeyKek)
          (boot kdfSalt db now) labels) ↔
      (machine normalize).Meets (RightPassphrase (deriveKeys passphrase kdfSalt).streamKeyKek)
        (boot kdfSalt db now) labels := by
  constructor
  · rintro ⟨-, hrejects⟩
    exact hrejects.mono fun c l => (rejects_iff l).mp
  · intro hright
    refine ⟨?_, hright.mono fun c l => (rejects_iff l).mpr⟩
    exact Machine.always_of_inv (I := OneKek (deriveKeys passphrase kdfSalt).streamKeyKek)
      (fun _ _ _ hi hok hs => oneKek_step hi hok hs) (fun _ hi => hi.sound) (oneKek_boot now hdb)
      hright

end Guarantees

section WrongPassphrase

/-- Two targets, the first with a key stored under the passphrase `correct`. -/
def storedDb : Database :=
  { Database.empty with
    targets := Dict.ofList
      [(7, ⟨.twitch, "main".toList, "rtmp://live.twitch.tv/app".toList, true, ∅⟩),
        (8, ⟨.kick, "spare".toList, "rtmps://example.com/app".toList, true, ∅⟩)]
    credentials := Dict.ofList [(7, credentialRow (deriveKeys "correct".toList [1]).streamKeyKek
      .twitch ⟨"live_0123456789".toList, 1, [2], [3]⟩)] }

/-- An attempt from one address that is derived from to the end. -/
def unlockWith (passphrase : Text) : List Label :=
  [.unlock passphrase ['9'], .derived 0 .done]

/-- The key of the second target is set. -/
def storeSpare : List Label :=
  [.setCredential 8 ⟨"live_9876543210".toList, 2, [4], [5]⟩, .commit 0]

theorem decryptable_storedDb :
    Decryptable (deriveKeys "correct".toList [1]).streamKeyKek storedDb := by
  intro id row hrow
  obtain ⟨-, rfl⟩ : id = 7 ∧ row = credentialRow (deriveKeys "correct".toList [1]).streamKeyKek
      .twitch ⟨"live_0123456789".toList, 1, [2], [3]⟩ := by
    simpa using Dict.mem_of_get?_ofList hrow
  exact sealedUnder_credentialRow _ _ _

theorem unlock_correct :
    (machine id).Always (Sound (deriveKeys "correct".toList [1]).streamKeyKek)
      (boot [1] storedDb 0) (unlockWith "correct".toList ++ storeSpare ++ [.restart none] ++
        [.unlock "guess".toList ['9'], .derived 0 .raised]) :=
  ((unlock_iff id "correct".toList [1] storedDb 0 _ decryptable_storedDb).mpr
    (by decide +kernel)).1

/-- The row of a target, if any, decrypts under the current keys. -/
def opens (c : UnlockDesk) (id : TargetId) : Bool :=
  match c.keys, c.db.credentials.get? id with
  | some keys, some row => (row.decrypt keys.streamKeyKek).isSome
  | _, _ => true

theorem not_sound_of_lost {kek : Key} {c : UnlockDesk} (id : TargetId) (hready : c.state = .ready)
    (hlost : c.opens id = false) : ¬ Sound kek c := by
  intro h
  obtain ⟨keys, hkeys, hall⟩ := h.decrypts hready
  rcases hrow : c.db.credentials.get? id with _ | row <;> simp only [opens, hkeys, hrow] at hlost
  · cases hlost
  · rw [show (row.decrypt keys.streamKeyKek).isSome = true from hall id row hrow] at hlost
    cases hlost

/-- One wrong passphrase: READY with keys that open nothing, no failure counted, and after a
restart with the right one a row that is lost. -/
theorem wrong_passphrase_accepted :
    (∃ c, (machine id).run (boot [1] storedDb 0) (unlockWith "wrong".toList) = some c ∧
      c.state = .ready ∧ ¬ Sound (deriveKeys "correct".toList [1]).streamKeyKek c ∧
      c.limiter.bucket .ip ['9'] = []) ∧
    ∃ c, (machine id).run (boot [1] storedDb 0) (unlockWith "wrong".toList ++ storeSpare ++
        [.restart none] ++ unlockWith "correct".toList) = some c ∧
      c.state = .ready ∧ ¬ Sound (deriveKeys "correct".toList [1]).streamKeyKek c := by
  have hwrong : ((machine id).run (boot [1] storedDb 0) (unlockWith "wrong".toList)).any
      (fun c => c.state = .ready ∧ c.opens 7 = false ∧ c.limiter.bucket .ip ['9'] = []) = true := by
    decide +kernel
  have hlost : ((machine id).run (boot [1] storedDb 0) (unlockWith "wrong".toList ++ storeSpare ++
      [.restart none] ++ unlockWith "correct".toList)).any
      (fun c => c.state = .ready ∧ c.opens 8 = false) = true := by
    decide +kernel
  obtain ⟨c, hc, hready, hopens, hlimiter⟩ := by simpa [Option.any_eq_true] using hwrong
  obtain ⟨c', hc', hready', hopens'⟩ := by simpa [Option.any_eq_true] using hlost
  exact ⟨⟨c, hc, hready, not_sound_of_lost 7 hready hopens, hlimiter⟩,
    c', by simpa using hc', hready', not_sound_of_lost 8 hready' hopens'⟩

end WrongPassphrase

end UnlockDesk

end Api

end RestreamPlus
