import RestreamPlus.Domain.Target

/-!
# Password hashes (`app/crypto/passwords.py`)

Argon2id is a parameter. What is relied on of it are its two laws: a hash is made of one
password, and exactly this password verifies.
-/

namespace RestreamPlus

/-- The parameters of a PHC string. -/
structure Argon2Parameters : Type where
  timeCost : ℕ
  memoryCostKib : ℕ
  parallelism : ℕ
  hashLength : ℕ
  saltLength : ℕ
  deriving DecidableEq

/-- `_HASHER`. -/
def hasher : Argon2Parameters where
  timeCost := 3
  memoryCostKib := 64 * 1024
  parallelism := 2
  hashLength := 32
  saltLength := 16

/-- Argon2id as `argon2.PasswordHasher` offers it. -/
class Argon2 : Type 1 where
  /-- PHC strings -/
  Hash : Type
  decEq : DecidableEq Hash
  hash (parameters : Argon2Parameters) (password : Text) (salt : Bytes) : Hash
  verify (stored : Hash) (password : Text) : Bool
  /-- `extract_parameters` -/
  parameters (stored : Hash) : Argon2Parameters
  /-- the password that a hash was made of -/
  password (stored : Hash) : Text
  password_hash : ∀ parameters plaintext salt, password (hash parameters plaintext salt) = plaintext
  verify_iff : ∀ {stored plaintext}, verify stored plaintext = true ↔ plaintext = password stored

attribute [reducible, instance] Argon2.decEq

/-- The outcome of `verify_password`. -/
structure PasswordVerificationResult : Type where
  ok : Bool
  needsRehash : Bool
  deriving DecidableEq

section Hashes

variable [Argon2]

/-- A stored hash. `hash_password` refuses the empty password. -/
structure PasswordHash : Type where
  phc : Argon2.Hash
  nonempty : Argon2.password phc ≠ []
  deriving DecidableEq

/-- What it was made of. -/
def PasswordHash.password (stored : PasswordHash) : Text := Argon2.password stored.phc

/-- `_HASHER.hash`. -/
def Argon2Parameters.hash (parameters : Argon2Parameters) (password : Text) (salt : Bytes)
    (h : password ≠ []) : PasswordHash :=
  ⟨Argon2.hash parameters password salt, by rwa [Argon2.password_hash]⟩

/-- `hash_password` with a fresh salt; `none` is the `ValueError`. -/
def hashPassword (password : Text) (salt : Bytes) : Option PasswordHash :=
  if h : password ≠ [] then some (hasher.hash password salt h) else none

/-- `verify_password`. -/
def verifyPassword (stored : PasswordHash) (password : Text) : PasswordVerificationResult :=
  if password = [] then ⟨false, false⟩
  else if Argon2.verify stored.phc password then
    ⟨true, Argon2.parameters stored.phc ≠ hasher⟩
  else ⟨false, false⟩

theorem password_hash (parameters : Argon2Parameters) {password : Text} (salt : Bytes)
    (h : password ≠ []) : (parameters.hash password salt h).password = password :=
  Argon2.password_hash parameters password salt

/-- Exactly the hashed password verifies. -/
@[simp] theorem verifyPassword_ok {stored : PasswordHash} {password : Text} :
    (verifyPassword stored password).ok = true ↔ password = stored.password := by
  rw [verifyPassword, PasswordHash.password, ← Argon2.verify_iff]
  split
  · rename_i hnil
    subst hnil
    simp only [Bool.false_eq_true, false_iff]
    exact fun hverify => stored.nonempty (Argon2.verify_iff.mp hverify).symm
  · split
    · rename_i hverify
      simp only [hverify]
    · rename_i hverify
      simp only [Bool.false_eq_true, false_iff]
      exact hverify

end Hashes

/-! ## An Argon2 to compute with -/

/-- A record of what was hashed. -/
structure HashRecord : Type where
  parameters : Argon2Parameters
  password : Text
  salt : Bytes
  deriving DecidableEq

/-- A hash that keeps what it was made of, for runs on fixed inputs. -/
@[reducible] def recordingArgon2 : Argon2 where
  Hash := HashRecord
  decEq := inferInstance
  hash := HashRecord.mk
  verify stored password := decide (password = stored.password)
  parameters := HashRecord.parameters
  password := HashRecord.password
  password_hash _ _ _ := rfl
  verify_iff := decide_eq_true_iff

end RestreamPlus
