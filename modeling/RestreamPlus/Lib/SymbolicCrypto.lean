/-!
# Symbolic cryptography

Idealised primitives as free terms: a derived key *is* the pair it was derived
from, so derivation is injective, and a ciphertext *is* the record of its
encryption, so decryption succeeds exactly when key, nonce and associated data
are those of the encryption. A keyed fingerprint is the pair of key and message.
-/

namespace Symbolic

universe u

/-- A root key stretched from a secret and a salt. -/
structure RootKey (π σ : Type u) : Type u where
  secret : π
  salt : σ
  deriving DecidableEq

/-- A subkey expanded from a root key for one purpose. -/
structure SubKey (π σ ι : Type u) : Type u where
  root : RootKey π σ
  purpose : ι
  deriving DecidableEq

/-- The fingerprint of a message under a key. -/
structure Mac (κ μ : Type u) : Type u where
  key : κ
  message : μ
  deriving DecidableEq

/-- A ciphertext: everything that went into the encryption. -/
structure Sealed (κ ν α μ : Type u) : Type u where
  key : κ
  nonce : ν
  associated : α
  message : μ
  deriving DecidableEq

namespace Sealed

variable {κ ν α μ : Type u} [DecidableEq κ] [DecidableEq ν] [DecidableEq α]

/-- Decryption under a key, a nonce and associated data. -/
def openWith (c : Sealed κ ν α μ) (k : κ) (n : ν) (a : α) : Option μ :=
  if c.key = k ∧ c.nonce = n ∧ c.associated = a then some c.message else none

theorem isSome_openWith {c : Sealed κ ν α μ} {k : κ} {n : ν} {a : α} :
    (c.openWith k n a).isSome ↔ c.key = k ∧ c.nonce = n ∧ c.associated = a := by
  rw [openWith]
  split <;> simp_all

end Sealed

end Symbolic
