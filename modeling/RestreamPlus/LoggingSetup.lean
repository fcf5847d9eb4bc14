import Mathlib.Data.Finset.Basic
import RestreamPlus.Domain.Target

/-!
# The registry of plaintext credentials (`app/logging_setup.py`)

A set of secrets no log line may show. The length floor that `register` asserts
is carried by the structure.
-/

namespace RestreamPlus

/-- The shortest secret `register` accepts. -/
def minRedactableSecretLength : ℕ := 12

/-- The text a secret is replaced by. -/
def redactionPlaceholder : Text := "***REDACTED***".toList

/-- A set of secrets that are long enough to be searched for. -/
structure CredentialRegistry : Type where
  secrets : Finset Text
  /-- no secret is below the floor -/
  long : ∀ k ∈ secrets, minRedactableSecretLength ≤ k.length

namespace CredentialRegistry

/-- `CredentialRegistry()`. -/
def empty : CredentialRegistry := ⟨∅, fun _ h => absurd h (Finset.notMem_empty _)⟩

/-- Add a secret; `none` is the `ValueError` for a short one. -/
def register (r : CredentialRegistry) (secret : Text) : Option CredentialRegistry :=
  if h : minRedactableSecretLength ≤ secret.length then
    some ⟨insert secret r.secrets, by
      intro k hk
      rcases Finset.mem_insert.mp hk with rfl | hk
      · exact h
      · exact r.long k hk⟩
  else none

/-- Drop a secret, whoever else still relies on it: the registry is a set. -/
def unregister (r : CredentialRegistry) (secret : Text) : CredentialRegistry :=
  ⟨r.secrets.erase secret, fun k hk => r.long k (Finset.mem_of_mem_erase hk)⟩

/-- What the log processor searches for. -/
def snapshot (r : CredentialRegistry) : Finset Text := r.secrets

theorem snapshot_register {r r' : CredentialRegistry} {secret : Text}
    (h : r.register secret = some r') : r'.snapshot = insert secret r.snapshot := by
  rw [register] at h
  split at h
  · rw [← Option.some.inj h]
    rfl
  · cases h

theorem snapshot_unregister (r : CredentialRegistry) (secret : Text) :
    (r.unregister secret).snapshot = r.snapshot.erase secret := rfl

end CredentialRegistry

end RestreamPlus
