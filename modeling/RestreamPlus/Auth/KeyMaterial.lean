import RestreamPlus.Domain.Target
import RestreamPlus.Lib.SymbolicCrypto

/-!
# Derived keys and sealed credentials

`app/crypto/kdf.py`, `app/crypto/aead.py` and the parts of
`app/auth/key_material.py` the request handlers rest on, with the two primitives
idealised: Argon2id and HKDF are injective, AES-GCM decrypts exactly what it
encrypted.
-/

namespace RestreamPlus

open Symbolic

/-- The length of `.kdf_salt` and of a credential's own salt. -/
def kdfSaltLength : ℕ := 16

/-- The purposes a subkey is expanded for (`HKDF_INFO_*`). -/
inductive HkdfInfo : Type where
  | streamKey
  | apiTokenMac
  | sessionTokenMac
  deriving DecidableEq

/-- A 32-byte subkey. -/
abbrev Key : Type := SubKey Text Bytes HkdfInfo

/-- The three subkeys of a master passphrase (`DerivedKeys`). -/
structure DerivedKeys : Type where
  streamKeyKek : Key
  apiTokenMacKey : Key
  sessionTokenMacKey : Key
  deriving DecidableEq

/-- `derive_root_key`: Argon2id over passphrase and salt. -/
def deriveRootKey (passphrase : Text) (salt : Bytes) : RootKey Text Bytes :=
  ⟨passphrase, salt⟩

/-- `derive_subkey`: HKDF for one purpose. -/
def deriveSubkey (root : RootKey Text Bytes) (info : HkdfInfo) : Key := ⟨root, info⟩

/-- `KeyMaterial._derive_sync`. -/
def deriveKeys (passphrase : Text) (salt : Bytes) : DerivedKeys :=
  let root := deriveRootKey passphrase salt
  { streamKeyKek := deriveSubkey root .streamKey
    apiTokenMacKey := deriveSubkey root .apiTokenMac
    sessionTokenMacKey := deriveSubkey root .sessionTokenMac }

/-- The key-encryption key determines the passphrase and the salt. -/
theorem streamKeyKek_inj {p p' : Text} {s s' : Bytes}
    (h : (deriveKeys p s).streamKeyKek = (deriveKeys p' s').streamKeyKek) : p = p' ∧ s = s' := by
  simpa [deriveKeys, deriveSubkey, deriveRootKey] using h

/-! ## Credentials at rest -/

/-- The associated data of a credential, `build_credential_aad`: a discriminator
and the credential's own salt. -/
structure CredentialAad : Type where
  salt : Bytes
  deriving DecidableEq

/-- A row of `credentials` but for the target it belongs to. -/
structure CredentialRow : Type where
  id : ℕ
  lifetime : CredentialLifetime
  ciphertext : Sealed Key Bytes CredentialAad Text
  nonce : Bytes
  salt : Bytes
  last4 : Text
  deriving DecidableEq

/-- `encrypt` with a fresh nonce under the credential's own salt. -/
def encryptCredential (kek : Key) (nonce salt : Bytes) (plaintext : Text) :
    Sealed Key Bytes CredentialAad Text :=
  ⟨kek, nonce, ⟨salt⟩, plaintext⟩

/-- `decrypt` of a row under a key-encryption key; `none` is
`AEADDecryptionError`. -/
def CredentialRow.decrypt (row : CredentialRow) (kek : Key) : Option Text :=
  row.ciphertext.openWith kek row.nonce ⟨row.salt⟩

/-- A row as the writers leave it: nonce and salt are those of the encryption. -/
def CredentialRow.SealedUnder (row : CredentialRow) (kek : Key) : Prop :=
  (row.decrypt kek).isSome

theorem CredentialRow.sealedUnder_iff {row : CredentialRow} {kek : Key} :
    row.SealedUnder kek ↔ row.ciphertext.key = kek ∧ row.ciphertext.nonce = row.nonce ∧
      row.ciphertext.associated = ⟨row.salt⟩ :=
  Sealed.isSome_openWith

/-- A row decrypts under at most one key. -/
theorem CredentialRow.SealedUnder.unique {row : CredentialRow} {k k' : Key}
    (h : row.SealedUnder k) (h' : row.SealedUnder k') : k = k' :=
  (sealedUnder_iff.mp h).1.symm.trans (sealedUnder_iff.mp h').1

end RestreamPlus
