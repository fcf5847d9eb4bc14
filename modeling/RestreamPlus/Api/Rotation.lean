import Mathlib.Logic.Function.Basic
import RestreamPlus.Auth.KeyMaterial
import RestreamPlus.Lib.Machine

/-!
# Rotating the passphrase (`app/api/security_api.py`)

`rotate_passphrase` from the verification of the old passphrase on, one file
operation or statement after the other. Each may complete, raise, or be the last
one of a process that is killed; in the latter two cases it may have taken
effect or not, and a write may have left anything behind.

What is left out: the re-prompt grant, the checks of the body, the tables of
sessions and tokens, and what the audit entry says.
-/

namespace RestreamPlus

open Interleaving

/-- The files that hold a salt. -/
inductive SaltFile : Type where
  /-- `.kdf_salt` -/
  | kdfSalt
  /-- `.kdf_salt.previous` -/
  | previous
  | previousTmp
  /-- `.kdf_salt.new` -/
  | new
  | newTmp
  deriving DecidableEq

/-- The contents of the files that exist. -/
abbrev SaltFiles : Type := SaltFile → Option Bytes

namespace SaltFiles

def write (files : SaltFiles) (f : SaltFile) (payload : Bytes) : SaltFiles :=
  Function.update files f (some payload)

def unlink (files : SaltFiles) (f : SaltFile) : SaltFiles := Function.update files f none

/-- Rename `src` to `dst`; nothing happens when there is no `src`. -/
def replace (files : SaltFiles) (src dst : SaltFile) : SaltFiles :=
  match files src with
  | none => files
  | some payload => (files.write dst payload).unlink src

end SaltFiles

/-- One request: the passphrases of its body, the keys its dependencies
captured, and what it draws at random. -/
structure Rotation : Type where
  oldPassphrase : Text
  newPassphrase : Text
  keys : DerivedKeys
  newSalt : Bytes
  /-- nonce and salt for each credential -/
  nonceOf : ℕ → Bytes
  saltOf : ℕ → Bytes

namespace Rotation

def newKeys (r : Rotation) : DerivedKeys := deriveKeys r.newPassphrase r.newSalt

/-- Decrypt a row under the captured keys and encrypt it under the new ones.
`none` is the error that aborts the rotation. -/
def rewrapped (r : Rotation) (row : CredentialRow) : Option CredentialRow :=
  (row.decrypt r.keys.streamKeyKek).map fun plaintext =>
    { row with
      ciphertext := encryptCredential r.newKeys.streamKeyKek (r.nonceOf row.id) (r.saltOf row.id)
        plaintext
      nonce := r.nonceOf row.id
      salt := r.saltOf row.id }

/-- A row that was encrypted anew decrypts under the new key. -/
theorem sealedUnder_rewrapped {r : Rotation} {row new : CredentialRow}
    (h : r.rewrapped row = some new) :
    new.id = row.id ∧ new.SealedUnder r.newKeys.streamKeyKek := by
  obtain ⟨plaintext, -, rfl⟩ := Option.map_eq_some_iff.mp h
  exact ⟨rfl, CredentialRow.sealedUnder_iff.mpr ⟨rfl, rfl, rfl⟩⟩

end Rotation

/-- `CredentialsRepository.rewrap`: an UPDATE by the identifier of the credential. -/
def rewrap (new : CredentialRow) (rows : List CredentialRow) : List CredentialRow :=
  rows.map fun row =>
    if row.id = new.id then
      { row with ciphertext := new.ciphertext, nonce := new.nonce, salt := new.salt }
    else row

/-! ## The steps of the handler -/

/-- Where the exception that is being cleaned up after was raised. -/
inductive RaisedIn : Type where
  /-- the transaction did not take effect -/
  | transaction
  /-- the transaction took effect, `.kdf_salt` is still the old one -/
  | committed
  /-- `.kdf_salt` is the new one -/
  | replaced
  deriving DecidableEq

/-- The operation the handler is at. -/
inductive Phase : Type where
  | verifying
  | readingSalt
  | writingPrevious (oldSalt : Bytes)
  | replacingPrevious
  | writingNew
  | replacingNew
  /-- the transaction of the request is committed -/
  | closing
  | listing
  | rewrapping (row : CredentialRow) (rest : List CredentialRow)
  | deletingSessions
  | deletingTokens
  | committing
  | replacingSalt
  | swapping
  /-- in the `except` branch, before `.kdf_salt.new` is removed -/
  | cleaning (raisedIn : RaisedIn)
  | auditing
  | returned
  | raised
  | killed
  deriving DecidableEq

/-- The disk, the open transaction, the keys in memory, and the handler. -/
structure RotationState : Type where
  files : SaltFiles
  /-- the committed rows -/
  rows : List CredentialRow
  /-- the rows as the open transaction sees them -/
  pending : List CredentialRow
  kdfSalt : Bytes
  keys : DerivedKeys
  phase : Phase

/-- How far an operation got. -/
inductive Extent : Type where
  | nothing
  /-- a write left this behind -/
  | torn (payload : Bytes)
  | done
  deriving DecidableEq

/-- How an operation ends. -/
inductive Outcome : Type where
  | ok
  | raises (e : Extent)
  | killed (e : Extent)
  deriving DecidableEq

namespace RotationState

/-- The loop over the rows. -/
def rewrapLoop : List CredentialRow → Phase
  | [] => .deletingSessions
  | row :: rest => .rewrapping row rest

/-- What the operation does when it is carried out. -/
def effect (r : Rotation) (s : RotationState) : RotationState :=
  match s.phase with
  | .writingPrevious oldSalt => { s with files := s.files.write .previousTmp oldSalt }
  | .replacingPrevious => { s with files := s.files.replace .previousTmp .previous }
  | .writingNew => { s with files := s.files.write .newTmp r.newSalt }
  | .replacingNew => { s with files := s.files.replace .newTmp .new }
  | .listing => { s with pending := s.rows }
  | .rewrapping row _ =>
    match r.rewrapped row with
    | none => s
    | some new => { s with pending := rewrap new s.pending }
  | .committing => { s with rows := s.pending }
  | .replacingSalt => { s with files := s.files.replace .new .kdfSalt }
  | .swapping => { s with kdfSalt := r.newSalt, keys := r.newKeys }
  | .cleaning _ => { s with files := s.files.unlink .new }
  | _ => s

/-- What it does when it ends early. -/
def reach (r : Rotation) (s : RotationState) : Extent → RotationState
  | .nothing => s
  | .done => s.effect r
  | .torn payload =>
    match s.phase with
    | .writingPrevious _ => { s with files := s.files.write .previousTmp payload }
    | .writingNew => { s with files := s.files.write .newTmp payload }
    | _ => s

/-- The phase after an operation that was carried out; `none` when it cannot be. -/
def following (r : Rotation) (s : RotationState) : Option Phase :=
  match s.phase with
  | .verifying =>
    if deriveKeys r.oldPassphrase s.kdfSalt = s.keys then some .readingSalt else none
  | .readingSalt =>
    match s.files .kdfSalt with
    | some blob => if blob.length = kdfSaltLength then some (.writingPrevious blob) else none
    | none => none
  | .writingPrevious _ => some .replacingPrevious
  | .replacingPrevious => (s.files .previousTmp).map fun _ => .writingNew
  | .writingNew => some .replacingNew
  | .replacingNew => (s.files .newTmp).map fun _ => .closing
  | .closing => some .listing
  | .listing => some (rewrapLoop s.rows)
  | .rewrapping row rest => (r.rewrapped row).map fun _ => rewrapLoop rest
  | .deletingSessions => some .deletingTokens
  | .deletingTokens => some .committing
  | .committing => some .replacingSalt
  | .replacingSalt => (s.files .new).map fun _ => .swapping
  | .swapping => some .auditing
  | .cleaning _ => some .raised
  | .auditing => some .returned
  | .returned | .raised | .killed => none

/-- Where an exception leads; `none` when the handler is over. -/
def handler (e : Extent) : Phase → Option Phase
  | .verifying | .readingSalt | .writingPrevious _ | .replacingPrevious | .writingNew
  | .replacingNew | .auditing | .cleaning _ => some .raised
  | .closing | .listing | .rewrapping .. | .deletingSessions | .deletingTokens =>
    some (.cleaning .transaction)
  | .committing => some (.cleaning (if e = .done then .committed else .transaction))
  | .replacingSalt => some (.cleaning (if e = .done then .replaced else .committed))
  | .swapping => some (.cleaning .replaced)
  | .returned | .raised | .killed => none

/-- One operation. -/
def step (r : Rotation) (s : RotationState) : Outcome → Option RotationState
  | .ok => (s.following r).map fun phase => { s.effect r with phase := phase }
  | .raises e => (handler e s.phase).map fun phase => { s.reach r e with phase := phase }
  | .killed e => (handler e s.phase).map fun _ => { s.reach r e with phase := .killed }

/-- One run of the handler. -/
def machine (r : Rotation) : Machine RotationState Outcome := ⟨step r⟩

end RotationState

end RestreamPlus
