import RestreamPlus.Api.RotationRecovery
import RestreamPlus.Api.Targets

/-!
# The salt through the lives of the process
(`app/auth/key_material.py`, `app/main.py`, `app/api/security_api.py`)

The first start of an installation draws `.kdf_salt`, every later one reads it.
A process that is unlocked encrypts credentials under the salt it has read, and a
rotation replaces it, one operation after the other as in `RotationState`. A loop
of the process removes `.kdf_salt.previous` a day after it was written.

* `restorable_iff` — one passphrase opens all credentials after a restart, whenever
  that happens, exactly in the lives in which no rotation ends between its commit
  and its rename and nothing is stored under keys that the stored rows do not share;
* `backup_reopens` — for a day after a rotation, `.kdf_salt.previous` opens what was
  stored before it.

Requests that commit a credential while a rotation re-wraps, or under keys from
before a swap, are left out here.
-/

namespace RestreamPlus

open Interleaving

namespace SaltHistory

open Api RotationState

/-- `KDF_SALT_PREVIOUS_GRACE`, in microseconds. -/
def kdfSaltPreviousGrace : ℕ := 86400000000

/-- `secrets.token_bytes(KDF_SALT_LENGTH)`. -/
abbrev FreshSalt : Type := { salt : Bytes // salt.length = kdfSaltLength }

/-- A rotation in flight. -/
structure Ongoing : Type where
  request : Rotation
  pending : List CredentialRow
  phase : Phase

/-- What a process holds in memory. -/
structure Process : Type where
  kdfSalt : Bytes
  keys : Option DerivedKeys
  rotation : Option Ongoing

/-- The data directory, the credentials, the clock, and the process if one runs. -/
structure Installation : Type where
  files : SaltFiles
  /-- `.kdf_salt.tmp` -/
  kdfSaltTmp : Option Bytes
  rows : List CredentialRow
  /-- in microseconds -/
  clock : ℕ
  /-- `st_mtime` of `.kdf_salt.previous.tmp` -/
  previousTmpMtime : ℕ
  /-- `st_mtime` of `.kdf_salt.previous` -/
  previousMtime : ℕ
  process : Option Process

/-- What happens next. -/
inductive Event : Type where
  /-- the process starts; what it draws if there is no salt -/
  | boot (fresh : FreshSalt)
  /-- … and is killed before it has a salt; what is left of the temporary file -/
  | bootCut (tmp : Bytes)
  | unlock (passphrase : Text)
  /-- `upsert` of a credential; the rows of the target -/
  | setCredential (replaced : List ℕ) (type : TargetType) (body : CredentialSetRequest)
  | deleteCredentials (ids : List ℕ)
  /-- a rotation takes the lock -/
  | rotate (r : Rotation)
  /-- … and makes its next operation -/
  | rotation (out : Outcome)
  /-- a tick of `_kdf_salt_previous_cleanup_loop`; whether it may look at the file and
  remove it -/
  | cleanUp (allowed : Bool)
  | wait (microseconds : ℕ)
  /-- the process ends while no rotation is in flight -/
  | kill

/-- The checks of `rotate_passphrase` and of its body. -/
structure Accepted (r : Rotation) : Prop where
  old : 1 ≤ r.oldPassphrase.length ∧ r.oldPassphrase.length ≤ 4096
  new : 12 ≤ r.newPassphrase.length ∧ r.newPassphrase.length ≤ 4096
  differs : r.oldPassphrase ≠ r.newPassphrase
  salt : r.newSalt.length = kdfSaltLength

theorem accepted_iff {r : Rotation} : Accepted r ↔
    (1 ≤ r.oldPassphrase.length ∧ r.oldPassphrase.length ≤ 4096) ∧
      (12 ≤ r.newPassphrase.length ∧ r.newPassphrase.length ≤ 4096) ∧
      r.oldPassphrase ≠ r.newPassphrase ∧ r.newSalt.length = kdfSaltLength :=
  ⟨fun h => ⟨h.old, h.new, h.differs, h.salt⟩, fun h => ⟨h.1, h.2.1, h.2.2.1, h.2.2.2⟩⟩

instance (r : Rotation) : Decidable (Accepted r) := decidable_of_iff' _ accepted_iff

/-- The rotation has listed the rows and has not swapped the keys. -/
def listed : Phase → Bool
  | .rewrapping .. | .deletingSessions | .deletingTokens | .committing | .replacingSalt
  | .swapping => true
  | _ => false

/-- The operation has changed its file. -/
def wrote : Outcome → Bool
  | .raises .nothing | .killed .nothing => false
  | _ => true

/-- What is left of the process after an operation; the lock is released before
the audit entry. -/
def Process.after (r : Rotation) (t : RotationState) : Option Process :=
  match t.phase with
  | .killed => none
  | .auditing | .returned | .raised => some ⟨t.kdfSalt, some t.keys, none⟩
  | phase => some ⟨t.kdfSalt, some t.keys, some ⟨r, t.pending, phase⟩⟩

namespace Installation

/-- `load_or_create_kdf_salt` and `KeyMaterial.__init__`; a salt of another length
ends the process. -/
def boot (s : Installation) (fresh : FreshSalt) : Installation :=
  match s.files .kdfSalt with
  | some salt =>
    if salt.length = kdfSaltLength then { s with process := some ⟨salt, none, none⟩ } else s
  | none =>
    { s with
      files := s.files.write .kdfSalt fresh
      kdfSaltTmp := none
      process := some ⟨fresh, none, none⟩ }

/-- `KeyMaterial.unlock`. -/
def unlock (s : Installation) (passphrase : Text) : Installation :=
  match s.process with
  | some ⟨kdfSalt, none, ongoing⟩ =>
    if passphrase = [] then s
    else { s with process := some ⟨kdfSalt, some (deriveKeys passphrase kdfSalt), ongoing⟩ }
  | _ => s

/-- No process runs. -/
def kill (s : Installation) : Installation := { s with process := none }

/-- The keys a credential may be stored under. -/
def storingKeys (s : Installation) : Option DerivedKeys :=
  match s.process with
  | some ⟨_, keys, none⟩ => keys
  | some ⟨_, keys, some o⟩ => if listed o.phase then none else keys
  | none => none

/-- The rows but these. -/
def without (s : Installation) (ids : List ℕ) : List CredentialRow :=
  s.rows.filter fun row => row.id ∉ ids

/-- An operation of the rotation in flight has ended. -/
def resume (s : Installation) (o : Ongoing) (out : Outcome) (t : RotationState) : Installation :=
  { s with
    files := t.files
    rows := t.rows
    previousTmpMtime :=
      match o.phase with
      | .writingPrevious _ => if wrote out then s.clock else s.previousTmpMtime
      | _ => s.previousTmpMtime
    -- a rename keeps the time of the file
    previousMtime :=
      match o.phase with
      | .replacingPrevious => if Outcome.CarriedOut out then s.previousTmpMtime else s.previousMtime
      | _ => s.previousMtime
    process := Process.after o.request t }

/-- What the rotation in flight works on. -/
def view (s : Installation) (kdfSalt : Bytes) (keys : DerivedKeys) (o : Ongoing) : RotationState :=
  ⟨s.files, s.rows, o.pending, kdfSalt, keys, o.phase⟩

/-- An operation of the rotation in flight. -/
def rotate (s : Installation) (out : Outcome) : Option Installation :=
  match s.process with
  | some ⟨kdfSalt, some keys, some o⟩ =>
    ((s.view kdfSalt keys o).step o.request out).map (s.resume o out)
  | _ => none

/-- The body of `_kdf_salt_previous_cleanup_loop`. -/
def cleanUp (s : Installation) (allowed : Bool) : Installation :=
  match s.files .previous with
  | none => s
  | some _ =>
    -- an `OSError` of `stat` or `unlink` is a warning, and the file stays
    if s.clock < s.previousMtime + kdfSaltPreviousGrace ∨ allowed = false then s
    else { s with files := s.files.unlink .previous }

/-- One event. -/
def step (s : Installation) : Event → Option Installation
  | .boot fresh => if s.process.isNone then some (s.boot fresh) else none
  | .bootCut tmp =>
    if s.process.isNone ∧ s.files .kdfSalt = none then some { s with kdfSaltTmp := some tmp }
    else none
  | .unlock passphrase => if s.process.isSome then some (s.unlock passphrase) else none
  | .setCredential replaced type body =>
    s.storingKeys.map fun keys =>
      { s with rows := s.without replaced ++ [credentialRow keys.streamKeyKek type body] }
  | .deleteCredentials ids => s.storingKeys.map fun _ => { s with rows := s.without ids }
  | .rotate r =>
    match s.process with
    | some ⟨kdfSalt, some keys, none⟩ =>
      if Accepted r then
        some { s with process := some ⟨kdfSalt, some keys, some ⟨r, [], .verifying⟩⟩ }
      else none
    | _ => none
  | .rotation out => s.rotate out
  | .cleanUp allowed => if s.process.isSome then some (s.cleanUp allowed) else none
  | .wait microseconds => some { s with clock := s.clock + microseconds }
  | .kill =>
    match s.process with
    | some ⟨_, _, none⟩ => some s.kill
    | _ => none

/-- The lives of an installation as a machine. -/
def machine : Machine Installation Event := ⟨step⟩

/-- An empty data directory. -/
def fresh : Installation where
  files _ := none
  kdfSaltTmp := none
  rows := []
  clock := 0
  previousTmpMtime := 0
  previousMtime := 0
  process := none

/-! ## Predicates -/

/-- A rotation has been committed and is about to rename the salt. -/
def midRename (s : Installation) : Bool :=
  match s.process with
  | some ⟨_, _, some ⟨_, _, .replacingSalt⟩⟩ => true
  | _ => false

/-- With the rename made that comes next. -/
def renamed (s : Installation) : Installation :=
  if s.midRename then { s with files := s.files.replace .new .kdfSalt } else s

/-- The process has keys, and they open every credential. -/
def Opens (s : Installation) : Prop :=
  ∃ p keys, s.process = some p ∧ p.keys = some keys ∧
    ∀ row ∈ s.rows, row.SealedUnder keys.streamKeyKek

/-- **One passphrase opens every credential** of a process that is started now;
between a commit and its rename, of one that is started after the rename. -/
def Restorable (s : Installation) : Prop :=
  ∃ passphrase, ∀ fresh, ((s.renamed.kill.boot fresh).unlock passphrase).Opens

/-- `.kdf_salt.previous` is written anew. -/
def RenewsPrevious (s : Installation) : Event → Prop
  | .rotation out =>
    match s.process with
    | some ⟨_, some _, some ⟨_, _, .replacingPrevious⟩⟩ => Outcome.CarriedOut out
    | _ => False
  | _ => False

/-- A backup is put back: its rows, and `.kdf_salt.previous` in the place of `.kdf_salt`. -/
def putBack (s : Installation) (backup : List CredentialRow) : Installation :=
  { s.kill with files := s.files.replace .previous .kdfSalt, rows := backup }

/-- The rotation does not end between its commit and its rename, and a credential
is stored under keys of the salt on disk that the other rows are under. -/
def KeepsSalt (s : Installation) : Event → Prop
  | .rotation out =>
    match s.process with
    | some ⟨_, some _, some ⟨r, pending, .committing⟩⟩ =>
      out ≠ .ok ∧ Outcome.CarriedOut out → pending = [] ∨ s.files .kdfSalt = some r.newSalt
    | some ⟨_, some _, some ⟨r, _, .replacingSalt⟩⟩ =>
      Outcome.CarriedOut out ∨ s.rows = [] ∨ s.files .kdfSalt = some r.newSalt
    | _ => True
  | .setCredential replaced _ _ =>
    match s.process, s.storingKeys with
    | some p, some keys =>
      s.files .kdfSalt = some p.kdfSalt ∧
        ∀ row ∈ s.without replaced, row.SealedUnder keys.streamKeyKek
    | _, _ => True
  | _ => True

end Installation

open Installation

/-! ## What an event can do -/

/-- One case for each event that goes through. -/
inductive Moves (s : Installation) : Event → Installation → Prop where
  | boot (salt : FreshSalt) (hp : s.process = none) : Moves s (.boot salt) (s.boot salt)
  | bootCut (tmp : Bytes) : Moves s (.bootCut tmp) { s with kdfSaltTmp := some tmp }
  | unlock (passphrase : Text) : Moves s (.unlock passphrase) (s.unlock passphrase)
  | setCredential (replaced : List ℕ) (type : TargetType) (body : CredentialSetRequest)
      {keys : DerivedKeys} (hkeys : s.storingKeys = some keys) :
    Moves s (.setCredential replaced type body)
      { s with rows := s.without replaced ++ [credentialRow keys.streamKeyKek type body] }
  | deleteCredentials (ids : List ℕ) {keys : DerivedKeys} (hkeys : s.storingKeys = some keys) :
    Moves s (.deleteCredentials ids) { s with rows := s.without ids }
  | rotate {r : Rotation} {kdfSalt : Bytes} {keys : DerivedKeys}
      (hp : s.process = some ⟨kdfSalt, some keys, none⟩) (ha : Accepted r) :
    Moves s (.rotate r) { s with process := some ⟨kdfSalt, some keys, some ⟨r, [], .verifying⟩⟩ }
  | rotation {out : Outcome} {s' : Installation} (h : s.rotate out = some s') :
    Moves s (.rotation out) s'
  | cleanUp (allowed : Bool) : Moves s (.cleanUp allowed) (s.cleanUp allowed)
  | wait (microseconds : ℕ) : Moves s (.wait microseconds) { s with clock := s.clock + microseconds }
  | kill {kdfSalt : Bytes} {keys : Option DerivedKeys}
      (hp : s.process = some ⟨kdfSalt, keys, none⟩) : Moves s .kill s.kill

theorem moves_of_step {s s' : Installation} {e : Event} (hs : s.step e = some s') :
    Moves s e s' := by
  cases e with
  | boot salt =>
    obtain ⟨hp, heq⟩ := Option.ite_none_right_eq_some.mp hs
    exact Option.some.inj heq ▸ .boot salt (Option.isNone_iff_eq_none.mp hp)
  | bootCut tmp =>
    obtain ⟨-, heq⟩ := Option.ite_none_right_eq_some.mp hs
    exact Option.some.inj heq ▸ .bootCut tmp
  | unlock passphrase =>
    obtain ⟨-, heq⟩ := Option.ite_none_right_eq_some.mp hs
    exact Option.some.inj heq ▸ .unlock passphrase
  | setCredential replaced type body =>
    obtain ⟨keys, hkeys, rfl⟩ := Option.map_eq_some_iff.mp hs
    exact .setCredential replaced type body hkeys
  | deleteCredentials ids =>
    obtain ⟨keys, hkeys, rfl⟩ := Option.map_eq_some_iff.mp hs
    exact .deleteCredentials ids hkeys
  | rotate r =>
    simp only [Installation.step] at hs
    split at hs
    · rename_i hp
      obtain ⟨ha, heq⟩ := Option.ite_none_right_eq_some.mp hs
      exact Option.some.inj heq ▸ .rotate hp ha
    · cases hs
  | rotation out => exact .rotation hs
  | cleanUp allowed =>
    obtain ⟨-, heq⟩ := Option.ite_none_right_eq_some.mp hs
    exact Option.some.inj heq ▸ .cleanUp allowed
  | wait microseconds => exact Option.some.inj hs ▸ .wait microseconds
  | kill =>
    simp only [Installation.step] at hs
    split at hs
    · rename_i hp
      exact Option.some.inj hs ▸ .kill hp
    · cases hs

/-! ## The invariant -/

/-- This passphrase and `.kdf_salt` open every row; without a salt there is none. -/
def OpenedBy (passphrase : Text) (files : SaltFiles) (rows : List CredentialRow) : Prop :=
  match files .kdfSalt with
  | none => rows = []
  | some salt => salt.length = kdfSaltLength ∧ SealedBy passphrase salt rows

/-- One passphrase and `.kdf_salt` open every row. -/
def Kept (files : SaltFiles) (rows : List CredentialRow) : Prop :=
  ∃ passphrase, passphrase ≠ [] ∧ OpenedBy passphrase files rows

/-- What holds at each operation of a rotation. -/
def HoldsAt (r : Rotation) (files : SaltFiles) (rows pending : List CredentialRow) : Phase → Prop
  | .verifying | .readingSalt | .writingNew | .swapping | .cleaning _ | .auditing | .returned
  | .raised | .killed => Kept files rows
  | .writingPrevious blob => Kept files rows ∧ files .kdfSalt = some blob
  | .replacingPrevious =>
    Kept files rows ∧ ∃ salt, files .kdfSalt = some salt ∧ files .previousTmp = some salt
  | .replacingNew => Kept files rows ∧ files .newTmp = some r.newSalt
  | .closing | .listing => Kept files rows ∧ files .new = some r.newSalt
  | .rewrapping row rest =>
    Kept files rows ∧ files .new = some r.newSalt ∧ RewrapDue r pending (row :: rest)
  | .deletingSessions | .deletingTokens | .committing =>
    Kept files rows ∧ files .new = some r.newSalt ∧ RewrapDue r pending []
  | .replacingSalt =>
    Kept files [] ∧ files .new = some r.newSalt ∧ SealedBy r.newPassphrase r.newSalt rows

/-- The keys in memory are those of a passphrase and the salt in memory. -/
def Keyed (kdfSalt : Bytes) (keys : Option DerivedKeys) : Prop :=
  ∀ k, keys = some k → ∃ passphrase, passphrase ≠ [] ∧ k = deriveKeys passphrase kdfSalt

/-- The invariant of a rotation in flight. -/
def HoldsOf (files : SaltFiles) (rows : List CredentialRow) : Option Ongoing → Prop
  | none => Kept files rows
  | some o => Accepted o.request ∧ HoldsAt o.request files rows o.pending o.phase

/-- The invariant. -/
def Inv (s : Installation) : Prop :=
  match s.process with
  | none => Kept s.files s.rows
  | some p => Keyed p.kdfSalt p.keys ∧ HoldsOf s.files s.rows p.rotation

section Invariant

variable {files files' : SaltFiles} {rows rows' pending : List CredentialRow} {r : Rotation}
  {phase phase' : Phase} {s s' : Installation}

theorem Kept.of_files (h : Kept files rows) (hf : files' .kdfSalt = files .kdfSalt) :
    Kept files' rows := by
  obtain ⟨p, hp, ho⟩ := h
  refine ⟨p, hp, ?_⟩
  rw [OpenedBy, hf]
  exact ho

/-- Rows may go. -/
theorem Kept.of_subset (h : Kept files rows) (hsub : rows' ⊆ rows) : Kept files rows' := by
  obtain ⟨p, hp, ho⟩ := h
  refine ⟨p, hp, ?_⟩
  rw [OpenedBy] at ho ⊢
  split
  · rename_i hnone
    rw [hnone] at ho
    subst ho
    exact List.subset_nil.mp hsub
  · rename_i salt hsalt
    rw [hsalt] at ho
    exact ⟨ho.1, fun row hrow => ho.2 row (hsub hrow)⟩

theorem kept_of_salt {passphrase : Text} {salt : Bytes} (hp : passphrase ≠ [])
    (hf : files .kdfSalt = some salt) (hlen : salt.length = kdfSaltLength)
    (hrows : SealedBy passphrase salt rows) : Kept files rows := by
  refine ⟨passphrase, hp, ?_⟩
  rw [OpenedBy, hf]
  exact ⟨hlen, hrows⟩

theorem Accepted.ne_nil (h : Accepted r) : r.newPassphrase ≠ [] := by
  intro hnil
  have hlen := h.new.1
  rw [hnil] at hlen
  exact absurd hlen (by decide)

theorem Kept.sealed_new (h : Accepted r) (hf : files .kdfSalt = some r.newSalt)
    (hrows : SealedBy r.newPassphrase r.newSalt rows) : Kept files rows :=
  kept_of_salt h.ne_nil hf h.salt hrows

theorem holdsAt_rewrapLoop {todo : List CredentialRow} (h : Kept files rows)
    (hnew : files .new = some r.newSalt) (hdue : RewrapDue r pending todo) :
    HoldsAt r files rows pending (rewrapLoop todo) := by
  cases todo with
  | nil => exact ⟨h, hnew, hdue⟩
  | cons row rest => exact ⟨h, hnew, hdue⟩

/-! ### What an operation of a rotation leaves -/

/-- A rename leaves the other files. -/
theorem replace_of_ne {src dst f : SaltFile} (hsrc : f ≠ src) (hdst : f ≠ dst) :
    files.replace src dst f = files f := by
  cases hpayload : files src with
  | none => rw [SaltFiles.replace, hpayload]
  | some payload => rw [replace_of_some dst hpayload, unlink_of_ne _ hsrc, write_of_ne _ _ hdst]

/-- A write to another file. -/
theorem Kept.of_write (h : Kept files rows) {f : SaltFile} (hf : .kdfSalt ≠ f) (payload : Bytes) :
    Kept (files.write f payload) rows := h.of_files (write_of_ne files payload hf)

/-- Another file is removed. -/
theorem Kept.of_unlink (h : Kept files rows) {f : SaltFile} (hf : .kdfSalt ≠ f) :
    Kept (files.unlink f) rows := h.of_files (unlink_of_ne files hf)

/-- A rename among the other files. -/
theorem Kept.of_replace (h : Kept files rows) {src dst : SaltFile} (hsrc : .kdfSalt ≠ src)
    (hdst : .kdfSalt ≠ dst) : Kept (files.replace src dst) rows :=
  h.of_files (replace_of_ne hsrc hdst)

/-- **An operation is carried out**, and the rotation goes on. -/
theorem holdsAt_following {t : RotationState} (ha : Accepted r)
    (h : HoldsAt r t.files t.rows t.pending t.phase) (hnext : t.following r = some phase) :
    HoldsAt r (t.effect r).files (t.effect r).rows (t.effect r).pending phase := by
  obtain ⟨files, rows, pending, kdfSalt, keys, phase'⟩ := t
  cases phase' with
  | verifying =>
    simp only [following] at hnext
    split at hnext
    · obtain rfl := Option.some.inj hnext
      exact h
    · cases hnext
  | readingSalt =>
    simp only [following] at hnext
    split at hnext
    · rename_i blob hblob
      split at hnext
      · obtain rfl := Option.some.inj hnext
        exact ⟨h, hblob⟩
      · cases hnext
    · cases hnext
  | writingPrevious blob =>
    obtain rfl := Option.some.inj hnext
    have hsalt : files.write .previousTmp blob .kdfSalt = files .kdfSalt :=
      write_of_ne files blob (by decide)
    exact ⟨h.1.of_write (by decide) blob, blob, hsalt.trans h.2, write_self files .previousTmp blob⟩
  | replacingPrevious =>
    obtain ⟨-, -, rfl⟩ := Option.map_eq_some_iff.mp hnext
    exact h.1.of_replace (by decide) (by decide)
  | writingNew =>
    obtain rfl := Option.some.inj hnext
    exact ⟨Kept.of_write h (by decide) r.newSalt, write_self files .newTmp r.newSalt⟩
  | replacingNew =>
    obtain ⟨-, -, rfl⟩ := Option.map_eq_some_iff.mp hnext
    exact ⟨h.1.of_replace (by decide) (by decide),
      (replace_apply .new h.2 (by decide)).1⟩
  | closing =>
    obtain rfl := Option.some.inj hnext
    exact h
  | listing =>
    obtain rfl := Option.some.inj hnext
    exact holdsAt_rewrapLoop h.1 h.2 (rewrapDue_refl r rows)
  | rewrapping row rest =>
    obtain ⟨new, hnew, rfl⟩ := Option.map_eq_some_iff.mp hnext
    obtain ⟨hkept, hstaged, hdue⟩ := h
    simp only [effect, hnew]
    exact holdsAt_rewrapLoop hkept hstaged (rewrapDue_rewrap hdue hnew)
  | deletingSessions | deletingTokens =>
    obtain rfl := Option.some.inj hnext
    exact h
  | committing =>
    obtain rfl := Option.some.inj hnext
    exact ⟨h.1.of_subset (List.nil_subset _), h.2.1, h.2.2.sealedBy⟩
  | replacingSalt =>
    obtain ⟨-, -, rfl⟩ := Option.map_eq_some_iff.mp hnext
    exact Kept.sealed_new ha (replace_apply .kdfSalt h.2.1 (by decide)).1 h.2.2
  | swapping =>
    obtain rfl := Option.some.inj hnext
    exact h
  | cleaning raisedIn =>
    obtain rfl := Option.some.inj hnext
    exact Kept.of_unlink h (by decide)
  | auditing =>
    obtain rfl := Option.some.inj hnext
    exact h
  | returned | raised | killed => cases hnext

/-- The operation does not end the rotation between its commit and its rename. -/
structure Uncut (r : Rotation) (t : RotationState) (e : Extent) : Prop where
  commit : t.phase = .committing → e = .done → t.pending = [] ∨ t.files .kdfSalt = some r.newSalt
  rename : t.phase = .replacingSalt → e = .done ∨ t.rows = [] ∨ t.files .kdfSalt = some r.newSalt

/-- **An operation raises**, or is the last one of the process. -/
theorem kept_reach {t : RotationState} {e : Extent} (ha : Accepted r)
    (h : HoldsAt r t.files t.rows t.pending t.phase) (hnext : handler e t.phase = some phase)
    (hk : Uncut r t e) : Kept (t.reach r e).files (t.reach r e).rows := by
  obtain ⟨hcommit, hrename⟩ := hk
  obtain ⟨files, rows, pending, kdfSalt, keys, phase'⟩ := t
  cases phase' with
  | verifying | readingSalt | swapping | auditing => cases e <;> exact h
  | writingPrevious blob =>
    cases e with
    | nothing => exact h.1
    | torn | done => exact h.1.of_write (by decide) _
  | replacingPrevious | replacingNew =>
    cases e with
    | nothing | torn => exact h.1
    | done => exact h.1.of_replace (by decide) (by decide)
  | writingNew =>
    cases e with
    | nothing => exact h
    | torn | done => exact Kept.of_write h (by decide) _
  | closing | listing | deletingSessions | deletingTokens => cases e <;> exact h.1
  | rewrapping row rest =>
    cases e with
    | nothing | torn => exact h.1
    | done =>
      -- only the open transaction, which is rolled back, has changed
      simp only [reach, effect]
      split <;> exact h.1
  | committing =>
    cases e with
    | nothing | torn => exact h.1
    | done =>
      rcases hcommit rfl rfl with hnil | hsalt
      · refine h.1.of_subset ?_
        rw [show pending = [] from hnil]
        exact List.nil_subset _
      · exact Kept.sealed_new ha hsalt h.2.2.sealedBy
  | replacingSalt =>
    cases e with
    | done => exact Kept.sealed_new ha (replace_apply .kdfSalt h.2.1 (by decide)).1 h.2.2
    | nothing | torn =>
      rcases hrename rfl with hdone | hnil | hsalt
      · cases hdone
      · refine h.1.of_subset ?_
        rw [show rows = [] from hnil]
        exact List.nil_subset _
      · exact Kept.sealed_new ha hsalt h.2.2
  | cleaning raisedIn =>
    cases e with
    | nothing | torn => exact h
    | done => exact Kept.of_unlink h (by decide)
  | returned | raised | killed => cases hnext

theorem holdsAt_handler {e : Extent} (h : handler e phase = some phase')
    (hkept : Kept files rows) : HoldsAt r files rows pending phase' := by
  cases phase <;> cases h <;> exact hkept

theorem keyed_effect {t : RotationState} (ha : Accepted r) (h : Keyed t.kdfSalt (some t.keys)) :
    Keyed (t.effect r).kdfSalt (some (t.effect r).keys) := by
  obtain ⟨files, rows, pending, kdfSalt, keys, phase⟩ := t
  cases phase with
  | swapping =>
    intro k hk
    exact ⟨r.newPassphrase, ha.ne_nil, (Option.some.inj hk).symm⟩
  | rewrapping row rest =>
    simp only [effect]
    split <;> exact h
  | _ => exact h

theorem keyed_reach {t : RotationState} (ha : Accepted r) (h : Keyed t.kdfSalt (some t.keys))
    (e : Extent) : Keyed (t.reach r e).kdfSalt (some (t.reach r e).keys) := by
  cases e with
  | nothing => exact h
  | done => exact keyed_effect ha h
  | torn payload =>
    simp only [reach]
    split <;> exact h

/-- The process goes on, or is over. -/
theorem inv_resume {o : Ongoing} {out : Outcome} {t : RotationState} (ha : Accepted o.request)
    (hk : Keyed t.kdfSalt (some t.keys))
    (h : HoldsAt o.request t.files t.rows t.pending t.phase) : Inv (s.resume o out t) := by
  obtain ⟨files, rows, pending, kdfSalt, keys, phase⟩ := t
  cases phase with
  | killed => exact h
  | auditing | returned | raised => exact ⟨hk, h⟩
  | _ => exact ⟨hk, ha, h⟩

theorem keepsSalt_rotation {kdfSalt : Bytes} {keys : DerivedKeys} {o : Ongoing} (out : Outcome)
    (hp : s.process = some ⟨kdfSalt, some keys, some o⟩) :
    s.KeepsSalt (.rotation out) ↔
      (o.phase = .committing → out ≠ .ok ∧ Outcome.CarriedOut out →
        o.pending = [] ∨ s.files .kdfSalt = some o.request.newSalt) ∧
      (o.phase = .replacingSalt →
        Outcome.CarriedOut out ∨ s.rows = [] ∨ s.files .kdfSalt = some o.request.newSalt) := by
  obtain ⟨request, pending, phase⟩ := o
  cases phase <;> simp [KeepsSalt, hp]

/-- What an operation of a rotation is. -/
theorem exists_of_rotate {out : Outcome} (hs : s.rotate out = some s') :
    ∃ kdfSalt keys o t, s.process = some ⟨kdfSalt, some keys, some o⟩ ∧
      (s.view kdfSalt keys o).step o.request out = some t ∧ s' = s.resume o out t := by
  rw [rotate] at hs
  split at hs
  · rename_i kdfSalt keys o hp
    obtain ⟨t, ht, rfl⟩ := Option.map_eq_some_iff.mp hs
    exact ⟨kdfSalt, keys, o, t, hp, ht, rfl⟩
  · cases hs

/-- **One operation of a rotation** that is not cut off. -/
theorem inv_rotate {out : Outcome} (hi : Inv s) (hk : s.KeepsSalt (.rotation out))
    (hs : s.rotate out = some s') : Inv s' := by
  obtain ⟨kdfSalt, keys, o, t, hp, ht, rfl⟩ := exists_of_rotate hs
  rw [Inv, hp] at hi
  obtain ⟨hkeyed, ha, hholds⟩ := hi
  rw [keepsSalt_rotation out hp] at hk
  have huncut : ∀ e, out = .raises e ∨ out = .killed e →
      Uncut o.request (s.view kdfSalt keys o) e := by
    intro e hout
    refine ⟨fun hphase he => hk.1 hphase ?_, fun hphase => (hk.2 hphase).imp_left ?_⟩
    · subst he
      rcases hout with rfl | rfl <;> exact ⟨by rintro ⟨⟩, trivial⟩
    · rcases hout with rfl | rfl <;> cases e <;> simp [Outcome.CarriedOut]
  cases out with
  | ok =>
    obtain ⟨phase, hnext, rfl⟩ := Option.map_eq_some_iff.mp ht
    exact inv_resume ha (keyed_effect (t := s.view kdfSalt keys o) ha hkeyed)
      (holdsAt_following (t := s.view kdfSalt keys o) ha hholds hnext)
  | raises e =>
    obtain ⟨phase, hnext, rfl⟩ := Option.map_eq_some_iff.mp ht
    exact inv_resume ha (keyed_reach (t := s.view kdfSalt keys o) ha hkeyed e)
      (holdsAt_handler hnext (kept_reach ha hholds hnext (huncut e (.inl rfl))))
  | killed e =>
    obtain ⟨phase, hnext, rfl⟩ := Option.map_eq_some_iff.mp ht
    exact kept_reach ha hholds hnext (huncut e (.inr rfl))

/-! ### The other events -/

theorem HoldsAt.kept (h : HoldsAt r files rows pending phase) (hp : phase ≠ .replacingSalt) :
    Kept files rows := by
  cases phase with
  | verifying | readingSalt | writingNew | swapping | cleaning | auditing | returned | raised
  | killed => exact h
  | replacingSalt => exact absurd rfl hp
  | writingPrevious | replacingPrevious | replacingNew | closing | listing | rewrapping
  | deletingSessions | deletingTokens | committing => exact h.1

/-- When a credential may be stored. -/
theorem exists_of_storingKeys {keys : DerivedKeys} (h : s.storingKeys = some keys) :
    ∃ kdfSalt ongoing, s.process = some ⟨kdfSalt, some keys, ongoing⟩ ∧
      ∀ o ∈ ongoing, listed o.phase = false := by
  rw [storingKeys] at h
  split at h
  · rename_i kdfSalt keys' hp
    subst h
    exact ⟨kdfSalt, none, hp, by rintro o ⟨⟩⟩
  · rename_i kdfSalt keys' o hp
    split at h
    · cases h
    · rename_i hlisted
      subst h
      refine ⟨kdfSalt, some o, hp, ?_⟩
      rintro o' ⟨⟩
      exact Bool.eq_false_of_not_eq_true hlisted
  · cases h

/-- Whether a rotation is in flight or not, outside its transaction. -/
theorem kept_of_storingKeys {keys : DerivedKeys} (hi : Inv s) (h : s.storingKeys = some keys) :
    Kept s.files s.rows := by
  obtain ⟨kdfSalt, ongoing, hp, hlisted⟩ := exists_of_storingKeys h
  rw [Inv, hp] at hi
  cases ongoing with
  | none => exact hi.2
  | some o =>
    refine hi.2.2.kept fun hphase => ?_
    have hl := hlisted o rfl
    rw [hphase] at hl
    cases hl

/-- Other rows, while a row may be stored. -/
theorem inv_rows {keys : DerivedKeys} (hi : Inv s) (h : s.storingKeys = some keys)
    (hkept : Kept s.files rows) : Inv { s with rows := rows } := by
  obtain ⟨kdfSalt, ongoing, hp, hlisted⟩ := exists_of_storingKeys h
  rw [Inv, hp] at hi
  rw [Inv]
  simp only [hp]
  cases ongoing with
  | none => exact ⟨hi.1, hkept⟩
  | some o =>
    obtain ⟨hkeyed, ha, hholds⟩ := hi
    refine ⟨hkeyed, ha, ?_⟩
    have hl := hlisted o rfl
    obtain ⟨request, pending, phase⟩ := o
    cases phase with
    | writingPrevious | replacingPrevious | replacingNew | closing | listing =>
      exact ⟨hkept, hholds.2⟩
    | verifying | readingSalt | writingNew | cleaning | auditing | returned | raised | killed =>
      exact hkept
    | rewrapping | deletingSessions | deletingTokens | committing | replacingSalt | swapping =>
      cases hl

theorem without_subset (s : Installation) (ids : List ℕ) : s.without ids ⊆ s.rows :=
  List.filter_subset_self _

/-- A process that may store has keys of its own salt. -/
theorem process_of_storingKeys {keys : DerivedKeys} (hi : Inv s) (h : s.storingKeys = some keys) :
    ∃ p passphrase, s.process = some p ∧ passphrase ≠ [] ∧
      keys = deriveKeys passphrase p.kdfSalt := by
  obtain ⟨kdfSalt, ongoing, hp, -⟩ := exists_of_storingKeys h
  rw [Inv, hp] at hi
  obtain ⟨passphrase, hne, heq⟩ := hi.1 keys rfl
  exact ⟨_, passphrase, hp, hne, heq⟩

/-- A credential that the other rows share the keys with. -/
theorem kept_append {p : Process} {passphrase : Text} {row : CredentialRow}
    (hkept : Kept files rows) (hne : passphrase ≠ []) (hsalt : files .kdfSalt = some p.kdfSalt)
    (hrows : ∀ row ∈ rows', row.SealedUnder (deriveKeys passphrase p.kdfSalt).streamKeyKek)
    (hrow : row.SealedUnder (deriveKeys passphrase p.kdfSalt).streamKeyKek) :
    Kept files (rows' ++ [row]) := by
  obtain ⟨passphrase', -, ho⟩ := hkept
  rw [OpenedBy, hsalt] at ho
  refine kept_of_salt hne hsalt ho.1 fun row' hrow' => ?_
  rcases List.mem_append.mp hrow' with hold | hnew
  · exact hrows row' hold
  · rw [List.mem_singleton.mp hnew]
    exact hrow

theorem inv_boot (hi : Inv s) (hp : s.process = none) (salt : FreshSalt) : Inv (s.boot salt) := by
  rw [Inv, hp] at hi
  rw [boot]
  split
  · rename_i salt' hsalt
    split
    · exact ⟨by rintro _ ⟨⟩, hi⟩
    · rw [Inv, hp]
      exact hi
  · rename_i hnone
    obtain ⟨p, hne, ho⟩ := hi
    rw [OpenedBy, hnone] at ho
    have hsalt : s.files.write .kdfSalt salt .kdfSalt = some salt.1 := write_self s.files _ _
    have hrows : SealedBy p salt.1 s.rows := by
      rw [ho]
      exact fun row hrow => absurd hrow List.not_mem_nil
    exact ⟨by rintro _ ⟨⟩, kept_of_salt hne hsalt salt.2 hrows⟩

theorem inv_unlock (hi : Inv s) (passphrase : Text) : Inv (s.unlock passphrase) := by
  rw [unlock]
  split
  · rename_i kdfSalt rotation hp
    split
    · exact hi
    · rename_i hne
      rw [Inv, hp] at hi
      refine ⟨fun k hk => ⟨passphrase, hne, (Option.some.inj hk).symm⟩, hi.2⟩
  · exact hi

/-- Nothing rests on `.kdf_salt.previous`. -/
theorem HoldsAt.of_files (h : HoldsAt r files rows pending phase)
    (hf : ∀ f, f ≠ .previous → files' f = files f) : HoldsAt r files' rows pending phase := by
  have hsalt : files' .kdfSalt = files .kdfSalt := hf _ (by decide)
  have hnew : files' .new = files .new := hf _ (by decide)
  cases phase with
  | verifying | readingSalt | writingNew | swapping | cleaning | auditing | returned | raised
  | killed => exact Kept.of_files h hsalt
  | writingPrevious => exact ⟨h.1.of_files hsalt, hsalt.trans h.2⟩
  | replacingPrevious =>
    obtain ⟨hkept, salt, hold, htmp⟩ := h
    exact ⟨hkept.of_files hsalt, salt, hsalt.trans hold, (hf _ (by decide)).trans htmp⟩
  | replacingNew => exact ⟨h.1.of_files hsalt, (hf _ (by decide)).trans h.2⟩
  | closing | listing => exact ⟨h.1.of_files hsalt, hnew.trans h.2⟩
  | rewrapping | deletingSessions | deletingTokens | committing | replacingSalt =>
    exact ⟨h.1.of_files hsalt, hnew.trans h.2.1, h.2.2⟩

theorem inv_cleanUp (hi : Inv s) (allowed : Bool) : Inv (s.cleanUp allowed) := by
  rw [cleanUp]
  split
  · exact hi
  · split
    · exact hi
    · have hf : ∀ f, f ≠ .previous → s.files.unlink .previous f = s.files f :=
        fun f hne => unlink_of_ne s.files hne
      have hsalt := hf .kdfSalt (by decide)
      rw [Inv] at hi ⊢
      dsimp only
      split
      · rename_i hp
        rw [hp] at hi
        exact Kept.of_files hi hsalt
      · rename_i p hp
        rw [hp] at hi
        obtain ⟨hkeyed, hholds⟩ := hi
        refine ⟨hkeyed, ?_⟩
        cases hrot : p.rotation with
        | none =>
          rw [hrot] at hholds
          exact Kept.of_files hholds hsalt
        | some o =>
          rw [hrot] at hholds
          exact ⟨hholds.1, hholds.2.of_files hf⟩

/-- **One event** that keeps the salt keeps the invariant. -/
theorem inv_step {e : Event} (hi : Inv s) (hk : s.KeepsSalt e) (hs : s.step e = some s') :
    Inv s' := by
  cases moves_of_step hs with
  | boot salt hp => exact inv_boot hi hp salt
  | unlock passphrase => exact inv_unlock hi passphrase
  | setCredential replaced type body hkeys =>
    obtain ⟨p, passphrase, hp, hne, rfl⟩ := process_of_storingKeys hi hkeys
    rw [KeepsSalt, hp, hkeys] at hk
    exact inv_rows hi hkeys (kept_append (kept_of_storingKeys hi hkeys) hne hk.1 hk.2
      (sealedUnder_credentialRow _ type body))
  | deleteCredentials ids hkeys =>
    exact inv_rows hi hkeys ((kept_of_storingKeys hi hkeys).of_subset (without_subset s ids))
  | rotate hp ha =>
    rw [Inv, hp] at hi
    exact ⟨hi.1, ha, hi.2⟩
  | rotation h => exact inv_rotate hi hk h
  | cleanUp allowed => exact inv_cleanUp hi allowed
  | bootCut | wait => exact hi
  | kill hp =>
    rw [Inv, hp] at hi
    exact hi.2

/-! ### What the invariant says -/

theorem opens_unlock {kdfSalt : Bytes} {rotation : Option Ongoing} {passphrase : Text}
    (hp : s.process = some ⟨kdfSalt, none, rotation⟩) :
    (s.unlock passphrase).Opens ↔ passphrase ≠ [] ∧ SealedBy passphrase kdfSalt s.rows := by
  rw [unlock, hp]
  dsimp only
  by_cases hnil : passphrase = []
  · rw [if_pos hnil]
    refine iff_of_false ?_ fun h => h.1 hnil
    rintro ⟨p, keys, hp', hkeys, -⟩
    rw [hp] at hp'
    obtain rfl := Option.some.inj hp'
    cases hkeys
  · rw [if_neg hnil, and_iff_right hnil]
    refine ⟨?_, fun h => ⟨_, _, rfl, rfl, h⟩⟩
    rintro ⟨p, keys, hp', hkeys, hrows⟩
    obtain rfl := Option.some.inj hp'
    obtain rfl := Option.some.inj hkeys
    exact hrows

/-- What a restart opens. -/
theorem opens_restarted_iff {passphrase : Text} {salt : FreshSalt} :
    ((s.kill.boot salt).unlock passphrase).Opens ↔
      passphrase ≠ [] ∧
        match s.files .kdfSalt with
        | none => SealedBy passphrase salt.1 s.rows
        | some old => old.length = kdfSaltLength ∧ SealedBy passphrase old s.rows := by
  cases hsalt : s.files .kdfSalt with
  | none =>
    have hboot : (s.kill.boot salt).process = some ⟨salt, none, none⟩ ∧
        (s.kill.boot salt).rows = s.rows := by
      rw [boot, kill]
      dsimp only
      rw [hsalt]
      exact ⟨rfl, rfl⟩
    rw [opens_unlock hboot.1, hboot.2]
  | some old =>
    by_cases hlen : old.length = kdfSaltLength
    · have hboot : (s.kill.boot salt).process = some ⟨old, none, none⟩ ∧
          (s.kill.boot salt).rows = s.rows := by
        rw [boot, kill]
        dsimp only
        rw [hsalt]
        dsimp only
        rw [if_pos hlen]
        exact ⟨rfl, rfl⟩
      rw [opens_unlock hboot.1, hboot.2]
      exact and_congr_right fun _ => (and_iff_right hlen).symm
    · have hboot : s.kill.boot salt = s.kill := by
        rw [boot, kill]
        dsimp only
        rw [hsalt]
        dsimp only
        rw [if_neg hlen]
      refine iff_of_false ?_ fun h => hlen h.2.1
      rw [hboot]
      rintro ⟨p, keys, hp, -⟩
      cases hp

theorem opens_of_kept (h : Kept s.files s.rows) :
    ∃ passphrase, ∀ salt, ((s.kill.boot salt).unlock passphrase).Opens := by
  obtain ⟨p, hne, ho⟩ := h
  refine ⟨p, fun salt => opens_restarted_iff.mpr ⟨hne, ?_⟩⟩
  rw [OpenedBy] at ho
  split
  · rename_i hnone
    rw [hnone] at ho
    rw [show s.rows = [] from ho]
    exact fun row hrow => absurd hrow List.not_mem_nil
  · rename_i old hold
    rw [hold] at ho
    exact ho

theorem restorable_of_inv (hi : Inv s) : Restorable s := by
  have hkept : Kept s.renamed.files s.renamed.rows := by
    rw [renamed, midRename]
    split
    · rename_i kdfSalt keys r pending hp
      rw [Inv, hp] at hi
      obtain ⟨-, ha, -, hnew, hrows⟩ := hi
      exact Kept.sealed_new ha (replace_apply .kdfSalt hnew (by decide)).1 hrows
    · rename_i hno
      rw [if_neg Bool.false_ne_true]
      rw [Inv] at hi
      split at hi
      · exact hi
      · rename_i p hp
        obtain ⟨kdfSalt, keys, ongoing⟩ := p
        cases ongoing with
        | none => exact hi.2
        | some o =>
          refine hi.2.2.kept fun hphase => ?_
          obtain ⟨request, pending, phase⟩ := o
          obtain rfl : phase = _ := hphase
          exact hno _ _ _ _ hp
  exact opens_of_kept hkept

/-- All rows are under the keys of one of them, which are those of the salt on disk. -/
theorem shared_of_restorable {passphrase : Text} {salt : Bytes} {row : CredentialRow}
    (h : Restorable s) (hmid : s.midRename = false) (hrow : row ∈ s.rows)
    (hs : row.SealedUnder (deriveKeys passphrase salt).streamKeyKek) :
    s.files .kdfSalt = some salt ∧ SealedBy passphrase salt s.rows := by
  obtain ⟨p, hopens⟩ := h
  rw [renamed, hmid, if_neg Bool.false_ne_true] at hopens
  -- without a salt on disk a restart may draw another one
  obtain ⟨other, hother⟩ : ∃ other : FreshSalt, other.1 ≠ salt := by
    by_cases hzero : List.replicate kdfSaltLength 0 = salt
    · refine ⟨⟨List.replicate kdfSaltLength 1, List.length_replicate⟩, fun hone => ?_⟩
      exact absurd (hzero.trans hone.symm) (by decide)
    · exact ⟨⟨List.replicate kdfSaltLength 0, List.length_replicate⟩, hzero⟩
  obtain ⟨-, h⟩ := opens_restarted_iff.mp (hopens other)
  split at h
  · exact absurd (streamKeyKek_inj ((h row hrow).unique hs)).2 hother
  · rename_i old hold
    obtain ⟨rfl, rfl⟩ := streamKeyKek_inj ((h.2 row hrow).unique hs)
    exact ⟨hold, h.2⟩

/-- A row under a salt that is not on disk. -/
theorem not_restorable {passphrase : Text} {salt : Bytes} {row : CredentialRow}
    (hmid : s.midRename = false) (hrow : row ∈ s.rows)
    (hs : row.SealedUnder (deriveKeys passphrase salt).streamKeyKek)
    (hsalt : s.files .kdfSalt ≠ some salt) : ¬ Restorable s :=
  fun h => hsalt (shared_of_restorable h hmid hrow hs).1

/-- After a rotation that is cut off, its rows need the salt that is not in place. -/
theorem not_restorable_rotate {out : Outcome} (hi : Inv s) (hk : ¬ s.KeepsSalt (.rotation out))
    (hs : s.rotate out = some s') : ¬ Restorable s' := by
  obtain ⟨kdfSalt, keys, o, t, hp, ht, rfl⟩ := exists_of_rotate hs
  rw [Inv, hp] at hi
  obtain ⟨-, -, hholds⟩ := hi
  rw [keepsSalt_rotation out hp, Classical.not_and_iff_not_or_not] at hk
  obtain ⟨r, pending, phase⟩ := o
  rcases hk with hk | hk
  · -- committed, but the rename is skipped
    push Not at hk
    obtain ⟨rfl, ⟨hout, hdone⟩, hne, hsalt⟩ := hk
    obtain ⟨row, hrow⟩ := List.exists_mem_of_ne_nil pending hne
    have hsealed := hholds.2.2.sealedBy row hrow
    cases out with
    | ok => exact absurd rfl hout
    | raises e | killed e =>
      cases e with
      | nothing | torn => exact hdone.elim
      | done =>
        obtain rfl := Option.some.inj ht
        exact not_restorable rfl hrow hsealed hsalt
  · -- the rename is not carried out
    push Not at hk
    obtain ⟨rfl, hdone, hne, hsalt⟩ := hk
    obtain ⟨row, hrow⟩ := List.exists_mem_of_ne_nil s.rows hne
    have hsealed := hholds.2.2 row hrow
    cases out with
    | ok => exact absurd trivial hdone
    | raises e | killed e =>
      cases e with
      | done => exact absurd trivial hdone
      | nothing | torn =>
        obtain rfl := Option.some.inj ht
        exact not_restorable rfl hrow hsealed hsalt

/-- After a credential is stored under other keys than the rest. -/
theorem not_restorable_setCredential {replaced : List ℕ} {type : TargetType}
    {body : CredentialSetRequest} (hi : Inv s)
    (hk : ¬ s.KeepsSalt (.setCredential replaced type body))
    (hs : s.step (.setCredential replaced type body) = some s') : ¬ Restorable s' := by
  obtain ⟨keys, hkeys, rfl⟩ := Option.map_eq_some_iff.mp hs
  obtain ⟨p, passphrase, hp, -, rfl⟩ := process_of_storingKeys hi hkeys
  rw [KeepsSalt, hp, hkeys, Classical.not_and_iff_not_or_not] at hk
  have hmid : s.midRename = false := by
    rw [midRename]
    split
    · rename_i hp'
      rw [storingKeys, hp'] at hkeys
      cases hkeys
    · rfl
  have hnew := sealedUnder_credentialRow (deriveKeys passphrase p.kdfSalt).streamKeyKek type body
  have hlast {row : CredentialRow} : row ∈ s.without replaced ++ [row] :=
    List.mem_append_right _ (List.mem_singleton.mpr rfl)
  by_cases hsalt : s.files .kdfSalt = some p.kdfSalt
  · have hrows := hk.resolve_left (not_not_intro hsalt)
    push Not at hrows
    obtain ⟨row, hrow, hother⟩ := hrows
    exact fun h =>
      hother ((shared_of_restorable h hmid hlast hnew).2 row (List.mem_append_left _ hrow))
  · exact not_restorable hmid hlast hnew hsalt

theorem inv_fresh : Inv fresh := ⟨['a'], by simp, rfl⟩

end Invariant

section Previous

variable {r : Rotation} {s s' : Installation} {salt : Bytes} {mtime : ℕ}

/-- Only one operation of a rotation changes `.kdf_salt.previous`. -/
theorem previous_effect {t : RotationState} (h : t.phase ≠ .replacingPrevious) :
    (t.effect r).files .previous = t.files .previous := by
  obtain ⟨files, rows, pending, kdfSalt, keys, phase⟩ := t
  cases phase with
  | replacingPrevious => exact absurd rfl h
  | writingPrevious blob =>
    change files.write .previousTmp blob .previous = files .previous
    exact write_of_ne files blob (by decide)
  | writingNew =>
    change files.write .newTmp r.newSalt .previous = files .previous
    exact write_of_ne files r.newSalt (by decide)
  | replacingNew =>
    change files.replace .newTmp .new .previous = files .previous
    exact replace_of_ne (by decide) (by decide)
  | replacingSalt =>
    change files.replace .new .kdfSalt .previous = files .previous
    exact replace_of_ne (by decide) (by decide)
  | cleaning =>
    change files.unlink .new .previous = files .previous
    exact unlink_of_ne files (by decide)
  | rewrapping =>
    simp only [effect]
    split <;> rfl
  | _ => rfl

theorem previous_reach {t : RotationState} {e : Extent}
    (h : t.phase = .replacingPrevious → e ≠ .done) :
    (t.reach r e).files .previous = t.files .previous := by
  cases e with
  | nothing => rfl
  | done => exact previous_effect fun hp => h hp rfl
  | torn payload =>
    simp only [reach]
    split
    · change t.files.write .previousTmp payload .previous = t.files .previous
      exact write_of_ne t.files payload (by decide)
    · change t.files.write .newTmp payload .previous = t.files .previous
      exact write_of_ne t.files payload (by decide)
    · rfl

theorem renewsPrevious_iff {kdfSalt : Bytes} {keys : DerivedKeys} {o : Ongoing} (out : Outcome)
    (hp : s.process = some ⟨kdfSalt, some keys, some o⟩) :
    s.RenewsPrevious (.rotation out) ↔ o.phase = .replacingPrevious ∧ Outcome.CarriedOut out := by
  obtain ⟨request, pending, phase⟩ := o
  cases phase <;> simp [RenewsPrevious, hp]

/-- The file is there until a day after it was written. -/
structure Lingers (salt : Bytes) (mtime : ℕ) (s : Installation) : Prop where
  written : s.previousMtime = mtime
  file : s.files .previous = some salt ∨ mtime + kdfSaltPreviousGrace ≤ s.clock

theorem lingers_rotate {out : Outcome} (h : Lingers salt mtime s)
    (hno : ¬ s.RenewsPrevious (.rotation out)) (hs : s.rotate out = some s') :
    Lingers salt mtime s' := by
  obtain ⟨kdfSalt, keys, o, t, hp, ht, rfl⟩ := exists_of_rotate hs
  rw [renewsPrevious_iff out hp] at hno
  have hprevious : t.files .previous = s.files .previous := by
    cases out with
    | ok =>
      obtain ⟨phase, -, rfl⟩ := Option.map_eq_some_iff.mp ht
      exact previous_effect (t := s.view kdfSalt keys o) fun hphase => hno ⟨hphase, trivial⟩
    | raises e | killed e =>
      obtain ⟨phase, -, rfl⟩ := Option.map_eq_some_iff.mp ht
      refine previous_reach (t := s.view kdfSalt keys o) fun hphase he => hno ⟨hphase, ?_⟩
      rw [he]
      trivial
  refine ⟨?_, h.file.imp_left hprevious.trans⟩
  rw [← h.written, resume]
  dsimp only
  split
  · rename_i hphase
    exact if_neg fun hdone => hno ⟨hphase, hdone⟩
  · rfl

/-- **One event** other than a new rotation's. -/
theorem lingers_step {e : Event} (h : Lingers salt mtime s) (hno : ¬ s.RenewsPrevious e)
    (hs : s.step e = some s') : Lingers salt mtime s' := by
  cases moves_of_step hs with
  | boot fresh hp =>
    rw [boot]
    split
    · split <;> exact ⟨h.written, h.file⟩
    · have hprevious : s.files.write .kdfSalt fresh .previous = s.files .previous :=
        write_of_ne s.files _ (by decide)
      exact ⟨h.written, h.file.imp_left hprevious.trans⟩
  | unlock passphrase =>
    rw [unlock]
    split
    · split <;> exact ⟨h.written, h.file⟩
    · exact h
  | rotation hrotate => exact lingers_rotate h hno hrotate
  | cleanUp allowed =>
    rw [cleanUp]
    split
    · exact h
    · split
      · exact h
      · rename_i hold
        refine ⟨h.written, .inr ?_⟩
        rw [← h.written]
        exact Nat.not_lt.mp fun hlt => hold (.inl hlt)
  | wait microseconds =>
    exact ⟨h.written, h.file.imp_right fun hle => hle.trans (Nat.le_add_right _ _)⟩
  | bootCut | setCredential | deleteCredentials | rotate | kill => exact ⟨h.written, h.file⟩

/-- What replaces `.kdf_salt.previous` is the salt in use. -/
theorem previous_of_renews {out : Outcome} (hi : Inv s) (hr : s.RenewsPrevious (.rotation out))
    (hs : s.rotate out = some s') :
    ∃ salt, s.files .kdfSalt = some salt ∧ Lingers salt s.previousTmpMtime s' := by
  obtain ⟨kdfSalt, keys, o, t, hp, ht, rfl⟩ := exists_of_rotate hs
  obtain ⟨hphase, hdone⟩ := (renewsPrevious_iff out hp).mp hr
  rw [Inv, hp] at hi
  obtain ⟨-, -, hholds⟩ := hi
  obtain ⟨r, pending, phase⟩ := o
  obtain rfl : phase = _ := hphase
  obtain ⟨-, salt, hsalt, htmp⟩ := hholds
  have hfiles : t.files = s.files.replace .previousTmp .previous := by
    cases out with
    | ok =>
      obtain ⟨phase, -, rfl⟩ := Option.map_eq_some_iff.mp ht
      rfl
    | raises e | killed e =>
      cases e with
      | nothing | torn => exact hdone.elim
      | done =>
        obtain rfl := Option.some.inj ht
        rfl
  refine ⟨salt, hsalt, if_pos hdone, .inl ?_⟩
  rw [resume, hfiles]
  exact (replace_apply .previous htmp (by decide)).1

/-- After a day a tick removes it. -/
theorem previous_cleanUp (h : s.previousMtime + kdfSaltPreviousGrace ≤ s.clock) :
    (s.cleanUp true).files .previous = none := by
  cases hprevious : s.files .previous with
  | none =>
    have hsame : s.cleanUp true = s := by rw [cleanUp, hprevious]
    rw [hsame, hprevious]
  | some salt =>
    have hgone : s.cleanUp true = { s with files := s.files.unlink .previous } := by
      rw [cleanUp, hprevious]
      exact if_neg (not_or.mpr ⟨Nat.not_lt.mpr h, by decide⟩)
    rw [hgone]
    exact unlink_self s.files .previous

/-- The salt that is kept opens a backup that is put back. -/
theorem opens_putBack {backup : List CredentialRow} {passphrase : Text}
    (hprevious : s.files .previous = some salt) (hne : passphrase ≠ [])
    (hlen : salt.length = kdfSaltLength) (hrows : SealedBy passphrase salt backup)
    (other : FreshSalt) : (((s.putBack backup).boot other).unlock passphrase).Opens := by
  have hback : (s.putBack backup).files .kdfSalt = some salt :=
    (replace_apply .kdfSalt hprevious (by decide)).1
  have hopens : (((s.putBack backup).kill.boot other).unlock passphrase).Opens := by
    rw [opens_restarted_iff, hback]
    exact ⟨hne, hlen, hrows⟩
  exact hopens

end Previous

instance (row : CredentialRow) (kek : Key) : Decidable (row.SealedUnder kek) :=
  inferInstanceAs (Decidable ((row.decrypt kek).isSome = true))

instance (passphrase : Text) (salt : Bytes) (rows : List CredentialRow) :
    Decidable (SealedBy passphrase salt rows) := List.decidableBAll _ rows

instance (s : Installation) (e : Event) : Decidable (s.RenewsPrevious e) := by
  unfold RenewsPrevious
  split
  · split <;> infer_instance
  · infer_instance

instance (s : Installation) (e : Event) : Decidable (s.KeepsSalt e) := by
  unfold KeepsSalt
  split
  · split <;> infer_instance
  · split <;> infer_instance
  · infer_instance

theorem some_getD {α : Type} {o : Option α} {a : α} (h : o.isSome) : o = some (o.getD a) := by
  obtain ⟨b, rfl⟩ := Option.isSome_iff_exists.mp h
  rfl

/-- The first passphrase of an installation, and its salt. -/
def firstPassphrase : Text := ['a']

def drawn : FreshSalt := ⟨List.replicate kdfSaltLength 0, List.length_replicate⟩

/-- A rotation of it. -/
def firstRotation : Rotation where
  oldPassphrase := firstPassphrase
  newPassphrase := List.replicate 12 'b'
  keys := deriveKeys firstPassphrase drawn
  newSalt := List.replicate kdfSaltLength 1
  nonceOf _ := [2]
  saltOf _ := [3]

/-- From an empty directory to a rotation that is about to keep the old salt. -/
def upToRotation : List Event :=
  [.boot drawn, .unlock firstPassphrase, .setCredential [] .custom ⟨['k'], 1, [4], [5]⟩,
    .rotate firstRotation, .rotation .ok, .rotation .ok, .rotation .ok]

/-- The rest of the rotation, and most of a day. -/
def mostOfADay : List Event :=
  List.replicate 10 (.rotation .ok) ++ [.wait 86399999999, .cleanUp true, .kill]

def aboutToKeep : Installation := (machine.run fresh upToRotation).getD fresh

def hasKept : Installation := (aboutToKeep.step (.rotation .ok)).getD fresh

end SaltHistory

end RestreamPlus
