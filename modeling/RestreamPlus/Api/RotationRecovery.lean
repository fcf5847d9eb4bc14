import RestreamPlus.Api.Rotation

/-!
# What a rotation leaves on disk

Whatever fails, and wherever the process dies, some salt on disk and one of the
two passphrases should still open every credential. Up to the commit the salt is
the one in `.kdf_salt`, from then on the staged `.kdf_salt.new`. The `except`
branch removes the staged file whatever was raised: after the transaction took
effect and before the rename did, that is the only copy of the new salt
(`failed_rename_loses_salt`).

`recoverable_iff` says that this is the only way to lose the credentials.
-/

namespace RestreamPlus

open Interleaving

namespace RotationState

/-- Every row decrypts under the key of a passphrase and a salt. -/
def SealedBy (passphrase : Text) (salt : Bytes) (rows : List CredentialRow) : Prop :=
  ∀ row ∈ rows, row.SealedUnder (deriveKeys passphrase salt).streamKeyKek

/-- Some salt in the files and one of the passphrases open every row. -/
def RecoverableFrom (r : Rotation) (files : SaltFiles) (rows : List CredentialRow) : Prop :=
  ∃ f salt, files f = some salt ∧
    ∃ passphrase ∈ [r.oldPassphrase, r.newPassphrase], SealedBy passphrase salt rows

/-- **The credentials can be recovered** from what is on disk. -/
def Recoverable (r : Rotation) (s : RotationState) : Prop := RecoverableFrom r s.files s.rows

/-- The operation is carried out. -/
def Outcome.CarriedOut : Outcome → Prop
  | .ok | .raises .done | .killed .done => True
  | _ => False

/-- The staged salt is not removed between the commit and the rename, unless
there is no credential or the salt did not change. -/
def KeepsStaged (r : Rotation) (s : RotationState) (o : Outcome) : Prop :=
  s.phase = .cleaning .committed → Outcome.CarriedOut o →
    s.rows = [] ∨ s.files .kdfSalt = some r.newSalt

instance (o : Outcome) : Decidable (Outcome.CarriedOut o) := by
  unfold Outcome.CarriedOut
  split <;> infer_instance

instance (r : Rotation) (s : RotationState) (o : Outcome) : Decidable (KeepsStaged r s o) :=
  inferInstanceAs (Decidable (_ → _ → _ ∨ _))

/-! ## The rows -/

/-- Rows that are not yet under the new key are still to be handled. -/
def RewrapDue (r : Rotation) (pending todo : List CredentialRow) : Prop :=
  ∀ row ∈ pending, row.SealedUnder r.newKeys.streamKeyKek ∨ ∃ t ∈ todo, t.id = row.id

theorem rewrapDue_refl (r : Rotation) (rows : List CredentialRow) : RewrapDue r rows rows :=
  fun row hrow => .inr ⟨row, hrow, rfl⟩

theorem rewrapDue_rewrap {r : Rotation} {row new : CredentialRow}
    {pending rest : List CredentialRow} (h : RewrapDue r pending (row :: rest))
    (hnew : r.rewrapped row = some new) : RewrapDue r (rewrap new pending) rest := by
  obtain ⟨hid, hsealed⟩ := Rotation.sealedUnder_rewrapped hnew
  intro row' hrow'
  obtain ⟨old, hold, rfl⟩ := List.mem_map.mp hrow'
  split
  · exact .inl (CredentialRow.sealedUnder_iff.mpr (CredentialRow.sealedUnder_iff.mp hsealed))
  · rename_i hne
    rcases h old hold with hdone | ⟨t, ht, htid⟩
    · exact .inl hdone
    · rcases List.mem_cons.mp ht with rfl | ht
      · exact absurd (htid.symm.trans hid.symm) hne
      · exact .inr ⟨t, ht, htid⟩

/-- When nothing is left to do, all rows are under the new key. -/
theorem RewrapDue.sealedBy {r : Rotation} {pending : List CredentialRow}
    (h : RewrapDue r pending []) : SealedBy r.newPassphrase r.newSalt pending := by
  intro row hrow
  rcases h row hrow with hs | ⟨t, ht, -⟩
  · exact hs
  · cases ht

/-! ## The invariant -/

section Invariant

variable (r : Rotation) (oldSalt : Bytes)

/-- Nothing has changed yet. -/
structure Untouched (files : SaltFiles) (rows : List CredentialRow) : Prop where
  salt : files .kdfSalt = some oldSalt
  rows : SealedBy r.oldPassphrase oldSalt rows

/-- Both salts are in place. -/
structure Staged (files : SaltFiles) : Prop where
  salt : files .kdfSalt = some oldSalt
  previous : files .previous = some oldSalt
  previousTmp : files .previousTmp = none
  new : files .new = some r.newSalt
  newTmp : files .newTmp = none

/-- What holds of the files, the rows and the open transaction at each operation. -/
def InvAt (files : SaltFiles) (rows pending : List CredentialRow) : Phase → Prop
  | .verifying | .readingSalt => Untouched r oldSalt files rows
  | .writingPrevious blob => Untouched r oldSalt files rows ∧ blob = oldSalt
  | .replacingPrevious => Untouched r oldSalt files rows ∧ files .previousTmp = some oldSalt
  | .writingNew =>
    Untouched r oldSalt files rows ∧ files .previous = some oldSalt ∧ files .previousTmp = none
  | .replacingNew =>
    Untouched r oldSalt files rows ∧ files .previous = some oldSalt ∧ files .previousTmp = none ∧
      files .newTmp = some r.newSalt
  | .closing | .listing => Untouched r oldSalt files rows ∧ Staged r oldSalt files
  | .rewrapping row rest =>
    Untouched r oldSalt files rows ∧ Staged r oldSalt files ∧ RewrapDue r pending (row :: rest)
  | .deletingSessions | .deletingTokens | .committing =>
    Untouched r oldSalt files rows ∧ Staged r oldSalt files ∧ RewrapDue r pending []
  | .replacingSalt | .cleaning .committed =>
    Staged r oldSalt files ∧ SealedBy r.newPassphrase r.newSalt rows
  | .swapping | .auditing | .cleaning .replaced =>
    files .kdfSalt = some r.newSalt ∧ SealedBy r.newPassphrase r.newSalt rows
  | .cleaning .transaction => Untouched r oldSalt files rows
  | .returned | .raised | .killed => RecoverableFrom r files rows

/-- The invariant of the handler. -/
def Inv (s : RotationState) : Prop := InvAt r oldSalt s.files s.rows s.pending s.phase

end Invariant

section Step

variable {r : Rotation} {oldSalt : Bytes} {s : RotationState} {files : SaltFiles}
  {rows pending : List CredentialRow}

theorem Untouched.recoverable (h : Untouched r oldSalt files rows) : RecoverableFrom r files rows :=
  ⟨.kdfSalt, oldSalt, h.salt, r.oldPassphrase, by simp, h.rows⟩

/-- After the commit the staged salt is what counts. -/
theorem Staged.recoverable (h : Staged r oldSalt files)
    (hrows : SealedBy r.newPassphrase r.newSalt rows) : RecoverableFrom r files rows :=
  ⟨.new, r.newSalt, h.new, r.newPassphrase, by simp, hrows⟩

theorem recoverable_of_salt (h : files .kdfSalt = some r.newSalt)
    (hrows : SealedBy r.newPassphrase r.newSalt rows) : RecoverableFrom r files rows :=
  ⟨.kdfSalt, r.newSalt, h, r.newPassphrase, by simp, hrows⟩

theorem recoverable_of_invAt {phase : Phase} (h : InvAt r oldSalt files rows pending phase) :
    RecoverableFrom r files rows := by
  cases phase with
  | verifying | readingSalt => exact Untouched.recoverable h
  | writingPrevious | replacingPrevious | writingNew | replacingNew | closing | listing
  | rewrapping | deletingSessions | deletingTokens | committing => exact h.1.recoverable
  | replacingSalt => exact h.1.recoverable h.2
  | swapping | auditing => exact recoverable_of_salt h.1 h.2
  | cleaning raisedIn =>
    cases raisedIn with
    | transaction => exact Untouched.recoverable h
    | committed => exact h.1.recoverable h.2
    | replaced => exact recoverable_of_salt h.1 h.2
  | returned | raised | killed => exact h

/-! ### What the file operations do -/

@[simp] theorem write_self (files : SaltFiles) (f : SaltFile) (payload : Bytes) :
    files.write f payload f = some payload := Function.update_self _ _ _

theorem write_of_ne (files : SaltFiles) {f g : SaltFile} (payload : Bytes) (h : g ≠ f) :
    files.write f payload g = files g := Function.update_of_ne h _ _

@[simp] theorem unlink_self (files : SaltFiles) (f : SaltFile) : files.unlink f f = none :=
  Function.update_self _ _ _

theorem unlink_of_ne (files : SaltFiles) {f g : SaltFile} (h : g ≠ f) :
    files.unlink f g = files g := Function.update_of_ne h _ _

theorem replace_of_some {src : SaltFile} (dst : SaltFile) {payload : Bytes}
    (h : files src = some payload) :
    files.replace src dst = (files.write dst payload).unlink src := by
  rw [SaltFiles.replace, h]

/-- A rename moves the contents. -/
theorem replace_apply {src : SaltFile} (dst : SaltFile) {payload : Bytes} (h : files src = some payload)
    (hne : dst ≠ src) : files.replace src dst dst = some payload ∧
      files.replace src dst src = none ∧
        ∀ f, f ≠ src → f ≠ dst → files.replace src dst f = files f := by
  rw [replace_of_some dst h]
  refine ⟨?_, unlink_self _ _, fun f hsrc hdst => ?_⟩
  · rw [unlink_of_ne _ hne, write_self]
  · rw [unlink_of_ne _ hsrc, write_of_ne _ _ hdst]

/-- Whatever becomes of the other files. -/
theorem Untouched.of_files (h : Untouched r oldSalt files rows) {files' : SaltFiles}
    (hf : files' .kdfSalt = files .kdfSalt) : Untouched r oldSalt files' rows :=
  ⟨hf.trans h.salt, h.rows⟩

/-- A write to another file. -/
theorem Untouched.of_write (h : Untouched r oldSalt files rows) {f : SaltFile}
    (hf : .kdfSalt ≠ f) (payload : Bytes) : Untouched r oldSalt (files.write f payload) rows :=
  h.of_files (write_of_ne _ _ hf)

/-- A rename among the other files. -/
theorem Untouched.of_replace (h : Untouched r oldSalt files rows) {src dst : SaltFile}
    (hsrc : .kdfSalt ≠ src) (hdst : .kdfSalt ≠ dst) :
    Untouched r oldSalt (files.replace src dst) rows := by
  refine h.of_files ?_
  cases hpayload : files src with
  | none => rw [SaltFiles.replace, hpayload]
  | some payload => rw [replace_of_some dst hpayload, unlink_of_ne _ hsrc, write_of_ne _ _ hdst]

theorem invAt_rewrapLoop {todo : List CredentialRow} (h : Untouched r oldSalt files rows)
    (hs : Staged r oldSalt files) (hdue : RewrapDue r pending todo) :
    InvAt r oldSalt files rows pending (rewrapLoop todo) := by
  cases todo with
  | nil => exact ⟨h, hs, hdue⟩
  | cons row rest => exact ⟨h, hs, hdue⟩

/-- The staged file is removed in the `except` branch. -/
theorem recoverable_unlink {raisedIn : RaisedIn}
    (h : InvAt r oldSalt files rows pending (.cleaning raisedIn))
    (hk : raisedIn = .committed → rows = [] ∨ files .kdfSalt = some r.newSalt) :
    RecoverableFrom r (files.unlink .new) rows := by
  have hsalt : (files.unlink .new) .kdfSalt = files .kdfSalt := unlink_of_ne _ (by decide)
  cases raisedIn with
  | transaction => exact (Untouched.of_files h hsalt).recoverable
  | committed =>
    obtain ⟨hs, hrows⟩ := h
    rcases hk rfl with hnil | hsame
    · refine ⟨.kdfSalt, oldSalt, hsalt.trans hs.salt, r.newPassphrase, by simp, ?_⟩
      rw [hnil]
      exact fun row hrow => absurd hrow List.not_mem_nil
    · exact recoverable_of_salt (hsalt.trans hsame) hrows
  | replaced => exact recoverable_of_salt (hsalt.trans h.1) h.2

/-! ### One operation -/

/-- **An operation is carried out**, and the handler goes on. -/
theorem invAt_following {phase : Phase} (h : Inv r oldSalt s) (hnext : s.following r = some phase)
    (hk : KeepsStaged r s .ok) :
    InvAt r oldSalt (s.effect r).files (s.effect r).rows (s.effect r).pending phase := by
  obtain ⟨files, rows, pending, kdfSalt, keys, phase'⟩ := s
  rw [Inv] at h
  cases phase' with
  | verifying =>
    simp only [following] at hnext
    split at hnext
    · obtain rfl := Option.some.inj hnext
      exact h
    · cases hnext
  | readingSalt =>
    have hsalt := h.salt
    simp only [following] at hnext hsalt
    rw [hsalt] at hnext
    dsimp only at hnext
    split at hnext
    · obtain rfl := Option.some.inj hnext
      exact ⟨h, rfl⟩
    · cases hnext
  | writingPrevious blob =>
    obtain rfl := Option.some.inj hnext
    obtain ⟨hun, rfl⟩ := h
    exact ⟨hun.of_write (by decide) blob, write_self files .previousTmp blob⟩
  | replacingPrevious =>
    obtain ⟨hun, htmp⟩ := h
    obtain ⟨-, -, rfl⟩ := Option.map_eq_some_iff.mp hnext
    obtain ⟨hdst, hsrc, -⟩ := replace_apply .previous htmp (by decide)
    exact ⟨hun.of_replace (by decide) (by decide), hdst, hsrc⟩
  | writingNew =>
    obtain rfl := Option.some.inj hnext
    obtain ⟨hun, hprev, htmp⟩ := h
    have hrest : ∀ f, f ≠ .newTmp → files.write .newTmp r.newSalt f = files f :=
      fun f hf => write_of_ne files r.newSalt hf
    exact ⟨hun.of_write (by decide) r.newSalt, (hrest _ (by decide)).trans hprev,
      (hrest _ (by decide)).trans htmp, write_self files .newTmp r.newSalt⟩
  | replacingNew =>
    obtain ⟨hun, hprev, htmp, hnew⟩ := h
    obtain ⟨-, -, rfl⟩ := Option.map_eq_some_iff.mp hnext
    obtain ⟨hdst, hsrc, hrest⟩ := replace_apply .new hnew (by decide)
    refine ⟨hun.of_replace (by decide) (by decide), ?_, ?_, ?_, hdst, hsrc⟩
    · exact (hrest _ (by decide) (by decide)).trans hun.salt
    · exact (hrest _ (by decide) (by decide)).trans hprev
    · exact (hrest _ (by decide) (by decide)).trans htmp
  | closing =>
    obtain rfl := Option.some.inj hnext
    exact h
  | listing =>
    obtain rfl := Option.some.inj hnext
    exact invAt_rewrapLoop h.1 h.2 (rewrapDue_refl r rows)
  | rewrapping row rest =>
    obtain ⟨new, hnew, rfl⟩ := Option.map_eq_some_iff.mp hnext
    obtain ⟨hun, hs, hdue⟩ := h
    simp only [effect, hnew]
    exact invAt_rewrapLoop hun hs (rewrapDue_rewrap hdue hnew)
  | deletingSessions =>
    obtain rfl := Option.some.inj hnext
    exact h
  | deletingTokens =>
    obtain rfl := Option.some.inj hnext
    exact h
  | committing =>
    obtain rfl := Option.some.inj hnext
    exact ⟨h.2.1, h.2.2.sealedBy⟩
  | replacingSalt =>
    obtain ⟨-, -, rfl⟩ := Option.map_eq_some_iff.mp hnext
    exact ⟨(replace_apply _ h.1.new (by decide)).1, h.2⟩
  | swapping =>
    obtain rfl := Option.some.inj hnext
    exact h
  | cleaning raisedIn =>
    obtain rfl := Option.some.inj hnext
    exact recoverable_unlink h fun hin => hk (by rw [hin]) trivial
  | auditing =>
    obtain rfl := Option.some.inj hnext
    exact recoverable_of_invAt h
  | returned | raised | killed => cases hnext

/-- **An operation raises**, and the handler cleans up or gives up. -/
theorem invAt_handler {phase : Phase} {e : Extent} (h : Inv r oldSalt s)
    (hnext : handler e s.phase = some phase) (hk : KeepsStaged r s (.raises e)) :
    InvAt r oldSalt (s.reach r e).files (s.reach r e).rows (s.reach r e).pending phase := by
  obtain ⟨files, rows, pending, kdfSalt, keys, phase'⟩ := s
  rw [Inv] at h
  cases phase' with
  | verifying | readingSalt =>
    obtain rfl := Option.some.inj hnext
    cases e <;> exact Untouched.recoverable h
  | writingPrevious blob =>
    obtain rfl := Option.some.inj hnext
    cases e with
    | nothing => exact h.1.recoverable
    | torn | done => exact (h.1.of_write (by decide) _).recoverable
  | replacingPrevious =>
    obtain rfl := Option.some.inj hnext
    cases e with
    | nothing | torn => exact h.1.recoverable
    | done => exact (h.1.of_replace (by decide) (by decide)).recoverable
  | writingNew =>
    obtain rfl := Option.some.inj hnext
    cases e with
    | nothing => exact h.1.recoverable
    | torn | done => exact (h.1.of_write (by decide) _).recoverable
  | replacingNew =>
    obtain rfl := Option.some.inj hnext
    cases e with
    | nothing | torn => exact h.1.recoverable
    | done => exact (h.1.of_replace (by decide) (by decide)).recoverable
  | closing | listing | deletingSessions | deletingTokens =>
    obtain rfl := Option.some.inj hnext
    cases e <;> exact h.1
  | rewrapping row rest =>
    obtain rfl := Option.some.inj hnext
    cases e with
    | nothing | torn => exact h.1
    | done =>
      -- only the open transaction, which is rolled back, has changed
      simp only [reach, effect]
      split <;> exact h.1
  | committing =>
    obtain rfl := Option.some.inj hnext
    cases e with
    | nothing | torn => exact h.1
    | done => exact ⟨h.2.1, h.2.2.sealedBy⟩
  | replacingSalt =>
    obtain rfl := Option.some.inj hnext
    cases e with
    | nothing | torn => exact h
    | done => exact ⟨(replace_apply _ h.1.new (by decide)).1, h.2⟩
  | swapping =>
    obtain rfl := Option.some.inj hnext
    cases e <;> exact h
  | cleaning raisedIn =>
    obtain rfl := Option.some.inj hnext
    cases e with
    | nothing | torn => exact recoverable_of_invAt h
    | done => exact recoverable_unlink h fun hin => hk (by rw [hin]) trivial
  | auditing =>
    obtain rfl := Option.some.inj hnext
    cases e <;> exact recoverable_of_invAt h
  | returned | raised | killed => cases hnext

/-- **One step** that keeps the staged salt keeps the invariant. -/
theorem inv_step {s' : RotationState} {o : Outcome} (h : Inv r oldSalt s)
    (hk : KeepsStaged r s o) (hs : (machine r).step s o = some s') : Inv r oldSalt s' := by
  change s.step r o = some s' at hs
  cases o with
  | ok =>
    obtain ⟨phase, hnext, rfl⟩ := Option.map_eq_some_iff.mp hs
    exact invAt_following h hnext hk
  | raises e =>
    obtain ⟨phase, hnext, rfl⟩ := Option.map_eq_some_iff.mp hs
    exact invAt_handler h hnext hk
  | killed e =>
    obtain ⟨phase, hnext, rfl⟩ := Option.map_eq_some_iff.mp hs
    -- the disk is that of the exception at the same place
    refine recoverable_of_invAt (invAt_handler h hnext fun hp hdone => hk hp ?_)
    cases e <;> exact hdone

/-! ### The only way to lose the salt -/

/-- The staged file is the last copy of a salt that differs from the old one. -/
theorem not_recoverable_unlink (hs : Staged r oldSalt files)
    (hrows : SealedBy r.newPassphrase r.newSalt rows) (hne : rows ≠ [])
    (hsalt : files .kdfSalt ≠ some r.newSalt) : ¬ RecoverableFrom r (files.unlink .new) rows := by
  rintro ⟨f, salt, hf, passphrase, -, hopen⟩
  -- only the old salt is left in any file
  have hold : salt = oldSalt := by
    cases f with
    | kdfSalt => exact Option.some.inj (hf.symm.trans ((unlink_of_ne _ (by decide)).trans hs.salt))
    | previous =>
      exact Option.some.inj (hf.symm.trans ((unlink_of_ne _ (by decide)).trans hs.previous))
    | previousTmp => cases hf.symm.trans ((unlink_of_ne _ (by decide)).trans hs.previousTmp)
    | new => cases hf.symm.trans (unlink_self files .new)
    | newTmp => cases hf.symm.trans ((unlink_of_ne _ (by decide)).trans hs.newTmp)
  obtain ⟨row, hrow⟩ := List.exists_mem_of_ne_nil rows hne
  have hkey := (hopen row hrow).unique (hrows row hrow)
  apply hsalt
  rw [hs.salt, ← hold, (streamKeyKek_inj hkey).2]

/-- **A step that does not keep the staged salt** loses the credentials. -/
theorem not_recoverable_step {s' : RotationState} {o : Outcome} (h : Inv r oldSalt s)
    (hk : ¬ KeepsStaged r s o) (hs : (machine r).step s o = some s') : ¬ Recoverable r s' := by
  change s.step r o = some s' at hs
  rw [KeepsStaged] at hk
  push Not at hk
  obtain ⟨hp, hdone, hne, hsalt⟩ := hk
  rw [Inv, hp] at h
  have hlost := not_recoverable_unlink h.1 h.2 hne hsalt
  have heffect : s.effect r = { s with files := s.files.unlink .new } := by rw [effect, hp]
  cases o with
  | ok =>
    obtain ⟨phase, -, rfl⟩ := Option.map_eq_some_iff.mp hs
    rw [heffect]
    exact hlost
  | raises e | killed e =>
    obtain ⟨phase, -, rfl⟩ := Option.map_eq_some_iff.mp hs
    cases e with
    | nothing | torn => exact hdone.elim
    | done =>
      rw [reach, heffect]
      exact hlost

end Step

/-- The handler before it verifies the old passphrase. -/
structure Begins (r : Rotation) (oldSalt : Bytes) (s : RotationState) : Prop where
  phase : s.phase = .verifying
  salt : s.files .kdfSalt = some oldSalt
  rows : SealedBy r.oldPassphrase oldSalt s.rows

/-- **Recovery after a rotation**: along a run, whatever raises and wherever the
process is killed, the credentials can be recovered throughout if and only if the
staged salt is not removed between the commit and the rename. -/
theorem recoverable_iff (r : Rotation) (oldSalt : Bytes) (s : RotationState)
    (h : Begins r oldSalt s) (outcomes : List Outcome) :
    (machine r).Always (Recoverable r) s outcomes ↔
      (machine r).Meets (KeepsStaged r) s outcomes := by
  refine Machine.always_iff_meets (I := Inv r oldSalt) (fun _ _ _ hi hk hs => inv_step hi hk hs)
    (fun _ hi => recoverable_of_invAt hi) (fun _ _ _ hi hk hs => not_recoverable_step hi hk hs)
    (fun s o hs hp hdone => ?_) ?_
  · -- the removal itself is always possible
    exfalso
    change s.step r o = none at hs
    cases o with
    | ok => simp [step, following, hp] at hs
    | raises e | killed e => simp [step, handler, hp] at hs
  · rw [Inv, h.phase]
    exact ⟨h.salt, h.rows⟩

section Runs

/-- The salt before the rotation. -/
def firstSalt : Bytes := List.replicate 16 0

/-- From the passphrase `a` to the passphrase `b`. -/
def rotation : Rotation where
  oldPassphrase := ['a']
  newPassphrase := ['b']
  keys := deriveKeys ['a'] firstSalt
  newSalt := List.replicate 16 1
  nonceOf _ := [2]
  saltOf _ := [3]

/-- One credential, and `.kdf_salt` alone on disk. -/
def before : RotationState where
  files f := if f = .kdfSalt then some firstSalt else none
  rows := [{
    id := 1
    lifetime := .persistent
    ciphertext := encryptCredential rotation.keys.streamKeyKek [4] [5] ['k']
    nonce := [4]
    salt := [5]
    last4 := ['k'] }]
  pending := []
  kdfSalt := firstSalt
  keys := rotation.keys
  phase := .verifying

theorem begins_before : Begins rotation firstSalt before where
  phase := rfl
  salt := rfl
  rows row hrow := by
    obtain rfl := List.mem_singleton.mp hrow
    exact CredentialRow.sealedUnder_iff.mpr ⟨rfl, rfl, rfl⟩

/-- A rotation that nothing disturbs. -/
theorem recoverable_undisturbed :
    (machine rotation).Always (Recoverable rotation) before (List.replicate 15 .ok) :=
  (recoverable_iff rotation firstSalt before begins_before _).mpr (by decide)

/-- The rename fails, and the `except` branch removes the last copy of the salt
the credentials are under. -/
theorem failed_rename_loses_salt :
    Begins rotation firstSalt before ∧
      ∃ s, (machine rotation).run before
        (List.replicate 12 .ok ++ [.raises .nothing, .ok]) = some s ∧ ¬ Recoverable rotation s := by
  refine ⟨begins_before, _, rfl, ?_⟩
  rintro ⟨f, salt, hf, passphrase, hpass, hopen⟩
  -- the row is under the new salt, and no file holds it
  have hkey := (CredentialRow.sealedUnder_iff.mp (hopen _ (List.mem_singleton.mpr rfl))).1
  obtain ⟨-, hsalt⟩ := streamKeyKek_inj (p := ['b']) (s := List.replicate 16 1) hkey
  subst hsalt
  cases f with
  | kdfSalt | previous => exact absurd (Option.some.inj hf) (by decide)
  | previousTmp | new | newTmp => cases hf

end Runs

end RotationState

end RestreamPlus
