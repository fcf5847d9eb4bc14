import RestreamPlus.Repositories.Settings

/-!
# The webhooks of the ingest server (`app/api/internal_rtmp.py`)

`on_publish` compares the stream name with the current and the previous ingest
key, both as strings through `hmac.compare_digest`, which raises for a string
that is not ASCII. It does not look at the grace period. An empty form field is a
missing one for FastAPI, so an empty name does not come that far.

`on_publish_exact_iff` says when its answer is the one that the rotation of the
key promises: when the name is not empty, everything that is compared is ASCII, and
the name is not a previous key whose grace period is over.
-/

namespace RestreamPlus

namespace InternalRtmp

/-- `KeyMaterialState`. -/
inductive KeyMaterialState : Type where
  | locked
  | unlocking
  | ready
  deriving DecidableEq

/-- The peer of the connection as `ipaddress` sees it. -/
inductive Peer : Type where
  | missing
  | malformed
  | address (isLoopback : Bool)
  deriving DecidableEq

/-- The answers of `on_publish`. -/
inductive Response : Type where
  /-- 200, and the supervisor is notified -/
  | ok
  /-- 422: the form has no `name` -/
  | unprocessable
  /-- 403 without a detail -/
  | forbidden
  /-- 403 `ingest_key_invalid` -/
  | ingestKeyInvalid
  /-- 503 `service_locked` -/
  | serviceLocked
  /-- an exception that no handler catches -/
  | unhandled
  deriving DecidableEq

/-- `str.isascii`. -/
def isAscii (s : Text) : Bool := s.all fun ch => ch.toNat < 128

/-- `hmac.compare_digest` on strings; `none` is its `TypeError`. -/
def compareDigest (a b : Text) : Option Bool :=
  if isAscii a && isAscii b then some (a = b) else none

/-- `_keys_match`: both comparisons are made. -/
def keysMatch (submitted current : Text) (previous : Option Text) : Option Bool :=
  match compareDigest submitted current with
  | none => none
  | some currentOk =>
    match previous with
    | none => some currentOk
    | some previous => (compareDigest submitted previous).map fun prevOk => currentOk || prevOk

/-- `_assert_loopback`. -/
def assertLoopback : Peer → Bool
  | .address isLoopback => isLoopback
  | .missing | .malformed => false

/-- `on_publish`; the form is validated before its body runs. -/
def onPublish (peer : Peer) (state : KeyMaterialState) (row : SettingsRow) (name : Text) : Response :=
  if name = [] then .unprocessable
  else if assertLoopback peer = false then .forbidden
  else if state ≠ .ready then .serviceLocked
  else
    match keysMatch name row.ingestKeyCurrent row.ingestKeyPrevious with
    | none => .unhandled
    | some false => .ingestKeyInvalid
    | some true => .ok

/-- A peer on this host. -/
def Peer.loopback : Peer := .address true

/-! ## Exact acceptance -/

/-- The name is the current key, or the previous one within its grace period. -/
def Accepted (row : SettingsRow) (t : ℚ) (name : Text) : Prop :=
  name = row.ingestKeyCurrent ∨ row.ingestKeyPrevious = some name ∧ row.InGrace t

instance (row : SettingsRow) (t : ℚ) (name : Text) : Decidable (Accepted row t name) :=
  inferInstanceAs (Decidable (_ ∨ _ ∧ _))

/-- `on_publish` answers 200 to exactly the accepted names, and 403 to the others. -/
def Exact (row : SettingsRow) (t : ℚ) (name : Text) : Prop :=
  onPublish .loopback .ready row name = if Accepted row t name then .ok else .ingestKeyInvalid

instance (row : SettingsRow) (t : ℚ) (name : Text) : Decidable (Exact row t name) :=
  inferInstanceAs (Decidable (_ = _))

/-- Everything that is compared is ASCII. -/
def Comparable (row : SettingsRow) (name : Text) : Prop :=
  isAscii name = true ∧ isAscii row.ingestKeyCurrent = true ∧
    ∀ previous, row.ingestKeyPrevious = some previous → isAscii previous = true

/-- The name is a rotated-out key whose grace period is over. -/
def Expired (row : SettingsRow) (t : ℚ) (name : Text) : Prop :=
  row.ingestKeyPrevious = some name ∧ name ≠ row.ingestKeyCurrent ∧ ¬ row.InGrace t

/-- Before the first rotation no key is rotated out. -/
theorem not_expired_seed (ingestKey : Text) (t : ℚ) (name : Text) :
    ¬ Expired (SettingsRow.history ingestKey []) t name := by
  rintro ⟨h, -⟩
  cases h

/-- Afterwards it is the key that the last rotation replaced, from the end of the
grace period of that rotation on. -/
theorem expired_concat (ingestKey : Text) (rotations : List IngestKeyRotation)
    (r : IngestKeyRotation) (t : ℚ) (name : Text) :
    Expired (SettingsRow.history ingestKey (rotations ++ [r])) t name ↔
      name = (SettingsRow.history ingestKey rotations).ingestKeyCurrent ∧ name ≠ r.newKey ∧
        epochSeconds r.graceUntil ≤ t := by
  rw [SettingsRow.history_concat]
  simp [Expired, SettingsRow.InGrace, SettingsRow.rotateIngestKey, eq_comm]

theorem compareDigest_eq_some {a b : Text} {r : Bool} :
    compareDigest a b = some r ↔ isAscii a = true ∧ isAscii b = true ∧ r = decide (a = b) := by
  rw [compareDigest]
  split
  · rename_i h
    rw [Bool.and_eq_true] at h
    simp [h, eq_comm]
  · rename_i h
    rw [Bool.and_eq_true] at h
    exact ⟨nofun, fun ⟨ha, hb, _⟩ => absurd ⟨ha, hb⟩ h⟩

/-- The comparison does not raise. -/
theorem keysMatch_of_comparable {row : SettingsRow} {name : Text} (h : Comparable row name) :
    keysMatch name row.ingestKeyCurrent row.ingestKeyPrevious =
      some (decide (name = row.ingestKeyCurrent ∨ row.ingestKeyPrevious = some name)) := by
  obtain ⟨hname, hcur, hprev⟩ := h
  rw [keysMatch, compareDigest_eq_some.mpr ⟨hname, hcur, rfl⟩]
  dsimp only
  rcases hp : row.ingestKeyPrevious with _ | previous
  · simp
  · dsimp only
    rw [compareDigest_eq_some.mpr ⟨hname, hprev previous hp, rfl⟩]
    simp [Bool.decide_or, eq_comm]

/-- A string that is not ASCII makes it raise. -/
theorem keysMatch_of_not_comparable {row : SettingsRow} {name : Text} (h : ¬ Comparable row name) :
    keysMatch name row.ingestKeyCurrent row.ingestKeyPrevious = none := by
  rw [keysMatch]
  rcases hcur : compareDigest name row.ingestKeyCurrent with _ | currentOk
  · rfl
  obtain ⟨hname, hcurrent, -⟩ := compareDigest_eq_some.mp hcur
  rcases hp : row.ingestKeyPrevious with _ | previous
  · exact absurd ⟨hname, hcurrent, fun _ hsome => by rw [hp] at hsome; cases hsome⟩ h
  · rcases hprev : compareDigest name previous with _ | prevOk
    · dsimp only
      rw [hprev]
      rfl
    · obtain ⟨-, hprevious, -⟩ := compareDigest_eq_some.mp hprev
      refine absurd ⟨hname, hcurrent, fun other hsome => ?_⟩ h
      obtain rfl := Option.some.inj (hp.symm.trans hsome)
      exact hprevious

/-- **Acceptance is exact** after any rotations, at any time and for any name,
if and only if the name is not empty, everything compared is ASCII and the name is not
a rotated-out key past its grace period. -/
theorem on_publish_exact_iff (ingestKey : Text) (rotations : List IngestKeyRotation) (t : ℚ)
    (name : Text) :
    Exact (SettingsRow.history ingestKey rotations) t name ↔
      name ≠ [] ∧ Comparable (SettingsRow.history ingestKey rotations) name ∧
        ¬ Expired (SettingsRow.history ingestKey rotations) t name := by
  generalize SettingsRow.history ingestKey rotations = row
  by_cases hempty : name = []
  · -- 422 is neither of the two answers
    refine iff_of_false (fun h => ?_) fun h => h.1 hempty
    rw [Exact, onPublish, if_pos hempty] at h
    split at h <;> cases h
  have hgates : onPublish .loopback .ready row name =
      match keysMatch name row.ingestKeyCurrent row.ingestKeyPrevious with
      | none => .unhandled
      | some false => .ingestKeyInvalid
      | some true => .ok := if_neg hempty
  rw [Exact, hgates, and_iff_right hempty]
  by_cases hc : Comparable row name
  · rw [keysMatch_of_comparable hc]
    by_cases hcur : name = row.ingestKeyCurrent
    · -- the current key
      have hc' : Comparable row row.ingestKeyCurrent := hcur ▸ hc
      simp [hc', hcur, Accepted, Expired]
    · by_cases hprev : row.ingestKeyPrevious = some name
      · -- the previous key is accepted whatever the time is
        by_cases ht : row.InGrace t
        · simp [hc, hcur, hprev, ht, Accepted, Expired]
        · simp [hc, hcur, hprev, ht, Accepted, Expired]
      · simp [hc, hcur, hprev, Accepted, Expired]
  · -- the comparison raises, which is neither of the two answers
    rw [keysMatch_of_not_comparable hc]
    refine ⟨fun h => ?_, fun h => absurd h.1 hc⟩
    dsimp only at h
    split at h <;> cases h

/-- **A rotated-out key is accepted after its grace period**, and a name that is
not ASCII, or empty, is answered with neither 200 nor 403. -/
theorem expired_key_accepted :
    ¬ Exact (SettingsRow.history ['a'] [⟨['b'], 1060, 1000⟩]) 2000 ['a'] ∧
      ¬ Exact (SettingsRow.history ['a'] []) 0 ['é'] ∧
      ¬ Exact (SettingsRow.history ['a'] []) 0 [] := by
  decide +kernel

end InternalRtmp

end RestreamPlus
