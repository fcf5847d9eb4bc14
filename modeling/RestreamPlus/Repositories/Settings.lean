import Mathlib.Data.Rat.Floor
import RestreamPlus.Domain.Target

/-!
# The settings row (`app/repositories/settings_repo.py`)

The columns of the ingest key. Instants are seconds since the epoch; a column
holds whole seconds.
-/

namespace RestreamPlus

/-- `UTCEpochSeconds`: the fraction is cut off. -/
def epochSeconds (t : ℚ) : ℤ := if 0 ≤ t then ⌊t⌋ else ⌈t⌉

/-- The singleton row of `settings`. -/
structure SettingsRow : Type where
  ingestKeyCurrent : Text
  ingestKeyPrevious : Option Text
  ingestKeyRotatedAt : Option ℤ
  ingestKeyGraceUntil : Option ℤ
  deriving DecidableEq

/-- The arguments of `rotate_ingest_key`. -/
structure IngestKeyRotation : Type where
  newKey : Text
  graceUntil : ℚ
  now : ℚ

namespace SettingsRow

/-- The row of a fresh database. -/
def seed (ingestKey : Text) : SettingsRow := ⟨ingestKey, none, none, none⟩

/-- `rotate_ingest_key`, one UPDATE. -/
def rotateIngestKey (row : SettingsRow) (r : IngestKeyRotation) : SettingsRow where
  ingestKeyCurrent := r.newKey
  ingestKeyPrevious := some row.ingestKeyCurrent
  ingestKeyRotatedAt := some (epochSeconds r.now)
  ingestKeyGraceUntil := some (epochSeconds r.graceUntil)

/-- The row after these rotations. -/
def history (ingestKey : Text) (rotations : List IngestKeyRotation) : SettingsRow :=
  rotations.foldl rotateIngestKey (seed ingestKey)

/-- The grace period of the previous key is not over. -/
def InGrace (row : SettingsRow) (t : ℚ) : Prop := ∃ until' ∈ row.ingestKeyGraceUntil, t < until'

instance (row : SettingsRow) (t : ℚ) : Decidable (row.InGrace t) := by
  unfold InGrace
  cases row.ingestKeyGraceUntil with
  | none => exact .isFalse fun ⟨_, h, _⟩ => by cases h
  | some u => exact decidable_of_iff (t < u) ⟨fun h => ⟨u, rfl, h⟩, fun ⟨_, h, h'⟩ => by
      obtain rfl := Option.some.inj h
      exact h'⟩

theorem history_concat (ingestKey : Text) (rotations : List IngestKeyRotation)
    (r : IngestKeyRotation) :
    history ingestKey (rotations ++ [r]) = (history ingestKey rotations).rotateIngestKey r := by
  rw [history, List.foldl_concat]
  rfl

end SettingsRow

end RestreamPlus
