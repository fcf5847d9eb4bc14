import Mathlib.Data.Rat.Defs
import RestreamPlus.Lib.Dict

/-!
# Targets

A row of the table `targets`, the domain aggregate `Target` built from it, and the static facts about target
types the fan-out consults (`app/domain/target_types.py`,
`app/domain/target.py`, `app/repositories/_converters.py`).

Text is a list of characters, an identifier (a random hex string in the source)
is a number: nothing here looks inside one.
-/

namespace RestreamPlus

/-- A Python `str`. -/
abbrev Text : Type := List Char

/-- A Python `bytes`. -/
abbrev Bytes : Type := List UInt8

abbrev TargetId : Type := ℕ

abbrev RunId : Type := ℕ

/-! ## Target types -/

/-- The platforms (`TargetType`). -/
inductive TargetType : Type where
  | twitch
  | youtube
  | kick
  | vkLive
  | custom
  deriving DecidableEq

/-- How long a stream key lives (`CredentialLifetime`). -/
inductive CredentialLifetime : Type where
  | persistent
  | perSession
  | refreshToken
  deriving DecidableEq

/-- The credential lifetime of a target type, from `TARGET_TYPE_SPECS`. -/
def lifetimeFor : TargetType → CredentialLifetime
  | .twitch | .youtube | .kick | .custom => .persistent
  | .vkLive => .perSession

/-- The two pushes a target may have. -/
inductive WorkerRole : Type where
  | primary
  | backup
  deriving DecidableEq

/-- A worker is named by its target and its role. -/
structure WorkerId : Type where
  targetId : TargetId
  role : WorkerRole
  deriving DecidableEq

/-! ## Rows -/

/-- A JSON value, as far as Python's `bool()` looks into it. -/
inductive Json : Type where
  | null
  | bool : Bool → Json
  | number : ℚ → Json
  | string : Text → Json
  /-- an array, by its length -/
  | array : ℕ → Json
  /-- an object, by its number of members -/
  | object : ℕ → Json
  deriving DecidableEq

/-- Python's truth value of a decoded JSON value. -/
def Json.truthy : Json → Bool
  | .null => false
  | .bool b => b
  | .number q => decide (q ≠ 0)
  | .string s => !s.isEmpty
  | .array n => decide (n ≠ 0)
  | .object n => decide (n ≠ 0)

/-- The decoded `settings_json` of a target. -/
abbrev Settings : Type := Dict Text Json

/-- A row of `targets` but for its primary key. A `TargetDTO` is an identifier
with its row. -/
structure TargetRow : Type where
  type : TargetType
  label : Text
  url : Text
  enabled : Bool
  settings : Settings
  deriving DecidableEq

/-- The aggregate the fan-out works on (`Target`). -/
structure Target : Type where
  id : TargetId
  type : TargetType
  label : Text
  url : Text
  enabled : Bool
  backupEnabled : Bool
  hasActiveCredential : Bool
  deriving DecidableEq

/-- `bool(settings.get("backup_enabled", False))`. -/
def Settings.backupEnabled (s : Settings) : Bool :=
  ((Dict.get? s "backup_enabled".toList).getD (.bool false)).truthy

/-- `target_dto_to_domain`: the aggregate stores only whether a credential row
exists. -/
def targetDtoToDomain {γ : Type} (id : TargetId) (t : TargetRow) (credential : Option γ) :
    Target where
  id := id
  type := t.type
  label := t.label
  url := t.url
  enabled := t.enabled
  backupEnabled := t.settings.backupEnabled
  hasActiveCredential := credential.isSome

/-- The roles a target runs (`Supervisor._roles_for`). -/
def rolesFor (t : Target) : List WorkerRole :=
  if t.type = .youtube ∧ t.backupEnabled = true then [.primary, .backup] else [.primary]

/-- Why a run ended (`VALID_END_REASONS`). -/
inductive EndReason : Type where
  | normal
  | userStop
  | controlPlaneCrash
  | error
  deriving DecidableEq

end RestreamPlus
