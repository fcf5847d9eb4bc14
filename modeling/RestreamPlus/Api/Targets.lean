import RestreamPlus.Fanout.Sequential

/-!
# The targets router, one request at a time (`app/api/targets.py`)

A handler is the list of things it does in order: transactions it commits and
operations of the supervisor it awaits. Which ones is decided from what it reads
at its beginning. Here a request runs from its beginning to its end before the
next one starts, and no spawn, stop or decrypt fails; `requests` is the machine
of such sequences. The reprompt grants are taken as given, and the audit rows
are left out.
-/

namespace RestreamPlus

open Interleaving WorkerIndex

namespace Api

/-- One thing a handler does. -/
inductive Action : Type where
  /-- commit what was written -/
  | commit : (Database → Database) → Action
  /-- await an operation of the supervisor -/
  | await : Supervisor.Op → Action
  /-- a notification of the ingest server -/
  | notify : Supervisor.Env → Action

/-- The body of `set_credential`, and what the handler draws at random. -/
structure CredentialSetRequest : Type where
  streamKey : Text
  credentialId : ℕ
  nonce : Bytes
  salt : Bytes

/-- The requests of the router, and what else moves a run. -/
inductive Request : Type where
  /-- the identifier is drawn at random -/
  | createTarget : TargetId → TargetRow → Request
  | updateTarget : TargetId → Database.TargetPatch → Request
  | deleteTarget : TargetId → Request
  | setCredential : TargetId → CredentialSetRequest → Request
  | clearCredential : TargetId → Request
  | startRun : Request
  | stopRun : Request
  | publishBegan : Request
  | publishEnded : Request

/-- `create_target`. -/
def createTarget (id : TargetId) (body : TargetRow) : List Action :=
  .commit (·.createTarget id body) :: if body.enabled then [.await (.enableTarget id)] else []

/-- `update_target` on an existing row. -/
def updateTarget (id : TargetId) (body : Database.TargetPatch) (existing : TargetRow)
    (reversed : Bool) : List Action :=
  .commit (·.updateTarget id body) ::
    match body.enabled with
    | some enabled =>
      if enabled && !existing.enabled then [.await (.enableTarget id)]
      else if !enabled && existing.enabled then [.await (.disableTarget id reversed)]
      else []
    | none =>
      -- other fields changed: cycle the target
      if existing.enabled then [.await (.disableTarget id reversed), .await (.enableTarget id)]
      else []

/-- `delete_target`: the workers go first. -/
def deleteTarget (id : TargetId) (reversed : Bool) : List Action :=
  [.await (.disableTarget id reversed), .commit (·.deleteTarget id)]

/-- `plaintext[-4:]`. -/
def last4 (plaintext : Text) : Text :=
  if 4 ≤ plaintext.length then plaintext.drop (plaintext.length - 4) else plaintext

/-- The row `set_credential` writes. -/
def credentialRow (kek : Key) (type : TargetType) (body : CredentialSetRequest) : CredentialRow where
  id := body.credentialId
  lifetime := lifetimeFor type
  ciphertext := encryptCredential kek body.nonce body.salt body.streamKey
  nonce := body.nonce
  salt := body.salt
  last4 := last4 body.streamKey

theorem sealedUnder_credentialRow (kek : Key) (type : TargetType) (body : CredentialSetRequest) :
    (credentialRow kek type body).SealedUnder kek :=
  CredentialRow.sealedUnder_iff.mpr ⟨rfl, rfl, rfl⟩

/-- `set_credential` on an existing row. -/
def setCredential (id : TargetId) (body : CredentialSetRequest) (keys : DerivedKeys)
    (target : TargetRow) : List Action :=
  .commit (·.upsertCredential id (credentialRow keys.streamKeyKek target.type body)) ::
    if target.enabled then [.await (.enableTarget id)] else []

/-- `clear_credential`: an absent row is left absent. -/
def clearCredential (id : TargetId) (credential : Option CredentialRow) (reversed : Bool) :
    List Action :=
  match credential with
  | none => []
  | some _ => [.commit (·.deleteForTarget id), .await (.disableTarget id reversed)]

/-- What a request does, `none` when a random identifier is taken. An unknown
target, and key material that is not READY, end a handler at once. -/
def handle (s : Supervisor) (reversed : Bool) : Request → Option (List Action)
  | .createTarget id body => if (s.db.getById id).isSome then none else some (createTarget id body)
  | .updateTarget id body =>
    match s.db.getById id with
    | none => some []
    | some existing => some (updateTarget id body existing reversed)
  | .deleteTarget id =>
    match s.db.getById id with
    | none => some []
    | some _ => some (deleteTarget id reversed)
  | .setCredential id body =>
    match s.keyMaterial, s.db.getById id with
    | some keys, some target => some (setCredential id body keys target)
    | _, _ => some []
  | .clearCredential id =>
    match s.db.getById id with
    | none => some []
    | some _ => some (clearCredential id (s.db.getForTarget id) reversed)
  | .startRun => some [.await .startRun]
  | .stopRun => some [.await (.stopRun .userStop)]
  | .publishBegan => some [.notify .notifyObsPublishBegan]
  | .publishEnded => some [.notify .notifyObsPublishEnded]

/-- Neither decrypting the key of this row nor a spawn it leads to fails. -/
def SpawnsSucceed (s : Supervisor) (t : TargetId × TargetRow) : Prop :=
  match s.keyMaterial with
  | none => True
  | some keys => Supervisor.SpawnSucceeds s.toWorkerIndex
      (Supervisor.readTarget s.db keys.streamKeyKek t)

/-- No spawn and no decrypt fails inside the operation. -/
def NothingFails (s : Supervisor) : Supervisor.Op → Prop
  | .startRun => s.runState = .offline → ∀ t ∈ s.db.listEnabled, SpawnsSucceed s t
  | .enableTarget id =>
    s.runState.isActive = true → ∀ row ∈ s.db.getById id, SpawnsSucceed s (id, row)
  | .stopRun _ => True
  | .disableTarget _ _ => True

instance (s : Supervisor) (t : TargetId × TargetRow) : Decidable (SpawnsSucceed s t) := by
  unfold SpawnsSucceed
  split <;> infer_instance

instance (s : Supervisor) (op : Supervisor.Op) : Decidable (NothingFails s op) := by
  unfold NothingFails
  split <;> infer_instance

/-- One action, an operation being given `n` awaits to return. -/
def perform (n : ℕ) (s : Supervisor) : Action → Option Supervisor
  | .commit f => some { s with db := f s.db }
  | .await op =>
    if NothingFails s op then Supervisor.monitor.alone Supervisor.Outcome.ok n s op else none
  | .notify e => some (s.react e)

/-- The actions of a handler as a machine. -/
def actions (n : ℕ) : Machine Supervisor Action := ⟨perform n⟩

/-- A request, the awaits its operations are given, and the order in which a set
of workers is listed. -/
structure Label : Type where
  request : Request
  awaits : ℕ
  reversed : Bool

/-- Requests one after the other. -/
def requests : Machine Supervisor Label where
  step s l := (handle s l.reversed l.request).bind ((actions l.awaits).run s)

/-! ## Which rows a handler touches -/

/-- Every other target has its row and its credential as before. -/
def Touches (id : TargetId) (db db' : Database) : Prop :=
  ∀ i, i ≠ id → db'.getById i = db.getById i ∧ db'.getForTarget i = db.getForTarget i

theorem touches_createTarget (db : Database) (id : TargetId) (row : TargetRow) :
    Touches id db (db.createTarget id row) :=
  fun _ hi => ⟨Dict.get?_insert_ne _ _ hi, rfl⟩

theorem touches_updateTarget (db : Database) (id : TargetId) (p : Database.TargetPatch) :
    Touches id db (db.updateTarget id p) := by
  intro i hi
  rw [Database.updateTarget]
  split
  · exact ⟨rfl, rfl⟩
  · exact ⟨Dict.get?_insert_ne _ _ hi, rfl⟩

theorem touches_deleteTarget (db : Database) (id : TargetId) :
    Touches id db (db.deleteTarget id) :=
  fun _ hi => ⟨Dict.get?_erase_ne _ hi, Dict.get?_erase_ne _ hi⟩

theorem touches_upsertCredential (db : Database) (id : TargetId) (row : CredentialRow) :
    Touches id db (db.upsertCredential id row) :=
  fun _ hi => ⟨rfl, (Dict.get?_insert_ne _ _ hi).trans (Dict.get?_erase_ne _ hi)⟩

theorem touches_deleteForTarget (db : Database) (id : TargetId) :
    Touches id db (db.deleteForTarget id) :=
  fun _ hi => ⟨rfl, Dict.get?_erase_ne _ hi⟩

/-- An action that concerns one target. -/
def Concerns (id : TargetId) : Action → Prop
  | .commit f => ∀ db, Touches id db (f db)
  | .await (.enableTarget i) => i = id
  | .await (.disableTarget i _) => i = id
  | _ => False

theorem concerns_updateTarget (id : TargetId) (body : Database.TargetPatch) (existing : TargetRow)
    (reversed : Bool) : ∀ a ∈ updateTarget id body existing reversed, Concerns id a := by
  intro a ha
  rw [updateTarget, List.mem_cons] at ha
  rcases ha with rfl | ha
  · exact fun db => touches_updateTarget db id body
  · split at ha
    · -- an explicit `enabled`: at most one call, for this target
      split at ha
      · obtain rfl := List.mem_singleton.mp ha
        rfl
      · split at ha
        · obtain rfl := List.mem_singleton.mp ha
          rfl
        · cases ha
    · split at ha
      · rcases List.mem_cons.mp ha with rfl | ha
        · rfl
        · obtain rfl := List.mem_singleton.mp ha
          rfl
      · cases ha

end Api

end RestreamPlus
