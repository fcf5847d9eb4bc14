import Mathlib.Data.List.Sort
import RestreamPlus.Api.Rotation
import RestreamPlus.Api.Targets
import RestreamPlus.Lib.Coroutine

/-!
# The handlers between their awaits (`app/api`)

`targets.py`, `run.py` and `rotate_passphrase` of `security_api.py` as the code
of cooperative tasks, each with the session that authentication opens for it.
Authentication reads the session or the token and then writes (`touch`), so that
a handler's own code begins with the write lock in its hands.

`DerivedKeys` are captured when the dependencies are resolved, which is why they
are an argument. So is how often all sessions and tokens had been deleted when
the request arrived: whatever it presents was issued before. Here nothing fails
but what the code itself refuses, a statement that finds the database busy for
too long, and the checks whose answers are left open: whether a cookie or token
was issued at all and is still good, whether a grant is valid.
-/

namespace RestreamPlus

open Interleaving

namespace Api

/-- The statements that write. -/
inductive Statement : Type where
  /-- `touch_last_seen`, `touch_last_used` -/
  | touch
  /-- of a session that is past its end -/
  | deleteSession
  | insertTarget
  | updateTarget
  | deleteTarget
  /-- the `DELETE` and the `INSERT` of `upsert` -/
  | upsertCredential
  | deleteCredential
  | insertAudit
  | rewrap (row : CredentialRow)
  | deleteSessions
  | deleteTokens
  deriving DecidableEq

/-- What a commit does to the tables of `Database`. -/
inductive Change : Type where
  | nothing
  | createTarget (id : TargetId) (row : TargetRow)
  | updateTarget (id : TargetId) (patch : Database.TargetPatch)
  | deleteTarget (id : TargetId)
  | upsertCredential (id : TargetId) (row : CredentialRow)
  | deleteForTarget (id : TargetId)
  /-- the updates of a rotation, in this order, and the deletion of all sessions and tokens -/
  | rewrap (rows : List CredentialRow)

/-- The updates of a rotation on one row. -/
def rewrapRow (rows : List CredentialRow) (row : CredentialRow) : CredentialRow :=
  rows.foldl (fun row new => if row.id = new.id then
    { row with ciphertext := new.ciphertext, nonce := new.nonce, salt := new.salt } else row) row

def Change.apply : Change → Database → Database
  | .nothing, db => db
  | .createTarget id row, db => db.createTarget id row
  | .updateTarget id patch, db => db.updateTarget id patch
  | .deleteTarget id, db => db.deleteTarget id
  | .upsertCredential id row, db => db.upsertCredential id row
  | .deleteForTarget id, db => db.deleteForTarget id
  | .rewrap rows, db =>
    { db with
      credentials := db.credentials.mapValues (rewrapRow rows)
      revocations := db.revocations + 1 }

/-- What a handler sees of the attributes it shares with other tasks. -/
structure View : Type where
  runState : RunState
  /-- `rotation_lock.locked()` -/
  rotationLocked : Bool
  keyMaterial : Option DerivedKeys
  /-- `_kdf_salt` of the key material -/
  kdfSalt : Bytes

/-- What a stretch without await does to them. -/
inductive Move : Type where
  | nothing
  /-- `create_task` of an operation of the supervisor -/
  | schedule (op : Supervisor.Op)
  | takeRotationLock
  | releaseRotationLock
  /-- `rotate_in_place`, and the lock is released -/
  | rotateInPlace (salt : Bytes) (keys : DerivedKeys)

/-- A handler. -/
abbrev Handler : Type := Code Database Statement Change View Move Supervisor.Op

/-- An exception: the session is rolled back. -/
def fail : Handler := .rollback .done

/-- The handler has returned, and the session dependency commits. -/
def respond : Handler := .commit .nothing .done

/-- A statement that raises when the database is busy. -/
def execute (s : Statement) (k : Handler) : Handler := .write s fun ok => if ok then k else fail

/-- Authentication by a cookie or token issued before the deletion number
`issued`. The row is looked up: it is gone when all rows have been deleted since.
An expired session is deleted lazily, and the deletion rolled back with the 401
that follows. -/
def authenticated (issued : ℕ) (k : Handler) : Handler :=
  .select fun db =>
    if db.revocations = issued then
      .check fun known =>
        if known then execute .touch k
        else .check fun expired => if expired then execute .deleteSession fail else fail
    else fail

/-- `AuditLogRepository.append`, in a session of its own. -/
def audit (k : Handler) : Handler := execute .insertAudit (.commit .nothing k)

/-- A stretch that branches on what it sees. -/
def branch (p : View → Bool) (yes no : Move × Handler) : Handler :=
  .sync (fun v => if p v then yes.1 else no.1) fun v => if p v then yes.2 else no.2

/-- A grant is consumed. -/
def reprompted (k : Handler) : Handler := .check fun granted => if granted then k else fail

/-! ## `targets.py` -/

namespace Handler

/-- `create_target`. -/
def createTarget (issued : ℕ) (id : TargetId) (body : TargetRow) : Handler :=
  authenticated issued <| execute .insertTarget <| .commit (.createTarget id body) <| audit <|
    if body.enabled then .await (.enableTarget id) respond else respond

/-- The end of `update_target`: what the supervisor is told. -/
def trackTransition (id : TargetId) (body : Database.TargetPatch) (existing : TargetRow)
    (reversed : Bool) (k : Handler) : Handler :=
  match body.enabled with
  | some enabled =>
    if enabled && !existing.enabled then .await (.enableTarget id) k
    else if !enabled && existing.enabled then .await (.disableTarget id reversed) k
    else k
  | none =>
    if existing.enabled then .await (.disableTarget id reversed) (.await (.enableTarget id) k) else k

/-- `update_target`. -/
def updateTarget (issued : ℕ) (id : TargetId) (body : Database.TargetPatch) (reversed : Bool) :
    Handler :=
  authenticated issued <| .select fun db =>
    match db.getById id with
    | none => fail
    | some existing =>
      execute .updateTarget <| .commit (.updateTarget id body) <| audit <|
        trackTransition id body existing reversed <| .select fun _ => respond

/-- `delete_target`: the workers go before the row. -/
def deleteTarget (issued : ℕ) (id : TargetId) (reversed : Bool) : Handler :=
  authenticated issued <| reprompted <| .select fun db =>
    match db.getById id with
    | none => fail
    | some _ =>
      .await (.disableTarget id reversed) <| execute .deleteTarget <| .commit (.deleteTarget id) <|
        audit respond

/-- `set_credential`. -/
def setCredential (issued : ℕ) (id : TargetId) (body : CredentialSetRequest) (keys : DerivedKeys) :
    Handler :=
  authenticated issued <| .select fun db =>
    match db.getById id with
    | none => fail
    | some target =>
      execute .upsertCredential <|
        .commit (.upsertCredential id (credentialRow keys.streamKeyKek target.type body)) <| audit <|
          if target.enabled then .await (.enableTarget id) respond else respond

/-- `clear_credential`: an absent row is left absent. -/
def clearCredential (issued : ℕ) (id : TargetId) (reversed : Bool) : Handler :=
  authenticated issued <| reprompted <| .select fun db =>
    match db.getById id with
    | none => fail
    | some _ =>
      execute .deleteCredential <| .select fun db =>
        if (db.getForTarget id).isSome then
          .commit (.deleteForTarget id) <| audit <| .await (.disableTarget id reversed) respond
        else respond

/-! ## `run.py` -/

/-- `start_run`. -/
def startRun (issued : ℕ) : Handler :=
  authenticated issued <| branch (fun v => v.runState.isLegal .startRequested && !v.rotationLocked)
    (.schedule .startRun, respond) (.nothing, fail)

/-- `stop_run`. -/
def stopRun (issued : ℕ) : Handler :=
  authenticated issued <| branch (fun v => v.runState.isLegal .stopRequested)
    (.schedule (.stopRun .userStop), respond) (.nothing, fail)

/-! ## `rotate_passphrase` -/

/-- An exception inside `async with rotation_lock`. -/
def abort : Handler := .rollback (.sync (fun _ => .releaseRotationLock) fun _ => fail)

/-- A statement of the transaction that re-wraps the rows. -/
def executeLocked (s : Statement) (k : Handler) : Handler := .write s fun ok => if ok then k else abort

/-- The salt file is renamed, the keys are swapped, the lock is released. -/
def swap (r : Rotation) : Handler :=
  .sync (fun _ => .rotateInPlace r.newSalt r.newKeys) fun _ => audit respond

def commitRewrap (r : Rotation) (written : List CredentialRow) : Handler :=
  .commit (.rewrap written) (swap r)

def deleteTokens (r : Rotation) (written : List CredentialRow) : Handler :=
  executeLocked .deleteTokens (commitRewrap r written)

/-- The loop over the rows, and the statements after it. -/
def rewrapLoop (r : Rotation) : List CredentialRow → List CredentialRow → Handler
  | [], written => executeLocked .deleteSessions (deleteTokens r written)
  | row :: rest, written =>
    match r.rewrapped row with
    | none => abort
    | some new => executeLocked (.rewrap new) (rewrapLoop r rest (written ++ [new]))

/-- `list_all_for_rewrap`, sorted by identifier. -/
def listForRewrap (r : Rotation) : Handler :=
  .select fun db => rewrapLoop r (db.credentials.values.insertionSort (·.id ≤ ·.id)) []

/-- The auxiliary files are written; the transaction of the request is closed. -/
def closeRequest (r : Rotation) : Handler := .commit .nothing (listForRewrap r)

/-- `verify_passphrase`, and what comes after it. -/
def rotateLocked (r : Rotation) : Handler :=
  branch (fun v => v.keyMaterial = some (deriveKeys r.oldPassphrase v.kdfSalt))
    (.nothing, closeRequest r) (.releaseRotationLock, fail)

/-- `rotate_passphrase`: all gates are passed without an await. -/
def rotatePassphrase (issued : ℕ) (r : Rotation) : Handler :=
  authenticated issued <| reprompted <|
    branch (fun v => v.runState = .offline && r.oldPassphrase ≠ r.newPassphrase && !v.rotationLocked)
      (.takeRotationLock, rotateLocked r) (.nothing, fail)

end Handler

/-! ## Requests -/

/-- The requests, with the order in which a set of workers is listed. -/
inductive Endpoint : Type where
  | createTarget (id : TargetId) (body : TargetRow)
  | updateTarget (id : TargetId) (body : Database.TargetPatch) (reversed : Bool)
  | deleteTarget (id : TargetId) (reversed : Bool)
  | setCredential (id : TargetId) (body : CredentialSetRequest)
  | clearCredential (id : TargetId) (reversed : Bool)
  | startRun
  | stopRun
  /-- passphrases, new salt, and a nonce and a salt for each credential -/
  | rotatePassphrase (oldPassphrase newPassphrase : Text) (newSalt : Bytes)
      (nonceOf saltOf : ℕ → Bytes)

/-- The handler of a request whose dependencies found these keys. -/
def Endpoint.handler (issued : ℕ) (keys : DerivedKeys) : Endpoint → Handler
  | .createTarget id body => Handler.createTarget issued id body
  | .updateTarget id body reversed => Handler.updateTarget issued id body reversed
  | .deleteTarget id reversed => Handler.deleteTarget issued id reversed
  | .setCredential id body => Handler.setCredential issued id body keys
  | .clearCredential id reversed => Handler.clearCredential issued id reversed
  | .startRun => Handler.startRun issued
  | .stopRun => Handler.stopRun issued
  | .rotatePassphrase old new newSalt nonceOf saltOf =>
    Handler.rotatePassphrase issued ⟨old, new, keys, newSalt, nonceOf, saltOf⟩

/-- 503 while the key material is not READY. -/
def Endpoint.begin (e : Endpoint) (issued : ℕ) : Option DerivedKeys → Handler
  | none => .done
  | some keys => e.handler issued keys

end Api

end RestreamPlus
