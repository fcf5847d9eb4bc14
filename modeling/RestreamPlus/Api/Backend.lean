import RestreamPlus.Api.Handlers
import RestreamPlus.Fanout.SupervisorInvariant

/-!
# Requests, the supervisor and the database together

`Backend` runs handlers as cooperative tasks beside the supervisor. SQLite is
one write lock: a session takes it with its first statement that writes, waits
while another session has it and gives up after `busy_timeout`, and holds it
until its commit or rollback. The supervisor's own transactions take it too.

A handler that awaits an operation of the supervisor runs into it without an
await of its own, so it is in the queue of the supervisor's lock at once. Tasks
created for `start_run` and `stop_run` first run some time later.
-/

namespace RestreamPlus

open Interleaving

namespace Supervisor

/-- The section ends with statements that write, in a transaction of its own. -/
def Section.needsWrite : Section → Bool
  | .opening | .auditingFailures _ | .auditingStart | .closingFailed _ | .wiping _ _
  | .auditingWipe _ _ | .closing _ _ | .auditingStop => true
  | _ => false

end Supervisor

namespace Api

/-- Who holds the write lock. -/
inductive Writer : Type where
  | request (i : ℕ)
  | supervisor
  deriving DecidableEq

/-- A request in flight. -/
structure InFlight : Type where
  code : Handler
  /-- the operation of the supervisor it awaits, by its place among the tasks there -/
  awaits : Option ℕ

/-- The state of the process. -/
structure Backend : Type where
  supervisor : Monitor.Config Supervisor Supervisor.Op Supervisor.Section
  kdfSalt : Bytes
  rotationLock : Option ℕ
  writer : Option Writer
  requests : List InFlight

namespace Backend

/-- A process that was just started with these keys. -/
def boot (url : Text) (registry : CredentialRegistry) (keys : DerivedKeys) (kdfSalt : Bytes)
    (db : Database) : Backend where
  supervisor := Monitor.idle (Supervisor.init url registry (some keys) db)
  kdfSalt := kdfSalt
  rotationLock := none
  writer := none
  requests := []

/-- The tables. -/
def db (c : Backend) : Database := c.supervisor.shared.db

def keyMaterial (c : Backend) : Option DerivedKeys := c.supervisor.shared.keyMaterial

def runState (c : Backend) : RunState := c.supervisor.shared.runState

/-- What a handler sees. -/
def view (c : Backend) : View := ⟨c.runState, c.rotationLock.isSome, c.keyMaterial, c.kdfSalt⟩

/-- The supervisor meets a change made outside its lock. -/
def react (c : Backend) (e : Supervisor.Env) : Backend :=
  { c with supervisor := { c.supervisor with shared := c.supervisor.shared.react e } }

/-- Request `i` goes on with this code. -/
def goOn (c : Backend) (i : ℕ) (code : Handler) : Backend :=
  { c with requests := c.requests.set i ⟨code, none⟩ }

/-- Request `i` may take the write lock, or has it. -/
def MayWrite (c : Backend) (i : ℕ) : Prop := c.writer = none ∨ c.writer = some (.request i)

instance (c : Backend) (i : ℕ) : Decidable (c.MayWrite i) := inferInstanceAs (Decidable (_ ∨ _))

/-- Request `i` ends its transaction. -/
def close (c : Backend) (i : ℕ) : Backend :=
  if c.writer = some (.request i) then { c with writer := none } else c

/-- Request `i` acts on the shared attributes. -/
def perform (c : Backend) (i : ℕ) : Move → Backend
  | .nothing => c
  | .schedule op =>
    { c with supervisor := { c.supervisor with tasks := c.supervisor.tasks ++ [.called op] } }
  | .takeRotationLock => { c with rotationLock := some i }
  | .releaseRotationLock => { c with rotationLock := none }
  | .rotateInPlace salt keys =>
    { c with kdfSalt := salt, rotationLock := none }.react (.setKeys (some keys))

/-- Request `i` calls an operation of the supervisor, which runs up to its first
suspension. -/
def call (c : Backend) (i : ℕ) (op : Supervisor.Op) (code : Handler) : Backend :=
  let t := c.supervisor.tasks.length
  { c with
    supervisor := Supervisor.monitor.start
      { c.supervisor with tasks := c.supervisor.tasks ++ [.called op] } t op
    requests := c.requests.set i ⟨code, some t⟩ }

/-- Request `i` goes on; the flag answers a check, or says whether the write lock
was free in time. -/
def advance (c : Backend) (i : ℕ) (answer : Bool) : Handler → Option Backend
  | .done => none
  | .check k => some (c.goOn i (k answer))
  | .select k => some (c.goOn i (k c.db))
  | .write _ k =>
    if answer then
      if c.MayWrite i then some { c.goOn i (k true) with writer := some (.request i) } else none
    else if c.MayWrite i then none else some (c.goOn i (k false))
  | .commit change k => some (((c.react (.commit (change.apply c.db))).close i).goOn i k)
  | .rollback k => some ((c.close i).goOn i k)
  | .sync m k => some ((c.perform i (m c.view)).goOn i (k c.view))
  | .await op k => some (c.call i op k)

/-- Request `i` goes on, or is given the result of the operation it awaits. -/
def go (c : Backend) (i : ℕ) (answer : Bool) : Option Backend :=
  match c.requests[i]? with
  | none => none
  | some ⟨code, none⟩ => c.advance i answer code
  | some ⟨code, some t⟩ =>
    match c.supervisor.tasks[t]? with
    | some .finished => some (c.goOn i code)
    | _ => none

/-- The write lock after a section of the supervisor. -/
def writerAfter (writer : Option Writer) (sec : Supervisor.Section) (out : Supervisor.Outcome) :
    Option Writer :=
  match sec, out with
  | .opening, .ok => some .supervisor
  | .committingRun _, _ => if writer = some .supervisor then none else writer
  | _, _ => writer

/-- A step of the supervisor. A section that writes ends well only when nobody
else has the write lock. -/
def supervise (c : Backend) : Monitor.Label Supervisor.Op Supervisor.Outcome Supervisor.Env →
    Option Backend
  | .resume j out =>
    match c.supervisor.tasks[j]? with
    | some (.inside sec) =>
      if out = .ok ∧ sec.needsWrite = true ∧ c.writer ≠ none then none
      else (Supervisor.monitor.step c.supervisor (.resume j out)).map fun s =>
        { c with supervisor := s, writer := writerAfter c.writer sec out }
    | _ => none
  | .external (.commit _) | .external (.setKeys _) | .call _ => none
  | l => (Supervisor.monitor.step c.supervisor l).map fun s => { c with supervisor := s }

/-- What happens next. -/
inductive Label : Type where
  /-- a request arrives with a session or token of this moment, and its dependencies capture
  the keys -/
  | arrive (e : Endpoint)
  | go (i : ℕ) (answer : Bool)
  | supervise (l : Monitor.Label Supervisor.Op Supervisor.Outcome Supervisor.Env)

def step (c : Backend) : Label → Option Backend
  | .arrive e =>
    some { c with requests := c.requests ++ [⟨e.begin c.db.revocations c.keyMaterial, none⟩] }
  | .go i answer => c.go i answer
  | .supervise l => c.supervise l

/-- The process. -/
def machine : Machine Backend Label := ⟨step⟩

end Backend

end Api

end RestreamPlus
