import RestreamPlus.Domain.CircuitBreaker
import RestreamPlus.Fanout.Backoff
import RestreamPlus.Lib.Machine

/-!
# One ffmpeg worker (`app/fanout/ffmpeg_worker.py`)

The lifecycle loop, the four pumps of a process, `stop` and `user_reset` as
cooperative tasks. A task is the point where it awaits something; the code
between two awaits is a function, and the machine at the end interleaves the
tasks with the operating system, the clock and the reader of the event channel.

* A `send` on the event channel may stay suspended until the channel takes the
  event; the task goes on some time later.
* When a pump raises, the task group cancels the others. A cancelled task does
  nothing observable between the request and its end, so it ends at once.
* `wait_for` cancels what it waits for when it times out, and then waits for the
  cancelled task. A cancellation that meets a task group already aborted by a
  pump is swallowed, one that meets `spawn` leaves no process behind.

Wall clock and monotonic clock advance together. The text of the log, the
redaction of stderr and the arguments of ffmpeg are left out.
-/

namespace RestreamPlus

open Interleaving

/-- `STALL_TIMEOUT`, in seconds. -/
def stallTimeout : ℚ := 5

/-- The payload of a `WorkerEvent`. -/
inductive WorkerEvent (Frame : Type) : Type where
  /-- the new state, the previous one, and the cause -/
  | state : WorkerState → WorkerState → String → WorkerEvent Frame
  | progress : Frame → WorkerEvent Frame
  /-- the message, and whether it is fatal -/
  | error : String → Bool → WorkerEvent Frame
  /-- return code, signal and duration -/
  | exited : Option ℤ → Option ℤ → ℚ → WorkerEvent Frame
  | stalled : ℚ → WorkerEvent Frame

/-- A child process. -/
structure Child : Type where
  /-- `None` while it runs -/
  returncode : Option ℤ
  /-- `terminate` or `kill` was called on it -/
  signalled : Bool

/-- A `send` under way. -/
structure Sending (Frame : Type) : Type where
  event : WorkerEvent Frame
  /-- the channel has taken the event -/
  accepted : Bool

/-! ## Where the tasks are -/

/-- What the lifecycle loop does after a `send`. -/
inductive AfterSend : Type where
  /-- STARTING was announced -/
  | startingSet : AfterSend
  /-- the error of a failed spawn was reported -/
  | spawnErrorSent : AfterSend
  /-- the exit of the process was reported -/
  | exitedSent : AfterSend
  /-- RECONNECTING was announced, the breaker having said this at that time -/
  | reconnectingSet : BreakerVerdict → ℚ → AfterSend
  /-- the state the verdict leads to was announced -/
  | verdictSet : AfterSend
  /-- STARTING was announced after a reset -/
  | resetSet : AfterSend
  | stoppingSet : AfterSend
  | idleSet : AfterSend

/-- How a task ended. -/
inductive Ended : Type where
  | returned
  | cancelled
  | raised
  deriving DecidableEq

/-- `_lifecycle_task`. -/
inductive Lifecycle (Frame : Type) : Type where
  | notStarted : Lifecycle Frame
  | created : Lifecycle Frame
  | sending : Sending Frame → AfterSend → Lifecycle Frame
  | spawning : Lifecycle Frame
  /-- in the task group of the pumps, since this time -/
  | pumping : ℚ → Lifecycle Frame
  | waitingReset : Lifecycle Frame
  /-- until this time -/
  | backingOff : ℚ → Lifecycle Frame
  | finished : Ended → Lifecycle Frame

/-- `_stdout_pump`. -/
inductive StdoutPump (Frame : Type) : Type where
  | reading : StdoutPump Frame
  /-- RUNNING is announced for a frame, these being still to handle; the flag
  says whether the attempts are then counted from zero -/
  | announcing : Sending Frame → Frame → List Frame → Bool → StdoutPump Frame
  | progressing : Sending Frame → List Frame → StdoutPump Frame
  /-- an error is reported; the flag says whether reading goes on -/
  | erring : Sending Frame → Bool → StdoutPump Frame
  | done : StdoutPump Frame

/-- `_stderr_pump`. -/
inductive StderrPump (Frame : Type) : Type where
  | reading : StderrPump Frame
  | erring : Sending Frame → StderrPump Frame
  | done : StderrPump Frame

/-- `_stall_watcher`. -/
inductive StallWatcher (Frame : Type) : Type where
  | sleeping : StallWatcher Frame
  /-- the stall of this process is reported -/
  | sending : Sending Frame → ℕ → StallWatcher Frame
  | done : StallWatcher Frame

/-- `_wait_for_exit`. -/
inductive ExitWaiter : Type where
  | waiting
  | done
  deriving DecidableEq

/-- The task group of a process. -/
structure Pumps (Frame : Type) : Type where
  stdout : StdoutPump Frame
  stderr : StderrPump Frame
  stall : StallWatcher Frame
  exit : ExitWaiter
  /-- a pump raised -/
  failed : Bool

/-- A call of `stop`. -/
inductive StopPhase : Type where
  /-- SIGTERM was sent to this process -/
  | terminating : ℕ → StopPhase
  /-- SIGKILL was sent to this process -/
  | killing : ℕ → StopPhase
  | awaitingLifecycle : StopPhase
  /-- the lifecycle task was cancelled -/
  | awaitingCancelled : StopPhase
  | closingSend : StopPhase
  | closingReceive : StopPhase
  | returned : StopPhase
  | raised : StopPhase
  deriving DecidableEq

/-- The attributes of the worker, its tasks and what it deals with. -/
structure FFmpegWorker (Frame : Type) : Type where
  state : WorkerState
  attempt : ℕ
  breaker : CircuitBreaker
  lastEventAt : ℚ
  lastError : Option String
  lastProgressAt : ℚ
  lastProgress : Option Frame
  /-- `_process`, by its place in `children` -/
  process : Option ℕ
  stopRequested : Bool
  userResetEvent : Bool
  sendOpen : Bool
  receiveOpen : Bool
  lifecycle : Lifecycle Frame
  pumps : Pumps Frame
  stops : List StopPhase
  /-- every process spawned so far -/
  children : List Child
  /-- every event the channel has taken -/
  channel : List (WorkerEvent Frame)
  now : ℚ

namespace FFmpegWorker

variable {Frame : Type}

/-- The four pumps before they run. -/
def freshPumps : Pumps Frame := ⟨.reading, .reading, .sleeping, .waiting, false⟩

/-- No pump is left. -/
def endedPumps (failed : Bool) : Pumps Frame := ⟨.done, .done, .done, .done, failed⟩

/-- The constructor. -/
def init (policy : CircuitBreakerPolicy) (now : ℚ) : FFmpegWorker Frame where
  state := .idle
  attempt := 0
  breaker := .init policy
  lastEventAt := now
  lastError := none
  lastProgressAt := now
  lastProgress := none
  process := none
  stopRequested := false
  userResetEvent := false
  sendOpen := true
  receiveOpen := true
  lifecycle := .notStarted
  pumps := endedPumps false
  stops := []
  children := []
  channel := []
  now := now

/-- `start`. -/
def start (w : FFmpegWorker Frame) : FFmpegWorker Frame :=
  match w.lifecycle with
  | .notStarted | .finished _ =>
    { w with
      stopRequested := false, userResetEvent := false, lastProgress := none
      lifecycle := .created }
  | _ => w

/-- The process has not exited. -/
def Running (w : FFmpegWorker Frame) (p : ℕ) : Prop :=
  ∃ c, w.children[p]? = some c ∧ c.returncode = none

instance (w : FFmpegWorker Frame) (p : ℕ) : Decidable (w.Running p) :=
  match hc : w.children[p]? with
  | none => .isFalse (by rintro ⟨c, h, -⟩; rw [hc] at h; cases h)
  | some c => decidable_of_iff (c.returncode = none)
      ⟨fun h => ⟨c, hc, h⟩, by rintro ⟨c', h, hn⟩; rw [hc] at h; cases h; exact hn⟩

/-- `terminate` or `kill`; an error because it is gone is suppressed. -/
def signal (w : FFmpegWorker Frame) (p : ℕ) : FFmpegWorker Frame :=
  { w with children := w.children.modify p fun c => { c with signalled := true } }

/-! ## The lifecycle loop -/

/-- `_emit` from the lifecycle loop; a closed stream raises. -/
def send (w : FFmpegWorker Frame) (e : WorkerEvent Frame) (k : AfterSend) : FFmpegWorker Frame :=
  let w := { w with lastEventAt := w.now }
  if w.sendOpen then { w with lifecycle := .sending ⟨e, false⟩ k }
  else { w with lifecycle := .finished .raised }

/-- `_set_state` from the lifecycle loop. The state asked for only decides
whether a mismatch is logged; an illegal transition goes on with `skip`. -/
def setState (w : FFmpegWorker Frame) (action : WorkerAction) (cause : String) (k : AfterSend)
    (skip : FFmpegWorker Frame → FFmpegWorker Frame) : FFmpegWorker Frame :=
  match w.state.transition action none with
  | none => skip w
  | some new => w.send (.state new w.state cause) k

/-- The coroutine returns. -/
def finish (w : FFmpegWorker Frame) : FFmpegWorker Frame :=
  { w with lifecycle := .finished .returned }

/-- From STOPPING to IDLE. -/
def becomeIdle (w : FFmpegWorker Frame) : FFmpegWorker Frame :=
  if w.state = .stopping then w.setState .stopped "stopped" .idleSet finish else w.finish

/-- The loop was left because a stop was requested. -/
def leaveLoop (w : FFmpegWorker Frame) : FFmpegWorker Frame :=
  if w.state ≠ .stopping ∧ w.state ≠ .idle then
    w.setState .stopRequested "stop requested" .stoppingSet becomeIdle
  else w.becomeIdle

/-- The test of the loop; the body begins with `spawn`. -/
def loopHead (w : FFmpegWorker Frame) : FFmpegWorker Frame :=
  if w.stopRequested then w.leaveLoop else { w with lifecycle := .spawning }

/-- The wait before the next spawn; `draw` is what `random()` returns. -/
def backOff (w : FFmpegWorker Frame) (draw : ℚ) : FFmpegWorker Frame :=
  match computeBackoff w.attempt draw with
  | none => { w with lifecycle := .finished .raised }
  | some delay =>
    { w with attempt := w.attempt + 1, lifecycle := .backingOff (w.now + delay) }

/-- After the verdict was applied. -/
def afterVerdict (w : FFmpegWorker Frame) (draw : ℚ) : FFmpegWorker Frame :=
  if w.state = .failedOpen then { w with userResetEvent := false, lifecycle := .waitingReset }
  else w.backOff draw

/-- `_apply_reconnect_verdict`. -/
def applyReconnectVerdict (w : FFmpegWorker Frame) (verdict : BreakerVerdict) (now draw : ℚ) :
    FFmpegWorker Frame :=
  match w.state.transition .reconnect (some verdict) with
  | none => w.afterVerdict draw
  | some new =>
    if new = w.state then w.afterVerdict draw
    else
      let (breaker, count) := w.breaker.failureCountInWindow now
      { w with breaker := breaker }.send
        (.state new w.state
          ("breaker " ++ verdict.value ++ " (" ++ toString count ++ " failures)")) .verdictSet

/-- The loop after `_run_one_spawn`. -/
def afterRun (w : FFmpegWorker Frame) (draw : ℚ) : FFmpegWorker Frame :=
  if w.stopRequested then w.leaveLoop
  else
    let (breaker, verdict) := (w.breaker.recordFailure w.now).shouldOpen w.now
    let w := { w with
      breaker := breaker
      lastError := w.lastError.or (some "process exited unexpectedly") }
    let goOn := fun w : FFmpegWorker Frame => w.applyReconnectVerdict verdict w.now draw
    if w.state = .starting then
      w.setState .processExited "process exited during startup" (.reconnectingSet verdict w.now) goOn
    else if w.state = .running then
      w.setState .processExited "process exited" (.reconnectingSet verdict w.now) goOn
    else goOn w

/-- `_state` is assigned once the event of a state change was sent. -/
def arrived (w : FFmpegWorker Frame) : WorkerEvent Frame → FFmpegWorker Frame
  | .state new _ _ => { w with state := new }
  | _ => w

/-- The code after a `send` of the lifecycle loop. -/
def afterSend (w : FFmpegWorker Frame) (draw : ℚ) : AfterSend → FFmpegWorker Frame
  | .startingSet => w.loopHead
  | .spawnErrorSent => w.afterRun draw
  | .exitedSent => { w with process := none }.afterRun draw
  | .reconnectingSet verdict now => w.applyReconnectVerdict verdict now draw
  | .verdictSet => w.afterVerdict draw
  | .resetSet => w.loopHead
  | .stoppingSet => w.becomeIdle
  | .idleSet => w.finish

/-- A send comes back: the event was taken, or nobody reads any more. -/
def canGoOn (w : FFmpegWorker Frame) (s : Sending Frame) : Bool := s.accepted || !w.receiveOpen

/-- `spawn` returned a process; the pumps are created. -/
def spawned (w : FFmpegWorker Frame) : FFmpegWorker Frame :=
  { w with
    process := some w.children.length
    children := w.children ++ [⟨none, false⟩]
    lastProgressAt := w.now
    pumps := freshPumps
    lifecycle := .pumping w.now }

/-- `spawn` raised an `OSError` or a `ValueError`. -/
def spawnFailed (w : FFmpegWorker Frame) (error : String) : FFmpegWorker Frame :=
  let message := "spawn failed: " ++ error
  { w with lastError := some message }.send (.error message false) .spawnErrorSent

/-- The task group is over: report the exit. -/
def reportExit (w : FFmpegWorker Frame) (spawnedAt : ℚ) : FFmpegWorker Frame :=
  let rc := (w.process.bind (w.children[·]?)).bind Child.returncode
  let event := match rc with
    | some rc => if rc < 0 then .exited none (some (-rc)) (w.now - spawnedAt)
      else .exited (some rc) none (w.now - spawnedAt)
    | none => .exited none none (w.now - spawnedAt)
  w.send event .exitedSent

/-- No pump is left in the task group. -/
def PumpsEnded (w : FFmpegWorker Frame) : Bool :=
  match w.pumps.stdout, w.pumps.stderr, w.pumps.stall, w.pumps.exit with
  | .done, .done, .done, .done => true
  | _, _, _, _ => false

/-- The lifecycle task goes on, if what it awaits is there. -/
def resumeLifecycle (w : FFmpegWorker Frame) (draw : ℚ) : Option (FFmpegWorker Frame) :=
  match w.lifecycle with
  | .created => some (w.setState .start "initial start" .startingSet loopHead)
  | .sending s k => if w.canGoOn s then some ((w.arrived s.event).afterSend draw k) else none
  | .pumping spawnedAt => if w.PumpsEnded then some (w.reportExit spawnedAt) else none
  | .waitingReset =>
    if w.userResetEvent then
      if w.stopRequested then some w.leaveLoop
      else some (w.setState .userReset "user reset" .resetSet loopHead)
    else none
  | .backingOff wakeAt =>
    if w.stopRequested ∨ wakeAt ≤ w.now then some w.loopHead else none
  | .notStarted | .spawning | .finished _ => none

/-! ## The pumps -/

/-- A pump raised: the task group cancels the others. -/
def abortPumps (w : FFmpegWorker Frame) : FFmpegWorker Frame := { w with pumps := endedPumps true }

/-- `_emit` from a pump, which then waits at `pumps`; a closed stream raises. -/
def pumpSend (w : FFmpegWorker Frame) (pumps : Pumps Frame) : FFmpegWorker Frame :=
  let w := { w with lastEventAt := w.now }
  if w.sendOpen then { w with pumps := pumps } else w.abortPumps

/-- `record_healthy` and `_emit_progress`. -/
def emitProgress (w : FFmpegWorker Frame) (frame : Frame) (rest : List Frame) :
    FFmpegWorker Frame :=
  let w := if w.state = .running then { w with breaker := w.breaker.recordHealthy w.now } else w
  { w with lastProgress := some frame }.pumpSend
    { w.pumps with stdout := .progressing ⟨.progress frame, false⟩ rest }

/-- `_set_state` to RUNNING for the first frame; `fresh` resets the attempts. -/
def announceRunning (w : FFmpegWorker Frame) (cause : String) (frame : Frame) (rest : List Frame)
    (fresh : Bool) : FFmpegWorker Frame :=
  match w.state.transition .processHealthy none with
  | none => (if fresh then { w with attempt := 0 } else w).emitProgress frame rest
  | some new =>
    w.pumpSend { w.pumps with
      stdout := .announcing ⟨.state new w.state cause, false⟩ frame rest fresh }

/-- The loop over the frames of a chunk. -/
def nextFrame (w : FFmpegWorker Frame) : List Frame → FFmpegWorker Frame
  | [] => { w with pumps := { w.pumps with stdout := .reading } }
  | frame :: rest =>
    let w := { w with lastProgressAt := w.now }
    if w.state = .starting then w.announceRunning "first progress frame" frame rest false
    else if w.state = .reconnecting then
      w.announceRunning "progress resumed after reconnect" frame rest true
    else w.emitProgress frame rest

/-- What a read of stdout gives. -/
inductive StdoutRead (Frame : Type) : Type where
  | eof : StdoutRead Frame
  | frames : List Frame → StdoutRead Frame
  /-- `ProgressParseError` with this text -/
  | parseError : String → StdoutRead Frame
  /-- an exception of this type -/
  | failed : String → StdoutRead Frame

/-- What a read of stderr gives; its lines are not modelled. -/
inductive StderrRead : Type where
  | eof : StderrRead
  | data : StderrRead
  | failed : String → StderrRead

/-- `_stdout_pump` after a read. -/
def readStdout (w : FFmpegWorker Frame) : StdoutRead Frame → FFmpegWorker Frame
  | .eof => { w with pumps := { w.pumps with stdout := .done } }
  | .frames frames => w.nextFrame frames
  | .parseError text =>
    let message := "progress parse: " ++ text
    { w with lastError := some message }.pumpSend
      { w.pumps with stdout := .erring ⟨.error message false, false⟩ true }
  | .failed type =>
    let message := "stdout pump: " ++ type
    { w with lastError := some message }.pumpSend
      { w.pumps with stdout := .erring ⟨.error message false, false⟩ false }

/-- `_stdout_pump` after a `send`. -/
def resumeStdout (w : FFmpegWorker Frame) : Option (FFmpegWorker Frame) :=
  match w.pumps.stdout with
  | .announcing s frame rest fresh =>
    if w.canGoOn s then
      let w := w.arrived s.event
      some ((if fresh then { w with attempt := 0 } else w).emitProgress frame rest)
    else none
  | .progressing s rest => if w.canGoOn s then some (w.nextFrame rest) else none
  | .erring s goesOn =>
    if w.canGoOn s then
      some { w with pumps := { w.pumps with stdout := if goesOn then .reading else .done } }
    else none
  | .reading | .done => none

/-- `_stderr_pump` after a read. -/
def readStderr (w : FFmpegWorker Frame) : StderrRead → FFmpegWorker Frame
  | .eof => { w with pumps := { w.pumps with stderr := .done } }
  | .data => w
  | .failed type =>
    w.pumpSend { w.pumps with stderr := .erring ⟨.error ("stderr pump: " ++ type) false, false⟩ }

/-- `_stderr_pump` after a `send`. -/
def resumeStderr (w : FFmpegWorker Frame) : Option (FFmpegWorker Frame) :=
  match w.pumps.stderr with
  | .erring s =>
    if w.canGoOn s then some { w with pumps := { w.pumps with stderr := .done } } else none
  | .reading | .done => none

/-- A tick of `_stall_watcher`. -/
def stallTick (w : FFmpegWorker Frame) : FFmpegWorker Frame :=
  match w.process with
  | none => { w with pumps := { w.pumps with stall := .done } }
  | some p =>
    if w.Running p then
      let elapsed := w.now - w.lastProgressAt
      if stallTimeout < elapsed then
        w.pumpSend { w.pumps with stall := .sending ⟨.stalled elapsed, false⟩ p }
      else w
    else { w with pumps := { w.pumps with stall := .done } }

/-- `_stall_watcher` after its `send`. -/
def resumeStall (w : FFmpegWorker Frame) : Option (FFmpegWorker Frame) :=
  match w.pumps.stall with
  | .sending s p =>
    if w.canGoOn s then some ({ w with pumps := { w.pumps with stall := .done } }.signal p)
    else none
  | .sleeping | .done => none

/-- `_wait_for_exit` returns once the process has exited. -/
def seeExit (w : FFmpegWorker Frame) : Option (FFmpegWorker Frame) :=
  match w.pumps.exit, w.process with
  | .waiting, some p =>
    if w.Running p then none else some { w with pumps := { w.pumps with exit := .done } }
  | .waiting, none => some { w with pumps := { w.pumps with exit := .done } }
  | .done, _ => none

/-! ## `user_reset` and `stop` -/

/-- `user_reset`. -/
def userReset (w : FFmpegWorker Frame) : FFmpegWorker Frame :=
  if w.state = .failedOpen then
    { w with breaker := w.breaker.reset, attempt := 0, userResetEvent := true }
  else w

/-- A cancellation of the lifecycle task. -/
def cancelLifecycle (w : FFmpegWorker Frame) : FFmpegWorker Frame :=
  match w.lifecycle with
  | .notStarted | .finished _ => w
  | .pumping _ =>
    if w.pumps.failed then w
    else { w with pumps := endedPumps false, lifecycle := .finished .cancelled }
  | _ => { w with lifecycle := .finished .cancelled }

/-- The lifecycle task is there and not done. -/
def LifecycleAlive (w : FFmpegWorker Frame) : Bool :=
  match w.lifecycle with
  | .notStarted | .finished _ => false
  | _ => true

/-- `stop` closes the send stream. -/
def closeSend (w : FFmpegWorker Frame) : FFmpegWorker Frame × StopPhase :=
  ({ w with sendOpen := false }, .closingSend)

/-- `stop` once it is done with the process. -/
def joinLifecycle (w : FFmpegWorker Frame) : FFmpegWorker Frame × StopPhase :=
  let w := { w with userResetEvent := true }
  if w.LifecycleAlive then (w, .awaitingLifecycle) else w.closeSend

/-- `stop` up to its first await. -/
def stop (w : FFmpegWorker Frame) : FFmpegWorker Frame × StopPhase :=
  let w := { w with stopRequested := true }
  match w.process with
  | some p => if w.Running p then (w.signal p, .terminating p) else w.joinLifecycle
  | none => w.joinLifecycle

/-- `stop` from one await to the next; the flag says that the wait timed out. -/
def resumeStop (w : FFmpegWorker Frame) :
    StopPhase → Bool → Option (FFmpegWorker Frame × StopPhase)
  | .terminating p, false => if w.Running p then none else some w.joinLifecycle
  | .terminating p, true => some (w.signal p, .killing p)
  | .killing p, false => if w.Running p then none else some w.joinLifecycle
  | .killing _, true => some w.joinLifecycle
  | .awaitingLifecycle, false =>
    match w.lifecycle with
    | .finished .returned => some w.closeSend
    | .finished _ => some (w, .raised)
    | _ => none
  | .awaitingLifecycle, true => some (w.cancelLifecycle, .awaitingCancelled)
  | .awaitingCancelled, _ =>
    match w.lifecycle with
    | .finished .raised => some (w, .raised)
    | .finished _ => some w.closeSend
    | _ => none
  | .closingSend, _ => some ({ w with receiveOpen := false }, .closingReceive)
  | .closingReceive, _ => some (w, .returned)
  | .returned, _ => none
  | .raised, _ => none

/-! ## The machine -/

/-- The tasks that send events. -/
inductive Sender : Type where
  | lifecycle
  | stdout
  | stderr
  | stall

/-- The pumps. -/
inductive Pump : Type where
  | stdout
  | stderr
  | stall
  | exit

/-- One thing that happens. -/
inductive Label (Frame : Type) : Type where
  /-- time passes -/
  | tick : ℚ → Label Frame
  /-- a process exits -/
  | exit : ℕ → ℤ → Label Frame
  /-- the channel takes the event of a task -/
  | accept : Sender → Label Frame
  /-- the reader closes its end -/
  | closeReceive : Label Frame
  /-- somebody calls `snapshot`, which evicts old failures -/
  | snapshot : Label Frame
  /-- the lifecycle task goes on -/
  | lifecycle : ℚ → Label Frame
  /-- `spawn` returns a process -/
  | spawned : Label Frame
  /-- `spawn` raises an `OSError` or a `ValueError` of this type -/
  | spawnFailed : String → Label Frame
  /-- `spawn` raises something else -/
  | spawnRaised : Label Frame
  | readStdout : StdoutRead Frame → Label Frame
  | resumeStdout : Label Frame
  | readStderr : StderrRead → Label Frame
  | resumeStderr : Label Frame
  | stallTick : Label Frame
  | resumeStall : Label Frame
  | seeExit : Label Frame
  /-- a pump raises -/
  | pumpRaised : Pump → Label Frame
  | userReset : Label Frame
  | stop : Label Frame
  | resumeStop : ℕ → Bool → Label Frame

/-- The channel takes the event a task is sending. -/
def accept (w : FFmpegWorker Frame) (t : Sender) : Option (FFmpegWorker Frame) :=
  if w.receiveOpen then
    match t, w.lifecycle, w.pumps.stdout, w.pumps.stderr, w.pumps.stall with
    | .lifecycle, .sending ⟨e, false⟩ k, _, _, _ =>
      some { w with channel := w.channel ++ [e], lifecycle := .sending ⟨e, true⟩ k }
    | .stdout, _, .announcing ⟨e, false⟩ frame rest fresh, _, _ =>
      some { w with
        channel := w.channel ++ [e]
        pumps := { w.pumps with stdout := .announcing ⟨e, true⟩ frame rest fresh } }
    | .stdout, _, .progressing ⟨e, false⟩ rest, _, _ =>
      some { w with
        channel := w.channel ++ [e], pumps := { w.pumps with stdout := .progressing ⟨e, true⟩ rest } }
    | .stdout, _, .erring ⟨e, false⟩ goesOn, _, _ =>
      some { w with
        channel := w.channel ++ [e], pumps := { w.pumps with stdout := .erring ⟨e, true⟩ goesOn } }
    | .stderr, _, _, .erring ⟨e, false⟩, _ =>
      some { w with
        channel := w.channel ++ [e], pumps := { w.pumps with stderr := .erring ⟨e, true⟩ } }
    | .stall, _, _, _, .sending ⟨e, false⟩ p =>
      some { w with
        channel := w.channel ++ [e], pumps := { w.pumps with stall := .sending ⟨e, true⟩ p } }
    | _, _, _, _, _ => none
  else none

/-- The pump has not ended. -/
def PumpAlive (w : FFmpegWorker Frame) : Pump → Bool
  | .stdout => match w.pumps.stdout with | .done => false | _ => true
  | .stderr => match w.pumps.stderr with | .done => false | _ => true
  | .stall => match w.pumps.stall with | .done => false | _ => true
  | .exit => match w.pumps.exit with | .done => false | .waiting => true

/-- The lifecycle task awaits `spawn`. -/
def Spawning (w : FFmpegWorker Frame) : Bool :=
  match w.lifecycle with
  | .spawning => true
  | _ => false

/-- One step. -/
def step (w : FFmpegWorker Frame) : Label Frame → Option (FFmpegWorker Frame)
  | .tick d => if 0 ≤ d then some { w with now := w.now + d } else none
  | .exit p rc =>
    if w.Running p then
      some { w with children := w.children.modify p fun c => { c with returncode := some rc } }
    else none
  | .accept t => w.accept t
  | .closeReceive => some { w with receiveOpen := false }
  | .snapshot => some { w with breaker := (w.breaker.failureCountInWindow w.now).1 }
  | .lifecycle draw => w.resumeLifecycle draw
  | .spawned => if w.Spawning then some w.spawned else none
  | .spawnFailed error => if w.Spawning then some (w.spawnFailed error) else none
  | .spawnRaised => if w.Spawning then some { w with lifecycle := .finished .raised } else none
  | .readStdout r =>
    match w.pumps.stdout with
    | .reading => some (w.readStdout r)
    | _ => none
  | .resumeStdout => w.resumeStdout
  | .readStderr r =>
    match w.pumps.stderr with
    | .reading => some (w.readStderr r)
    | _ => none
  | .resumeStderr => w.resumeStderr
  | .stallTick =>
    match w.pumps.stall with
    | .sleeping => some w.stallTick
    | _ => none
  | .resumeStall => w.resumeStall
  | .seeExit => w.seeExit
  | .pumpRaised t => if w.PumpAlive t then some w.abortPumps else none
  | .userReset => some w.userReset
  | .stop => some { w.stop.1 with stops := w.stops ++ [w.stop.2] }
  | .resumeStop i timedOut =>
    match w.stops[i]? with
    | some phase => (w.resumeStop phase timedOut).map fun r =>
        { r.1 with stops := w.stops.set i r.2 }
    | none => none

/-- The worker and its surroundings. -/
def machine : Machine (FFmpegWorker Frame) (Label Frame) := ⟨step⟩

/-- A worker that was just started. -/
def boot (policy : CircuitBreakerPolicy) (now : ℚ) : FFmpegWorker Frame := (init policy now).start

end FFmpegWorker

end RestreamPlus
