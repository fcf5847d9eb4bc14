import RestreamPlus.Fanout.BackoffHistory

/-!
# How `stop` ends the loop

`stop` sets two events and waits for the lifecycle task. The loop tests the
first one at its head and after each process; the second one it clears before it
waits for a reset. `EndsCleanly` says that a loop a `stop` waits for can return
by what its tasks, the channel and the system still owe (`Owed`), through
STOPPING and IDLE, and that a reset that was heard is acted upon.

Between its last test and the clearing the loop awaits two announcements, and
while it awaits `spawn` there is no process to terminate. A `stop` that comes
then waits in vain. `stop_ends_cleanly` says that at all other times it does not.
-/

namespace RestreamPlus

open Interleaving

namespace FFmpegWorker

variable {Frame : Type}

/-! ## What is still owed -/

/-- The steps of a worker whose `stop` nobody makes impatient: its tasks go on,
the channel takes their events, `spawn` comes back, a process that was signalled
exits, and the pipes of a process that has exited end. -/
def Owed (w : FFmpegWorker Frame) : Label Frame → Prop
  | .accept _ | .lifecycle _ | .spawned | .spawnFailed _ | .resumeStdout | .resumeStderr
  | .stallTick | .resumeStall | .seeExit => True
  | .exit p _ => w.Signalled p
  | .readStdout .eof | .readStderr .eof => ∀ p ∈ w.process, ¬ w.Running p
  | _ => False

/-- The loop can come to its end. -/
def CanLeave (w : FFmpegWorker Frame) : Prop :=
  machine.Leads Owed (fun w => w.lifecycle = .finished .returned) w

/-- The worker is STARTING, or the loop has returned. -/
def Restarted (w : FFmpegWorker Frame) : Prop :=
  w.state = .starting ∨ w.lifecycle = .finished .returned

/-- What happened to the state and to the resets. -/
structure StopLog : Type where
  /-- the states so far, the last one at the end -/
  states : List WorkerState
  /-- a reset was heard in FAILED_OPEN, and the worker is still there -/
  heard : Bool

namespace StopLog

def init : StopLog := ⟨[.idle], false⟩

/-- What a step adds to the history. -/
def note (g : StopLog) (w : FFmpegWorker Frame) (l : Label Frame) (w' : FFmpegWorker Frame) :
    StopLog where
  states := if w'.state = w.state then g.states else g.states ++ [w'.state]
  heard := w'.state = .failedOpen && (g.heard || match l with | .userReset => true | _ => false)

variable {g : StopLog} {w w' : FFmpegWorker Frame} {l : Label Frame}

theorem states_same (h : w'.state = w.state) : (g.note w l w').states = g.states := if_pos h

theorem states_changed (h : w'.state ≠ w.state) :
    (g.note w l w').states = g.states ++ [w'.state] := if_neg h

end StopLog

/-- `stop` has set both events. -/
def Joined : StopPhase → Prop
  | .terminating _ | .killing _ => False
  | _ => True

/-- **`stop` ends the loop cleanly.** -/
structure EndsCleanly (p : FFmpegWorker Frame × StopLog) : Prop where
  /-- the event is not cleared after a `stop` has set it -/
  awake : (∃ phase ∈ p.1.stops, Joined phase) → p.1.lifecycle = .waitingReset →
    p.1.userResetEvent = true
  /-- no `stop` has to cancel the loop -/
  leaves : .awaitingLifecycle ∈ p.1.stops → p.1.LifecycleAlive = true → CanLeave p.1
  /-- none sees it raise -/
  unraised : .awaitingLifecycle ∈ p.1.stops → p.1.lifecycle ≠ .finished .raised
  returned : p.1.lifecycle = .finished .returned →
    ∃ before, p.2.states = before ++ [.stopping, .idle]
  /-- a reset that was heard leads to STARTING, or the loop returns -/
  heard : p.2.heard = true → p.1.LifecycleAlive = true →
    machine.Leads Owed Restarted p.1

/-- Between the last test for a stop and the clearing of the event. -/
def Opening : Lifecycle Frame → Prop
  | .sending _ (.reconnectingSet .open _) | .sending _ .verdictSet => True
  | _ => False

instance : DecidablePred (Opening : Lifecycle Frame → Prop) := by
  intro l
  induction l using Lifecycle.casesOn with
  | sending e k =>
    induction k using AfterSend.casesOn with
    | reconnectingSet verdict _ =>
      induction verdict using BreakerVerdict.casesOn <;> unfold Opening <;> infer_instance
    | _ => unfold Opening; infer_instance
  | _ => unfold Opening; infer_instance

/-- RECONNECTING is announced, and the next delay overflows. -/
def Overflowing (w : FFmpegWorker Frame) : Prop :=
  match w.lifecycle with
  | .sending _ (.reconnectingSet .closed _) => floatMaxExponent ≤ w.attempt
  | _ => False

instance (w : FFmpegWorker Frame) : Decidable w.Overflowing := by
  unfold Overflowing
  generalize w.lifecycle = l
  induction l using Lifecycle.casesOn with
  | sending e k =>
    induction k using AfterSend.casesOn with
    | reconnectingSet verdict _ => induction verdict using BreakerVerdict.casesOn <;> infer_instance
    | _ => infer_instance
  | _ => infer_instance

/-- No `stop` comes while the loop can no longer see it, and `spawn` neither
returns a process nor breaks down once a stop was asked for. -/
def Timely (w : FFmpegWorker Frame) : Label Frame → Prop
  | .stop => ¬ Opening w.lifecycle ∧ ¬ w.Overflowing
  | .spawned | .spawnRaised => w.stopRequested = false
  | _ => True

instance (w : FFmpegWorker Frame) : DecidablePred w.Timely := by
  intro l
  induction l using Label.casesOn <;> unfold Timely <;> infer_instance

/-! ## The invariant -/

/-- Where `_process` may be set. -/
def Holding : Lifecycle Frame → Prop
  | .pumping _ | .sending _ .exitedSent | .finished _ => True
  | _ => False

/-- What a place of the loop says about a stop. -/
def Fit (s : FFmpegWorker Frame) : Prop :=
  match s.lifecycle with
  | .sending _ (.reconnectingSet .open _) | .sending _ .verdictSet => s.stopRequested = false
  | .sending _ (.reconnectingSet .closed _) =>
    s.stopRequested = true → s.attempt < floatMaxExponent
  | .sending _ .stoppingSet | .sending _ .idleSet => s.stopRequested = true
  | .waitingReset => s.stopRequested = true → s.userResetEvent = true
  | .pumping _ =>
    s.process ≠ none ∧ (s.stopRequested = true → ∀ p ∈ s.process, s.Running p → s.Signalled p)
  | .finished .raised => .awaitingLifecycle ∉ s.stops
  | _ => True

/-- A worker whose stops were timely. -/
structure Orderly (s : FFmpegWorker Frame) : Prop extends Booted s where
  fit : Fit s
  gone : ¬ Holding s.lifecycle → s.process = none

section Step

variable {s s' : FFmpegWorker Frame} {draw : ℚ}

theorem fit_sends (hopen : s.sendOpen = true) {e : WorkerEvent Frame} {k : AfterSend}
    (h : Sends s e k s') (hk : Fit { s with lifecycle := .sending ⟨e, false⟩ k }) : Fit s' := by
  cases h with
  | sent => exact hk
  | refused hclosed => exact absurd (hclosed.symm.trans hopen) Bool.false_ne_true

theorem fit_settles (hopen : s.sendOpen = true) (hreq : s.stopRequested = true)
    (h : Settles s s') : Fit s' := by
  cases h with
  | idle hs hsends => exact fit_sends hopen hsends hreq
  | returned hs => trivial

theorem fit_leaves (hopen : s.sendOpen = true) (hreq : s.stopRequested = true)
    (h : Leaves s s') : Fit s' := by
  cases h with
  | stopping hstop hidle hsends => exact fit_sends hopen hsends hreq
  | settles hs hsettles => exact fit_settles hopen hreq hsettles

theorem fit_heads (hopen : s.sendOpen = true) (h : Heads s s') : Fit s' := by
  cases h with
  | leaves hreq hleaves => exact fit_leaves hopen hreq hleaves
  | spawning hreq => trivial

theorem fit_decides (hwait : s.state = .failedOpen → s.stopRequested = false)
    (hsmall : s.stopRequested = true → s.attempt < floatMaxExponent)
    (hasked : s.stops ≠ [] → s.stopRequested = true) (h : Decides s draw s') : Fit s' := by
  cases h with
  | waits hs => exact fun hreq => absurd ((hwait hs).symm.trans hreq) Bool.false_ne_true
  | backsOff hs hdelay => trivial
  | overflows hs hnone =>
    intro hawaits
    obtain ⟨delay, hdelay⟩ :=
      exists_computeBackoff_iff.mpr (hsmall (hasked (List.ne_nil_of_mem hawaits)))
    cases hnone.symm.trans hdelay

theorem fit_judges (hopen : s.sendOpen = true) (hs : s.state = .reconnecting)
    {verdict : BreakerVerdict} (hreq : verdict = .open → s.stopRequested = false)
    (hsmall : s.stopRequested = true → s.attempt < floatMaxExponent)
    (hasked : s.stops ≠ [] → s.stopRequested = true) (h : Judges s verdict draw s') : Fit s' := by
  cases h with
  | opens hstate hverdict hsends => exact fit_sends hopen hsends (hreq hverdict)
  | decides hnot hdecides =>
    exact fit_decides (fun hstate => by cases hs.symm.trans hstate) hsmall hasked hdecides

theorem fit_fails (hopen : s.sendOpen = true) (hs : Up s.state)
    (hasked : s.stops ≠ [] → s.stopRequested = true) (h : Fails s draw s') : Fit s' := by
  cases h with
  | leaves hreq hleaves => exact fit_leaves hopen hreq hleaves
  | announces hreq hstate hsends =>
    rename_i verdict cause
    refine fit_sends hopen hsends ?_
    cases verdict
    · exact fun hasked => absurd (hreq.symm.trans hasked) Bool.false_ne_true
    · exact hreq
  | judges hreq hstarting hrunning hjudges =>
    exact fit_judges hopen ((hs.resolve_left hstarting).resolve_left hrunning) (fun _ => hreq)
      (fun hreq' => absurd (hreq.symm.trans hreq') Bool.false_ne_true) hasked hjudges

/-- The loop goes on after a `send`. -/
theorem fit_goesOn (h : Orderly s) {x : Sending Frame} {k : AfterSend}
    (hl : s.lifecycle = .sending x k) (hg : GoesOn (s.arrived x.event) draw k s') : Fit s' := by
  have hplace := h.place
  have hfit := h.fit
  rw [hl] at hplace
  rw [Fit, hl] at hfit
  have hopen : (s.arrived x.event).sendOpen = true := by
    rw [sendOpen_arrived]
    exact h.sending (by rw [LifecycleAlive, hl])
  have hsame : (s.arrived x.event).stopRequested = s.stopRequested ∧
      (s.arrived x.event).attempt = s.attempt ∧ (s.arrived x.event).stops = s.stops := by
    cases x.event <;> exact ⟨rfl, rfl, rfl⟩
  obtain ⟨hreq, hattempt, hstops⟩ := hsame
  have hasked : (s.arrived x.event).stops ≠ [] → (s.arrived x.event).stopRequested = true := by
    rw [hreq, hstops]
    exact h.asked
  cases hg with
  | startingSet hheads | resetSet hheads => exact fit_heads hopen hheads
  | spawnErrorSent hfails =>
    rw [arrived_of_plain hplace.2] at hopen hasked hfails
    exact fit_fails hopen (hplace.1.elim .inl fun hs => .inr (.inr hs)) hasked hfails
  | exitedSent hfails =>
    rw [arrived_of_plain hplace.2] at hopen hasked hfails
    exact fit_fails (s := { s with process := none }) hopen hplace.1 hasked hfails
  | @reconnectingSet s' verdict t hjudges =>
    obtain ⟨-, cause, he⟩ := hplace
    cases verdict with
    | closed =>
      refine fit_judges hopen (state_arrived he) (fun hopen => by cases hopen) (fun hasked => ?_)
        hasked hjudges
      rw [hattempt]
      exact hfit (hreq.symm.trans hasked)
    | «open» =>
      have hno : (s.arrived x.event).stopRequested = false := hreq.trans hfit
      exact fit_judges hopen (state_arrived he) (fun _ => hno)
        (fun hasked => absurd (hno.symm.trans hasked) Bool.false_ne_true) hasked hjudges
  | verdictSet hdecides =>
    have hno : (s.arrived x.event).stopRequested = false := hreq.trans hfit
    exact fit_decides (fun _ => hno)
      (fun hasked => absurd (hno.symm.trans hasked) Bool.false_ne_true) hasked hdecides
  | stoppingSet hsettles => exact fit_settles hopen (hreq.trans hfit) hsettles
  | idleSet => trivial

theorem fit_resumes (h : Orderly s) (hr : Resumes s draw s') : Fit s' := by
  have hopen := h.sending (only_resumes hr).1
  have hplace := h.place
  cases hr with
  | starts hl hs hsends => exact fit_sends hopen hsends trivial
  | startsAnew hl hs hheads => exact fit_heads hopen hheads
  | sent hl hgo hgoes => exact fit_goesOn h hl hgoes
  | exits hl hpumps hplain hsends => exact fit_sends hopen hsends trivial
  | stops hl hevent hreq hleaves => exact fit_leaves hopen hreq hleaves
  | resets hl hevent hreq hs hsends => exact fit_sends hopen hsends trivial
  | resetsAnew hl hevent hreq hs hheads => exact fit_heads hopen hheads
  | wakes hl hwake hheads => exact fit_heads hopen hheads

theorem gone_resumes (h : Orderly s) (hr : Resumes s draw s') (hhold : ¬ Holding s'.lifecycle) :
    s'.process = none := by
  obtain ⟨hran, ⟨honly, hno⟩ | ⟨x, k, hl, hgo, honly⟩⟩ := only_resumes hr
  · have hprocess : s'.process = s.process := by rw [honly.eq]
    rw [hprocess]
    refine h.gone fun hheld => ?_
    cases hr with
    | exits hl hpumps hplain hsends =>
      cases hsends <;> exact hhold trivial
    | sent hl => exact hno _ _ hl
    | starts hl | startsAnew hl | stops hl | resets hl | resetsAnew hl | wakes hl =>
      rw [hl] at hheld
      exact hheld
  · have hprocess : s'.process = (s.received x.event k).process := by rw [honly.eq]
    rw [hprocess]
    by_cases hk : k = .exitedSent
    · rw [hk]
      rfl
    · have hnone : s.process = none := by
        refine h.gone fun hheld => ?_
        rw [hl] at hheld
        cases k <;> first | exact hk rfl | exact hheld
      obtain ⟨e, accepted⟩ := x
      cases k <;> cases e <;> first | exact hnone | rfl

/-! ### Steps that leave the loop where it is -/

theorem Fit.same (h : Fit s) (hl : s'.lifecycle = s.lifecycle)
    (hreq : s'.stopRequested = s.stopRequested) (hattempt : s'.attempt ≤ s.attempt)
    (hevent : s.userResetEvent = true → s'.userResetEvent = true)
    (hprocess : s'.process = s.process)
    (hstops : .awaitingLifecycle ∈ s'.stops → s.lifecycle = .finished .raised →
      .awaitingLifecycle ∈ s.stops)
    (hrun : ∀ p, s'.Running p → s.Running p)
    (hsig : ∀ p, s'.Running p → s.Signalled p → s'.Signalled p) : Fit s' := by
  rw [Fit] at h ⊢
  rw [hl, hreq, hprocess]
  rcases hlife : s.lifecycle with _ | _ | ⟨x, k⟩ | _ | t | _ | _ | e <;> rw [hlife] at h
  case sending =>
    cases k with
    | reconnectingSet verdict t =>
      cases verdict with
      | closed => exact fun hasked => hattempt.trans_lt (h hasked)
      | «open» => exact h
    | verdictSet | stoppingSet | idleSet => exact h
    | startingSet | spawnErrorSent | exitedSent | resetSet => trivial
  case pumping =>
    exact ⟨h.1, fun hasked p hp hr => hsig p hr (h.2 hasked p hp (hrun p hr))⟩
  case waitingReset => exact fun hasked => hevent (h hasked)
  case finished =>
    cases e with
    | raised => exact fun hawaits => h (hstops hawaits hlife)
    | returned | cancelled => trivial
  all_goals trivial

/-- Inside the task group, for the same process. -/
theorem Fit.inside (h : Fit s) {t : ℚ} (hl : s.lifecycle = .pumping t)
    (hl' : s'.lifecycle = s.lifecycle) (hreq : s'.stopRequested = s.stopRequested)
    (hprocess : s'.process = s.process) (hchildren : s'.children = s.children) : Fit s' := by
  rw [Fit, hl] at h
  rw [Fit, hl', hl, hreq, hprocess]
  refine ⟨h.1, fun hasked p hp hrun => ?_⟩
  have hrun' : s.Running p := by
    rw [Running, ← hchildren]
    exact hrun
  rw [Signalled, hchildren]
  exact h.2 hasked p hp hrun'

theorem awaits_set {stops : List StopPhase} {i : ℕ} {phase : StopPhase}
    (hne : phase ≠ .awaitingLifecycle) (h : .awaitingLifecycle ∈ stops.set i phase) :
    .awaitingLifecycle ∈ stops :=
  (List.mem_or_eq_of_mem_set h).resolve_right fun heq => hne heq.symm

/-! ### `stop` -/

theorem awaits_append {stops : List StopPhase} {phase : StopPhase}
    (hne : phase ≠ .awaitingLifecycle) (h : .awaitingLifecycle ∈ stops ++ [phase]) :
    .awaitingLifecycle ∈ stops :=
  (List.mem_append.mp h).resolve_right fun hnew => hne (List.mem_singleton.mp hnew).symm

/-- A `stop` that signals the process finds it in the task group, or where nothing
is said about it. -/
theorem fit_signals (h : Orderly s) {p : ℕ} (hp : s.process = some p) (hrun : s.Running p) :
    Fit { { s with stopRequested := true }.signal p with
      stops := s.stops ++ [.terminating p] } := by
  have hfit := h.fit
  have hheld : Holding s.lifecycle := by
    by_contra hno
    cases hp.symm.trans (h.gone hno)
  rcases hl : s.lifecycle with _ | _ | ⟨x, k⟩ | _ | t | _ | _ | e <;> rw [hl] at hheld
  case pumping =>
    rw [Fit, hl] at hfit
    rw [Fit, signal]
    refine ⟨hfit.1, fun _ q hq hrun' => ?_⟩
    obtain rfl : p = q := Option.some.inj (hp.symm.trans hq)
    exact signalled_signal (w := { s with stopRequested := true }) hrun
  case sending =>
    cases k <;> first | exact hheld.elim | skip
    rw [Fit, signal]
    trivial
  case finished =>
    rw [Fit, signal]
    cases e with
    | raised =>
      rw [Fit, hl] at hfit
      exact fun hawaits => hfit (awaits_append (fun hp => by cases hp) hawaits)
    | returned | cancelled => trivial
  all_goals exact hheld.elim

/-- A timely `stop` that waits for the loop. -/
theorem fit_awaits (h : Orderly s) (htimely : Timely s .stop)
    (hno : ∀ p ∈ s.process, ¬ s.Running p) (halive : s.LifecycleAlive = true)
    (stops : List StopPhase) :
    Fit { s with stopRequested := true, userResetEvent := true, stops := stops } := by
  obtain ⟨hopening, hoverflow⟩ := htimely
  have hfit := h.fit
  rw [Fit]
  rcases hl : s.lifecycle with _ | _ | ⟨x, k⟩ | _ | t | _ | _ | e
  case notStarted | finished =>
    rw [LifecycleAlive, hl] at halive
    cases halive
  case pumping =>
    rw [Fit, hl] at hfit
    exact ⟨hfit.1, fun _ p hp hrun => absurd hrun (hno p hp)⟩
  case sending =>
    cases k with
    | reconnectingSet verdict t =>
      cases verdict with
      | closed =>
        intro _
        rw [Overflowing, hl] at hoverflow
        exact not_le.mp hoverflow
      | «open» => exact absurd (by rw [hl]; trivial) hopening
    | verdictSet => exact absurd (by rw [hl]; trivial) hopening
    | stoppingSet | idleSet => rfl
    | startingSet | spawnErrorSent | exitedSent | resetSet => trivial
  case waitingReset => exact fun _ => rfl
  all_goals trivial

/-- A `stop` after the loop has ended. -/
theorem fit_closes (h : Orderly s) (hdead : s.LifecycleAlive = false) :
    Fit { s with stopRequested := true, userResetEvent := true, sendOpen := false,
                 stops := s.stops ++ [.closingSend] } := by
  have hfit := h.fit
  rw [Fit]
  rcases hl : s.lifecycle with _ | _ | ⟨x, k⟩ | _ | t | _ | _ | e
  case notStarted => trivial
  case finished =>
    cases e with
    | raised =>
      rw [Fit, hl] at hfit
      exact fun hawaits => hfit (awaits_append (fun hp => by cases hp) hawaits)
    | returned | cancelled => trivial
  all_goals
    rw [LifecycleAlive, hl] at hdead
    cases hdead

theorem fit_stops (h : Orderly s) (htimely : Timely s .stop) {phase : StopPhase}
    (hs : Stops s s' phase) : Fit { s' with stops := s.stops ++ [phase] } := by
  cases hs with
  | signals hp hrun => exact fit_signals h hp hrun
  | joins hno hj =>
    cases hj with
    | awaits halive => exact fit_awaits (s := s) h htimely hno halive _
    | closes hdead => exact fit_closes (s := s) h hdead

theorem fit_joins (h : Orderly s) {i : ℕ} {phase : StopPhase}
    (hj : Joins s s' phase) : Fit { s' with stops := s.stops.set i phase } := by
  cases hj with
  | awaits halive =>
    refine h.fit.same rfl rfl le_rfl (fun _ => rfl) rfl (fun _ hl => ?_) (fun _ => id)
      fun _ _ => id
    rw [LifecycleAlive, hl] at halive
    cases halive
  | closes hdead =>
    exact h.fit.same rfl rfl le_rfl (fun _ => rfl) rfl
      (fun hawaits _ => awaits_set (fun hp => by cases hp) hawaits) (fun _ => id) fun _ _ => id

theorem fit_stopGoesOn (h : Orderly s) {i : ℕ} {timedOut : Bool} {phase phase' : StopPhase}
    (hg : StopGoesOn s phase timedOut s' phase') :
    Fit { s' with stops := s.stops.set i phase' } := by
  have hover {e : Ended} (hl : s.lifecycle = .finished e) {s' : FFmpegWorker Frame}
      (hl' : s'.lifecycle = s.lifecycle) {phase' : StopPhase} (hno : phase' ≠ .awaitingLifecycle) :
      Fit { s' with stops := s.stops.set i phase' } := by
    have hfit := h.fit
    rw [Fit] at hfit ⊢
    simp only [hl', hl] at hfit ⊢
    cases e with
    | raised => exact fun hawaits => hfit (awaits_set hno hawaits)
    | returned | cancelled => trivial
  have hsame {phase' : StopPhase} (hno : phase' ≠ .awaitingLifecycle) :
      Fit { s with stops := s.stops.set i phase' } :=
    h.fit.same rfl rfl le_rfl id rfl (fun hawaits _ => awaits_set hno hawaits) (fun _ => id)
      fun _ _ => id
  cases hg with
  | exited hexited hj => exact fit_joins h hj
  | killed hj => exact fit_joins h hj
  | kills =>
    exact h.fit.same rfl rfl le_rfl id rfl
      (fun hawaits _ => awaits_set (fun hp => by cases hp) hawaits)
      (fun _ => running_signal.mp) fun _ _ hsig => hsig.signal
  | joined hl => exact hover hl rfl fun hp => by cases hp
  | raised hl he => exact hover hl rfl fun hp => by cases hp
  | cancelled hl he => exact hover hl rfl fun hp => by cases hp
  | raisedAnyway hl => exact hover hl rfl fun hp => by cases hp
  | cancels hc =>
    cases hc with
    | ended hdead => exact hsame fun hp => by cases hp
    | swallowed hl hfailed => exact hsame fun hp => by cases hp
    | pumping hl hgoing => trivial
    | elsewhere halive hno => trivial
  | closesReceive =>
    exact h.fit.same rfl rfl le_rfl id rfl
      (fun hawaits _ => awaits_set (fun hp => by cases hp) hawaits) (fun _ => id) fun _ _ => id
  | returns => exact hsame fun hp => by cases hp

/-! ### Every step -/

theorem gone_stopGoesOn (h : Orderly s) {phase phase' : StopPhase} {timedOut : Bool}
    (hg : StopGoesOn s phase timedOut s' phase') (hhold : ¬ Holding s'.lifecycle) :
    s'.process = none := by
  have hjoins {s' : FFmpegWorker Frame} {phase : StopPhase} (hj : Joins s s' phase)
      (hhold : ¬ Holding s'.lifecycle) : s'.process = none := by
    cases hj <;> exact h.gone hhold
  cases hg with
  | exited hexited hj => exact hjoins hj hhold
  | killed hj => exact hjoins hj hhold
  | cancels hc =>
    cases hc with
    | ended hdead => exact h.gone hhold
    | swallowed hl hfailed => exact h.gone hhold
    | pumping hl hgoing => exact absurd trivial hhold
    | elsewhere halive hno => exact absurd trivial hhold
  | kills | joined | raised | cancelled | raisedAnyway | closesReceive | returns =>
    exact h.gone hhold

theorem fit_moves (h : Orderly s) {l : Label Frame} (htimely : Timely s l) (hm : Moves s l s') :
    Fit s' := by
  have hfit := h.fit
  cases hm with
  | beside hl hb =>
    exact hfit.same (by rw [hb.eq]) (by rw [hb.eq]) (by rw [hb.eq]) (by rw [hb.eq]; exact id)
      (by rw [hb.eq]) (fun hawaits _ => by rw [hb.eq] at hawaits; exact hawaits) hb.running
      hb.signalled
  | @taken e k hopen hl =>
    rw [Fit, hl] at hfit
    rw [Fit]
    cases k with
    | reconnectingSet verdict t => cases verdict <;> exact hfit
    | _ => exact hfit
  | announcementTaken hopen hx | progressTaken hopen hx | errorTaken hopen hx =>
    exact hfit.same rfl rfl le_rfl id rfl (fun hawaits _ => hawaits) (fun _ => id) fun _ _ => id
  | resumes hr => exact fit_resumes h hr
  | spawns hl =>
    refine ⟨(fun hp => by cases hp), fun hreq => ?_⟩
    exact absurd (htimely.symm.trans hreq) Bool.false_ne_true
  | spawnFails hl hsends =>
    exact fit_sends (h.sending (by rw [LifecycleAlive, hl])) hsends trivial
  | spawnRaises hl =>
    intro hawaits
    have hreq := h.asked (List.ne_nil_of_mem hawaits)
    exact absurd (htimely.symm.trans hreq) Bool.false_ne_true
  | reads hreading hr =>
    obtain ⟨t, hl⟩ := h.pumping fun b hb => by rw [hb] at hreading; cases hreading
    have hpump := pumpOnly_reads hr
    exact hfit.inside hl (by rw [hpump]) (by rw [hpump]) (by rw [hpump]) (by rw [hpump])
  | stdoutGoesOn hg =>
    obtain ⟨t, hl⟩ : ∃ t, s.lifecycle = .pumping t := by
      cases hg with
      | announced hx | resumed hx | reported hx | erred hx =>
        exact h.pumping fun b hb => by rw [hb] at hx; cases hx
    have hpump := pumpOnly_stdoutGoesOn hg
    exact hfit.inside hl (by rw [hpump]) (by rw [hpump]) (by rw [hpump]) (by rw [hpump])
  | pumpRaises halive =>
    exact hfit.same rfl rfl le_rfl id rfl (fun hawaits _ => hawaits) (fun _ => id) fun _ _ => id
  | resets hs =>
    exact hfit.same rfl rfl (Nat.zero_le _) (fun _ => rfl) rfl (fun hawaits _ => hawaits)
      (fun _ => id) fun _ _ => id
  | resetIgnored hs => exact hfit
  | stops hs => exact fit_stops h htimely hs
  | stopGoesOn hphase hg => exact fit_stopGoesOn h hg

theorem gone_moves (h : Orderly s) {l : Label Frame} (hm : Moves s l s')
    (hhold : ¬ Holding s'.lifecycle) : s'.process = none := by
  cases hm with
  | beside hl hb =>
    rw [hb.eq] at hhold ⊢
    exact h.gone hhold
  | @taken e k hopen hl =>
    refine h.gone fun hheld => hhold ?_
    rw [hl] at hheld
    cases k <;> first | exact trivial | exact hheld.elim
  | resumes hr => exact gone_resumes h hr hhold
  | spawns hl => exact absurd trivial hhold
  | spawnFails hl hsends =>
    rw [(only_sends hsends).eq]
    exact h.gone (by rw [hl]; exact not_false)
  | spawnRaises hl => exact absurd trivial hhold
  | reads hreading hr =>
    rw [pumpOnly_reads hr] at hhold ⊢
    exact h.gone hhold
  | stdoutGoesOn hg =>
    rw [pumpOnly_stdoutGoesOn hg] at hhold ⊢
    exact h.gone hhold
  | stops hs =>
    cases hs with
    | signals hp hrun => exact h.gone hhold
    | joins hno hj => cases hj <;> exact h.gone hhold
  | stopGoesOn hphase hg =>
    have hnone := gone_stopGoesOn h hg hhold
    exact hnone
  | announcementTaken | progressTaken | errorTaken | pumpRaises | resets | resetIgnored =>
    exact h.gone hhold

/-- **One timely step.** -/
theorem orderly_moves (h : Orderly s) {l : Label Frame} (htimely : Timely s l)
    (hm : Moves s l s') : Orderly s' :=
  ⟨booted_moves h.toBooted hm, fit_moves h htimely hm, gone_moves h hm⟩

end Step

theorem orderly_boot (policy : CircuitBreakerPolicy) (now : ℚ) :
    Orderly (boot policy now : FFmpegWorker Frame).bare :=
  ⟨booted_boot policy now, trivial, fun _ => rfl⟩

theorem orderly_step {w w' : FFmpegWorker Frame} {l : Label Frame} (h : Orderly w.bare)
    (htimely : Timely w l) (hs : machine.step w l = some w') : Orderly w'.bare := by
  refine orderly_moves h ?_ (moves_of_step hs)
  cases l <;> exact htimely

/-! ## The way out -/

/-- An event that is not yet taken takes a step more. -/
def sendRank (x : Sending Frame) : ℕ := if x.accepted then 0 else 1

@[simp] theorem sendRank_taken (e : WorkerEvent Frame) : sendRank ⟨e, true⟩ = 0 := rfl

@[simp] theorem sendRank_sent (e : WorkerEvent Frame) : sendRank ⟨e, false⟩ = 1 := rfl

/-- How far a loop that was asked to stop is from its end. -/
def distance : Lifecycle Frame → ℕ
  | .notStarted | .finished _ => 0
  | .sending x .idleSet => 1 + sendRank x
  | .sending x .stoppingSet => 3 + sendRank x
  | .waitingReset | .backingOff _ => 5
  | .sending x _ => 6 + sendRank x
  | .created | .spawning | .pumping _ => 8

/-- What the stdout pump has left to do. -/
def stdoutRank : StdoutPump Frame → ℕ
  | .done => 0
  | .reading => 1
  | .erring x _ => 2 + sendRank x
  | .progressing x rest => 2 + 4 * rest.length + sendRank x
  | .announcing x _ rest _ => 4 + 4 * rest.length + sendRank x

def stderrRank : StderrPump Frame → ℕ
  | .done => 0
  | .reading => 1
  | .erring x => 1 + sendRank x

def stallRank : StallWatcher Frame → ℕ
  | .done => 0
  | .sleeping => 1
  | .sending x _ => 1 + sendRank x

def exitRank : ExitWaiter → ℕ
  | .done => 0
  | .waiting => 1

def pumpsRank (pumps : Pumps Frame) : ℕ :=
  stdoutRank pumps.stdout + stderrRank pumps.stderr + stallRank pumps.stall + exitRank pumps.exit

/-- A process that still runs takes a step more. -/
def runningRank (w : FFmpegWorker Frame) : ℕ :=
  match w.process with
  | some p => if w.Running p then 1 else 0
  | none => 0

/-- The steps a stopped worker has left. -/
def rank (w : FFmpegWorker Frame) : ℕ := distance w.lifecycle + pumpsRank w.pumps + w.runningRank

section Turn

variable {s s' : FFmpegWorker Frame} {draw : ℚ}

/-- The loop goes on, or has returned. -/
def Ongoing (w : FFmpegWorker Frame) : Prop :=
  w.LifecycleAlive = true ∨ w.lifecycle = .finished .returned

/-- The loop comes nearer to its end. -/
def Nearer (s s' : FFmpegWorker Frame) : Prop :=
  Ongoing s' ∧ distance s'.lifecycle < distance s.lifecycle

theorem nearer_sends (hopen : s.sendOpen = true) {e : WorkerEvent Frame} {k : AfterSend}
    (h : Sends s e k s') {n : ℕ} (hn : distance (.sending ⟨e, false⟩ k : Lifecycle Frame) < n) :
    Ongoing s' ∧ distance s'.lifecycle < n := by
  have hl := lifecycle_of_sends hopen h
  rw [hl]
  exact ⟨.inl (by rw [LifecycleAlive, hl]), hn⟩

/-- STOPPING is announced. -/
theorem nearer_leaves (hopen : s.sendOpen = true) (hup : Up s.state ∨ s.state = .failedOpen)
    (h : Leaves s s') : Ongoing s' ∧ distance s'.lifecycle < 5 := by
  cases h with
  | stopping hstop hidle hsends => exact nearer_sends hopen hsends (by simp [distance])
  | settles hs hsettles =>
    rcases hup with (hup | hup | hup) | hup <;> rcases hs with hs | hs <;> cases hup.symm.trans hs

theorem nearer_heads (hopen : s.sendOpen = true) (hreq : s.stopRequested = true)
    (hup : Up s.state) (h : Heads s s') : Ongoing s' ∧ distance s'.lifecycle < 5 := by
  cases h with
  | leaves hasked hleaves => exact nearer_leaves hopen (.inl hup) hleaves
  | spawning hno => exact absurd (hno.symm.trans hreq) Bool.false_ne_true

theorem nearer_fails (hopen : s.sendOpen = true) (hreq : s.stopRequested = true)
    (hup : Up s.state) (h : Fails s draw s') : Ongoing s' ∧ distance s'.lifecycle < 5 := by
  cases h with
  | leaves hasked hleaves => exact nearer_leaves hopen (.inl hup) hleaves
  | announces hno => exact absurd (hno.symm.trans hreq) Bool.false_ne_true
  | judges hno => exact absurd (hno.symm.trans hreq) Bool.false_ne_true

/-- A delay is chosen, and not waited for. -/
theorem nearer_decides (hs : s.state = .reconnecting) (hsmall : s.attempt < floatMaxExponent)
    (h : Decides s draw s') : Ongoing s' ∧ distance s'.lifecycle < 6 := by
  cases h with
  | waits hstate => cases hs.symm.trans hstate
  | backsOff hstate hdelay => exact ⟨.inl rfl, Nat.lt_succ_self 5⟩
  | overflows hstate hnone =>
    obtain ⟨delay, hdelay⟩ := exists_computeBackoff_iff.mpr hsmall
    cases hnone.symm.trans hdelay

theorem nearer_goesOn (h : Orderly s) (hreq : s.stopRequested = true) {x : Sending Frame}
    {k : AfterSend} (hl : s.lifecycle = .sending x k)
    (hg : GoesOn (s.arrived x.event) draw k s') : Nearer s s' := by
  have hplace := h.place
  have hfit := h.fit
  rw [hl] at hplace
  rw [Fit, hl] at hfit
  rw [Nearer, hl]
  have hopen : (s.arrived x.event).sendOpen = true := by
    rw [sendOpen_arrived]
    exact h.sending (by rw [LifecycleAlive, hl])
  have hsame : (s.arrived x.event).stopRequested = s.stopRequested ∧
      (s.arrived x.event).attempt = s.attempt := by
    cases x.event <;> exact ⟨rfl, rfl⟩
  obtain ⟨hasked, hattempt⟩ := hsame
  have hasked := hasked.trans hreq
  have hfive {n : ℕ} (h : Ongoing s' ∧ distance s'.lifecycle < 5) :
      Ongoing s' ∧ distance s'.lifecycle < 6 + n :=
    ⟨h.1, h.2.trans_le (by omega)⟩
  cases hg with
  | startingSet hheads =>
    obtain ⟨-, cause, he⟩ := hplace
    exact hfive (nearer_heads hopen hasked (.inl (state_arrived he)) hheads)
  | resetSet hheads =>
    obtain ⟨-, cause, he⟩ := hplace
    exact hfive (nearer_heads hopen hasked (.inl (state_arrived he)) hheads)
  | spawnErrorSent hfails =>
    rw [arrived_of_plain hplace.2] at hopen hasked hfails
    exact hfive (nearer_fails hopen hasked (hplace.1.elim .inl fun hs => .inr (.inr hs)) hfails)
  | exitedSent hfails =>
    rw [arrived_of_plain hplace.2] at hopen hasked hfails
    exact hfive (nearer_fails (s := { s with process := none }) hopen hasked hplace.1 hfails)
  | @reconnectingSet s' verdict t hjudges =>
    obtain ⟨-, cause, he⟩ := hplace
    cases verdict with
    | closed =>
      cases hjudges with
      | opens hs hverdict => cases hverdict
      | decides hnot hdecides =>
        have hsmall : (s.arrived x.event).attempt < floatMaxExponent := by
          rw [hattempt]
          exact hfit hreq
        obtain ⟨hgoing, hlt⟩ := nearer_decides (state_arrived he) hsmall hdecides
        exact ⟨hgoing, hlt.trans_le (Nat.le_add_right 6 _)⟩
    | «open» => exact absurd (hfit.symm.trans hreq) Bool.false_ne_true
  | verdictSet hdecides => exact absurd (hfit.symm.trans hreq) Bool.false_ne_true
  | stoppingSet hsettles =>
    obtain ⟨-, cause, he⟩ := hplace
    cases hsettles with
    | idle hs hsends =>
      exact nearer_sends hopen hsends
        (Nat.lt_of_lt_of_le (Nat.lt_succ_self 2) (Nat.le_add_right 3 _))
    | returned hs => exact absurd (state_arrived he) hs
  | idleSet => exact ⟨.inr rfl, Nat.lt_of_lt_of_le Nat.zero_lt_one (Nat.le_add_right 1 _)⟩

/-- **The loop comes nearer to its end** whenever it goes on. -/
theorem nearer_resumes (h : Orderly s) (hreq : s.stopRequested = true)
    (hr : Resumes s draw s') : Nearer s s' := by
  have hopen := h.sending (only_resumes hr).1
  have hplace := h.place
  cases hr with
  | starts hl hs hsends =>
    rw [Nearer, hl]
    exact nearer_sends hopen hsends (by simp [distance])
  | startsAnew hl hs hheads =>
    rw [hl] at hplace
    exact absurd hplace hs
  | sent hl hgo hgoes => exact nearer_goesOn h hreq hl hgoes
  | exits hl hpumps hplain hsends =>
    rw [Nearer, hl]
    exact nearer_sends hopen hsends (by simp [distance])
  | stops hl hevent hasked hleaves =>
    rw [hl] at hplace
    rw [Nearer, hl]
    exact nearer_leaves hopen (.inr hplace) hleaves
  | resets hl hevent hno => exact absurd (hno.symm.trans hreq) Bool.false_ne_true
  | resetsAnew hl hevent hno => exact absurd (hno.symm.trans hreq) Bool.false_ne_true
  | wakes hl hwake hheads =>
    rw [hl] at hplace
    rw [Nearer, hl]
    exact nearer_heads hopen hreq (.inr (.inr hplace)) hheads

theorem runningRank_le (hprocess : s'.process = s.process ∨ s'.process = none)
    (hchildren : s'.children = s.children) : s'.runningRank ≤ s.runningRank := by
  rw [runningRank, runningRank]
  rcases hprocess with hsame | hnone
  · have hrun (p : ℕ) : s'.Running p ↔ s.Running p := by rw [Running, Running, hchildren]
    simp only [hsame, hrun]
    exact le_rfl
  · rw [hnone]
    exact Nat.zero_le _

/-- The loop takes its pumps and its process along. -/
theorem rank_resumes (h : Orderly s) (hreq : s.stopRequested = true) (hr : Resumes s draw s') :
    Ongoing s' ∧ rank s' < rank s := by
  obtain ⟨hgoing, hlt⟩ := nearer_resumes h hreq hr
  have hkept : s'.pumps = s.pumps ∧ (s'.process = s.process ∨ s'.process = none) ∧
      s'.children = s.children := by
    obtain ⟨-, ⟨honly, -⟩ | ⟨⟨e, accepted⟩, k, hl, hgo, honly⟩⟩ := only_resumes hr
    · rw [honly.eq]
      exact ⟨rfl, .inl rfl, rfl⟩
    · rw [honly.eq]
      cases k <;> cases e <;> first | exact ⟨rfl, .inl rfl, rfl⟩ | exact ⟨rfl, .inr rfl, rfl⟩
  obtain ⟨hpumps, hprocess, hchildren⟩ := hkept
  have hle := runningRank_le hprocess hchildren
  refine ⟨hgoing, ?_⟩
  rw [rank, rank, hpumps]
  omega

end Turn

section Owed

variable {w : FFmpegWorker Frame}

/-- Some owed step brings a stopped worker nearer to its end. -/
def Helped (w : FFmpegWorker Frame) : Prop :=
  ∃ l w', Owed w l ∧ Timely w l ∧ machine.step w l = some w' ∧ Ongoing w' ∧ rank w' < rank w

theorem helped_lifecycle (h : Orderly w.bare) (hreq : w.stopRequested = true)
    {w' : FFmpegWorker Frame} (hs : w.resumeLifecycle 0 = some w') : Helped w := by
  obtain ⟨hgoing, hlt⟩ := rank_resumes h hreq (resumes_resumeLifecycle hs)
  exact ⟨.lifecycle 0, w', trivial, trivial, hs, hgoing, hlt⟩

/-- A `send` of the loop comes back, or the channel takes its event. -/
theorem helped_sending (h : Orderly w.bare) (hreq : w.stopRequested = true) {x : Sending Frame}
    {k : AfterSend} (hl : w.lifecycle = .sending x k) : Helped w := by
  by_cases hgo : w.canGoOn x = true
  · have hs : w.resumeLifecycle 0 = some ((w.arrived x.event).afterSend 0 k) := by
      rw [resumeLifecycle, hl]
      exact if_pos hgo
    exact helped_lifecycle h hreq hs
  · obtain ⟨e, accepted⟩ := x
    obtain ⟨rfl, hopen⟩ : accepted = false ∧ w.receiveOpen = true := by
      simpa [canGoOn] using hgo
    refine ⟨.accept .lifecycle, { w with
        channel := w.channel ++ [e], lifecycle := .sending ⟨e, true⟩ k }, trivial, trivial, ?_,
      .inl rfl, ?_⟩
    · change w.accept .lifecycle = _
      simp only [accept, hopen, if_true, hl]
    · have hlt : distance (.sending ⟨e, true⟩ k : Lifecycle Frame) < distance w.lifecycle := by
        rw [hl]
        cases k <;> simp [distance]
      exact Nat.add_lt_add_right (Nat.add_lt_add_right hlt _) _

/-- A spawn that fails. -/
theorem helped_spawning (h : Orderly w.bare) (hl : w.lifecycle = .spawning) : Helped w := by
  have hs : machine.step w (.spawnFailed "") = some (w.spawnFailed "") :=
    if_pos (spawning_iff.mpr hl)
  have hsends : Sends w.bare (.error ("spawn failed: " ++ "") false) .spawnErrorSent
      (w.spawnFailed "").bare := sends_of_bare (by rfl)
  have hopen : w.bare.sendOpen = true := h.sending (by rw [LifecycleAlive, bare, hl])
  have hlife := lifecycle_of_sends hopen hsends
  have heq := (only_sends hsends).eq
  refine ⟨.spawnFailed "", _, trivial, trivial, hs, .inl ?_, ?_⟩
  · change (w.spawnFailed "").bare.LifecycleAlive = true
    rw [LifecycleAlive, hlife]
  · have hle : (w.spawnFailed "").bare.runningRank ≤ w.bare.runningRank :=
      runningRank_le (.inl (by rw [heq])) (by rw [heq])
    have hpumps : (w.spawnFailed "").bare.pumps = w.bare.pumps := by rw [heq]
    have hlt : distance (w.spawnFailed "").bare.lifecycle < distance w.bare.lifecycle := by
      rw [hlife, bare, hl]
      simp [distance]
    change rank (w.spawnFailed "").bare < rank w.bare
    rw [rank, rank, hpumps]
    omega

/-! ### The task group -/

/-- A pump comes nearer to its end. -/
theorem helped_pump {l : Label Frame} {pumps : Pumps Frame} {t : FFmpegWorker Frame}
    (hl : t.lifecycle = w.lifecycle) (halive : w.LifecycleAlive = true)
    (hrun : t.runningRank = w.runningRank) (hpumps : t.pumps = pumps)
    (hlt : pumpsRank pumps < pumpsRank w.pumps) (howed : Owed w l) (htimely : Timely w l)
    (hs : machine.step w l = some t) : Helped w := by
  refine ⟨l, t, howed, htimely, hs, .inl ?_, ?_⟩
  · rw [LifecycleAlive, hl]
    exact halive
  · rw [rank, rank, hl, hrun, hpumps]
    omega

/-- The reader takes an event of a pump. -/
theorem helped_accept (halive : w.LifecycleAlive = true) (sender : Sender) (e : WorkerEvent Frame)
    (pumps : Pumps Frame) (hlt : pumpsRank pumps < pumpsRank w.pumps)
    (hs : w.accept sender = some { w with channel := w.channel ++ [e], pumps := pumps }) :
    Helped w :=
  helped_pump (l := .accept sender) (t := { w with channel := w.channel ++ [e], pumps := pumps })
    rfl halive rfl rfl hlt trivial trivial hs

/-- A `send` that cannot go on waits for the reader. -/
theorem exists_of_not_canGoOn {x : Sending Frame} (hno : ¬ w.canGoOn x = true) :
    ∃ e, x = ⟨e, false⟩ ∧ w.receiveOpen = true := by
  obtain ⟨e, accepted⟩ := x
  obtain ⟨rfl, hopen⟩ : accepted = false ∧ w.receiveOpen = true := by
    simpa [canGoOn] using hno
  exact ⟨e, rfl, hopen⟩

/-- A pump that is sending goes on, or the reader takes its event. -/
theorem helped_pumpSending (halive : w.LifecycleAlive = true) (sender : Sender)
    (x : Sending Frame) (pumps : WorkerEvent Frame → Pumps Frame)
    (hresumes : w.canGoOn x = true → Helped w)
    (haccept : ∀ e, x = ⟨e, false⟩ → w.receiveOpen = true →
      pumpsRank (pumps e) < pumpsRank w.pumps ∧
        w.accept sender = some { w with channel := w.channel ++ [e], pumps := pumps e }) :
    Helped w := by
  by_cases hgo : w.canGoOn x = true
  · exact hresumes hgo
  · obtain ⟨e, heq, hopen⟩ := exists_of_not_canGoOn hgo
    obtain ⟨hlt, hs⟩ := haccept e heq hopen
    exact helped_accept halive sender e (pumps e) hlt hs

theorem runningRank_of_running {p : ℕ} (hp : w.process = some p) (hrun : w.Running p) :
    w.runningRank = 1 := by
  rw [runningRank, hp]
  exact if_pos hrun

theorem runningRank_of_exited {p : ℕ} (hp : w.process = some p) (hexited : ¬ w.Running p) :
    w.runningRank = 0 := by
  rw [runningRank, hp]
  exact if_neg hexited

/-- The process exits. -/
theorem helped_exit (halive : w.LifecycleAlive = true) {p : ℕ} (hp : w.process = some p)
    (hrun : w.Running p) (hsig : w.Signalled p) : Helped w := by
  refine ⟨.exit p 0, { w with
      children := w.children.modify p fun c => { c with returncode := some 0 } }, hsig, trivial,
    if_pos hrun, .inl halive, ?_⟩
  have hgone : ¬ FFmpegWorker.Running
      { w with children := w.children.modify p fun c => { c with returncode := some 0 } } p :=
    fun h => (running_of_exit h).2 rfl
  have hzero := runningRank_of_exited (w := { w with
      children := w.children.modify p fun c => { c with returncode := some 0 } }) hp hgone
  rw [rank, rank, hzero, runningRank_of_running hp hrun]
  exact Nat.lt_succ_self _

theorem helped_stall (halive : w.LifecycleAlive = true) {p : ℕ} (hp : w.process = some p)
    (hexited : ¬ w.Running p) (hgoing : w.pumps.stall ≠ .done) : Helped w := by
  rcases hx : w.pumps.stall with _ | ⟨x, q⟩ | _
  · refine helped_pump (l := .stallTick)
      (t := { w with pumps := { w.pumps with stall := .done } }) rfl halive rfl rfl ?_ trivial
      trivial ?_
    · simp [pumpsRank, stallRank, hx]
    · simp only [machine, step, hx, stallTick, hp, if_neg hexited]
  · refine helped_pumpSending halive .stall x
      (fun e => { w.pumps with stall := .sending ⟨e, true⟩ q }) (fun hgo => ?_) ?_
    · refine helped_pump (l := .resumeStall)
        (t := { w with pumps := { w.pumps with stall := .done } }.signal q) rfl halive ?_ rfl ?_
        trivial trivial ?_
      · rw [runningRank_of_exited hp hexited]
        exact runningRank_of_exited hp fun hrun => hexited (running_signal.mp hrun)
      · change pumpsRank { w.pumps with stall := .done } < pumpsRank w.pumps
        simp only [pumpsRank, stallRank, hx]
        omega
      · simp only [machine, step, resumeStall, hx, if_pos hgo]
    · rintro e rfl hopen
      refine ⟨?_, ?_⟩
      · simp [pumpsRank, stallRank, hx]
      · simp only [accept, hopen, if_true, hx]
  · exact absurd hx hgoing

theorem helped_seeExit (halive : w.LifecycleAlive = true) {p : ℕ} (hp : w.process = some p)
    (hexited : ¬ w.Running p) (hgoing : w.pumps.exit ≠ .done) : Helped w := by
  have hx : w.pumps.exit = .waiting := by
    cases hx : w.pumps.exit with
    | waiting => rfl
    | done => exact absurd hx hgoing
  refine helped_pump (l := .seeExit) (t := { w with pumps := { w.pumps with exit := .done } }) rfl
    halive rfl rfl ?_ trivial trivial ?_
  · simp [pumpsRank, exitRank, hx]
  · simp only [machine, step, seeExit, hx, hp, if_neg hexited]

theorem helped_stderr (halive : w.LifecycleAlive = true)
    (hexited : ∀ p ∈ w.process, ¬ w.Running p) (hgoing : w.pumps.stderr ≠ .done) : Helped w := by
  rcases hx : w.pumps.stderr with _ | x | _
  · refine helped_pump (l := .readStderr .eof)
      (t := { w with pumps := { w.pumps with stderr := .done } }) rfl halive rfl rfl ?_ hexited
      trivial ?_
    · simp [pumpsRank, stderrRank, hx]
    · simp only [machine, step, hx, readStderr]
  · refine helped_pumpSending halive .stderr x
      (fun e => { w.pumps with stderr := .erring ⟨e, true⟩ }) (fun hgo => ?_) ?_
    · refine helped_pump (l := .resumeStderr)
        (t := { w with pumps := { w.pumps with stderr := .done } }) rfl halive rfl rfl ?_ trivial
        trivial ?_
      · simp only [pumpsRank, stderrRank, hx]
        omega
      · simp only [machine, step, resumeStderr, hx, if_pos hgo]
    · rintro e rfl hopen
      refine ⟨?_, ?_⟩
      · simp [pumpsRank, stderrRank, hx]
      · simp only [accept, hopen, if_true, hx]
  · exact absurd hx hgoing

theorem rank_pumpSends {s s' : FFmpegWorker Frame} {pumps : Pumps Frame}
    (h : PumpSends s pumps s') : pumpsRank s'.pumps ≤ pumpsRank pumps := by
  cases h with
  | sent hopen => exact le_rfl
  | refused hclosed => exact Nat.zero_le _

/-- A frame takes four steps. -/
theorem rank_handles {s s' : FFmpegWorker Frame} {frames : List Frame} (h : Handles s frames s') :
    pumpsRank s'.pumps ≤ pumpsRank { s.pumps with stdout := .reading } + 4 * frames.length := by
  cases h with
  | none => exact Nat.le_add_right _ _
  | first hs hsends | resumed hs hsends | reports hstarting hreconnecting hsends =>
    refine (rank_pumpSends hsends).trans ?_
    simp only [pumpsRank, stdoutRank, sendRank_sent, List.length_cons]
    omega

theorem rank_stdoutGoesOn {s s' : FFmpegWorker Frame} (h : StdoutGoesOn s s') :
    pumpsRank s'.pumps < pumpsRank s.pumps := by
  cases h with
  | announced hx hgo hsends | resumed hx hgo hsends =>
    refine (rank_pumpSends hsends).trans_lt ?_
    simp only [pumpsRank, hx, stdoutRank, sendRank_sent]
    omega
  | reported hx hgo hhandles =>
    refine (rank_handles hhandles).trans_lt ?_
    simp only [pumpsRank, hx, stdoutRank]
    omega
  | @erred x goesOn hx hgo =>
    simp only [pumpsRank, hx]
    cases goesOn <;> simp only [stdoutRank, Bool.false_eq_true, if_true, if_false] <;> omega

theorem helped_resumeStdout (halive : w.LifecycleAlive = true) {w' : FFmpegWorker Frame}
    (hs : w.resumeStdout = some w') : Helped w := by
  have hgoes := stdoutGoesOn_resumeStdout hs
  have hpump := pumpOnly_stdoutGoesOn hgoes
  have hprocess : w'.bare.process = w.bare.process := by rw [hpump]
  have hchildren : w'.bare.children = w.bare.children := by rw [hpump]
  have hlife : w'.bare.lifecycle = w.bare.lifecycle := by rw [hpump]
  have hle := runningRank_le (.inl hprocess) hchildren
  have hlt := rank_stdoutGoesOn hgoes
  refine ⟨.resumeStdout, w', trivial, trivial, hs, .inl ?_, ?_⟩
  · change w'.bare.LifecycleAlive = true
    rw [LifecycleAlive, hlife]
    exact halive
  · change rank w'.bare < rank w.bare
    rw [rank, rank, hlife]
    omega

theorem helped_stdout (halive : w.LifecycleAlive = true)
    (hexited : ∀ p ∈ w.process, ¬ w.Running p) (hgoing : w.pumps.stdout ≠ .done) : Helped w := by
  have hresumes (hsome : w.resumeStdout.isSome = true) : Helped w := by
    obtain ⟨w', hs⟩ := Option.isSome_iff_exists.mp hsome
    exact helped_resumeStdout halive hs
  rcases hx : w.pumps.stdout with _ | ⟨x, frame, rest, fresh⟩ | ⟨x, rest⟩ | ⟨x, goesOn⟩ | _
  · refine helped_pump (l := .readStdout .eof)
      (t := { w with pumps := { w.pumps with stdout := .done } }) rfl halive rfl rfl ?_ hexited
      trivial ?_
    · simp [pumpsRank, stdoutRank, hx]
    · simp only [machine, step, hx, readStdout]
  · refine helped_pumpSending halive .stdout x
      (fun e => { w.pumps with stdout := .announcing ⟨e, true⟩ frame rest fresh })
      (fun hgo => hresumes ?_) ?_
    · rw [resumeStdout, hx]
      exact congrArg Option.isSome (if_pos hgo)
    · rintro e rfl hopen
      refine ⟨?_, ?_⟩
      · simp [pumpsRank, stdoutRank, hx]
      · simp only [accept, hopen, if_true, hx]
  · refine helped_pumpSending halive .stdout x
      (fun e => { w.pumps with stdout := .progressing ⟨e, true⟩ rest }) (fun hgo => hresumes ?_) ?_
    · rw [resumeStdout, hx]
      exact congrArg Option.isSome (if_pos hgo)
    · rintro e rfl hopen
      refine ⟨?_, ?_⟩
      · simp [pumpsRank, stdoutRank, hx]
      · simp only [accept, hopen, if_true, hx]
  · refine helped_pumpSending halive .stdout x
      (fun e => { w.pumps with stdout := .erring ⟨e, true⟩ goesOn }) (fun hgo => hresumes ?_) ?_
    · rw [resumeStdout, hx]
      exact congrArg Option.isSome (if_pos hgo)
    · rintro e rfl hopen
      refine ⟨?_, ?_⟩
      · simp [pumpsRank, stdoutRank, hx]
      · simp only [accept, hopen, if_true, hx]
  · exact absurd hx hgoing

/-- Inside the task group: the process first, then the pumps one by one. -/
theorem helped_pumping (h : Orderly w.bare) (hreq : w.stopRequested = true) {t : ℚ}
    (hl : w.lifecycle = .pumping t) : Helped w := by
  have halive : w.LifecycleAlive = true := alive_of_pumping hl
  have hfit := h.fit
  rw [Fit, bare, hl] at hfit
  obtain ⟨hsome, hlive⟩ := hfit
  obtain ⟨p, hp⟩ := Option.ne_none_iff_exists'.mp hsome
  by_cases hrun : w.Running p
  · exact helped_exit halive hp hrun (hlive hreq p hp hrun)
  · have hexited : ∀ q ∈ w.process, ¬ w.Running q := fun q hq => by
      obtain rfl : p = q := Option.some.inj (hp.symm.trans hq)
      exact hrun
    by_cases hstall : w.pumps.stall = .done
    · by_cases hexit : w.pumps.exit = .done
      · by_cases hstderr : w.pumps.stderr = .done
        · by_cases hstdout : w.pumps.stdout = .done
          · have hended : w.PumpsEnded = true := by
              rw [PumpsEnded, hstall, hexit, hstderr, hstdout]
            have hs : w.resumeLifecycle 0 = some (w.reportExit t) := by
              rw [resumeLifecycle, hl]
              exact if_pos hended
            exact helped_lifecycle h hreq hs
          · exact helped_stdout halive hexited hstdout
        · exact helped_stderr halive hexited hstderr
      · exact helped_seeExit halive hp hrun hexit
    · exact helped_stall halive hp hrun hstall

/-- **A stopped worker is helped on** as long as its loop runs. -/
theorem helped (h : Orderly w.bare) (hreq : w.stopRequested = true)
    (halive : w.LifecycleAlive = true) : Helped w := by
  rcases hl : w.lifecycle with _ | _ | ⟨x, k⟩ | _ | t | _ | wakeAt | e
  case notStarted =>
    rw [LifecycleAlive, hl] at halive
    cases halive
  case finished =>
    rw [LifecycleAlive, hl] at halive
    cases halive
  case created =>
    have hs : w.resumeLifecycle 0 =
        some (w.setState .start "initial start" .startingSet loopHead) := by
      rw [resumeLifecycle, hl]
    exact helped_lifecycle h hreq hs
  case sending => exact helped_sending h hreq hl
  case spawning => exact helped_spawning h hl
  case pumping => exact helped_pumping h hreq hl
  case waitingReset =>
    have hfit := h.fit
    rw [Fit, bare, hl] at hfit
    have hevent : w.userResetEvent = true := hfit hreq
    have hs : w.resumeLifecycle 0 = some w.leaveLoop := by
      rw [resumeLifecycle, hl]
      simp only [hevent, hreq, if_true]
    exact helped_lifecycle h hreq hs
  case backingOff =>
    have hs : w.resumeLifecycle 0 = some w.loopHead := by
      rw [resumeLifecycle, hl]
      exact if_pos (.inl hreq)
    exact helped_lifecycle h hreq hs

end Owed

/-- **A loop that was asked to stop can leave.** -/
theorem canLeave {w : FFmpegWorker Frame} (h : Orderly w.bare) (hreq : w.stopRequested = true)
    (halive : w.LifecycleAlive = true) : CanLeave w := by
  refine Machine.leads_of_rank
    (I := fun w => Orderly w.bare ∧ w.stopRequested = true ∧ Ongoing w) rank ?_
    ⟨h, hreq, .inl halive⟩
  rintro w ⟨h, hreq, hgoing⟩ hno
  obtain ⟨l, w', howed, htimely, hs, hgoing', hlt⟩ := helped h hreq (hgoing.resolve_right hno)
  exact ⟨l, w', howed, hs, ⟨orderly_step h htimely hs,
    (requested_moves (moves_of_step hs)).1 hreq, hgoing'⟩, hlt⟩

/-! ## The resets -/

section Reset

variable {w : FFmpegWorker Frame}

/-- STARTING is announced after a reset. -/
theorem leads_resetSet (h : Orderly w.bare) {x : Sending Frame}
    (hl : w.lifecycle = .sending x .resetSet) : machine.Leads Owed Restarted w := by
  have hgoes {w : FFmpegWorker Frame} (h : Orderly w.bare) {x : Sending Frame}
      (hl : w.lifecycle = .sending x .resetSet) (hgo : w.canGoOn x = true) :
      machine.Leads Owed Restarted w := by
    have hs : machine.step w (.lifecycle 0) = some ((w.arrived x.event).afterSend 0 .resetSet) := by
      change w.resumeLifecycle 0 = _
      rw [resumeLifecycle, hl]
      exact if_pos hgo
    refine .next (a := .lifecycle 0) (show Owed w (.lifecycle 0) from trivial) hs (.now (.inl ?_))
    have hplace := h.place
    rw [bare, hl] at hplace
    obtain ⟨-, cause, he⟩ := hplace
    have hheads := heads_loopHead (w.arrived x.event)
    have honly := (only_heads hheads).eq
    have hstate : (w.arrived x.event).loopHead.bare.state = (w.arrived x.event).bare.state := by
      rw [honly]
    exact hstate.trans (state_arrived he)
  by_cases hgo : w.canGoOn x = true
  · exact hgoes h hl hgo
  · obtain ⟨e, accepted⟩ := x
    obtain ⟨rfl, hopen⟩ : accepted = false ∧ w.receiveOpen = true := by
      simpa [canGoOn] using hgo
    have hs : machine.step w (.accept .lifecycle) = some { w with
        channel := w.channel ++ [e], lifecycle := .sending ⟨e, true⟩ .resetSet } := by
      change w.accept .lifecycle = _
      simp only [accept, hopen, if_true, hl]
    have howed : Owed w (.accept .lifecycle) := trivial
    have htimely : Timely w (.accept .lifecycle) := trivial
    exact .next howed hs (hgoes (x := ⟨e, true⟩) (orderly_step h htimely hs) rfl rfl)

/-- **A reset that was heard is acted upon.** -/
theorem leads_heard (h : Orderly w.bare) (halive : w.LifecycleAlive = true)
    (hstate : w.state = .failedOpen)
    (hevent : w.lifecycle = .waitingReset → w.userResetEvent = true) :
    machine.Leads Owed Restarted w := by
  by_cases hreq : w.stopRequested = true
  · exact Machine.Leads.mono (fun _ hreturned => .inr hreturned) (canLeave h hreq halive)
  · have hreq : w.stopRequested = false := Bool.eq_false_iff.mpr hreq
    have hplace := h.place
    have hfit := h.fit
    rw [show w.bare.state = .failedOpen from hstate] at hplace
    rw [Fit] at hfit
    rcases hl : w.lifecycle with _ | _ | ⟨x, k⟩ | _ | t | _ | wakeAt | e <;>
      rw [show w.bare.lifecycle = _ from hl] at hplace hfit
    case sending =>
      cases k with
      | resetSet => exact leads_resetSet h hl
      | stoppingSet =>
        have hasked : w.stopRequested = true := hfit
        exact absurd (hreq.symm.trans hasked) Bool.false_ne_true
      | startingSet | verdictSet | idleSet =>
        obtain ⟨hno, -⟩ := hplace
        cases hno
      | spawnErrorSent | exitedSent | reconnectingSet =>
        obtain ⟨hup, -⟩ := hplace
        rcases hup with hup | hup | hup <;> cases hup
    case waitingReset =>
      have hs : machine.step w (.lifecycle 0) =
          some (w.setState .userReset "user reset" .resetSet loopHead) := by
        change w.resumeLifecycle 0 = _
        rw [resumeLifecycle, hl]
        simp only [hevent hl, hreq, if_true, Bool.false_eq_true, if_false]
      have hopen : w.bare.sendOpen = true := h.sending halive
      have hsends := sends_send w (.state .starting w.state "user reset") .resetSet
      rw [setState_of_some w (show w.state.transition .userReset none = some .starting by
        rw [hstate]; rfl)] at hs
      have howed : Owed w (.lifecycle 0) := trivial
      have htimely : Timely w (.lifecycle 0) := trivial
      have hlife := lifecycle_of_sends hopen hsends
      exact .next howed hs (leads_resetSet (orderly_step h htimely hs) hlife)
    case spawning => rcases hplace with hup | hup <;> cases hup
    case pumping => rcases hplace with hup | hup | hup <;> cases hup
    case finished =>
      rw [LifecycleAlive, hl] at halive
      cases halive
    all_goals cases hplace

end Reset

/-! ## The history -/

section History

variable {s s' : FFmpegWorker Frame} {draw : ℚ} {g : StopLog}

/-- Neither returned nor waiting for a reset. -/
def Underway (l : Lifecycle Frame) : Prop :=
  l ≠ .finished .returned ∧ l ≠ .waitingReset

theorem underway_sends {e : WorkerEvent Frame} {k : AfterSend} (h : Sends s e k s') :
    Underway s'.lifecycle := by
  cases h <;> exact ⟨(fun hl => by cases hl), fun hl => by cases hl⟩

theorem underway_leaves (hup : Up s.state ∨ s.state = .failedOpen) (h : Leaves s s') :
    Underway s'.lifecycle := by
  cases h with
  | stopping hstop hidle hsends => exact underway_sends hsends
  | settles hs hsettles =>
    rcases hup with (hup | hup | hup) | hup <;> rcases hs with hs | hs <;> cases hup.symm.trans hs

theorem underway_heads (hup : Up s.state) (h : Heads s s') : Underway s'.lifecycle := by
  cases h with
  | leaves hreq hleaves => exact underway_leaves (.inl hup) hleaves
  | spawning hreq => exact ⟨(fun hl => by cases hl), fun hl => by cases hl⟩

theorem underway_decides (hs : s.state ≠ .failedOpen) (h : Decides s draw s') :
    Underway s'.lifecycle := by
  cases h with
  | waits hstate => exact absurd hstate hs
  | backsOff hstate hdelay => exact ⟨(fun hl => by cases hl), fun hl => by cases hl⟩
  | overflows hstate hnone => exact ⟨(fun hl => by cases hl), fun hl => by cases hl⟩

theorem underway_judges {verdict : BreakerVerdict} (hs : s.state = .reconnecting)
    (h : Judges s verdict draw s') : Underway s'.lifecycle := by
  cases h with
  | opens hstate hverdict hsends => exact underway_sends hsends
  | decides hnot hdecides =>
    exact underway_decides (fun hstate => by cases hs.symm.trans hstate) hdecides

theorem underway_fails (hup : Up s.state) (h : Fails s draw s') : Underway s'.lifecycle := by
  cases h with
  | leaves hreq hleaves => exact underway_leaves (.inl hup) hleaves
  | announces hreq hstate hsends => exact underway_sends hsends
  | judges hreq hstarting hrunning hjudges =>
    exact underway_judges ((hup.resolve_left hstarting).resolve_left hrunning) hjudges

/-- How the loop comes to wait for a reset, and how it returns. -/
inductive Arrives (s s' : FFmpegWorker Frame) : Prop where
  | underway : Underway s'.lifecycle → Arrives s s'
  | opens : s.state = .reconnecting → s'.lifecycle = .waitingReset → Arrives s s'
  | returns : s.state = .stopping → s'.state = .idle → Arrives s s'

theorem arrives_goesOn {e : WorkerEvent Frame} {k : AfterSend} (hk : Announced s.state e k)
    (h : GoesOn (s.arrived e) draw k s') : Arrives s s' := by
  cases h with
  | startingSet hheads | resetSet hheads =>
    obtain ⟨-, cause, he⟩ := hk
    exact .underway (underway_heads (.inl (state_arrived he)) hheads)
  | spawnErrorSent hfails =>
    rw [arrived_of_plain hk.2] at hfails
    exact .underway (underway_fails (hk.1.elim .inl fun hs => .inr (.inr hs)) hfails)
  | exitedSent hfails =>
    rw [arrived_of_plain hk.2] at hfails
    exact .underway (underway_fails (s := { s with process := none }) hk.1 hfails)
  | reconnectingSet hjudges =>
    obtain ⟨-, cause, he⟩ := hk
    exact .underway (underway_judges (state_arrived he) hjudges)
  | verdictSet hdecides =>
    obtain ⟨hs, count, he⟩ := hk
    cases hdecides with
    | waits hstate => exact .opens hs rfl
    | backsOff hstate | overflows hstate => exact absurd (state_arrived he) hstate
  | stoppingSet hsettles =>
    obtain ⟨-, cause, he⟩ := hk
    cases hsettles with
    | idle hs hsends => exact .underway (underway_sends hsends)
    | returned hs => exact absurd (state_arrived he) hs
  | idleSet =>
    obtain ⟨hs, cause, he⟩ := hk
    exact .returns hs (state_arrived he)

theorem arrives_resumes (h : Sane s) (hr : Resumes s draw s') : Arrives s s' := by
  have hplace := h.place
  cases hr with
  | starts hl hs hsends => exact .underway (underway_sends hsends)
  | startsAnew hl hs hheads =>
    rw [hl] at hplace
    exact absurd hplace hs
  | sent hl hgo hgoes =>
    rw [hl] at hplace
    exact arrives_goesOn hplace hgoes
  | exits hl hpumps hplain hsends => exact .underway (underway_sends hsends)
  | stops hl hevent hreq hleaves =>
    rw [hl] at hplace
    exact .underway (underway_leaves (.inr hplace) hleaves)
  | resets hl hevent hreq hs hsends => exact .underway (underway_sends hsends)
  | resetsAnew hl hevent hreq hs hheads =>
    rw [hl] at hplace
    exact absurd hplace hs
  | wakes hl hwake hheads =>
    rw [hl] at hplace
    exact .underway (underway_heads (.inr (.inr hplace)) hheads)

/-- The loop stays where it is, and the event is not cleared. -/
structure Stays (s s' : FFmpegWorker Frame) : Prop where
  lifecycle : s'.lifecycle = s.lifecycle
  state : s'.state = s.state
  event : s.userResetEvent = true → s'.userResetEvent = true

theorem underway_pumping {t : ℚ} (hl : s.lifecycle = .pumping t)
    (hl' : s'.lifecycle = s.lifecycle) : Underway s'.lifecycle := by
  rw [hl', hl]
  exact ⟨(fun hl => by cases hl), fun hl => by cases hl⟩

theorem stays_joins {phase : StopPhase} (hj : Joins s s' phase) : Stays s s' := by
  cases hj <;> exact ⟨rfl, rfl, fun _ => rfl⟩

theorem arrives_stopGoesOn {phase phase' : StopPhase} {timedOut : Bool}
    (hg : StopGoesOn s phase timedOut s' phase') : Stays s s' ∨ Arrives s s' := by
  cases hg with
  | exited hexited hj => exact .inl (stays_joins hj)
  | killed hj => exact .inl (stays_joins hj)
  | cancels hc =>
    cases hc with
    | ended | swallowed => exact .inl ⟨rfl, rfl, id⟩
    | pumping | elsewhere =>
      exact .inr (.underway ⟨(fun hl => by cases hl), fun hl => by cases hl⟩)
  | kills | joined | raised | cancelled | raisedAnyway | closesReceive | returns =>
    exact .inl ⟨rfl, rfl, id⟩

/-- **How a step ends** for the loop. -/
theorem arrives_moves (h : Sane s) {l : Label Frame} (hm : Moves s l s') :
    Stays s s' ∨ Arrives s s' := by
  cases hm with
  | beside hl hb => exact .inl ⟨by rw [hb.eq], by rw [hb.eq], by rw [hb.eq]; exact id⟩
  | taken | spawns | spawnRaises =>
    exact .inr (.underway ⟨(fun hl => by cases hl), fun hl => by cases hl⟩)
  | announcementTaken | progressTaken | errorTaken | pumpRaises | resetIgnored =>
    exact .inl ⟨rfl, rfl, id⟩
  | resumes hr => exact .inr (arrives_resumes h hr)
  | spawnFails hl hsends => exact .inr (.underway (underway_sends hsends))
  | reads hreading hr =>
    obtain ⟨t, hl⟩ := h.pumping fun b hb => by rw [hb] at hreading; cases hreading
    exact .inr (.underway (underway_pumping hl (by rw [pumpOnly_reads hr])))
  | stdoutGoesOn hg =>
    obtain ⟨t, hl⟩ : ∃ t, s.lifecycle = .pumping t := by
      cases hg with
      | announced hx | resumed hx | reported hx | erred hx =>
        exact h.pumping fun b hb => by rw [hb] at hx; cases hx
    exact .inr (.underway (underway_pumping hl (by rw [pumpOnly_stdoutGoesOn hg])))
  | resets hs => exact .inl ⟨rfl, rfl, fun _ => rfl⟩
  | stops hs =>
    cases hs with
    | signals hp hrun => exact .inl ⟨rfl, rfl, id⟩
    | joins hno hj =>
      have hstays := stays_joins hj
      exact .inl ⟨hstays.lifecycle, hstays.state, hstays.event⟩
  | stopGoesOn hphase hg =>
    refine (arrives_stopGoesOn hg).imp (fun hs => ⟨hs.lifecycle, hs.state, hs.event⟩) fun ha => ?_
    cases ha with
    | underway hl => exact .underway hl
    | opens hs hl => exact .opens hs hl
    | returns hs hs' => exact .returns hs hs'

/-- What the history says about the worker. -/
structure Logged (s : FFmpegWorker Frame) (g : StopLog) : Prop where
  last : ∃ before, g.states = before ++ [s.state]
  returned : s.lifecycle = .finished .returned →
    ∃ before, g.states = before ++ [.stopping, .idle]
  heard : g.heard = true → s.state = .failedOpen ∧
    (s.lifecycle = .waitingReset → s.userResetEvent = true)

theorem logged_moves (h : Sane s) (hg : Logged s g) {l : Label Frame} (hm : Moves s l s') :
    Logged s' (g.note s l s') := by
  have ha := arrives_moves h hm
  obtain ⟨before, hbefore⟩ := hg.last
  refine ⟨?_, fun hl => ?_, fun hheard => ?_⟩
  · by_cases hs : s'.state = s.state
    · refine ⟨before, (StopLog.states_same hs).trans ?_⟩
      rw [hs]
      exact hbefore
    · exact ⟨g.states, StopLog.states_changed hs⟩
  · rcases ha with ha | (hu | ⟨hs, hl'⟩ | ⟨hs, hs'⟩)
    · rw [StopLog.states_same ha.state]
      exact hg.returned (ha.lifecycle.symm.trans hl)
    · exact absurd hl hu.1
    · cases hl'.symm.trans hl
    · refine ⟨before, ?_⟩
      have hne : s'.state ≠ s.state := by
        rw [hs, hs']
        exact WorkerState.noConfusion
      rw [StopLog.states_changed hne, hbefore, hs, hs', List.append_assoc]
      rfl
  · have hstate : s'.state = .failedOpen := of_decide_eq_true (Bool.and_eq_true_iff.mp hheard).1
    refine ⟨hstate, fun hl => ?_⟩
    rcases Bool.or_eq_true_iff.mp (Bool.and_eq_true_iff.mp hheard).2 with hold | hnew
    · obtain ⟨hs, hevent⟩ := hg.heard hold
      rcases ha with ha | (hu | ⟨hs', hl'⟩ | ⟨hs', hs''⟩)
      · exact ha.event (hevent (ha.lifecycle.symm.trans hl))
      · exact absurd hl hu.2
      · cases hs.symm.trans hs'
      · cases hs.symm.trans hs'
    · cases hm with
      | resets hs => rfl
      | resetIgnored hs => exact absurd hstate hs
      | beside hb =>
        cases l <;> first | exact hb.elim | cases hnew
      | _ => cases hnew

end History

/-- **An orderly worker ends cleanly.** -/
theorem Orderly.endsCleanly {w : FFmpegWorker Frame} {g : StopLog} (h : Orderly w.bare)
    (hg : Logged w.bare g) : EndsCleanly (w, g) where
  awake hjoined hl := by
    obtain ⟨phase, hphase, -⟩ := hjoined
    have hreq : w.stopRequested = true := h.asked (List.ne_nil_of_mem hphase)
    have hfit := h.fit
    rw [Fit, bare, show w.lifecycle = .waitingReset from hl] at hfit
    exact hfit hreq
  leaves hawaits halive := canLeave h (h.asked (List.ne_nil_of_mem hawaits)) halive
  unraised hawaits hl := by
    have hfit := h.fit
    rw [Fit, bare, show w.lifecycle = .finished .raised from hl] at hfit
    exact hfit hawaits
  returned := hg.returned
  heard hheard halive := by
    obtain ⟨hstate, hevent⟩ := hg.heard hheard
    exact leads_heard h halive hstate hevent

theorem logged_boot (policy : CircuitBreakerPolicy) (now : ℚ) :
    Logged (boot policy now : FFmpegWorker Frame).bare .init :=
  ⟨⟨[], rfl⟩, (fun hl => by cases hl), fun hheard => by cases hheard⟩

/-- **`stop` ends the loop cleanly** in every run whose stops are timely, and no
reset that was heard is lost. -/
theorem stop_ends_cleanly (policy : CircuitBreakerPolicy) (now : ℚ) (labels : List (Label Frame))
    (h : (machine.recording StopLog.note).Meets (fun p => Timely p.1)
      (boot policy now, .init) labels) :
    (machine.recording StopLog.note).Always EndsCleanly (boot policy now, .init) labels := by
  refine Machine.always_of_inv (I := fun p => Orderly p.1.bare ∧ Logged p.1.bare p.2) ?_
    (fun p hp => hp.1.endsCleanly hp.2) ⟨orderly_boot policy now, logged_boot policy now⟩ h
  rintro ⟨w, g⟩ l ⟨w', g'⟩ ⟨horderly, hlogged⟩ htimely hs
  obtain ⟨hs, hnote⟩ := Machine.step_recording hs
  refine ⟨orderly_step horderly htimely hs, ?_⟩
  have hnote : g' = g.note w l w' := hnote
  rw [hnote]
  exact logged_moves horderly.toSane hlogged (moves_of_step hs)

/-- A target comes up, shows one frame and is stopped. -/
def stopped : List (Label Unit) :=
  announced ++ [.spawned, .readStdout (.frames [()]), .accept .stdout, .resumeStdout,
    .accept .stdout, .resumeStdout, .stop, .exit 0 0, .readStdout .eof, .readStderr .eof,
    .stallTick, .seeExit, .lifecycle 0, .accept .lifecycle, .lifecycle 0, .accept .lifecycle,
    .lifecycle 0, .accept .lifecycle, .lifecycle 0]

theorem stop_ends_cleanly_stopped :
    (machine.recording StopLog.note).Meets (fun p => Timely p.1) (boot {} 0, .init) stopped ∧
      (machine.recording StopLog.note).Always EndsCleanly (boot {} 0, .init) stopped ∧
      ((machine.recording StopLog.note).run (boot {} 0, .init) stopped).map (fun p => p.2.states) =
        some [.idle, .starting, .running, .stopping, .idle] := by
  have htimely : (machine.recording StopLog.note).Meets (fun p => Timely p.1) (boot {} 0, .init)
      stopped := by decide +kernel
  exact ⟨htimely, stop_ends_cleanly {} 0 stopped htimely, by decide +kernel⟩

/-- The target dies for the thirtieth time, and `stop` comes while the loop
announces RECONNECTING. -/
def stoppedInTheOpening : List (Label Unit) :=
  announced ++ (List.range 29).flatMap flap ++ [.spawned, .readStdout (.frames [()]),
    .accept .stdout, .resumeStdout, .accept .stdout, .resumeStdout, .readStdout .eof,
    .readStderr .eof, .exit 29 1, .seeExit, .stallTick, .lifecycle 0, .accept .lifecycle,
    .lifecycle 0, .stop, .accept .lifecycle, .lifecycle 0, .accept .lifecycle, .lifecycle 0]

instance (l : Lifecycle Frame) : Decidable (l = .waitingReset) :=
  match l with
  | .waitingReset => .isTrue rfl
  | .notStarted | .created | .sending .. | .spawning | .pumping _ | .backingOff _ | .finished _ =>
    .isFalse fun h => by cases h

/-- **The loop waits for a reset, and `stop` waits for the loop.** The event that
`stop` had set is cleared. -/
theorem stop_waits_in_vain :
    (∃ p, (machine.recording StopLog.note).run (boot {} 0, .init) stoppedInTheOpening = some p ∧
        p.1.stops = [.awaitingLifecycle] ∧ p.1.lifecycle = .waitingReset ∧
          p.1.userResetEvent = false) ∧
      ¬ (machine.recording StopLog.note).Always EndsCleanly (boot {} 0, .init)
        stoppedInTheOpening := by
  have hrun : ((machine.recording StopLog.note).run (boot {} 0, .init) stoppedInTheOpening).any
      (fun p => p.1.stops = [.awaitingLifecycle] ∧ p.1.lifecycle = .waitingReset ∧
        p.1.userResetEvent = false) = true := by decide +kernel
  obtain ⟨p, hp, hat⟩ := (Option.any_eq_true _ _).mp hrun
  obtain ⟨hstops, hl, hevent⟩ := of_decide_eq_true hat
  refine ⟨⟨p, hp, hstops, hl, hevent⟩, fun h => ?_⟩
  have hclean : EndsCleanly p := Machine.always_last h hp
  have hawaits : .awaitingLifecycle ∈ p.1.stops := by
    rw [hstops]
    exact List.mem_singleton_self _
  have hawake : p.1.userResetEvent = true := hclean.awake ⟨_, hawaits, trivial⟩ hl
  exact Bool.false_ne_true (hevent.symm.trans hawake)

end FFmpegWorker

end RestreamPlus
