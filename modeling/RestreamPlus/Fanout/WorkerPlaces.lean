import RestreamPlus.Fanout.WorkerSteps

/-!
# What the place of the loop says about the state

A worker that is started once: the state and the place of the lifecycle loop go
together (`At`), an announcement under way is one the table allows, from the
state the worker still has, and pumps exist inside the task group only. This is
`Sane`; the results about the events, the backoff and `stop` build on it.
-/

namespace RestreamPlus

open Interleaving

namespace FFmpegWorker

variable {Frame : Type}

/-! ## Calls of `start` -/

/-- A call of `start`, or a step of the worker. -/
inductive Restart (Frame : Type) : Type where
  | start : Restart Frame
  | other : Label Frame → Restart Frame

/-- A `stop` waits for the lifecycle task. -/
def Joining (w : FFmpegWorker Frame) : Prop :=
  StopPhase.awaitingLifecycle ∈ w.stops ∨ StopPhase.awaitingCancelled ∈ w.stops

instance (w : FFmpegWorker Frame) : Decidable w.Joining := by
  unfold Joining
  infer_instance

/-- The worker with calls of `start`. A `stop` that waits for a task which has
ended is woken before the task of a later `start` runs for the first time, and
what it does then is independent of the call; so it goes first. -/
def restartable : Machine (FFmpegWorker Frame) (Restart Frame) where
  step w
    | .start => if w.LifecycleAlive = false ∧ w.Joining then none else some w.start
    | .other l => w.step l

/-- No `start` after the lifecycle task has ended. -/
def Once (w : FFmpegWorker Frame) : Restart Frame → Prop
  | .start => ∀ e, w.lifecycle ≠ .finished e
  | .other _ => True

/-! ## The invariant -/

/-- The state while nothing is announced and no stop was noticed. -/
def Up (state : WorkerState) : Prop :=
  state = .starting ∨ state = .running ∨ state = .reconnecting

/-- What is sent before the loop goes on at `k`. -/
def Announced (state : WorkerState) (e : WorkerEvent Frame) : AfterSend → Prop
  | .startingSet => state = .idle ∧ ∃ cause, e = .state .starting state cause
  | .spawnErrorSent => (state = .starting ∨ state = .reconnecting) ∧ ¬ IsState e
  | .exitedSent => Up state ∧ ¬ IsState e
  | .reconnectingSet .. =>
    (state = .starting ∨ state = .running) ∧ ∃ cause, e = .state .reconnecting state cause
  | .verdictSet =>
    state = .reconnecting ∧ ∃ count, e = .state .failedOpen state (verdictCause .open count)
  | .resetSet => state = .failedOpen ∧ ∃ cause, e = .state .starting state cause
  | .stoppingSet =>
    (Up state ∨ state = .failedOpen) ∧ ∃ cause, e = .state .stopping state cause
  | .idleSet => state = .stopping ∧ ∃ cause, e = .state .idle state cause

/-- The state at a place of the loop. -/
def At (state : WorkerState) : Lifecycle Frame → Prop
  | .notStarted | .created | .finished .returned => state = .idle
  | .sending x k => Announced state x.event k
  | .spawning => state = .starting ∨ state = .reconnecting
  | .pumping _ => Up state
  | .waitingReset => state = .failedOpen
  | .backingOff _ => state = .reconnecting
  | .finished _ => True

/-- The worker was started at most once. -/
structure Sane (w : FFmpegWorker Frame) : Prop where
  /-- pumps exist inside the task group only -/
  ended : (∀ t, w.lifecycle ≠ .pumping t) → ∃ b, w.pumps = endedPumps b
  /-- the stream is open while the loop runs -/
  opened : w.LifecycleAlive = true → w.lifecycle ≠ .created → w.sendOpen = true
  place : At w.state w.lifecycle
  /-- RUNNING is announced from STARTING and RECONNECTING -/
  first : ∀ x frame rest fresh, w.pumps.stdout = .announcing x frame rest fresh →
    (∃ cause, x.event = .state .running w.state cause) ∧
      (w.state = .starting ∧ fresh = false ∨ w.state = .reconnecting ∧ fresh = true)
  plain : Plain w.pumps

section Step

variable {s s' : FFmpegWorker Frame} {draw : ℚ}

/-- Outside the task group only the place counts. -/
theorem sane_of_ended (hp : ∃ b, s.pumps = endedPumps b)
    (hopen : s.LifecycleAlive = true → s.lifecycle ≠ .created → s.sendOpen = true)
    (hat : At s.state s.lifecycle) : Sane s := by
  obtain ⟨b, hb⟩ := hp
  refine ⟨fun _ => ⟨b, hb⟩, hopen, hat, fun x frame rest fresh hx => ?_, ?_⟩
  · rw [hb] at hx
    cases hx
  · rw [hb]
    exact plain_endedPumps b

theorem sane_sends (hp : ∃ b, s.pumps = endedPumps b) {e : WorkerEvent Frame} {k : AfterSend}
    (h : Sends s e k s') (hk : Announced s.state e k) : Sane s' := by
  cases h with
  | sent hopen => exact sane_of_ended hp (fun _ _ => hopen) hk
  | refused hclosed => exact sane_of_ended hp (fun halive => by cases halive) trivial

theorem sane_settles (hp : ∃ b, s.pumps = endedPumps b) (hs : s.state = .stopping ∨ s.state = .idle)
    (h : Settles s s') : Sane s' := by
  cases h with
  | idle hstate hsends => exact sane_sends hp hsends ⟨hstate, _, rfl⟩
  | returned hstate =>
    exact sane_of_ended hp (fun halive => by cases halive) (hs.resolve_left hstate)

theorem sane_leaves (hp : ∃ b, s.pumps = endedPumps b) (h : Leaves s s') : Sane s' := by
  cases h with
  | stopping hstop hidle hsends =>
    refine sane_sends hp hsends ⟨?_, _, rfl⟩
    rcases hs : s.state with _ | _ | _ | _ | _ | _
    · exact absurd hs hidle
    · exact .inl (.inl rfl)
    · exact .inl (.inr (.inl rfl))
    · exact .inl (.inr (.inr rfl))
    · exact .inr rfl
    · exact absurd hs hstop
  | settles hs hsettles => exact sane_settles hp hs hsettles

theorem sane_heads (hp : ∃ b, s.pumps = endedPumps b) (hopen : s.sendOpen = true)
    (hs : s.state = .starting ∨ s.state = .reconnecting) (h : Heads s s') : Sane s' := by
  cases h with
  | leaves hreq hleaves => exact sane_leaves hp hleaves
  | spawning hreq => exact sane_of_ended hp (fun _ _ => hopen) hs

theorem sane_decides (hp : ∃ b, s.pumps = endedPumps b) (hopen : s.sendOpen = true)
    (hs : s.state = .failedOpen ∨ s.state = .reconnecting) (h : Decides s draw s') : Sane s' := by
  cases h with
  | waits hstate => exact sane_of_ended hp (fun _ _ => hopen) hstate
  | backsOff hstate hdelay =>
    exact sane_of_ended hp (fun _ _ => hopen) (hs.resolve_left hstate)
  | overflows hstate hnone => exact sane_of_ended hp (fun halive => by cases halive) trivial

theorem sane_judges (hp : ∃ b, s.pumps = endedPumps b) (hopen : s.sendOpen = true)
    (hs : s.state = .reconnecting) {verdict : BreakerVerdict} (h : Judges s verdict draw s') :
    Sane s' := by
  cases h with
  | opens hstate hverdict hsends =>
    subst hverdict
    exact sane_sends hp hsends ⟨hstate, _, rfl⟩
  | decides hnot hdecides => exact sane_decides hp hopen (.inr hs) hdecides

theorem sane_fails (hp : ∃ b, s.pumps = endedPumps b) (hopen : s.sendOpen = true) (hs : Up s.state)
    (h : Fails s draw s') : Sane s' := by
  cases h with
  | leaves hreq hleaves => exact sane_leaves hp hleaves
  | announces hreq hstate hsends => exact sane_sends hp hsends ⟨hstate, _, rfl⟩
  | judges hreq hstarting hrunning hjudges =>
    exact sane_judges hp hopen ((hs.resolve_left hstarting).resolve_left hrunning) hjudges

/-- What is announced decides the state that follows. -/
theorem state_arrived {new old : WorkerState} {cause : String} {e : WorkerEvent Frame}
    (h : e = .state new old cause) : (s.arrived e).state = new := by
  rw [h]
  rfl

theorem arrived_of_plain {e : WorkerEvent Frame} (h : ¬ IsState e) : s.arrived e = s := by
  cases e with
  | state new old cause => exact absurd trivial h
  | progress | error | exited | stalled => rfl

@[simp] theorem pumps_arrived (s : FFmpegWorker Frame) (e : WorkerEvent Frame) :
    (s.arrived e).pumps = s.pumps := by
  cases e <;> rfl

@[simp] theorem sendOpen_arrived (s : FFmpegWorker Frame) (e : WorkerEvent Frame) :
    (s.arrived e).sendOpen = s.sendOpen := by
  cases e <;> rfl

/-- The loop goes on after a `send`. -/
theorem sane_goesOn (hp : ∃ b, s.pumps = endedPumps b) (hopen : s.sendOpen = true)
    {e : WorkerEvent Frame} {k : AfterSend} (hk : Announced s.state e k)
    (h : GoesOn (s.arrived e) draw k s') : Sane s' := by
  have hp : ∃ b, (s.arrived e).pumps = endedPumps b := by
    rw [pumps_arrived]
    exact hp
  have hopen : (s.arrived e).sendOpen = true := by
    rw [sendOpen_arrived]
    exact hopen
  cases h with
  | startingSet hheads =>
    obtain ⟨-, cause, he⟩ := hk
    exact sane_heads hp hopen (.inl (state_arrived he)) hheads
  | spawnErrorSent hfails =>
    rw [arrived_of_plain hk.2] at hp hopen hfails
    exact sane_fails hp hopen (hk.1.elim .inl fun h => .inr (.inr h)) hfails
  | exitedSent hfails =>
    rw [arrived_of_plain hk.2] at hp hopen hfails
    exact sane_fails (s := { s with process := none }) hp hopen hk.1 hfails
  | reconnectingSet hjudges =>
    obtain ⟨-, cause, he⟩ := hk
    exact sane_judges hp hopen (state_arrived he) hjudges
  | verdictSet hdecides =>
    obtain ⟨-, count, he⟩ := hk
    exact sane_decides hp hopen (.inl (state_arrived he)) hdecides
  | resetSet hheads =>
    obtain ⟨-, cause, he⟩ := hk
    exact sane_heads hp hopen (.inl (state_arrived he)) hheads
  | stoppingSet hsettles =>
    obtain ⟨-, cause, he⟩ := hk
    exact sane_settles hp (.inl (state_arrived he)) hsettles
  | idleSet =>
    obtain ⟨-, cause, he⟩ := hk
    exact sane_of_ended hp (fun halive => by cases halive) (state_arrived he)

theorem sane_resumes (h : Sane s) (hr : Resumes s draw s') : Sane s' := by
  have hplace := h.place
  have hended (hno : ∀ t, s.lifecycle ≠ .pumping t) : ∃ b, s.pumps = endedPumps b := h.ended hno
  have hopen (halive : s.LifecycleAlive = true) (hnew : s.lifecycle ≠ .created) :
      s.sendOpen = true := h.opened halive hnew
  cases hr with
  | starts hl hs hsends =>
    exact sane_sends (hended fun t ht => by cases hl.symm.trans ht) hsends ⟨hs, _, rfl⟩
  | startsAnew hl hs hheads =>
    rw [hl] at hplace
    exact absurd hplace hs
  | sent hl hgo hgoes =>
    rw [hl] at hplace
    exact sane_goesOn (hended fun t ht => by cases hl.symm.trans ht)
      (hopen (by rw [LifecycleAlive, hl]) (fun hc => by cases hl.symm.trans hc)) hplace hgoes
  | exits hl hpumps hplain hsends =>
    rw [hl] at hplace
    exact sane_sends (endedPumps_of_pumpsEnded hpumps) hsends ⟨hplace, hplain⟩
  | stops hl hevent hreq hleaves =>
    exact sane_leaves (hended fun t ht => by cases hl.symm.trans ht) hleaves
  | resets hl hevent hreq hs hsends =>
    exact sane_sends (hended fun t ht => by cases hl.symm.trans ht) hsends ⟨hs, _, rfl⟩
  | resetsAnew hl hevent hreq hs hheads =>
    rw [hl] at hplace
    exact absurd hplace hs
  | wakes hl hwake hheads =>
    rw [hl] at hplace
    have hstream := hopen (by rw [LifecycleAlive, hl]) fun hc => by cases hl.symm.trans hc
    exact sane_heads (hended fun t ht => by cases hl.symm.trans ht) hstream (.inr hplace) hheads

/-! ### The pumps -/

/-- A pump that has not ended is inside the task group. -/
theorem Sane.pumping (h : Sane s) (hp : ∀ b, s.pumps ≠ endedPumps b) :
    ∃ t, s.lifecycle = .pumping t := by
  by_contra hno
  obtain ⟨b, hb⟩ := h.ended fun t ht => hno ⟨t, ht⟩
  exact hp b hb

theorem Sane.pumpOpen (h : Sane s) {t : ℚ} (hl : s.lifecycle = .pumping t) : s.sendOpen = true :=
  h.opened (alive_of_pumping hl) (fun hc => by cases hl.symm.trans hc)

/-- Inside the task group, with other pumps and another of its states. -/
theorem Sane.with_pumps (h : Sane s) {t : ℚ} (hl : s.lifecycle = .pumping t)
    (hl' : s'.lifecycle = s.lifecycle) (hopen : s'.sendOpen = s.sendOpen) (hs : Up s'.state)
    (hfirst : ∀ x frame rest fresh, s'.pumps.stdout = .announcing x frame rest fresh →
      (∃ cause, x.event = .state .running s'.state cause) ∧
        (s'.state = .starting ∧ fresh = false ∨ s'.state = .reconnecting ∧ fresh = true))
    (hplain : Plain s'.pumps) : Sane s' := by
  refine ⟨fun hno => absurd (hl'.trans hl) (hno t), fun _ _ => hopen.trans (h.pumpOpen hl), ?_,
    hfirst, hplain⟩
  rw [hl', hl]
  exact hs

theorem sane_pumpSends (h : Sane s) {t : ℚ} (hl : s.lifecycle = .pumping t) {pumps : Pumps Frame}
    (hsends : PumpSends s pumps s')
    (hfirst : ∀ x frame rest fresh, pumps.stdout = .announcing x frame rest fresh →
      (∃ cause, x.event = .state .running s.state cause) ∧
        (s.state = .starting ∧ fresh = false ∨ s.state = .reconnecting ∧ fresh = true))
    (hplain : Plain pumps) : Sane s' := by
  have hplace := h.place
  rw [hl] at hplace
  cases hsends with
  | sent hopen => exact h.with_pumps hl rfl rfl hplace hfirst hplain
  | refused hclosed =>
    exact h.with_pumps hl rfl rfl hplace (fun x frame rest fresh hx => by cases hx)
      (plain_endedPumps true)

/-- The stdout pump of a task group, at another place that announces nothing. -/
theorem plain_stdout {pumps : Pumps Frame} (h : Plain pumps) {stdout : StdoutPump Frame}
    (hp : ∀ x rest, stdout = .progressing x rest → ¬ IsState x.event)
    (he : ∀ x goesOn, stdout = .erring x goesOn → ¬ IsState x.event) :
    Plain { pumps with stdout := stdout } := ⟨hp, he, h.stderr, h.stall⟩

theorem plain_freshPumps : Plain (freshPumps : Pumps Frame) where
  progressing x rest h := by cases h
  erring x goesOn h := by cases h
  stderr x h := by cases h
  stall x p h := by cases h

theorem sane_handles (h : Sane s) {t : ℚ} (hl : s.lifecycle = .pumping t) {frames : List Frame}
    (hh : Handles s frames s') : Sane s' := by
  have hplace := h.place
  rw [hl] at hplace
  cases hh with
  | none =>
    exact h.with_pumps hl rfl rfl hplace (fun x frame rest fresh hx => by cases hx)
      (plain_stdout h.plain (fun x rest hx => by cases hx) (fun x goesOn hx => by cases hx))
  | first hs hsends =>
    refine sane_pumpSends h hl hsends (fun x frame rest fresh hx => ?_)
      (plain_stdout h.plain (fun x rest hx => by cases hx) (fun x goesOn hx => by cases hx))
    cases hx
    exact ⟨⟨_, rfl⟩, .inl ⟨hs, rfl⟩⟩
  | resumed hs hsends =>
    refine sane_pumpSends h hl hsends (fun x frame rest fresh hx => ?_)
      (plain_stdout h.plain (fun x rest hx => by cases hx) (fun x goesOn hx => by cases hx))
    cases hx
    exact ⟨⟨_, rfl⟩, .inr ⟨hs, rfl⟩⟩
  | reports hstarting hreconnecting hsends =>
    have hnoted (frame : Frame) : Sane { s with lastProgress := some frame } :=
      ⟨h.ended, h.opened, h.place, h.first, h.plain⟩
    refine sane_pumpSends (hnoted _) hl hsends (fun x frame rest fresh hx => by cases hx)
      (plain_stdout h.plain (fun x rest hx => ?_) (fun x goesOn hx => by cases hx))
    cases hx
    exact not_false

theorem sane_reads (h : Sane s) {t : ℚ} (hl : s.lifecycle = .pumping t) {r : StdoutRead Frame}
    (hr : Reads s r s') : Sane s' := by
  have hplace := h.place
  rw [hl] at hplace
  cases hr with
  | eof =>
    exact h.with_pumps hl rfl rfl hplace (fun x frame rest fresh hx => by cases hx)
      (plain_stdout h.plain (fun x rest hx => by cases hx) (fun x goesOn hx => by cases hx))
  | frames hhandles => exact sane_handles h hl hhandles
  | parseError hsends | failed hsends =>
    refine sane_pumpSends h hl hsends (fun x frame rest fresh hx => by cases hx)
      (plain_stdout h.plain (fun x rest hx => by cases hx) (fun x goesOn hx => ?_))
    cases hx
    exact not_false

/-- The frame the announcement was for is reported in RUNNING. -/
theorem sane_announced (h : Sane s) {x : Sending Frame} {frame : Frame} {rest : List Frame}
    {fresh : Bool} {attempt : ℕ} (hx : s.pumps.stdout = .announcing x frame rest fresh)
    (hsends : PumpSends { s.arrived x.event with attempt := attempt, lastProgress := some frame }
      { s.pumps with stdout := .progressing ⟨.progress frame, false⟩ rest } s') : Sane s' := by
  obtain ⟨t, hl⟩ := h.pumping fun b hb => by rw [hb] at hx; cases hx
  obtain ⟨⟨cause, he⟩, -⟩ := h.first x frame rest fresh hx
  rw [he] at hsends
  have hplain : Plain { s.pumps with stdout := .progressing ⟨.progress frame, false⟩ rest } :=
    plain_stdout h.plain (fun x rest hx => by cases hx; exact not_false)
      (fun x goesOn hx => by cases hx)
  cases hsends with
  | sent hopen =>
    exact h.with_pumps hl rfl rfl (.inr (.inl rfl)) (fun x frame rest fresh hx => by cases hx)
      hplain
  | refused hclosed =>
    exact h.with_pumps hl rfl rfl (.inr (.inl rfl)) (fun x frame rest fresh hx => by cases hx)
      (plain_endedPumps true)

theorem sane_stdoutGoesOn (h : Sane s) (hg : StdoutGoesOn s s') : Sane s' := by
  cases hg with
  | announced hx hgo hsends => exact sane_announced h hx hsends
  | resumed hx hgo hsends => exact sane_announced h hx hsends
  | reported hx hgo hhandles =>
    obtain ⟨t, hl⟩ := h.pumping fun b hb => by rw [hb] at hx; cases hx
    exact sane_handles h hl hhandles
  | @erred x goesOn hx hgo =>
    obtain ⟨t, hl⟩ := h.pumping fun b hb => by rw [hb] at hx; cases hx
    have hplace := h.place
    rw [hl] at hplace
    cases goesOn
    · exact h.with_pumps hl rfl rfl hplace (fun x frame rest fresh hx => by cases hx)
        (plain_stdout h.plain (fun x rest hx => by cases hx) (fun x goesOn hx => by cases hx))
    · exact h.with_pumps hl rfl rfl hplace (fun x frame rest fresh hx => by cases hx)
        (plain_stdout h.plain (fun x rest hx => by cases hx) (fun x goesOn hx => by cases hx))

theorem sane_beside (h : Sane s) (hb : Beside s s') : Sane s' := by
  rw [hb.eq]
  refine ⟨fun hno => ?_, h.opened, h.place, fun x frame rest fresh hx => ?_, hb.plain h.plain⟩
  · obtain ⟨b, hpumps⟩ := h.ended hno
    exact ⟨b, (hb.ended b hpumps).trans hpumps⟩
  · rcases hb.stdout with hsame | ⟨-, hended⟩
    · exact h.first x frame rest fresh (hsame.symm.trans hx)
    · have hx : s'.pumps.stdout = .announcing x frame rest fresh := hx
      rw [hended] at hx
      cases hx

/-! ### `stop` -/

theorem sane_joins (h : Sane s) {phase : StopPhase} (hj : Joins s s' phase) : Sane s' := by
  cases hj with
  | awaits halive => exact ⟨h.ended, h.opened, h.place, h.first, h.plain⟩
  | closes hdead =>
    exact ⟨h.ended, fun halive => absurd (hdead.symm.trans halive) Bool.false_ne_true, h.place,
      h.first, h.plain⟩

theorem sane_stops (h : Sane s) {phase : StopPhase} (hs : Stops s s' phase) : Sane s' := by
  have hasked : Sane { s with stopRequested := true } :=
    ⟨h.ended, h.opened, h.place, h.first, h.plain⟩
  cases hs with
  | signals hp hrun => exact ⟨h.ended, h.opened, h.place, h.first, h.plain⟩
  | joins hno hj => exact sane_joins hasked hj

theorem sane_cancels (h : Sane s) (hc : Cancels s s') : Sane s' := by
  cases hc with
  | ended hdead => exact h
  | swallowed hl hfailed => exact h
  | pumping hl hgoing => exact sane_of_ended ⟨false, rfl⟩ (fun halive => by cases halive) trivial
  | elsewhere halive hno =>
    exact sane_of_ended (h.ended hno) (fun halive => by cases halive) trivial

/-- A stream is closed once the lifecycle task is over. -/
theorem sane_closeSend (h : Sane s) {e : Ended} (hl : s.lifecycle = .finished e) :
    Sane { s with sendOpen := false } := by
  refine ⟨h.ended, fun halive => ?_, h.place, h.first, h.plain⟩
  have halive : s.LifecycleAlive = true := halive
  rw [LifecycleAlive, hl] at halive
  cases halive

theorem sane_stopGoesOn (h : Sane s) {phase phase' : StopPhase} {timedOut : Bool}
    (hg : StopGoesOn s phase timedOut s' phase') : Sane s' := by
  cases hg with
  | exited hexited hj => exact sane_joins h hj
  | kills => exact ⟨h.ended, h.opened, h.place, h.first, h.plain⟩
  | killed hj => exact sane_joins h hj
  | joined hl => exact sane_closeSend h hl
  | raised hl he => exact h
  | cancels hc => exact sane_cancels h hc
  | cancelled hl he => exact sane_closeSend h hl
  | raisedAnyway hl => exact h
  | closesReceive => exact ⟨h.ended, h.opened, h.place, h.first, h.plain⟩
  | returns => exact h

/-! ### Every step -/

/-- **One step of a worker keeps it sane.** -/
theorem sane_moves (h : Sane s) {l : Label Frame} (hm : Moves s l s') : Sane s' := by
  have hplace := h.place
  cases hm with
  | beside hl hb => exact sane_beside h hb
  | taken hopen hl =>
    rw [hl] at hplace
    have hstream := h.opened (by rw [LifecycleAlive, hl]) fun hc => by cases hl.symm.trans hc
    exact sane_of_ended (h.ended fun t ht => by cases hl.symm.trans ht) (fun _ _ => hstream) hplace
  | announcementTaken hopen hx =>
    obtain ⟨t, hl⟩ := h.pumping fun b hb => by rw [hb] at hx; cases hx
    rw [hl] at hplace
    refine h.with_pumps hl rfl rfl hplace (fun x frame rest fresh hx' => ?_)
      (plain_stdout h.plain (fun x rest hx => by cases hx) (fun x goesOn hx => by cases hx))
    cases hx'
    exact h.first ⟨_, false⟩ _ _ _ hx
  | progressTaken hopen hx =>
    obtain ⟨t, hl⟩ := h.pumping fun b hb => by rw [hb] at hx; cases hx
    rw [hl] at hplace
    refine h.with_pumps hl rfl rfl hplace (fun x frame rest fresh hx' => by cases hx')
      (plain_stdout h.plain (fun x rest hx' => ?_) (fun x goesOn hx => by cases hx))
    cases hx'
    exact h.plain.progressing ⟨_, false⟩ _ hx
  | errorTaken hopen hx =>
    obtain ⟨t, hl⟩ := h.pumping fun b hb => by rw [hb] at hx; cases hx
    rw [hl] at hplace
    refine h.with_pumps hl rfl rfl hplace (fun x frame rest fresh hx' => by cases hx')
      (plain_stdout h.plain (fun x rest hx => by cases hx) (fun x goesOn hx' => ?_))
    cases hx'
    exact h.plain.erring ⟨_, false⟩ _ hx
  | resumes hr => exact sane_resumes h hr
  | spawns hl =>
    rw [hl] at hplace
    refine ⟨fun hno => absurd rfl (hno _),
      fun _ _ => h.opened (by rw [LifecycleAlive, hl]) (fun hc => by cases hl.symm.trans hc), ?_,
      (fun x frame rest fresh hx => by cases hx), plain_freshPumps⟩
    exact hplace.elim .inl fun hs => .inr (.inr hs)
  | spawnFails hl hsends =>
    rw [hl] at hplace
    exact sane_sends (h.ended fun t ht => by cases hl.symm.trans ht) hsends ⟨hplace, not_false⟩
  | spawnRaises hl =>
    exact sane_of_ended (h.ended fun t ht => by cases hl.symm.trans ht)
      (fun halive => by cases halive) trivial
  | reads hreading hr =>
    obtain ⟨t, hl⟩ := h.pumping fun b hb => by rw [hb] at hreading; cases hreading
    exact sane_reads h hl hr
  | stdoutGoesOn hg => exact sane_stdoutGoesOn h hg
  | pumpRaises halive =>
    exact ⟨fun _ => ⟨true, rfl⟩, h.opened, h.place, (fun x frame rest fresh hx => by cases hx),
      plain_endedPumps true⟩
  | resets hs => exact ⟨h.ended, h.opened, h.place, h.first, h.plain⟩
  | resetIgnored hs => exact h
  | stops hs =>
    have hs := sane_stops h hs
    exact ⟨hs.ended, hs.opened, hs.place, hs.first, hs.plain⟩
  | stopGoesOn hphase hg =>
    have hs := sane_stopGoesOn h hg
    exact ⟨hs.ended, hs.opened, hs.place, hs.first, hs.plain⟩

end Step

theorem sane_init (policy : CircuitBreakerPolicy) (now : ℚ) :
    Sane (init policy now : FFmpegWorker Frame).bare :=
  sane_of_ended ⟨false, rfl⟩ (fun halive => by cases halive) rfl

theorem sane_boot (policy : CircuitBreakerPolicy) (now : ℚ) :
    Sane (boot policy now : FFmpegWorker Frame).bare :=
  sane_of_ended ⟨false, rfl⟩ (fun _ _ => rfl) rfl

theorem sane_step {w w' : FFmpegWorker Frame} (h : Sane w.bare) {l : Label Frame}
    (hs : machine.step w l = some w') : Sane w'.bare :=
  sane_moves h (moves_of_step hs)

/-- What `start` does before the task runs, if it does anything. -/
theorem start_eq (w : FFmpegWorker Frame) :
    w.start = w ∧ w.LifecycleAlive = true ∨
      w.start = { w with
        stopRequested := false, userResetEvent := false, lastProgress := none
        lifecycle := .created } ∧ w.LifecycleAlive = false := by
  rw [start, LifecycleAlive]
  split
  · exact .inr ⟨rfl, rfl⟩
  · exact .inr ⟨rfl, rfl⟩
  · exact .inl ⟨rfl, rfl⟩

/-- A call of `start` before any other keeps the worker sane. -/
theorem sane_start {w : FFmpegWorker Frame} (h : Sane w.bare) (honce : Once w .start) :
    Sane w.start.bare := by
  rcases start_eq w with ⟨heq, -⟩ | ⟨heq, hdead⟩
  · rw [heq]
    exact h
  · have hnew : w.lifecycle = .notStarted := by
      rw [LifecycleAlive] at hdead
      split at hdead
      · rename_i hl
        exact hl
      · rename_i e hl
        exact absurd hl (honce e)
      · cases hdead
    have hplace := h.place
    rw [show w.bare.lifecycle = .notStarted from hnew] at hplace
    rw [heq]
    exact sane_of_ended (h.ended fun t ht => by cases hnew.symm.trans ht)
      (fun _ hno => absurd rfl hno) hplace

/-! ## A worker that starts with an open stream -/

/-- While the loop runs the stream stays open, and a loop that runs has run
before. -/
theorem open_moves {s s' : FFmpegWorker Frame} {l : Label Frame} (hm : Moves s l s')
    (halive : s'.LifecycleAlive = true) :
    s.LifecycleAlive = true ∧ s'.sendOpen = s.sendOpen := by
  cases hm with
  | beside hl hb =>
    rw [hb.eq] at halive ⊢
    exact ⟨halive, rfl⟩
  | taken hopen hl => exact ⟨by rw [LifecycleAlive, hl], rfl⟩
  | announcementTaken hopen hx | progressTaken hopen hx | errorTaken hopen hx => exact ⟨halive, rfl⟩
  | resumes hr =>
    obtain ⟨hran, ⟨honly, -⟩ | ⟨x, k, hl, hgo, honly⟩⟩ := only_resumes hr
    · exact ⟨hran, by rw [honly.eq]⟩
    · refine ⟨hran, ?_⟩
      rw [honly.eq]
      cases k <;> exact sendOpen_arrived s x.event
  | spawns hl => exact ⟨by rw [LifecycleAlive, hl], rfl⟩
  | spawnFails hl hsends => exact ⟨by rw [LifecycleAlive, hl], by rw [(only_sends hsends).eq]⟩
  | spawnRaises hl => exact ⟨by rw [LifecycleAlive, hl], rfl⟩
  | reads hreading hr =>
    rw [pumpOnly_reads hr] at halive ⊢
    exact ⟨halive, rfl⟩
  | stdoutGoesOn hg =>
    rw [pumpOnly_stdoutGoesOn hg] at halive ⊢
    exact ⟨halive, rfl⟩
  | pumpRaises hp => exact ⟨halive, rfl⟩
  | resets hs => exact ⟨halive, rfl⟩
  | resetIgnored hs => exact ⟨halive, rfl⟩
  | stops hs =>
    cases hs with
    | signals hp hrun => exact ⟨halive, rfl⟩
    | joins hno hj =>
      cases hj with
      | awaits h => exact ⟨halive, rfl⟩
      | closes hdead => exact absurd (hdead.symm.trans halive) Bool.false_ne_true
  | @stopGoesOn i timedOut phase s' phase' hphase hg =>
    change s'.LifecycleAlive = true at halive
    change s.LifecycleAlive = true ∧ s'.sendOpen = s.sendOpen
    have hjoins {phase : StopPhase} {s' : FFmpegWorker Frame} (hj : Joins s s' phase)
        (halive : s'.LifecycleAlive = true) :
        s.LifecycleAlive = true ∧ s'.sendOpen = s.sendOpen := by
      cases hj with
      | awaits h => exact ⟨halive, rfl⟩
      | closes hdead => exact absurd (hdead.symm.trans halive) Bool.false_ne_true
    have hover {e : Ended} (hl : s.lifecycle = .finished e) (halive : s.LifecycleAlive = true) :
        False := by
      rw [LifecycleAlive, hl] at halive
      cases halive
    cases hg with
    | exited hexited hj => exact hjoins hj halive
    | kills => exact ⟨halive, rfl⟩
    | killed hj => exact hjoins hj halive
    | joined hl => exact (hover hl halive).elim
    | raised hl he => exact ⟨halive, rfl⟩
    | cancels hc =>
      cases hc with
      | ended hdead => exact ⟨halive, rfl⟩
      | swallowed hl hfailed => exact ⟨halive, rfl⟩
      | pumping hl hgoing => cases halive
      | elsewhere hran hno => cases halive
    | cancelled hl he => exact (hover hl halive).elim
    | raisedAnyway hl => exact ⟨halive, rfl⟩
    | closesReceive => exact ⟨halive, rfl⟩
    | returns => exact ⟨halive, rfl⟩

/-- A request to stop is not taken back, and a call of `stop` makes one. -/
theorem requested_moves {s s' : FFmpegWorker Frame} {l : Label Frame} (hm : Moves s l s') :
    (s.stopRequested = true → s'.stopRequested = true) ∧
      (s'.stops ≠ [] → s.stops ≠ [] ∨ s'.stopRequested = true) := by
  cases hm with
  | beside hl hb =>
    rw [hb.eq]
    exact ⟨id, .inl⟩
  | resumes hr =>
    obtain ⟨-, ⟨honly, -⟩ | ⟨x, k, hl, hgo, honly⟩⟩ := only_resumes hr
    · rw [honly.eq]
      exact ⟨id, .inl⟩
    · rw [honly.eq]
      obtain ⟨e, accepted⟩ := x
      cases k <;> cases e <;> exact ⟨id, .inl⟩
  | spawnFails hl hsends =>
    rw [(only_sends hsends).eq]
    exact ⟨id, .inl⟩
  | reads hreading hr =>
    rw [pumpOnly_reads hr]
    exact ⟨id, .inl⟩
  | stdoutGoesOn hg =>
    rw [pumpOnly_stdoutGoesOn hg]
    exact ⟨id, .inl⟩
  | stops hs =>
    cases hs with
    | signals hp hrun => exact ⟨fun _ => rfl, fun _ => .inr rfl⟩
    | joins hno hj => cases hj <;> exact ⟨fun _ => rfl, fun _ => .inr rfl⟩
  | @stopGoesOn i timedOut phase s' phase' hphase hg =>
    have hne : s.stops ≠ [] := List.ne_nil_of_mem (List.mem_of_getElem? hphase)
    refine ⟨fun hreq => ?_, fun _ => .inl hne⟩
    have hjoins {s' : FFmpegWorker Frame} {phase : StopPhase} (hj : Joins s s' phase) :
        s'.stopRequested = true := by
      cases hj <;> exact hreq
    change s'.stopRequested = true
    cases hg with
    | exited hexited hj => exact hjoins hj
    | killed hj => exact hjoins hj
    | cancels hc => cases hc <;> exact hreq
    | kills | joined | raised | cancelled | raisedAnyway | closesReceive | returns => exact hreq
  | taken | announcementTaken | progressTaken | errorTaken | spawns | spawnRaises | pumpRaises
  | resets | resetIgnored => exact ⟨id, .inl⟩

/-- A sane worker whose stream was open when it was started, and that was not
started again. -/
structure Booted (w : FFmpegWorker Frame) : Prop extends Sane w where
  /-- from the creation of the task on -/
  sending : w.LifecycleAlive = true → w.sendOpen = true
  asked : w.stops ≠ [] → w.stopRequested = true

theorem booted_boot (policy : CircuitBreakerPolicy) (now : ℚ) :
    Booted (boot policy now : FFmpegWorker Frame).bare :=
  ⟨sane_boot policy now, fun _ => rfl, fun hne => absurd rfl hne⟩

theorem booted_moves {s s' : FFmpegWorker Frame} (h : Booted s) {l : Label Frame}
    (hm : Moves s l s') : Booted s' := by
  refine ⟨sane_moves h.toSane hm, fun halive => ?_, fun hne => ?_⟩
  · obtain ⟨hran, hopen⟩ := open_moves hm halive
    exact hopen.trans (h.sending hran)
  · exact ((requested_moves hm).2 hne).elim (fun hne => (requested_moves hm).1 (h.asked hne)) id

end FFmpegWorker

end RestreamPlus
