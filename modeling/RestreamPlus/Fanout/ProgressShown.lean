import RestreamPlus.Fanout.WorkerPlaces

/-!
# The progress a worker shows

`snapshot` shows `_last_progress`: the last frame of ffmpeg, or `None` before
the first one, after a reconnect and between sessions. `ProgressLog` follows
the process that runs now and the frame it sent last, without looking at
`_last_progress`; `Shown` compares the two.

Only `start` clears the frame, so it outlives its process. `progress_shown_iff`
says what that takes: a process that has shown a frame and ends, a `stop` that
returns over such a frame, or, after a cancelled `stop` and another `start`, a
process that runs in FAILED_OPEN.
-/

namespace RestreamPlus

open Interleaving

namespace FFmpegWorker

variable {Frame : Type}

/-! ## The history -/

/-- What happened to the process that was spawned last. -/
structure ProgressLog (Frame : Type) : Type where
  /-- the frame it sent last -/
  latest : Option Frame
  /-- a `stop` has returned since the last start -/
  stopped : Bool

namespace ProgressLog

def empty : ProgressLog Frame := ⟨none, false⟩

/-- A new process has sent nothing; the frames of a chunk are sent one by one. -/
def latestAfter (g : ProgressLog Frame) (w : FFmpegWorker Frame) : Restart Frame → Option Frame
  | .other .spawned => none
  | .other (.readStdout (.frames (frame :: _))) => some frame
  | .other .resumeStdout =>
    match w.pumps.stdout with
    | .progressing _ (frame :: _) => some frame
    | _ => g.latest
  | _ => g.latest

/-- A `stop` returns for a task that is over. -/
def stoppedAfter (g : ProgressLog Frame) (w : FFmpegWorker Frame) : Restart Frame → Bool
  | .start => g.stopped && w.LifecycleAlive
  | .other (.resumeStop i _) =>
    g.stopped || w.stops[i]? = some .closingReceive && !w.LifecycleAlive
  | _ => g.stopped

/-- What a step adds to the history. -/
def note (g : ProgressLog Frame) (w : FFmpegWorker Frame) (l : Restart Frame)
    (_ : FFmpegWorker Frame) : ProgressLog Frame :=
  ⟨g.latestAfter w l, g.stoppedAfter w l⟩

end ProgressLog

/-- **The progress shown is not stale.** -/
structure Shown (p : FFmpegWorker Frame × ProgressLog Frame) : Prop where
  latest : ∀ frame, p.1.lastProgress = some frame →
    p.1.process ≠ none ∧ p.2.latest = some frame
  starting : p.1.state = .starting → p.1.lastProgress = none
  failedOpen : p.1.state = .failedOpen → p.1.lastProgress = none
  stopped : p.2.stopped = true → p.1.lastProgress = none

/-- The loop comes back from reporting the exit of a process. -/
def ExitReported (w : FFmpegWorker Frame) : Prop :=
  ∃ x, w.lifecycle = .sending x .exitedSent ∧ w.canGoOn x = true

/-- No frame is shown when a process or a session ends, and none is sent in
FAILED_OPEN. -/
def Cleared (w : FFmpegWorker Frame) : Restart Frame → Prop
  | .other (.lifecycle _) => w.ExitReported → w.lastProgress = none
  | .other (.readStdout (.frames (_ :: _))) =>
    w.pumps.stdout = .reading → w.state ≠ .failedOpen
  | .other (.resumeStop i _) =>
    w.stops[i]? = some .closingReceive → w.LifecycleAlive = false → w.lastProgress = none
  | _ => True

/-! ## The invariant -/

/-- Where a frame may be shown. -/
def MayShow : Lifecycle Frame → Prop
  | .pumping _ | .sending _ .exitedSent | .finished _ => True
  | _ => False

/-- The frame shown, the process and the history. -/
structure Showing (s : FFmpegWorker Frame) (g : ProgressLog Frame) : Prop extends Shown (s, g) where
  /-- pumps exist inside the task group only -/
  ended : (∀ t, s.lifecycle ≠ .pumping t) → ∃ b, s.pumps = endedPumps b
  /-- elsewhere nothing is shown -/
  between : ¬ MayShow s.lifecycle → s.lastProgress = none
  pumping : ∀ t, s.lifecycle = .pumping t →
    s.process ≠ none ∧ (s.state = .reconnecting → s.lastProgress = none)
  announcing : ∀ x frame rest fresh, s.pumps.stdout = .announcing x frame rest fresh →
    (∃ old cause, x.event = .state .running old cause) ∧ g.latest = some frame ∧
      s.lastProgress = none
  progressing : ∀ x rest, s.pumps.stdout = .progressing x rest → s.lastProgress ≠ none
  silent : g.stopped = true → s.LifecycleAlive = false

section Step

variable {s s' : FFmpegWorker Frame} {g g' : ProgressLog Frame} {draw : ℚ}

/-- A pump that has not ended is inside the task group. -/
theorem Showing.grouped (h : Showing s g) (hp : ∀ b, s.pumps ≠ endedPumps b) :
    ∃ t, s.lifecycle = .pumping t := by
  by_contra hno
  obtain ⟨b, hb⟩ := h.ended fun t ht => hno ⟨t, ht⟩
  exact hp b hb

theorem Showing.not_stopped (h : Showing s g) (halive : s.LifecycleAlive = true) :
    g.stopped = false := by
  by_contra hstopped
  exact Bool.false_ne_true ((h.silent (Bool.eq_true_of_not_eq_false hstopped)).symm.trans halive)

/-- Outside the task group, with nothing shown. -/
theorem showing_none (hp : ∃ b, s.pumps = endedPumps b) (hno : ∀ t, s.lifecycle ≠ .pumping t)
    (hnone : s.lastProgress = none) (hover : g.stopped = true → s.LifecycleAlive = false) :
    Showing s g := by
  obtain ⟨b, hb⟩ := hp
  refine ⟨⟨fun frame hf => ?_, fun _ => hnone, fun _ => hnone, fun _ => hnone⟩, fun _ => ⟨b, hb⟩,
    fun _ => hnone, fun t ht => absurd ht (hno t), fun x frame rest fresh hx => ?_,
    fun x rest hx => ?_, hover⟩
  · rw [hnone] at hf
    cases hf
  · rw [hb] at hx
    cases hx
  · rw [hb] at hx
    cases hx

/-- A step that leaves alone what is shown and whom it is of, and leaves the
task group or enters none. -/
theorem Showing.outside (h : Showing s g) (hp : ∃ b, s'.pumps = endedPumps b)
    (hno : ∀ t, s'.lifecycle ≠ .pumping t) (hshow : MayShow s'.lifecycle)
    (hlast : s'.lastProgress = s.lastProgress) (hprocess : s'.process = s.process)
    (hstate : s'.state = s.state) (hover : g.stopped = true → s'.LifecycleAlive = false) :
    Showing s' g := by
  obtain ⟨b, hb⟩ := hp
  refine ⟨⟨?_, ?_, ?_, ?_⟩, fun _ => ⟨b, hb⟩, fun hno => absurd hshow hno,
    fun t ht => absurd ht (hno t), fun x frame rest fresh hx => ?_, fun x rest hx => ?_, hover⟩
  · rw [hlast, hprocess]
    exact h.latest
  · rw [hlast, hstate]
    exact h.starting
  · rw [hlast, hstate]
    exact h.failedOpen
  · rw [hlast]
    exact h.stopped
  · rw [hb] at hx
    cases hx
  · rw [hb] at hx
    cases hx

/-! ### The loop -/

/-- Outside the task group, with nothing shown, the loop goes on. -/
theorem Showing.only (h : Showing s g) (hnone : s.lastProgress = none)
    (hno : ∀ t, s.lifecycle ≠ .pumping t) {r : FFmpegWorker Frame} (hpumps : r.pumps = s.pumps)
    (hlast : r.lastProgress = s.lastProgress) (honly : Only r s')
    (hover : g.stopped = true → s'.LifecycleAlive = false) : Showing s' g := by
  obtain ⟨b, hb⟩ := h.ended hno
  refine showing_none ⟨b, ?_⟩ honly.elsewhere ?_ hover
  · rw [honly.eq]
    exact hpumps.trans hb
  · rw [honly.eq]
    exact hlast.trans hnone

theorem showing_resumes (h : Showing s g) (hclear : s.ExitReported → s.lastProgress = none)
    (hr : Resumes s draw s') : Showing s' g := by
  obtain ⟨hran, hor⟩ := only_resumes hr
  have hover : g.stopped = true → s'.LifecycleAlive = false := fun hstopped =>
    absurd ((h.not_stopped hran).symm.trans hstopped) Bool.false_ne_true
  obtain ⟨honly, hno⟩ | ⟨x, k, hl, hgo, honly⟩ := hor
  · by_cases hshow : MayShow s.lifecycle
    · cases hr with
      | exits hl hpumps hplain hsends =>
        obtain ⟨b, hb⟩ := endedPumps_of_pumpsEnded hpumps
        have hshow' : MayShow s'.lifecycle := by cases hsends <;> exact trivial
        refine h.outside ⟨b, ?_⟩ honly.elsewhere hshow' ?_ ?_ ?_ hover <;> rw [honly.eq]
        exact hb
      | sent hl => exact absurd hl (hno _ _)
      | starts hl | startsAnew hl | stops hl | resets hl | resetsAnew hl | wakes hl =>
        rw [hl] at hshow
        exact hshow.elim
    · refine h.only (h.between hshow) (fun t ht => hshow ?_) rfl rfl honly hover
      rw [ht]
      trivial
  · have hnone : s.lastProgress = none := by
      by_cases hk : k = .exitedSent
      · subst hk
        exact hclear ⟨x, hl, hgo⟩
      · refine h.between fun hshow => ?_
        rw [hl] at hshow
        cases k <;> first | exact hk rfl | exact hshow
    have hreceived : (s.received x.event k).pumps = s.pumps ∧
        (s.received x.event k).lastProgress = s.lastProgress := by
      obtain ⟨e, accepted⟩ := x
      cases k <;> cases e <;> exact ⟨rfl, rfl⟩
    exact h.only hnone (fun t ht => by cases hl.symm.trans ht) hreceived.1 hreceived.2 honly hover

/-! ### The stdout pump -/

/-- The states in which no frame is shown. -/
def Blank (state : WorkerState) : Prop :=
  state = .starting ∨ state = .reconnecting ∨ state = .failedOpen

/-- In the task group of a process that was spawned. -/
structure Inside (s : FFmpegWorker Frame) (g : ProgressLog Frame) (t : ℚ) : Prop where
  lifecycle : s.lifecycle = .pumping t
  process : s.process ≠ none
  stopped : g.stopped = false
  latest : ∀ frame, s.lastProgress = some frame → g.latest = some frame
  blank : Blank s.state → s.lastProgress = none

theorem Showing.inside (h : Showing s g) {t : ℚ} (hl : s.lifecycle = .pumping t) :
    Inside s g t := by
  refine ⟨hl, (h.pumping t hl).1, h.not_stopped (alive_of_pumping hl),
    fun frame hf => (h.latest frame hf).2, ?_⟩
  rintro (hs | hs | hs)
  · exact h.starting hs
  · exact (h.pumping t hl).2 hs
  · exact h.failedOpen hs

variable {t : ℚ}

/-- What is left to say there. -/
theorem Inside.showing (h : Inside s g t)
    (hannouncing : ∀ x frame rest fresh, s.pumps.stdout = .announcing x frame rest fresh →
      (∃ old cause, x.event = .state .running old cause) ∧ g.latest = some frame ∧
        s.lastProgress = none)
    (hprogressing : ∀ x rest, s.pumps.stdout = .progressing x rest → s.lastProgress ≠ none) :
    Showing s g := by
  have hnot (hstopped : g.stopped = true) : False :=
    Bool.false_ne_true (h.stopped.symm.trans hstopped)
  have hshow : MayShow s.lifecycle := by
    rw [h.lifecycle]
    trivial
  exact ⟨⟨fun frame hf => ⟨h.process, h.latest frame hf⟩, fun hs => h.blank (.inl hs),
    fun hs => h.blank (.inr (.inr hs)), fun hs => (hnot hs).elim⟩,
    fun hno => absurd h.lifecycle (hno t), fun hno => absurd hshow hno,
    fun t' _ => ⟨h.process, fun hs => h.blank (.inr (.inl hs))⟩, hannouncing, hprogressing,
    fun hs => (hnot hs).elim⟩

/-- The stdout pump has nothing to send. -/
theorem Inside.silent (h : Inside s g t) {pumps : Pumps Frame}
    (hannouncing : ∀ x frame rest fresh, pumps.stdout ≠ .announcing x frame rest fresh)
    (hprogressing : ∀ x rest, pumps.stdout ≠ .progressing x rest) :
    Showing { s with pumps := pumps } g :=
  Inside.showing ⟨h.lifecycle, h.process, h.stopped, h.latest, h.blank⟩
    (fun x frame rest fresh hx => absurd hx (hannouncing x frame rest fresh))
    fun x rest hx => absurd hx (hprogressing x rest)

theorem Inside.ended (h : Inside s g t) (b : Bool) :
    Showing { s with pumps := endedPumps b } g :=
  h.silent (fun x frame rest fresh hx => by cases hx) fun x rest hx => by cases hx

/-- RUNNING is announced for a frame. -/
theorem Inside.announces (h : Inside s g t) (hblank : Blank s.state) {cause : String}
    {frame : Frame} {rest : List Frame} {fresh : Bool}
    (hp : PumpSends s { s.pumps with
      stdout := .announcing ⟨.state .running s.state cause, false⟩ frame rest fresh } s') :
    Showing s' { g with latest := some frame } := by
  have hnone := h.blank hblank
  have hnew : Inside s { g with latest := some frame } t :=
    ⟨h.lifecycle, h.process, h.stopped, fun f hf => (by rw [hnone] at hf; cases hf), h.blank⟩
  cases hp with
  | sent hopen =>
    refine Inside.showing (t := t) ⟨h.lifecycle, h.process, h.stopped, hnew.latest, h.blank⟩
      (fun x f rest fresh hx => ?_) fun x rest hx => by cases hx
    cases hx
    exact ⟨⟨_, _, rfl⟩, rfl, hnone⟩
  | refused hclosed => exact hnew.ended true

/-- A frame is shown. -/
theorem Inside.reports (h : Inside s g t) {frame : Frame} {rest : List Frame}
    (hlast : s.lastProgress = some frame) {pumps : Pumps Frame}
    (hp : PumpSends s
      { pumps with stdout := .progressing ⟨.progress frame, false⟩ rest } s') :
    Showing s' g := by
  cases hp with
  | sent hopen =>
    refine Inside.showing (t := t) ⟨h.lifecycle, h.process, h.stopped, h.latest, h.blank⟩
      (fun x f rest fresh hx => by cases hx) fun x rest hx hnone => ?_
    cases hlast.symm.trans hnone
  | refused hclosed => exact h.ended true

/-- A frame is taken up. -/
theorem Inside.handles (h : Inside s g t) {frame : Frame} {rest : List Frame}
    (hs : s.state ≠ .failedOpen) (hh : Handles s (frame :: rest) s') :
    Showing s' { g with latest := some frame } := by
  cases hh with
  | first hstate hsends => exact h.announces (.inl hstate) hsends
  | resumed hstate hsends => exact h.announces (.inr (.inl hstate)) hsends
  | reports hstarting hreconnecting hsends =>
    have hnew : Inside { s with lastProgress := some frame } { g with latest := some frame } t :=
      ⟨h.lifecycle, h.process, h.stopped, fun f hf => hf, fun hblank =>
        absurd hblank (not_or_intro hstarting (not_or_intro hreconnecting hs))⟩
    exact hnew.reports rfl hsends

theorem Showing.reads (h : Showing s g) (hreading : s.pumps.stdout = .reading)
    {r : StdoutRead Frame}
    (hclear : Cleared s (.other (.readStdout r))) (hr : Reads s r s') :
    Showing s' (g.note s (.other (.readStdout r)) s') := by
  obtain ⟨t, hl⟩ := h.grouped fun b hb => by rw [hb] at hreading; cases hreading
  have hin := h.inside hl
  cases hr with
  | eof => exact hin.silent (fun x frame rest fresh hx => by cases hx) fun x rest hx => by cases hx
  | @frames s' frames hhandles =>
    cases frames with
    | nil =>
      cases hhandles
      exact hin.silent (fun x frame rest fresh hx => by cases hx) fun x rest hx => by cases hx
    | cons frame rest => exact hin.handles (hclear hreading) hhandles
  | parseError hsends | failed hsends =>
    cases hsends with
    | sent hopen =>
      exact hin.silent (fun x frame rest fresh hx => by cases hx) fun x rest hx => by cases hx
    | refused hclosed => exact hin.ended true

theorem Showing.stdoutGoesOn (h : Showing s g) (hg : StdoutGoesOn s s') :
    Showing s' (g.note s (.other .resumeStdout) s') := by
  have hannounced {x : Sending Frame} {frame : Frame} {rest : List Frame} {fresh : Bool}
      {attempt : ℕ} (hx : s.pumps.stdout = .announcing x frame rest fresh)
      (hsends : PumpSends
        { s.arrived x.event with attempt := attempt, lastProgress := some frame }
        { s.pumps with stdout := .progressing ⟨.progress frame, false⟩ rest } s') :
      Showing s' (g.note s (.other .resumeStdout) s') := by
    obtain ⟨t, hl⟩ := h.grouped fun b hb => by rw [hb] at hx; cases hx
    obtain ⟨⟨old, cause, he⟩, hlatest, -⟩ := h.announcing x frame rest fresh hx
    have hin := h.inside hl
    have hsame : g.note s (.other .resumeStdout) s' = g := by
      rw [ProgressLog.note, ProgressLog.latestAfter, hx]
      rfl
    have hnew : Inside { s.arrived (.state .running old cause) with
        attempt := attempt, lastProgress := some frame } g t := by
      refine ⟨hl, hin.process, hin.stopped, fun f hf => ?_, ?_⟩
      · cases hf
        exact hlatest
      · rintro (hs | hs | hs) <;> cases hs
    rw [he] at hsends
    rw [hsame]
    exact hnew.reports rfl hsends
  cases hg with
  | announced hx hgo hsends => exact hannounced hx hsends
  | resumed hx hgo hsends => exact hannounced hx hsends
  | @reported s' x rest hx hgo hhandles =>
    obtain ⟨t, hl⟩ := h.grouped fun b hb => by rw [hb] at hx; cases hx
    have hin := h.inside hl
    have hshown := h.progressing x rest hx
    rw [ProgressLog.note, ProgressLog.latestAfter, hx]
    cases rest with
    | nil =>
      cases hhandles
      exact hin.silent (fun x frame rest fresh hx => by cases hx) fun x rest hx => by cases hx
    | cons frame rest => exact hin.handles (fun hs => hshown (h.failedOpen hs)) hhandles
  | @erred x goesOn hx hgo =>
    obtain ⟨t, hl⟩ := h.grouped fun b hb => by rw [hb] at hx; cases hx
    rw [ProgressLog.note, ProgressLog.latestAfter, hx]
    cases goesOn
    · exact (h.inside hl).silent (fun x frame rest fresh hx => by cases hx) fun x rest hx => by
        cases hx
    · exact (h.inside hl).silent (fun x frame rest fresh hx => by cases hx) fun x rest hx => by
        cases hx

/-! ### The steps beside them, and `stop` -/

theorem Showing.beside (h : Showing s g) (hb : Beside s s') : Showing s' g := by
  rw [hb.eq]
  refine ⟨⟨h.latest, h.starting, h.failedOpen, h.stopped⟩, fun hno => ?_, h.between, h.pumping,
    fun x frame rest fresh hx => ?_, fun x rest hx => ?_, h.silent⟩
  · obtain ⟨b, hpumps⟩ := h.ended hno
    exact ⟨b, (hb.ended b hpumps).trans hpumps⟩
  · obtain hsame | ⟨-, hended⟩ := hb.stdout
    · exact h.announcing x frame rest fresh (hsame.symm.trans hx)
    · have hx : s'.pumps.stdout = .announcing x frame rest fresh := hx
      rw [hended] at hx
      cases hx
  · obtain hsame | ⟨-, hended⟩ := hb.stdout
    · exact h.progressing x rest (hsame.symm.trans hx)
    · have hx : s'.pumps.stdout = .progressing x rest := hx
      rw [hended] at hx
      cases hx

/-- What the invariant does not speak of may change. -/
theorem Showing.same (h : Showing s g) (hlast : s'.lastProgress = s.lastProgress)
    (hprocess : s'.process = s.process) (hstate : s'.state = s.state)
    (hl : s'.lifecycle = s.lifecycle) (hpumps : s'.pumps = s.pumps) : Showing s' g := by
  obtain ⟨⟨hlatest, hstarting, hopen, hstopped⟩, hended, hbetween, hpumping, hann, hprog, hover⟩ := h
  refine ⟨⟨?_, ?_, ?_, ?_⟩, ?_, ?_, ?_, ?_, ?_, ?_⟩ <;>
    simp only [hlast, hprocess, hstate, hl, hpumps, LifecycleAlive] <;> assumption

theorem Showing.stops (h : Showing s g) {phase : StopPhase} (hs : Stops s s' phase) :
    Showing { s' with stops := s.stops ++ [phase] } g := by
  cases hs with
  | signals hp hrun => exact h.same rfl rfl rfl rfl rfl
  | joins hno hj => cases hj <;> exact h.same rfl rfl rfl rfl rfl

theorem Showing.stopGoesOn (h : Showing s g) {phase phase' : StopPhase} {timedOut : Bool}
    (hg : StopGoesOn s phase timedOut s' phase') (stops : List StopPhase) :
    Showing { s' with stops := stops } g := by
  have hjoins {s' : FFmpegWorker Frame} {phase' : StopPhase} (hj : Joins s s' phase') :
      Showing { s' with stops := stops } g := by
    cases hj <;> exact h.same rfl rfl rfl rfl rfl
  cases hg with
  | exited hexited hj => exact hjoins hj
  | killed hj => exact hjoins hj
  | cancels hc =>
    cases hc with
    | ended hdead => exact h.same rfl rfl rfl rfl rfl
    | swallowed hl hfailed => exact h.same rfl rfl rfl rfl rfl
    | pumping hl hgoing =>
      exact h.outside ⟨false, rfl⟩ (fun t ht => by cases ht) trivial rfl rfl rfl fun _ => rfl
    | elsewhere halive hno =>
      exact h.outside (h.ended hno) (fun t ht => by cases ht) trivial rfl rfl rfl fun _ => rfl
  | kills | joined | raised | cancelled | raisedAnyway | closesReceive | returns =>
    exact h.same rfl rfl rfl rfl rfl

/-- A `stop` returns. -/
theorem Showing.returned (h : Showing s g) (hnone : s.lastProgress = none)
    (hdead : s.LifecycleAlive = false) : Showing s { g with stopped := true } :=
  ⟨⟨h.latest, h.starting, h.failedOpen, fun _ => hnone⟩, h.ended, h.between, h.pumping,
    h.announcing, h.progressing, fun _ => hdead⟩

theorem note_returned {i : ℕ} {timedOut : Bool} (hwait : s.stops[i]? = some .closingReceive)
    (hdead : s.LifecycleAlive = false) :
    g.note s (.other (.resumeStop i timedOut)) s' = { g with stopped := true } := by
  simp only [ProgressLog.note, ProgressLog.latestAfter, ProgressLog.stoppedAfter, hwait, hdead,
    decide_true, Bool.not_false, Bool.and_self, Bool.or_true]

theorem Showing.noteStop (h : Showing s g) {i : ℕ} {timedOut : Bool} {phase phase' : StopPhase}
    (hphase : s.stops[i]? = some phase) (hg : StopGoesOn s phase timedOut s' phase')
    (hclear : Cleared s (.other (.resumeStop i timedOut))) :
    Showing { s' with stops := s.stops.set i phase' }
      (g.note s (.other (.resumeStop i timedOut)) { s' with stops := s.stops.set i phase' }) := by
  by_cases hreturns : s.stops[i]? = some .closingReceive ∧ s.LifecycleAlive = false
  · obtain ⟨hwait, hdead⟩ := hreturns
    obtain rfl : phase = .closingReceive := Option.some.inj (hphase.symm.trans hwait)
    cases hg with
    | returns =>
      rw [note_returned hwait hdead]
      exact (h.returned (hclear hwait hdead) hdead).same rfl rfl rfl rfl rfl
  · have hnote : g.note s (.other (.resumeStop i timedOut)) s = g := by
      have hno : (decide (s.stops[i]? = some .closingReceive) && !s.LifecycleAlive) = false := by
        rw [Bool.eq_false_iff]
        intro hyes
        obtain ⟨hwait, hdead⟩ := Bool.and_eq_true_iff.mp hyes
        exact hreturns ⟨of_decide_eq_true hwait, Bool.not_eq_true' _ ▸ hdead⟩
      rw [ProgressLog.note, ProgressLog.stoppedAfter, hno, Bool.or_false]
      rfl
    have hsame := h.stopGoesOn hg (s.stops.set i phase')
    rw [← hnote] at hsame
    exact hsame

/-! ### Every step -/

/-- **One step that clears what it ends.** -/
theorem showing_moves (h : Showing s g) {l : Label Frame} (hclear : Cleared s (.other l))
    (hm : Moves s l s') : Showing s' (g.note s (.other l) s') := by
  cases hm with
  | beside hl hb => cases l <;> first | exact h.beside hb | exact hl.elim
  | @taken e k hopen hl =>
    refine ⟨⟨h.latest, h.starting, h.failedOpen, h.stopped⟩,
      (fun _ => h.ended fun t ht => by cases hl.symm.trans ht),
      fun hno => h.between fun hshow => ?_, (fun t ht => by cases ht), h.announcing,
      h.progressing, fun hstopped => ?_⟩
    · rw [hl] at hshow
      cases k <;> first | exact hno trivial | exact hshow
    · have hdead := h.silent hstopped
      rw [LifecycleAlive, hl] at hdead
      cases hdead
  | announcementTaken hopen hx =>
    obtain ⟨t, hl⟩ := h.grouped fun b hb => by rw [hb] at hx; cases hx
    have hin := h.inside hl
    refine Inside.showing (t := t) ⟨hl, hin.process, hin.stopped, hin.latest, hin.blank⟩
      (fun x frame rest fresh hx' => ?_) fun x rest hx' => by cases hx'
    cases hx'
    exact h.announcing ⟨_, false⟩ _ _ _ hx
  | progressTaken hopen hx =>
    obtain ⟨t, hl⟩ := h.grouped fun b hb => by rw [hb] at hx; cases hx
    have hin := h.inside hl
    exact Inside.showing (t := t) ⟨hl, hin.process, hin.stopped, hin.latest, hin.blank⟩
      (fun x frame rest fresh hx' => by cases hx') fun x rest hx' => h.progressing ⟨_, false⟩ _ hx
  | errorTaken hopen hx =>
    obtain ⟨t, hl⟩ := h.grouped fun b hb => by rw [hb] at hx; cases hx
    have hin := h.inside hl
    exact Inside.showing (t := t) ⟨hl, hin.process, hin.stopped, hin.latest, hin.blank⟩
      (fun x frame rest fresh hx' => by cases hx') fun x rest hx' => by cases hx'
  | resumes hr => exact showing_resumes h hclear hr
  | spawns hl =>
    have hnone := h.between fun hshow => by rw [hl] at hshow; exact hshow
    refine Inside.showing (t := s.now) ⟨rfl, (fun hp => by cases hp),
      h.not_stopped (by rw [LifecycleAlive, hl]), fun frame hf => ?_, fun _ => hnone⟩
      (fun x frame rest fresh hx => by cases hx) fun x rest hx => by cases hx
    cases hnone.symm.trans hf
  | spawnFails hl hsends =>
    have hnone := h.between fun hshow => by rw [hl] at hshow; exact hshow
    have hrunning := h.not_stopped (by rw [LifecycleAlive, hl])
    exact h.only hnone (fun t ht => by cases hl.symm.trans ht) rfl rfl (only_sends hsends)
      fun hstopped => absurd (hrunning.symm.trans hstopped) Bool.false_ne_true
  | spawnRaises hl =>
    have hnone := h.between fun hshow => by rw [hl] at hshow; exact hshow
    exact showing_none (h.ended fun t ht => by cases hl.symm.trans ht) (fun t ht => by cases ht)
      hnone fun _ => rfl
  | reads hreading hr => exact h.reads hreading hclear hr
  | stdoutGoesOn hg => exact h.stdoutGoesOn hg
  | pumpRaises halive =>
    obtain ⟨t, hl⟩ := h.grouped fun b hb => by
      rename_i p
      cases p <;> rw [PumpAlive, hb] at halive <;> cases halive
    exact (h.inside hl).ended true
  | resets hs => exact h.same rfl rfl rfl rfl rfl
  | resetIgnored hs => exact h
  | stops hs => exact h.stops hs
  | stopGoesOn hphase hg => exact h.noteStop hphase hg hclear

/-! ### The exact guard -/

/-- **One step that leaves a stale frame.** -/
theorem stale_moves {l : Label Frame} (hstale : ¬ Cleared s (.other l)) (hm : Moves s l s') :
    ¬ Shown (s', g.note s (.other l) s') := by
  intro hshown
  cases hm with
  | beside hl hb => cases l <;> first | exact hstale trivial | exact hl.elim
  | @resumes draw s' hr =>
    obtain ⟨⟨x, hl, hgo⟩, hsome⟩ := Classical.not_imp.mp hstale
    obtain ⟨frame, hframe⟩ := Option.ne_none_iff_exists'.mp hsome
    obtain ⟨-, ⟨-, hno⟩ | ⟨y, k, hl', -, honly⟩⟩ := only_resumes hr
    · exact hno x _ hl
    · cases hl.symm.trans hl'
      have hreceived : (s.received x.event .exitedSent).process = none ∧
          (s.received x.event .exitedSent).lastProgress = s.lastProgress := by
        obtain ⟨e, accepted⟩ := x
        cases e <;> exact ⟨rfl, rfl⟩
      have hlast : s'.lastProgress = some frame := by
        rw [honly.eq]
        exact hreceived.2.trans hframe
      have hprocess : s'.process = none := by
        rw [honly.eq]
        exact hreceived.1
      exact (hshown.latest frame hlast).1 hprocess
  | @reads r s' hreading hr =>
    cases hr with
    | @frames s' frames hhandles =>
      cases frames with
      | nil => exact hstale trivial
      | cons frame rest =>
        obtain ⟨-, hopen⟩ := Classical.not_imp.mp hstale
        have hopen : s.state = .failedOpen := not_not.mp hopen
        cases hhandles with
        | first hs hsends => cases hopen.symm.trans hs
        | resumed hs hsends => cases hopen.symm.trans hs
        | reports hstarting hreconnecting hsends =>
          cases hsends with
          | sent => cases hshown.failedOpen hopen
          | refused => cases hshown.failedOpen hopen
    | eof | parseError | failed => exact hstale trivial
  | @stopGoesOn i timedOut phase s' phase' hphase hg =>
    obtain ⟨hwait, hstale⟩ := Classical.not_imp.mp hstale
    obtain ⟨hdead, hsome⟩ := Classical.not_imp.mp hstale
    obtain rfl : phase = .closingReceive := Option.some.inj (hphase.symm.trans hwait)
    cases hg with
    | returns =>
      rw [note_returned hwait hdead] at hshown
      exact hsome (hshown.stopped rfl)
  | _ => exact hstale trivial

end Step

/-! ## Every run -/

theorem Showing.start {w : FFmpegWorker Frame} {g : ProgressLog Frame} (h : Showing w.bare g) :
    Showing w.start.bare (g.note w .start w.start) := by
  rw [ProgressLog.note, ProgressLog.stoppedAfter]
  obtain ⟨heq, halive⟩ | ⟨heq, hdead⟩ := start_eq w
  · rw [heq, halive, Bool.and_true]
    exact h
  · rw [hdead, Bool.and_false, heq]
    refine showing_none (h.ended fun t ht => ?_) (fun t ht => by cases ht) rfl fun hs => by cases hs
    exact Bool.false_ne_true (hdead.symm.trans (alive_of_pumping ht))

theorem showing_restartable {p p' : FFmpegWorker Frame × ProgressLog Frame} {l : Restart Frame}
    (h : Showing p.1.bare p.2) (hclear : Cleared p.1 l)
    (hs : (restartable.recording ProgressLog.note).step p l = some p') :
    Showing p'.1.bare p'.2 := by
  obtain ⟨hw, hg⟩ := Machine.step_recording hs
  rw [hg]
  cases l with
  | start =>
    simp only [restartable] at hw
    split at hw
    · cases hw
    · rw [← Option.some.inj hw]
      exact h.start
  | other l => exact showing_moves h hclear (moves_of_step hw)

theorem stale_restartable {p p' : FFmpegWorker Frame × ProgressLog Frame} {l : Restart Frame}
    (hstale : ¬ Cleared p.1 l)
    (hs : (restartable.recording ProgressLog.note).step p l = some p') : ¬ Shown p' := by
  obtain ⟨hw, hg⟩ := Machine.step_recording hs
  cases l with
  | start => exact absurd trivial hstale
  | other l =>
    intro hshown
    refine stale_moves (s := p.1.bare) (g := p.2) hstale (moves_of_step hw) ?_
    have hlog : p.2.note p.1.bare (.other l) p'.1.bare = p'.2 := hg.symm
    rw [hlog]
    exact ⟨hshown.latest, hshown.starting, hshown.failedOpen, hshown.stopped⟩

theorem cleared_of_none {w : FFmpegWorker Frame} {l : Restart Frame}
    (h : restartable.step w l = none) : Cleared w l := by
  cases l with
  | start => trivial
  | other l =>
    change w.step l = none at h
    cases l with
    | lifecycle draw =>
      rintro ⟨x, hl, hgo⟩
      rw [step, resumeLifecycle, hl] at h
      simp only [hgo, if_true] at h
      cases h
    | readStdout r =>
      cases r with
      | frames frames =>
        cases frames with
        | nil => trivial
        | cons frame rest =>
          intro hreading
          simp only [step, hreading] at h
          cases h
      | eof | parseError | failed => trivial
    | resumeStop i timedOut =>
      intro hwait
      simp only [step, hwait, resumeStop, Option.map_some] at h
      cases h
    | _ => trivial

theorem showing_init (policy : CircuitBreakerPolicy) (now : ℚ) :
    Showing (init policy now : FFmpegWorker Frame).bare .empty :=
  showing_none ⟨false, rfl⟩ (fun t ht => by cases ht) rfl fun _ => rfl

/-- **The progress shown is not stale** in exactly the runs that clear it: no
process or session ends over a frame, and none sends one in FAILED_OPEN. -/
theorem progress_shown_iff (policy : CircuitBreakerPolicy) (now : ℚ)
    (labels : List (Restart Frame)) :
    (restartable.recording ProgressLog.note).Always Shown (init policy now, .empty) labels ↔
      (restartable.recording ProgressLog.note).Meets (fun p => Cleared p.1)
        (init policy now, .empty) labels := by
  refine Machine.always_iff_meets (I := fun p => Showing p.1.bare p.2)
    (fun _ _ _ h hclear hs => showing_restartable h hclear hs)
    (fun p h => ⟨h.latest, h.starting, h.failedOpen, h.stopped⟩)
    (fun _ _ _ _ hstale hs => stale_restartable hstale hs) (fun p l hs => ?_)
    (showing_init policy now)
  exact cleared_of_none (Option.map_eq_none_iff.mp hs)

/-- A worker comes up, shows a frame and loses its process. -/
def lostProcess : List (Restart Unit) :=
  .start :: ([.lifecycle 0, .accept .lifecycle, .lifecycle 0, .spawned,
    .readStdout (.frames [()]), .accept .stdout, .resumeStdout, .accept .stdout, .resumeStdout,
    .exit 0 1, .readStdout .eof, .readStderr .eof, .stallTick, .seeExit, .lifecycle 0,
    .accept .lifecycle, .lifecycle 0].map .other)

/-- **The last frame outlives its process.** -/
theorem frame_outlives_process :
    (∃ p, (restartable.recording ProgressLog.note).run (init {} 0, .empty) lostProcess = some p ∧
        p.1.lastProgress = some () ∧ p.1.process = none) ∧
      ¬ (restartable.recording ProgressLog.note).Always Shown (init {} 0, .empty) lostProcess := by
  have hlost : ∃ p, (restartable.recording ProgressLog.note).run (init {} 0, .empty) lostProcess =
      some p ∧ p.1.lastProgress = some () ∧ p.1.process = none := ⟨_, rfl, rfl, rfl⟩
  refine ⟨hlost, fun h => ?_⟩
  obtain ⟨p, hp, hlast, hprocess⟩ := hlost
  exact ((Machine.always_last h hp).latest () hlast).1 hprocess

end FFmpegWorker

end RestreamPlus
