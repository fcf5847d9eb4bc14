import RestreamPlus.Fanout.ProcessOwnership

/-!
# What one step of a worker does

Much of what is said about a worker does not depend on its breaker, on the texts
of its errors or on when it last did something. `bare` forgets these, and
`Moves` says what a step of the machine does to what is left: each piece of the
lifecycle loop, of the stdout pump and of `stop` once, with the conditions it is
taken under. `moves_of_step` is the inversion every invariant of the worker is
proved from.

The steps beside the loop and the stdout pump are taken together (`Beside`); of
them it only matters what they leave alone.
-/

namespace RestreamPlus

open Interleaving

namespace FFmpegWorker

variable {Frame : Type}

/-- The worker without its breaker, its texts and its times. -/
def bare (w : FFmpegWorker Frame) : FFmpegWorker Frame :=
  { w with breaker := .init {}, lastEventAt := 0, lastError := none, lastProgressAt := 0 }

/-- The event of a state change. -/
def IsState : WorkerEvent Frame → Prop
  | .state .. => True
  | _ => False

/-- The text that goes with the verdict of the breaker. -/
def verdictCause (verdict : BreakerVerdict) (count : ℕ) : String :=
  "breaker " ++ verdict.value ++ " (" ++ toString count ++ " failures)"

/-! ## The lifecycle loop -/

/-- The loop sends an event; a closed stream raises. -/
inductive Sends (s : FFmpegWorker Frame) (e : WorkerEvent Frame) (k : AfterSend) :
    FFmpegWorker Frame → Prop where
  | sent : s.sendOpen = true → Sends s e k { s with lifecycle := .sending ⟨e, false⟩ k }
  | refused : s.sendOpen = false → Sends s e k { s with lifecycle := .finished .raised }

/-- From STOPPING to IDLE. -/
inductive Settles (s : FFmpegWorker Frame) : FFmpegWorker Frame → Prop where
  | idle {s'} : s.state = .stopping → Sends s (.state .idle s.state "stopped") .idleSet s' →
      Settles s s'
  | returned : s.state ≠ .stopping → Settles s { s with lifecycle := .finished .returned }

/-- The loop was left. -/
inductive Leaves (s : FFmpegWorker Frame) : FFmpegWorker Frame → Prop where
  | stopping {s'} : s.state ≠ .stopping → s.state ≠ .idle →
      Sends s (.state .stopping s.state "stop requested") .stoppingSet s' → Leaves s s'
  | settles {s'} : s.state = .stopping ∨ s.state = .idle → Settles s s' → Leaves s s'

/-- The test of the loop. -/
inductive Heads (s : FFmpegWorker Frame) : FFmpegWorker Frame → Prop where
  | leaves {s'} : s.stopRequested = true → Leaves s s' → Heads s s'
  | spawning : s.stopRequested = false → Heads s { s with lifecycle := .spawning }

/-- After the verdict was applied. -/
inductive Decides (s : FFmpegWorker Frame) (draw : ℚ) : FFmpegWorker Frame → Prop where
  | waits : s.state = .failedOpen →
      Decides s draw { s with userResetEvent := false, lifecycle := .waitingReset }
  | backsOff {delay} : s.state ≠ .failedOpen → computeBackoff s.attempt draw = some delay →
      Decides s draw { s with attempt := s.attempt + 1, lifecycle := .backingOff (s.now + delay) }
  | overflows : s.state ≠ .failedOpen → computeBackoff s.attempt draw = none →
      Decides s draw { s with lifecycle := .finished .raised }

/-- The verdict is applied. -/
inductive Judges (s : FFmpegWorker Frame) (verdict : BreakerVerdict) (draw : ℚ) :
    FFmpegWorker Frame → Prop where
  | opens {s' count} : s.state = .reconnecting → verdict = .open →
      Sends s (.state .failedOpen s.state (verdictCause verdict count)) .verdictSet s' →
      Judges s verdict draw s'
  | decides {s'} : ¬ (s.state = .reconnecting ∧ verdict = .open) → Decides s draw s' →
      Judges s verdict draw s'

/-- After a process or a failed spawn. -/
inductive Fails (s : FFmpegWorker Frame) (draw : ℚ) : FFmpegWorker Frame → Prop where
  | leaves {s'} : s.stopRequested = true → Leaves s s' → Fails s draw s'
  | announces {s' verdict cause} : s.stopRequested = false →
      s.state = .starting ∨ s.state = .running →
      Sends s (.state .reconnecting s.state cause) (.reconnectingSet verdict s.now) s' →
      Fails s draw s'
  | judges {s' verdict} : s.stopRequested = false → s.state ≠ .starting → s.state ≠ .running →
      Judges s verdict draw s' → Fails s draw s'

/-- After a `send` of the loop. -/
inductive GoesOn (s : FFmpegWorker Frame) (draw : ℚ) : AfterSend → FFmpegWorker Frame → Prop where
  | startingSet {s'} : Heads s s' → GoesOn s draw .startingSet s'
  | spawnErrorSent {s'} : Fails s draw s' → GoesOn s draw .spawnErrorSent s'
  | exitedSent {s' : FFmpegWorker Frame} : Fails { s with process := none } draw s' →
      GoesOn s draw .exitedSent s'
  | reconnectingSet {s' verdict t} : Judges s verdict draw s' →
      GoesOn s draw (.reconnectingSet verdict t) s'
  | verdictSet {s'} : Decides s draw s' → GoesOn s draw .verdictSet s'
  | resetSet {s'} : Heads s s' → GoesOn s draw .resetSet s'
  | stoppingSet {s'} : Settles s s' → GoesOn s draw .stoppingSet s'
  | idleSet : GoesOn s draw .idleSet { s with lifecycle := .finished .returned }

/-- The lifecycle task goes on. -/
inductive Resumes (s : FFmpegWorker Frame) (draw : ℚ) : FFmpegWorker Frame → Prop where
  | starts {s'} : s.lifecycle = .created → s.state = .idle →
      Sends s (.state .starting s.state "initial start") .startingSet s' → Resumes s draw s'
  /-- the transition to STARTING is illegal and skipped -/
  | startsAnew {s'} : s.lifecycle = .created → s.state ≠ .idle → Heads s s' → Resumes s draw s'
  | sent {s' x k} : s.lifecycle = .sending x k → s.canGoOn x = true →
      GoesOn (s.arrived x.event) draw k s' → Resumes s draw s'
  | exits {s' t e} : s.lifecycle = .pumping t → s.PumpsEnded = true → ¬ IsState e →
      Sends s e .exitedSent s' → Resumes s draw s'
  | stops {s'} : s.lifecycle = .waitingReset → s.userResetEvent = true → s.stopRequested = true →
      Leaves s s' → Resumes s draw s'
  | resets {s'} : s.lifecycle = .waitingReset → s.userResetEvent = true →
      s.stopRequested = false → s.state = .failedOpen →
      Sends s (.state .starting s.state "user reset") .resetSet s' → Resumes s draw s'
  /-- the transition to STARTING is illegal and skipped -/
  | resetsAnew {s'} : s.lifecycle = .waitingReset → s.userResetEvent = true →
      s.stopRequested = false → s.state ≠ .failedOpen → Heads s s' → Resumes s draw s'
  | wakes {s' t} : s.lifecycle = .backingOff t → s.stopRequested = true ∨ t ≤ s.now → Heads s s' →
      Resumes s draw s'

section Frame

variable {s s' : FFmpegWorker Frame} {draw : ℚ}

/-- Between two awaits the loop only touches its attempts, the reset event and
its place; what it then sends is not yet taken, and it enters no task group. -/
structure Only (s s' : FFmpegWorker Frame) : Prop where
  eq : s' = { s with
    attempt := s'.attempt, userResetEvent := s'.userResetEvent, lifecycle := s'.lifecycle }
  fresh : ∀ x k, s'.lifecycle = .sending x k → x.accepted = false
  elsewhere : ∀ t, s'.lifecycle ≠ .pumping t

theorem only_sends {e : WorkerEvent Frame} {k : AfterSend} (h : Sends s e k s') : Only s s' := by
  cases h with
  | sent hopen => exact ⟨rfl, (fun x k hx => by cases hx; rfl), fun t ht => by cases ht⟩
  | refused hclosed => exact ⟨rfl, (fun x k hx => by cases hx), fun t ht => by cases ht⟩

theorem only_settles (h : Settles s s') : Only s s' := by
  cases h with
  | idle hs hsends => exact only_sends hsends
  | returned hs => exact ⟨rfl, (fun x k hx => by cases hx), fun t ht => by cases ht⟩

theorem only_leaves (h : Leaves s s') : Only s s' := by
  cases h with
  | stopping hstop hidle hsends => exact only_sends hsends
  | settles hs hsettles => exact only_settles hsettles

theorem only_heads (h : Heads s s') : Only s s' := by
  cases h with
  | leaves hreq hleaves => exact only_leaves hleaves
  | spawning hreq => exact ⟨rfl, (fun x k hx => by cases hx), fun t ht => by cases ht⟩

theorem only_decides (h : Decides s draw s') : Only s s' := by
  cases h <;> exact ⟨rfl, (fun x k hx => by cases hx), fun t ht => by cases ht⟩

theorem only_judges {verdict : BreakerVerdict} (h : Judges s verdict draw s') : Only s s' := by
  cases h with
  | opens hs hverdict hsends => exact only_sends hsends
  | decides hnot hdecides => exact only_decides hdecides

theorem only_fails (h : Fails s draw s') : Only s s' := by
  cases h with
  | leaves hreq hleaves => exact only_leaves hleaves
  | announces hreq hs hsends => exact only_sends hsends
  | judges hreq hstarting hrunning hjudges => exact only_judges hjudges

theorem lifecycle_of_sends (hopen : s.sendOpen = true) {e : WorkerEvent Frame} {k : AfterSend}
    (h : Sends s e k s') : s'.lifecycle = .sending ⟨e, false⟩ k := by
  cases h with
  | sent => rfl
  | refused hclosed => exact absurd (hclosed.symm.trans hopen) Bool.false_ne_true

/-- What the loop knows when it comes back from a `send`. -/
def received (s : FFmpegWorker Frame) (e : WorkerEvent Frame) : AfterSend → FFmpegWorker Frame
  | .exitedSent => { s.arrived e with process := none }
  | _ => s.arrived e

theorem only_goesOn {e : WorkerEvent Frame} {k : AfterSend} (h : GoesOn (s.arrived e) draw k s') :
    Only (s.received e k) s' := by
  cases h with
  | startingSet hheads | resetSet hheads => exact only_heads hheads
  | spawnErrorSent hfails | exitedSent hfails => exact only_fails hfails
  | reconnectingSet hjudges => exact only_judges hjudges
  | verdictSet hdecides => exact only_decides hdecides
  | stoppingSet hsettles => exact only_settles hsettles
  | idleSet => exact ⟨rfl, (fun x k hx => by cases hx), fun t ht => by cases ht⟩

/-- The loop goes on from `s`, or from what an event that was sent made of it. -/
theorem only_resumes (h : Resumes s draw s') : s.LifecycleAlive = true ∧
    (Only s s' ∧ (∀ x k, s.lifecycle ≠ .sending x k) ∨
      ∃ x k, s.lifecycle = .sending x k ∧ s.canGoOn x = true ∧ Only (s.received x.event k) s') := by
  cases h with
  | starts hl hs hsends =>
    exact ⟨by rw [LifecycleAlive, hl],
      .inl ⟨only_sends hsends, fun x k hx => by cases hl.symm.trans hx⟩⟩
  | startsAnew hl hs hheads =>
    exact ⟨by rw [LifecycleAlive, hl],
      .inl ⟨only_heads hheads, fun x k hx => by cases hl.symm.trans hx⟩⟩
  | sent hl hgo hgoes =>
    exact ⟨by rw [LifecycleAlive, hl], .inr ⟨_, _, hl, hgo, only_goesOn hgoes⟩⟩
  | exits hl hpumps hplain hsends =>
    exact ⟨by rw [LifecycleAlive, hl],
      .inl ⟨only_sends hsends, fun x k hx => by cases hl.symm.trans hx⟩⟩
  | stops hl hevent hreq hleaves =>
    exact ⟨by rw [LifecycleAlive, hl],
      .inl ⟨only_leaves hleaves, fun x k hx => by cases hl.symm.trans hx⟩⟩
  | resets hl hevent hreq hs hsends =>
    exact ⟨by rw [LifecycleAlive, hl],
      .inl ⟨only_sends hsends, fun x k hx => by cases hl.symm.trans hx⟩⟩
  | resetsAnew hl hevent hreq hs hheads =>
    exact ⟨by rw [LifecycleAlive, hl],
      .inl ⟨only_heads hheads, fun x k hx => by cases hl.symm.trans hx⟩⟩
  | wakes hl hwake hheads =>
    exact ⟨by rw [LifecycleAlive, hl],
      .inl ⟨only_heads hheads, fun x k hx => by cases hl.symm.trans hx⟩⟩

end Frame

section Loop

variable (w : FFmpegWorker Frame) (draw : ℚ)

theorem sends_send (e : WorkerEvent Frame) (k : AfterSend) :
    Sends w.bare e k (w.send e k).bare := by
  rw [send]
  dsimp only
  split
  · rename_i hopen
    exact .sent hopen
  · rename_i hclosed
    exact .refused (Bool.eq_false_iff.mpr hclosed)

/-- The breaker and the texts may change before. -/
theorem sends_of_bare {w s : FFmpegWorker Frame} {e : WorkerEvent Frame} {k : AfterSend}
    (h : w.bare = s) : Sends s e k (w.send e k).bare := by
  rw [← h]
  exact sends_send w e k

theorem setState_of_some {a : WorkerAction} {new : WorkerState}
    (h : w.state.transition a none = some new) (cause : String) (k : AfterSend)
    (skip : FFmpegWorker Frame → FFmpegWorker Frame) :
    w.setState a cause k skip = w.send (.state new w.state cause) k := by
  rw [setState, h]

theorem setState_of_none {a : WorkerAction} (h : w.state.transition a none = none) (cause : String)
    (k : AfterSend) (skip : FFmpegWorker Frame → FFmpegWorker Frame) :
    w.setState a cause k skip = skip w := by
  rw [setState, h]

theorem settles_becomeIdle : Settles w.bare w.becomeIdle.bare := by
  rw [becomeIdle]
  split
  · rename_i h
    have hlegal : w.state.transition .stopped none = some .idle := by
      rw [h]
      rfl
    rw [setState_of_some w hlegal]
    exact .idle h (sends_send _ _ _)
  · rename_i h
    exact .returned h

theorem leaves_leaveLoop : Leaves w.bare w.leaveLoop.bare := by
  rw [leaveLoop]
  split
  · rename_i h
    have hlegal : w.state.transition .stopRequested none = some .stopping := by
      rcases hs : w.state <;> first | rfl | exact absurd hs h.1 | exact absurd hs h.2
    rw [setState_of_some w hlegal]
    exact .stopping h.1 h.2 (sends_send _ _ _)
  · rename_i h
    exact .settles (by tauto) (settles_becomeIdle w)

theorem heads_loopHead : Heads w.bare w.loopHead.bare := by
  rw [loopHead]
  split
  · rename_i hreq
    exact .leaves hreq (leaves_leaveLoop w)
  · rename_i hreq
    exact .spawning (Bool.eq_false_iff.mpr hreq)

theorem decides_afterVerdict : Decides w.bare draw (w.afterVerdict draw).bare := by
  rw [afterVerdict]
  split
  · rename_i hopen
    exact .waits hopen
  · rename_i hopen
    rw [backOff]
    split
    · rename_i hnone
      exact .overflows hopen hnone
    · rename_i delay hsome
      exact .backsOff hopen hsome

variable {w} in
theorem judges_applyReconnectVerdict {w₁ : FFmpegWorker Frame} (h : w.bare = w₁.bare)
    {verdict : BreakerVerdict} {now : ℚ} :
    Judges w₁.bare verdict draw (w.applyReconnectVerdict verdict now draw).bare := by
  rw [← h]
  have hdecides := decides_afterVerdict w draw
  rw [applyReconnectVerdict]
  split
  · rename_i hnone
    refine .decides ?_ hdecides
    rintro ⟨hs, rfl⟩
    have hs : w.state = .reconnecting := hs
    rw [hs] at hnone
    cases hnone
  · rename_i new hnew
    split
    · rename_i hsame
      refine .decides ?_ hdecides
      rintro ⟨hs, rfl⟩
      have hs : w.state = .reconnecting := hs
      rw [hsame, hs] at hnew
      cases hnew
    · rename_i hother
      have hopens : w.state = .reconnecting ∧ verdict = .open ∧ new = .failedOpen := by
        rcases hs : w.state <;> cases verdict <;> rw [hs] at hnew hother <;> cases hnew
        · exact absurd rfl hother
        · exact ⟨rfl, rfl, rfl⟩
      obtain ⟨hs, rfl, rfl⟩ := hopens
      exact .opens hs rfl (sends_of_bare (by rfl))

theorem fails_afterRun : Fails w.bare draw (w.afterRun draw).bare := by
  rw [afterRun]
  split
  · rename_i hreq
    exact .leaves hreq (leaves_leaveLoop w)
  · rename_i hreq
    have hreq : w.stopRequested = false := Bool.eq_false_iff.mpr hreq
    have hlegal {w : FFmpegWorker Frame} (h : w.state = .starting ∨ w.state = .running) :
        w.state.transition .processExited none = some .reconnecting := by
      rcases h with h | h <;> rw [h] <;> rfl
    dsimp only
    split
    · rename_i hs
      rw [setState_of_some _ (hlegal (.inl ?_))]
      · exact .announces hreq (.inl hs) (sends_of_bare (by rfl))
      · exact hs
    · rename_i hstarting
      split
      · rename_i hs
        rw [setState_of_some _ (hlegal (.inr ?_))]
        · exact .announces hreq (.inr hs) (sends_of_bare (by rfl))
        · exact hs
      · rename_i hrunning
        exact .judges hreq hstarting hrunning
          (judges_applyReconnectVerdict draw (by rfl))

theorem bare_arrived (e : WorkerEvent Frame) : (w.arrived e).bare = w.bare.arrived e := by
  cases e <;> rfl

theorem goesOn_afterSend (k : AfterSend) :
    GoesOn w.bare draw k (w.afterSend draw k).bare := by
  cases k with
  | startingSet => exact .startingSet (heads_loopHead w)
  | spawnErrorSent => exact .spawnErrorSent (fails_afterRun w draw)
  | exitedSent => exact .exitedSent (fails_afterRun { w with process := none } draw)
  | reconnectingSet v now => exact .reconnectingSet (judges_applyReconnectVerdict draw rfl)
  | verdictSet => exact .verdictSet (decides_afterVerdict w draw)
  | resetSet => exact .resetSet (heads_loopHead w)
  | stoppingSet => exact .stoppingSet (settles_becomeIdle w)
  | idleSet => exact .idleSet

variable {w draw}

theorem resumes_resumeLifecycle {w' : FFmpegWorker Frame} (h : w.resumeLifecycle draw = some w') :
    Resumes w.bare draw w'.bare := by
  rw [resumeLifecycle] at h
  split at h
  · rename_i hl
    obtain rfl := Option.some.inj h
    rcases hs : w.state with _ | _ | _ | _ | _ | _
    · rw [setState_of_some w (by rw [hs]; rfl)]
      exact .starts hl hs (sends_of_bare (by rfl))
    all_goals
      rw [setState_of_none w (by rw [hs]; rfl)]
      exact .startsAnew hl (fun hidle => by cases hs.symm.trans hidle) (heads_loopHead w)
  · rename_i x k hl
    split at h
    · rename_i hgo
      obtain rfl := Option.some.inj h
      have hnext := goesOn_afterSend (w.arrived x.event) draw k
      rw [bare_arrived] at hnext
      exact .sent hl hgo hnext
    · cases h
  · rename_i t hl
    split at h
    · rename_i hended
      obtain rfl := Option.some.inj h
      rw [reportExit]
      refine .exits hl hended ?_ (sends_of_bare (by rfl))
      split
      · split <;> exact not_false
      · exact not_false
    · cases h
  · rename_i hl
    split at h
    · rename_i hevent
      split at h
      · rename_i hreq
        obtain rfl := Option.some.inj h
        exact .stops hl hevent hreq (leaves_leaveLoop w)
      · rename_i hreq
        have hreq : w.stopRequested = false := Bool.eq_false_iff.mpr hreq
        obtain rfl := Option.some.inj h
        rcases hs : w.state with _ | _ | _ | _ | _ | _
        case failedOpen =>
          rw [setState_of_some w (by rw [hs]; rfl)]
          exact .resets hl hevent hreq hs (sends_of_bare (by rfl))
        all_goals
          rw [setState_of_none w (by rw [hs]; rfl)]
          exact .resetsAnew hl hevent hreq (fun hopen => by cases hs.symm.trans hopen)
            (heads_loopHead w)
    · cases h
  · rename_i t hl
    split at h
    · rename_i hwake
      obtain rfl := Option.some.inj h
      exact .wakes hl hwake (heads_loopHead w)
    · cases h
  · cases h
  · cases h
  · cases h

end Loop

/-! ## The stdout pump -/

/-- A pump sends an event and waits at `pumps`; a closed stream raises. -/
inductive PumpSends (s : FFmpegWorker Frame) (pumps : Pumps Frame) : FFmpegWorker Frame → Prop where
  | sent : s.sendOpen = true → PumpSends s pumps { s with pumps := pumps }
  | refused : s.sendOpen = false → PumpSends s pumps { s with pumps := endedPumps true }

/-- The frames of a chunk are handled. -/
inductive Handles (s : FFmpegWorker Frame) : List Frame → FFmpegWorker Frame → Prop where
  | none : Handles s [] { s with pumps := { s.pumps with stdout := .reading } }
  | first {s' frame rest} : s.state = .starting →
      PumpSends s { s.pumps with
        stdout := .announcing ⟨.state .running s.state "first progress frame", false⟩
          frame rest false } s' →
      Handles s (frame :: rest) s'
  | resumed {s' frame rest} : s.state = .reconnecting →
      PumpSends s { s.pumps with
        stdout := .announcing ⟨.state .running s.state "progress resumed after reconnect", false⟩
          frame rest true } s' →
      Handles s (frame :: rest) s'
  | reports {s' frame rest} : s.state ≠ .starting → s.state ≠ .reconnecting →
      PumpSends { s with lastProgress := some frame }
        { s.pumps with stdout := .progressing ⟨.progress frame, false⟩ rest } s' →
      Handles s (frame :: rest) s'

/-- The stdout pump reads. -/
inductive Reads (s : FFmpegWorker Frame) : StdoutRead Frame → FFmpegWorker Frame → Prop where
  | eof : Reads s .eof { s with pumps := { s.pumps with stdout := .done } }
  | frames {s' frames} : Handles s frames s' → Reads s (.frames frames) s'
  | parseError {s' text message} :
      PumpSends s { s.pumps with stdout := .erring ⟨.error message false, false⟩ true } s' →
      Reads s (.parseError text) s'
  | failed {s' type message} :
      PumpSends s { s.pumps with stdout := .erring ⟨.error message false, false⟩ false } s' →
      Reads s (.failed type) s'

/-- The stdout pump comes back from a `send`. -/
inductive StdoutGoesOn (s : FFmpegWorker Frame) : FFmpegWorker Frame → Prop where
  | announced {s' x frame rest} : s.pumps.stdout = .announcing x frame rest false →
      s.canGoOn x = true →
      PumpSends { s.arrived x.event with lastProgress := some frame }
        { s.pumps with stdout := .progressing ⟨.progress frame, false⟩ rest } s' →
      StdoutGoesOn s s'
  | resumed {s' x frame rest} : s.pumps.stdout = .announcing x frame rest true →
      s.canGoOn x = true →
      PumpSends { s.arrived x.event with attempt := 0, lastProgress := some frame }
        { s.pumps with stdout := .progressing ⟨.progress frame, false⟩ rest } s' →
      StdoutGoesOn s s'
  | reported {s' x rest} : s.pumps.stdout = .progressing x rest → s.canGoOn x = true →
      Handles s rest s' → StdoutGoesOn s s'
  | erred {x goesOn} : s.pumps.stdout = .erring x goesOn → s.canGoOn x = true →
      StdoutGoesOn s { s with pumps :=
        { s.pumps with stdout := if goesOn then .reading else .done } }

section PumpFrame

variable {s s' : FFmpegWorker Frame}

/-- The stdout pump only touches the state, the attempts, the progress and the
pumps. -/
def PumpOnly (s s' : FFmpegWorker Frame) : Prop :=
  s' = { s with
    state := s'.state, attempt := s'.attempt, lastProgress := s'.lastProgress, pumps := s'.pumps }

/-- A pump that handles what it read only touches the progress and the pumps;
what it announces is not yet taken. -/
structure PumpKeeps (s s' : FFmpegWorker Frame) : Prop where
  eq : s' = { s with lastProgress := s'.lastProgress, pumps := s'.pumps }
  fresh : ∀ x frame rest fresh, s'.pumps.stdout = .announcing x frame rest fresh →
    x.accepted = false

theorem PumpKeeps.only (h : PumpKeeps s s') : PumpOnly s s' := by
  rw [PumpOnly, h.eq]

theorem pumpKeeps_pumpSends {pumps : Pumps Frame}
    (hfresh : ∀ x frame rest fresh, pumps.stdout = .announcing x frame rest fresh →
      x.accepted = false)
    (h : PumpSends s pumps s') : PumpKeeps s s' := by
  cases h with
  | sent hopen => exact ⟨rfl, hfresh⟩
  | refused hclosed => exact ⟨rfl, fun x frame rest fresh hx => by cases hx⟩

theorem pumpKeeps_handles {frames : List Frame} (h : Handles s frames s') : PumpKeeps s s' := by
  cases h with
  | none => exact ⟨rfl, fun x frame rest fresh hx => by cases hx⟩
  | first hs hsends | resumed hs hsends =>
    exact pumpKeeps_pumpSends (fun x frame rest fresh hx => by cases hx; rfl) hsends
  | reports hstarting hreconnecting hsends =>
    cases hsends <;> exact ⟨rfl, fun x frame rest fresh hx => by cases hx⟩

theorem pumpKeeps_reads {r : StdoutRead Frame} (h : Reads s r s') : PumpKeeps s s' := by
  cases h with
  | eof => exact ⟨rfl, fun x frame rest fresh hx => by cases hx⟩
  | frames hhandles => exact pumpKeeps_handles hhandles
  | parseError hsends | failed hsends =>
    exact pumpKeeps_pumpSends (fun x frame rest fresh hx => by cases hx) hsends

theorem pumpOnly_reads {r : StdoutRead Frame} (h : Reads s r s') : PumpOnly s s' :=
  (pumpKeeps_reads h).only

theorem pumpOnly_stdoutGoesOn (h : StdoutGoesOn s s') : PumpOnly s s' := by
  cases h with
  | @announced s' x _ _ hx hgo hsends | @resumed s' x _ _ hx hgo hsends =>
    obtain ⟨e, accepted⟩ := x
    cases e <;> cases hsends <;> rfl
  | reported hx hgo hhandles => exact (pumpKeeps_handles hhandles).only
  | erred hx hgo => rfl

end PumpFrame

section Stdout

variable (w : FFmpegWorker Frame)

theorem pumpSends_pumpSend (pumps : Pumps Frame) :
    PumpSends w.bare pumps (w.pumpSend pumps).bare := by
  rw [pumpSend]
  dsimp only
  split
  · rename_i hopen
    exact .sent hopen
  · rename_i hclosed
    exact .refused (Bool.eq_false_iff.mpr hclosed)

/-- The breaker and the texts may change before. -/
theorem pumpSends_of_bare {w s : FFmpegWorker Frame} {pumps : Pumps Frame} (h : w.bare = s) :
    PumpSends s pumps (w.pumpSend pumps).bare := by
  rw [← h]
  exact pumpSends_pumpSend w pumps

theorem pumpSends_emitProgress {pumps : Pumps Frame} (h : w.pumps = pumps) (frame : Frame)
    (rest : List Frame) :
    PumpSends { w.bare with lastProgress := some frame }
      { pumps with stdout := .progressing ⟨.progress frame, false⟩ rest }
      (w.emitProgress frame rest).bare := by
  subst h
  rw [emitProgress]
  dsimp only
  split
  · exact pumpSends_of_bare (by rfl)
  · exact pumpSends_of_bare (by rfl)

theorem announceRunning_of_some {w : FFmpegWorker Frame}
    (h : w.state.transition .processHealthy none = some .running) (cause : String) (frame : Frame)
    (rest : List Frame) (fresh : Bool) :
    w.announceRunning cause frame rest fresh = w.pumpSend { w.pumps with
      stdout := .announcing ⟨.state .running w.state cause, false⟩ frame rest fresh } := by
  rw [announceRunning, h]

theorem handles_nextFrame (frames : List Frame) :
    Handles w.bare frames (w.nextFrame frames).bare := by
  cases frames with
  | nil => exact .none
  | cons frame rest =>
    rw [nextFrame]
    have hlegal {w : FFmpegWorker Frame} (h : w.state = .starting ∨ w.state = .reconnecting) :
        w.state.transition .processHealthy none = some .running := by
      rcases h with h | h <;> rw [h] <;> rfl
    dsimp only
    split
    · rename_i hs
      rw [announceRunning_of_some (hlegal (.inl ?_))]
      · exact .first hs (pumpSends_of_bare (by rfl))
      · exact hs
    · rename_i hstarting
      split
      · rename_i hs
        rw [announceRunning_of_some (hlegal (.inr ?_))]
        · exact .resumed hs (pumpSends_of_bare (by rfl))
        · exact hs
      · rename_i hreconnecting
        refine .reports hstarting hreconnecting ?_
        exact pumpSends_emitProgress { w with lastProgressAt := w.now } rfl frame rest

theorem reads_readStdout (r : StdoutRead Frame) : Reads w.bare r (w.readStdout r).bare := by
  cases r with
  | eof => exact .eof
  | frames frames => exact .frames (handles_nextFrame w frames)
  | parseError text => exact .parseError (pumpSends_of_bare (by rfl))
  | failed type => exact .failed (pumpSends_of_bare (by rfl))

variable {w}

theorem stdoutGoesOn_resumeStdout {w' : FFmpegWorker Frame} (h : w.resumeStdout = some w') :
    StdoutGoesOn w.bare w'.bare := by
  rw [resumeStdout] at h
  split at h
  · rename_i x frame rest fresh hp
    split at h
    · rename_i hgo
      obtain rfl := Option.some.inj h
      have hview := bare_arrived w x.event
      have hpumps : (w.arrived x.event).pumps = w.pumps := by cases x.event <;> rfl
      cases fresh
      · refine .announced hp hgo ?_
        rw [← hview]
        exact pumpSends_emitProgress (w.arrived x.event) hpumps frame rest
      · refine .resumed hp hgo ?_
        rw [← hview]
        exact pumpSends_emitProgress { w.arrived x.event with attempt := 0 } hpumps frame rest
    · cases h
  · rename_i x rest hp
    split at h
    · rename_i hgo
      obtain rfl := Option.some.inj h
      exact .reported hp hgo (handles_nextFrame w rest)
    · cases h
  · rename_i x goesOn hp
    split at h
    · rename_i hgo
      obtain rfl := Option.some.inj h
      exact .erred hp hgo
    · cases h
  · cases h
  · cases h

end Stdout

/-! ## `stop` -/

/-- `stop` is done with the process. -/
inductive Joins (s : FFmpegWorker Frame) : FFmpegWorker Frame → StopPhase → Prop where
  | awaits : s.LifecycleAlive = true → Joins s { s with userResetEvent := true } .awaitingLifecycle
  | closes : s.LifecycleAlive = false →
      Joins s { s with userResetEvent := true, sendOpen := false } .closingSend

/-- `stop` up to its first await. -/
inductive Stops (s : FFmpegWorker Frame) : FFmpegWorker Frame → StopPhase → Prop where
  | signals {p} : s.process = some p → s.Running p →
      Stops s ({ s with stopRequested := true }.signal p) (.terminating p)
  | joins {s' phase} : (∀ p ∈ s.process, ¬ s.Running p) →
      Joins { s with stopRequested := true } s' phase → Stops s s' phase

/-- The lifecycle task is cancelled. -/
inductive Cancels (s : FFmpegWorker Frame) : FFmpegWorker Frame → Prop where
  | ended : s.LifecycleAlive = false → Cancels s s
  /-- the task group was already aborted by a pump -/
  | swallowed {t} : s.lifecycle = .pumping t → s.pumps.failed = true → Cancels s s
  | pumping {t} : s.lifecycle = .pumping t → s.pumps.failed = false →
      Cancels s { s with pumps := endedPumps false, lifecycle := .finished .cancelled }
  | elsewhere : s.LifecycleAlive = true → (∀ t, s.lifecycle ≠ .pumping t) →
      Cancels s { s with lifecycle := .finished .cancelled }

/-- `stop` from one await to the next. -/
inductive StopGoesOn (s : FFmpegWorker Frame) :
    StopPhase → Bool → FFmpegWorker Frame → StopPhase → Prop where
  | exited {p s' phase} : ¬ s.Running p → Joins s s' phase →
      StopGoesOn s (.terminating p) false s' phase
  | kills {p} : StopGoesOn s (.terminating p) true (s.signal p) (.killing p)
  | killed {p timedOut s' phase} : Joins s s' phase → StopGoesOn s (.killing p) timedOut s' phase
  | joined : s.lifecycle = .finished .returned →
      StopGoesOn s .awaitingLifecycle false { s with sendOpen := false } .closingSend
  | raised {e} : s.lifecycle = .finished e → e ≠ .returned →
      StopGoesOn s .awaitingLifecycle false s .raised
  | cancels {s'} : Cancels s s' → StopGoesOn s .awaitingLifecycle true s' .awaitingCancelled
  | cancelled {timedOut e} : s.lifecycle = .finished e → e ≠ .raised →
      StopGoesOn s .awaitingCancelled timedOut { s with sendOpen := false } .closingSend
  | raisedAnyway {timedOut} : s.lifecycle = .finished .raised →
      StopGoesOn s .awaitingCancelled timedOut s .raised
  | closesReceive {timedOut} :
      StopGoesOn s .closingSend timedOut { s with receiveOpen := false } .closingReceive
  | returns {timedOut} : StopGoesOn s .closingReceive timedOut s .returned

section Stop

variable (w : FFmpegWorker Frame)

theorem joins_joinLifecycle : Joins w.bare w.joinLifecycle.1.bare w.joinLifecycle.2 := by
  rw [joinLifecycle]
  split
  · rename_i halive
    exact .awaits halive
  · rename_i hdead
    exact .closes (Bool.eq_false_iff.mpr hdead)

theorem stops_stop : Stops w.bare w.stop.1.bare w.stop.2 := by
  have hjoins := joins_joinLifecycle { w with stopRequested := true }
  rw [stop]
  dsimp only
  split
  · rename_i p hp
    split
    · rename_i hrun
      exact .signals hp hrun
    · rename_i hexited
      refine .joins (fun q hq => ?_) hjoins
      obtain rfl : p = q := Option.some.inj (hp.symm.trans hq)
      exact hexited
  · rename_i hp
    exact .joins (fun q hq => by cases hp.symm.trans hq) hjoins

theorem cancels_cancelLifecycle : Cancels w.bare w.cancelLifecycle.bare := by
  rw [cancelLifecycle]
  split
  · rename_i hl
    exact .ended (by rw [LifecycleAlive, bare, hl])
  · rename_i e hl
    exact .ended (by rw [LifecycleAlive, bare, hl])
  · rename_i t hl
    split
    · rename_i hfailed
      exact .swallowed hl hfailed
    · rename_i hgoing
      exact .pumping hl (Bool.eq_false_iff.mpr hgoing)
  · rename_i hnever hnot hno
    refine .elsewhere ?_ hno
    rw [LifecycleAlive]
    split
    · rename_i hl
      exact absurd hl hnever
    · rename_i e hl
      exact absurd hl (hnot e)
    · rfl

variable {w}

theorem stopGoesOn_resumeStop {phase : StopPhase} {timedOut : Bool}
    {r : FFmpegWorker Frame × StopPhase} (h : w.resumeStop phase timedOut = some r) :
    StopGoesOn w.bare phase timedOut r.1.bare r.2 := by
  cases phase with
  | terminating p =>
    cases timedOut
    · rw [resumeStop] at h
      split at h
      · cases h
      · rename_i hexited
        obtain rfl := Option.some.inj h
        exact .exited hexited (joins_joinLifecycle w)
    · obtain rfl := Option.some.inj h
      exact .kills
  | killing p =>
    cases timedOut
    · rw [resumeStop] at h
      split at h
      · cases h
      · obtain rfl := Option.some.inj h
        exact .killed (joins_joinLifecycle w)
    · obtain rfl := Option.some.inj h
      exact .killed (joins_joinLifecycle w)
  | awaitingLifecycle =>
    cases timedOut
    · rw [resumeStop] at h
      split at h
      · rename_i hl
        obtain rfl := Option.some.inj h
        exact .joined hl
      · rename_i e hne hl
        obtain rfl := Option.some.inj h
        exact .raised hl hne
      · cases h
    · obtain rfl := Option.some.inj h
      exact .cancels (cancels_cancelLifecycle w)
  | awaitingCancelled =>
    rw [resumeStop] at h
    split at h
    · rename_i hl
      obtain rfl := Option.some.inj h
      exact .raisedAnyway hl
    · rename_i e hne hl
      obtain rfl := Option.some.inj h
      exact .cancelled hl hne
    · cases h
  | closingSend =>
    obtain rfl := Option.some.inj h
    exact .closesReceive
  | closingReceive =>
    obtain rfl := Option.some.inj h
    exact .returns
  | returned => cases h
  | raised => cases h

end Stop

/-! ## The rest -/

/-- The events of the pumps that are no announcements are no state changes. -/
structure Plain (pumps : Pumps Frame) : Prop where
  progressing : ∀ x rest, pumps.stdout = .progressing x rest → ¬ IsState x.event
  erring : ∀ x goesOn, pumps.stdout = .erring x goesOn → ¬ IsState x.event
  stderr : ∀ x, pumps.stderr = .erring x → ¬ IsState x.event
  stall : ∀ x p, pumps.stall = .sending x p → ¬ IsState x.event

/-- The steps beside the loop, the stdout pump and the calls from outside. -/
def IsBeside : Label Frame → Prop
  | .tick _ | .exit .. | .closeReceive | .snapshot | .readStderr _ | .resumeStderr | .stallTick
  | .resumeStall | .seeExit | .accept .stderr | .accept .stall => True
  | _ => False

/-- What such a step leaves alone. -/
structure Beside (s s' : FFmpegWorker Frame) : Prop where
  eq : s' = { s with
    pumps := s'.pumps, receiveOpen := s'.receiveOpen, children := s'.children
    channel := s'.channel, now := s'.now }
  /-- a pump that sends on a closed stream ends the task group -/
  stdout : s'.pumps.stdout = s.pumps.stdout ∨ s.sendOpen = false ∧ s'.pumps = endedPumps true
  ended : ∀ b, s.pumps = endedPumps b → s'.pumps = s.pumps
  plain : Plain s.pumps → Plain s'.pumps
  receive : s'.receiveOpen = true → s.receiveOpen = true
  channel : s'.channel = s.channel ∨
    ∃ e, s'.channel = s.channel ++ [e] ∧ (Plain s.pumps → ¬ IsState e)
  now : s.now ≤ s'.now
  running : ∀ p, s'.Running p → s.Running p
  signalled : ∀ p, s'.Running p → s.Signalled p → s'.Signalled p

section Beside

variable {w w' : FFmpegWorker Frame}

theorem Beside.refl (s : FFmpegWorker Frame) : Beside s s :=
  ⟨rfl, .inl rfl, fun _ _ => rfl, id, id, .inl rfl, le_rfl, fun _ => id, fun _ _ => id⟩

/-- A pump other than the stdout pump moves. -/
theorem beside_pumps {pumps : Pumps Frame} (hstdout : pumps.stdout = w.pumps.stdout)
    (hgoing : ∀ b, w.pumps ≠ endedPumps b) (hplain : Plain w.pumps → Plain pumps) :
    Beside w.bare { w.bare with pumps := pumps } :=
  ⟨rfl, .inl hstdout, fun b hb => absurd hb (hgoing b), hplain, id, .inl rfl, le_rfl, fun _ => id,
    fun _ _ => id⟩

theorem plain_endedPumps (b : Bool) : Plain (endedPumps b : Pumps Frame) where
  progressing x rest h := by cases h
  erring x goesOn h := by cases h
  stderr x h := by cases h
  stall x p h := by cases h

theorem beside_pumpSend {pumps : Pumps Frame} (hstdout : pumps.stdout = w.pumps.stdout)
    (hgoing : ∀ b, w.pumps ≠ endedPumps b) (hplain : Plain w.pumps → Plain pumps) :
    Beside w.bare (w.pumpSend pumps).bare := by
  have hsends := pumpSends_pumpSend w pumps
  generalize (w.pumpSend pumps).bare = s' at hsends
  cases hsends with
  | sent hopen => exact beside_pumps hstdout hgoing hplain
  | refused hclosed =>
    exact ⟨rfl, .inr ⟨hclosed, rfl⟩, fun b hb => absurd hb (hgoing b),
      fun _ => plain_endedPumps true, id, .inl rfl, le_rfl, fun _ => id, fun _ _ => id⟩

theorem beside_signal (s : FFmpegWorker Frame) (p : ℕ) : Beside s (s.signal p) :=
  ⟨rfl, .inl rfl, fun _ _ => rfl, id, id, .inl rfl, le_rfl, fun _ => running_signal.mp,
    fun _ _ h => h.signal⟩

/-- A step beside the loop, the stdout pump and the calls from outside. -/
theorem beside_of_step {l : Label Frame} (hl : IsBeside l) (h : w.step l = some w') :
    Beside w.bare w'.bare := by
  cases l with
  | tick d =>
    simp only [step] at h
    split at h
    · rename_i hd
      obtain rfl := Option.some.inj h
      exact ⟨rfl, .inl rfl, fun _ _ => rfl, id, id, .inl rfl, le_add_of_nonneg_right hd,
        fun _ => id, fun _ _ => id⟩
    · cases h
  | exit p rc =>
    simp only [step] at h
    split at h
    · obtain rfl := Option.some.inj h
      exact ⟨rfl, .inl rfl, fun _ _ => rfl, id, id, .inl rfl, le_rfl,
        fun q hq => (running_of_exit hq).1, fun q hq hsig => hsig.exit (running_of_exit hq).2 rc⟩
    · cases h
  | closeReceive =>
    obtain rfl := Option.some.inj h
    exact ⟨rfl, .inl rfl, fun _ _ => rfl, id, (fun hopen => by cases hopen), .inl rfl, le_rfl,
      fun _ => id, fun _ _ => id⟩
  | snapshot =>
    obtain rfl := Option.some.inj h
    exact Beside.refl _
  | readStderr r =>
    simp only [step] at h
    split at h
    · rename_i hreading
      obtain rfl := Option.some.inj h
      have hgoing (b : Bool) : w.pumps ≠ endedPumps b := fun hb => by
        rw [hb] at hreading
        cases hreading
      cases r with
      | eof => exact beside_pumps rfl hgoing fun hp =>
          ⟨hp.progressing, hp.erring, (fun x hx => by cases hx), hp.stall⟩
      | data => exact Beside.refl _
      | failed type => exact beside_pumpSend rfl hgoing fun hp =>
          ⟨hp.progressing, hp.erring, fun x hx => by cases hx; exact not_false, hp.stall⟩
    · cases h
  | resumeStderr =>
    simp only [step, resumeStderr] at h
    split at h
    · rename_i x hx
      have hgoing : ∀ b, w.pumps ≠ endedPumps b := fun b hb => by rw [hb] at hx; cases hx
      split at h
      · obtain rfl := Option.some.inj h
        exact beside_pumps rfl hgoing fun hp =>
          ⟨hp.progressing, hp.erring, (fun x hx => by cases hx), hp.stall⟩
      · cases h
    · cases h
    · cases h
  | stallTick =>
    simp only [step] at h
    split at h
    · rename_i hsleeping
      obtain rfl := Option.some.inj h
      have hgoing (b : Bool) : w.pumps ≠ endedPumps b := fun hb => by
        rw [hb] at hsleeping
        cases hsleeping
      have hdone : Beside w.bare { w.bare with pumps := { w.pumps with stall := .done } } :=
        beside_pumps rfl hgoing fun hp =>
          ⟨hp.progressing, hp.erring, hp.stderr, fun x p hx => by cases hx⟩
      rw [stallTick]
      split
      · exact hdone
      · split
        · dsimp only
          split
          · exact beside_pumpSend rfl hgoing fun hp =>
              ⟨hp.progressing, hp.erring, hp.stderr, fun x p hx => by cases hx; exact not_false⟩
          · exact Beside.refl _
        · exact hdone
    · cases h
  | resumeStall =>
    simp only [step, resumeStall] at h
    split at h
    · rename_i x p hx
      have hgoing : ∀ b, w.pumps ≠ endedPumps b := fun b hb => by rw [hb] at hx; cases hx
      split at h
      · obtain rfl := Option.some.inj h
        have hsignal := beside_signal { w.bare with pumps := { w.pumps with stall := .done } } p
        exact ⟨rfl, .inl rfl, fun b hb => absurd hb (hgoing b), fun hp =>
          ⟨hp.progressing, hp.erring, hp.stderr, fun x p hx => by cases hx⟩, id, .inl rfl, le_rfl,
          hsignal.running, hsignal.signalled⟩
      · cases h
    · cases h
    · cases h
  | seeExit =>
    simp only [step, seeExit] at h
    have hdone (hwait : w.pumps.exit = .waiting) :
        Beside w.bare { w.bare with pumps := { w.pumps with exit := .done } } :=
      beside_pumps rfl (fun b hb => by rw [hb] at hwait; cases hwait) fun hp =>
        ⟨hp.progressing, hp.erring, hp.stderr, hp.stall⟩
    split at h
    · rename_i p hwait hp
      split at h
      · cases h
      · obtain rfl := Option.some.inj h
        exact hdone hwait
    · rename_i hwait hp
      obtain rfl := Option.some.inj h
      exact hdone hwait
    · cases h
  | accept t =>
    simp only [step] at h
    unfold accept at h
    split at h
    · split at h
      · exact hl.elim
      · exact hl.elim
      · exact hl.elim
      · exact hl.elim
      · rename_i e hx
        obtain rfl := Option.some.inj h
        exact ⟨rfl, .inl rfl,
          (fun b hb => by rw [show w.pumps = endedPumps b from hb] at hx; cases hx),
          fun hp => ⟨hp.progressing, hp.erring,
            (fun x hx' => by cases hx'; exact hp.stderr ⟨e, false⟩ hx), hp.stall⟩, id,
          .inr ⟨e, rfl, fun hp => hp.stderr _ hx⟩, le_rfl, fun _ => id, fun _ _ => id⟩
      · rename_i e p hx
        obtain rfl := Option.some.inj h
        exact ⟨rfl, .inl rfl,
          (fun b hb => by rw [show w.pumps = endedPumps b from hb] at hx; cases hx),
          fun hp => ⟨hp.progressing, hp.erring, hp.stderr,
            (fun x q hx' => by cases hx'; exact hp.stall ⟨e, false⟩ p hx)⟩, id,
          .inr ⟨e, rfl, fun hp => hp.stall _ _ hx⟩, le_rfl, fun _ => id, fun _ _ => id⟩
      · cases h
    · cases h
  | _ => exact hl.elim

end Beside

/-! ## One step -/

/-- **One step of a worker**, its breaker, texts and times left out. -/
inductive Moves (s : FFmpegWorker Frame) : Label Frame → FFmpegWorker Frame → Prop where
  | beside {l s'} : IsBeside l → Beside s s' → Moves s l s'
  | taken {e k} : s.receiveOpen = true → s.lifecycle = .sending ⟨e, false⟩ k →
      Moves s (.accept .lifecycle)
        { s with channel := s.channel ++ [e], lifecycle := .sending ⟨e, true⟩ k }
  | announcementTaken {e frame rest fresh} : s.receiveOpen = true →
      s.pumps.stdout = .announcing ⟨e, false⟩ frame rest fresh →
      Moves s (.accept .stdout)
        { s with
          channel := s.channel ++ [e]
          pumps := { s.pumps with stdout := .announcing ⟨e, true⟩ frame rest fresh } }
  | progressTaken {e rest} : s.receiveOpen = true →
      s.pumps.stdout = .progressing ⟨e, false⟩ rest →
      Moves s (.accept .stdout)
        { s with
          channel := s.channel ++ [e]
          pumps := { s.pumps with stdout := .progressing ⟨e, true⟩ rest } }
  | errorTaken {e goesOn} : s.receiveOpen = true → s.pumps.stdout = .erring ⟨e, false⟩ goesOn →
      Moves s (.accept .stdout)
        { s with
          channel := s.channel ++ [e], pumps := { s.pumps with stdout := .erring ⟨e, true⟩ goesOn } }
  | resumes {draw s'} : Resumes s draw s' → Moves s (.lifecycle draw) s'
  | spawns : s.lifecycle = .spawning → Moves s .spawned s.spawned.bare
  | spawnFails {error message s'} : s.lifecycle = .spawning →
      Sends s (.error message false) .spawnErrorSent s' → Moves s (.spawnFailed error) s'
  | spawnRaises : s.lifecycle = .spawning →
      Moves s .spawnRaised { s with lifecycle := .finished .raised }
  | reads {r s'} : s.pumps.stdout = .reading → Reads s r s' → Moves s (.readStdout r) s'
  | stdoutGoesOn {s'} : StdoutGoesOn s s' → Moves s .resumeStdout s'
  | pumpRaises {t} : s.PumpAlive t = true → Moves s (.pumpRaised t) s.abortPumps
  | resets : s.state = .failedOpen → Moves s .userReset { s with attempt := 0, userResetEvent := true }
  | resetIgnored : s.state ≠ .failedOpen → Moves s .userReset s
  | stops {s' phase} : Stops s s' phase → Moves s .stop { s' with stops := s.stops ++ [phase] }
  | stopGoesOn {i timedOut phase s' phase'} : s.stops[i]? = some phase →
      StopGoesOn s phase timedOut s' phase' →
      Moves s (.resumeStop i timedOut) { s' with stops := s.stops.set i phase' }

/-- **The inversion of a step.** -/
theorem moves_of_step {w w' : FFmpegWorker Frame} {l : Label Frame}
    (h : machine.step w l = some w') : Moves w.bare l w'.bare := by
  change w.step l = some w' at h
  have hbeside (hl : IsBeside l) : Moves w.bare l w'.bare := .beside hl (beside_of_step hl h)
  cases l with
  | tick | exit | closeReceive | snapshot | readStderr | resumeStderr | stallTick | resumeStall
  | seeExit => exact hbeside trivial
  | accept t =>
    simp only [step] at h
    unfold accept at h
    split at h
    · rename_i hopen
      split at h
      · rename_i hx
        obtain rfl := Option.some.inj h
        exact .taken hopen hx
      · rename_i hx
        obtain rfl := Option.some.inj h
        exact .announcementTaken hopen hx
      · rename_i hx
        obtain rfl := Option.some.inj h
        exact .progressTaken hopen hx
      · rename_i hx
        obtain rfl := Option.some.inj h
        exact .errorTaken hopen hx
      · exact hbeside trivial
      · exact hbeside trivial
      · cases h
    · cases h
  | lifecycle draw => exact .resumes (resumes_resumeLifecycle h)
  | spawned =>
    simp only [step] at h
    split at h
    · rename_i hl
      obtain rfl := Option.some.inj h
      exact .spawns (spawning_iff.mp hl)
    · cases h
  | spawnFailed error =>
    simp only [step] at h
    split at h
    · rename_i hl
      obtain rfl := Option.some.inj h
      exact .spawnFails (spawning_iff.mp hl) (sends_of_bare (by rfl))
    · cases h
  | spawnRaised =>
    simp only [step] at h
    split at h
    · rename_i hl
      obtain rfl := Option.some.inj h
      exact .spawnRaises (spawning_iff.mp hl)
    · cases h
  | readStdout r =>
    simp only [step] at h
    split at h
    · rename_i hreading
      obtain rfl := Option.some.inj h
      exact .reads hreading (reads_readStdout w r)
    · cases h
  | resumeStdout => exact .stdoutGoesOn (stdoutGoesOn_resumeStdout h)
  | pumpRaised t =>
    simp only [step] at h
    split at h
    · rename_i halive
      obtain rfl := Option.some.inj h
      exact .pumpRaises halive
    · cases h
  | userReset =>
    obtain rfl := Option.some.inj h
    rw [userReset]
    split
    · rename_i hs
      exact .resets hs
    · rename_i hs
      exact .resetIgnored hs
  | stop =>
    obtain rfl := Option.some.inj h
    exact .stops (stops_stop w)
  | resumeStop i timedOut =>
    simp only [step] at h
    split at h
    · rename_i phase hphase
      obtain ⟨r, hr, rfl⟩ := Option.map_eq_some_iff.mp h
      exact .stopGoesOn (s := w.bare) hphase (stopGoesOn_resumeStop hr)
    · cases h

end FFmpegWorker

end RestreamPlus
