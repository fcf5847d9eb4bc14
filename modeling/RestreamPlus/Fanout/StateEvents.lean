import RestreamPlus.Fanout.WorkerPlaces

/-!
# The state events of a worker

A worker announces a state on its channel and assigns `_state` once the channel
has taken the event. `Tells` is a path through the transition table as the
reader of the channel sees it. The events of a worker are such a path, and it
ends in the state of the worker while nothing is being announced.

The assignment is lost when the task is cut off after the channel took the
event: the loop by a timeout of `stop`, the stdout pump by that or by a pump
that raises. Nothing else goes wrong (`state_events_refine_iff`).
-/

namespace RestreamPlus

open Interleaving

namespace FFmpegWorker

variable {Frame : Type}

/-! ## What the reader of the channel is told -/

/-- A step of the table; the verdict is the one the cause names. -/
def Allowed (old new : WorkerState) (cause : String) : Prop :=
  (∃ action, old.transition action none = some new) ∨
    ∃ verdict count, old.transition .reconnect (some verdict) = some new ∧
      cause = verdictCause verdict count

/-- The state events are a path from IDLE to this state. -/
inductive Tells : List (WorkerEvent Frame) → WorkerState → Prop where
  | start : Tells [] .idle
  | change {channel old new cause} : Tells channel old → Allowed old new cause →
      Tells (channel ++ [.state new old cause]) new
  | other {channel state e} : Tells channel state → ¬ IsState e → Tells (channel ++ [e]) state

/-- The state announced last. -/
def lastTold (channel : List (WorkerEvent Frame)) : WorkerState :=
  channel.foldl (fun state e => match e with | .state new _ _ => new | _ => state) .idle

theorem lastTold_change (channel : List (WorkerEvent Frame)) (new old : WorkerState)
    (cause : String) : lastTold (channel ++ [.state new old cause]) = new := by
  rw [lastTold, List.foldl_append]
  rfl

theorem lastTold_other (channel : List (WorkerEvent Frame)) {e : WorkerEvent Frame}
    (he : ¬ IsState e) : lastTold (channel ++ [e]) = lastTold channel := by
  rw [lastTold, List.foldl_append]
  cases e with
  | state new old cause => exact absurd trivial he
  | progress | error | exited | stalled => rfl

/-- A task is suspended inside `_emit_state_change`. -/
def Announcing (w : FFmpegWorker Frame) : Prop :=
  (∃ x k, w.lifecycle = .sending x k ∧ IsState x.event) ∨
    ∃ x frame rest fresh, w.pumps.stdout = .announcing x frame rest fresh

/-- **The state events refine the state machine.** -/
structure Refines (w : FFmpegWorker Frame) : Prop where
  path : Tells w.channel (lastTold w.channel)
  last : ¬ w.Announcing → w.sendOpen = true → w.receiveOpen = true → lastTold w.channel = w.state

/-! ## Announcements the channel has taken -/

/-- The channel has taken an announcement of the loop. -/
def LoopTaken (w : FFmpegWorker Frame) : Prop :=
  match w.lifecycle with
  | .sending ⟨.state _ _ _, true⟩ _ => True
  | _ => False

instance (w : FFmpegWorker Frame) : Decidable w.LoopTaken := by
  unfold LoopTaken
  generalize w.lifecycle = l
  induction l using Lifecycle.casesOn with
  | sending s _ =>
    induction s using Sending.casesOn with
    | mk event accepted =>
      induction event using WorkerEvent.casesOn <;> induction accepted using Bool.casesOn <;>
        infer_instance
  | _ => infer_instance

/-- The channel has taken an announcement of the stdout pump. -/
def PumpTaken (w : FFmpegWorker Frame) : Prop :=
  match w.pumps.stdout with
  | .announcing ⟨_, true⟩ _ _ _ => True
  | _ => False

instance (w : FFmpegWorker Frame) : Decidable w.PumpTaken := by
  unfold PumpTaken
  generalize w.pumps.stdout = p
  induction p using StdoutPump.casesOn with
  | announcing s _ _ _ =>
    induction s using Sending.casesOn with
    | mk _ accepted => induction accepted using Bool.casesOn <;> infer_instance
  | _ => infer_instance

/-- No task is cut off between the taking of its event and its assignment. -/
def Uncut (w : FFmpegWorker Frame) : Restart Frame → Prop
  | .other (.pumpRaised t) => w.PumpAlive t = true → w.receiveOpen = true → ¬ w.PumpTaken
  | .other (.resumeStop i true) =>
    w.stops[i]? = some .awaitingLifecycle → w.receiveOpen = true →
      ¬ w.LoopTaken ∧ (w.pumps.failed = false → ¬ w.PumpTaken)
  | _ => True

instance (w : FFmpegWorker Frame) : DecidablePred w.Uncut := by
  intro l
  unfold Uncut
  split <;> infer_instance

/-- The state the channel knows of, from what the worker is doing. -/
def announcedState (s : FFmpegWorker Frame) : WorkerState :=
  match s.lifecycle, s.pumps.stdout with
  | .sending ⟨.state new _ _, true⟩ _, _ => new
  | _, .announcing ⟨.state new _ _, true⟩ _ _ _ => new
  | _, _ => s.state

section Taken

variable {s s' : FFmpegWorker Frame}

theorem announcedState_of_not (hloop : ¬ s.LoopTaken) (hpump : ¬ s.PumpTaken) :
    s.announcedState = s.state := by
  rw [announcedState]
  split
  · rename_i hl
    exact absurd (by rw [LoopTaken, hl]; trivial) hloop
  · rename_i hx _
    exact absurd (by rw [PumpTaken, hx]; trivial) hpump
  · rfl

theorem not_loopTaken (h : ∀ x k, s.lifecycle = .sending x k → x.accepted = false) :
    ¬ s.LoopTaken := by
  rw [LoopTaken]
  split
  · rename_i hl
    cases h _ _ hl
  · exact not_false

theorem not_pumpTaken
    (h : ∀ x frame rest fresh, s.pumps.stdout = .announcing x frame rest fresh →
      x.accepted = false) : ¬ s.PumpTaken := by
  rw [PumpTaken]
  split
  · rename_i hx
    cases h _ _ _ _ hx
  · exact not_false

theorem not_pumpTaken_of_ended {b : Bool} (h : s.pumps = endedPumps b) : ¬ s.PumpTaken :=
  not_pumpTaken fun x frame rest fresh hx => by rw [h] at hx; cases hx

/-- The loop announces steps of the table, from the state it has. -/
theorem allowed_announced {state new old : WorkerState} {cause : String} {k : AfterSend}
    (h : Announced state (.state new old cause : WorkerEvent Frame) k) :
    old = state ∧ new ≠ state ∧ Allowed old new cause := by
  cases k with
  | startingSet =>
    obtain ⟨rfl, cause', he⟩ := h
    cases he
    exact ⟨rfl, by decide, .inl ⟨.start, rfl⟩⟩
  | spawnErrorSent => exact absurd trivial h.2
  | exitedSent => exact absurd trivial h.2
  | reconnectingSet verdict now =>
    obtain ⟨hs, cause', he⟩ := h
    cases he
    rcases hs with rfl | rfl <;> exact ⟨rfl, by decide, .inl ⟨.processExited, rfl⟩⟩
  | verdictSet =>
    obtain ⟨rfl, count, he⟩ := h
    cases he
    exact ⟨rfl, by decide, .inr ⟨.open, count, rfl, rfl⟩⟩
  | resetSet =>
    obtain ⟨rfl, cause', he⟩ := h
    cases he
    exact ⟨rfl, by decide, .inl ⟨.userReset, rfl⟩⟩
  | stoppingSet =>
    obtain ⟨hs, cause', he⟩ := h
    cases he
    rcases hs with (rfl | rfl | rfl) | rfl <;> exact ⟨rfl, by decide, .inl ⟨.stopRequested, rfl⟩⟩
  | idleSet =>
    obtain ⟨rfl, cause', he⟩ := h
    cases he
    exact ⟨rfl, by decide, .inl ⟨.stopped, rfl⟩⟩

/-- So does the stdout pump. -/
theorem Sane.allowed_first (h : Sane s) {x : Sending Frame} {frame : Frame} {rest : List Frame}
    {fresh : Bool} (hx : s.pumps.stdout = .announcing x frame rest fresh) :
    ∃ cause, x.event = .state .running s.state cause ∧ .running ≠ s.state ∧
      Allowed s.state .running cause := by
  obtain ⟨⟨cause, he⟩, hs⟩ := h.first x frame rest fresh hx
  refine ⟨cause, he, ?_⟩
  obtain ⟨hs, -⟩ | ⟨hs, -⟩ := hs
  · rw [hs]
    exact ⟨by decide, .inl ⟨.processHealthy, rfl⟩⟩
  · rw [hs]
    exact ⟨by decide, .inl ⟨.processHealthy, rfl⟩⟩

/-- Outside the task group the stdout pump announces nothing. -/
theorem Sane.not_pumpTaken (h : Sane s) (hno : ∀ t, s.lifecycle ≠ .pumping t) : ¬ s.PumpTaken := by
  obtain ⟨b, hb⟩ := h.ended hno
  exact not_pumpTaken_of_ended hb

theorem not_loopTaken_of_pumping {t : ℚ} (hl : s.lifecycle = .pumping t) : ¬ s.LoopTaken :=
  not_loopTaken fun x k hx => by cases hl.symm.trans hx

/-- What the channel knows while an event of the loop is taken. -/
theorem announcedState_sending {e : WorkerEvent Frame} {k : AfterSend} (h : Sane s)
    (hl : s.lifecycle = .sending ⟨e, true⟩ k) : s.announcedState = (s.arrived e).state := by
  by_cases he : IsState e
  · cases e with
    | state new old cause =>
      rw [announcedState, hl]
      rfl
    | progress | error | exited | stalled => exact he.elim
  · rw [announcedState_of_not _ (h.not_pumpTaken fun t ht => by cases hl.symm.trans ht),
      arrived_of_plain he]
    rw [LoopTaken, hl]
    cases e <;> first | exact absurd trivial he | exact not_false

/-- What the channel knows while RUNNING is taken. -/
theorem announcedState_announcing {e : WorkerEvent Frame} {frame : Frame} {rest : List Frame}
    {fresh : Bool} (h : Sane s) (hx : s.pumps.stdout = .announcing ⟨e, true⟩ frame rest fresh) :
    s.announcedState = .running := by
  obtain ⟨t, hl⟩ := h.pumping fun b hb => by rw [hb] at hx; cases hx
  obtain ⟨cause, he, -⟩ := h.allowed_first hx
  obtain rfl : e = .state .running s.state cause := he
  rw [announcedState, hl, hx]

theorem announcedState_pumping {t : ℚ} (hl : s.lifecycle = .pumping t)
    (h : ∀ x frame rest fresh, s.pumps.stdout = .announcing x frame rest fresh →
      x.accepted = false) : s.announcedState = s.state :=
  announcedState_of_not (not_loopTaken_of_pumping hl) (not_pumpTaken h)

theorem announcedState_spawning (h : Sane s) (hl : s.lifecycle = .spawning) :
    s.announcedState = s.state :=
  announcedState_of_not (not_loopTaken fun x k hx => by cases hl.symm.trans hx)
    (h.not_pumpTaken fun t ht => by cases hl.symm.trans ht)

end Taken

/-! ## The invariant -/

/-- The channel tells a path, and up to an event just taken its end is the
state of the worker. -/
structure Telling (s : FFmpegWorker Frame) : Prop extends Sane s where
  path : Tells s.channel (lastTold s.channel)
  last : s.receiveOpen = true → lastTold s.channel = s.announcedState

section Step

variable {s s' : FFmpegWorker Frame} {draw : ℚ}

theorem Telling.refines {w : FFmpegWorker Frame} (h : Telling w.bare) : Refines w := by
  refine ⟨h.path, fun hquiet _ hopen => (h.last hopen).trans ?_⟩
  refine announcedState_of_not (fun htaken => ?_) (fun htaken => ?_)
  · rw [LoopTaken] at htaken
    split at htaken
    · rename_i hl
      exact hquiet (.inl ⟨_, _, hl, trivial⟩)
    · exact htaken
  · rw [PumpTaken] at htaken
    split at htaken
    · rename_i hx
      exact hquiet (.inr ⟨_, _, _, _, hx⟩)
    · exact htaken

/-- A step that puts nothing on the channel. -/
theorem Telling.quiet (h : Telling s) (hs : Sane s') (hchannel : s'.channel = s.channel)
    (hopen : s'.receiveOpen = true → s.receiveOpen = true)
    (hsame : s'.receiveOpen = true → s'.announcedState = s.announcedState) : Telling s' := by
  refine ⟨hs, ?_, fun hreceive => ?_⟩
  · rw [hchannel]
    exact h.path
  · rw [hchannel, hsame hreceive]
    exact h.last (hopen hreceive)

/-- A step that puts an event on it that is no state change. -/
theorem Telling.puts (h : Telling s) (hs : Sane s') {e : WorkerEvent Frame}
    (hchannel : s'.channel = s.channel ++ [e]) (he : ¬ IsState e)
    (hopen : s'.receiveOpen = true → s.receiveOpen = true)
    (hsame : s'.announcedState = s.announcedState) : Telling s' := by
  refine ⟨hs, ?_, fun hreceive => ?_⟩
  · rw [hchannel, lastTold_other _ he]
    exact h.path.other he
  · rw [hchannel, lastTold_other _ he, hsame]
    exact h.last (hopen hreceive)

/-- A step that puts a state change on it. -/
theorem Telling.changes (h : Telling s) (hs : Sane s') {new : WorkerState} {cause : String}
    (hchannel : s'.channel = s.channel ++ [.state new s.state cause])
    (hallowed : Allowed s.state new cause) (hopen : s.receiveOpen = true)
    (hbefore : s.announcedState = s.state) (hafter : s'.announcedState = new) : Telling s' := by
  refine ⟨hs, ?_, fun _ => ?_⟩
  · rw [hchannel, lastTold_change]
    have hpath := h.path
    rw [(h.last hopen).trans hbefore] at hpath
    exact hpath.change hallowed
  · rw [hchannel, lastTold_change, hafter]

/-- Nothing that was taken is waited for. -/
theorem announcedState_keeps (hl : s'.lifecycle = s.lifecycle) (hstate : s'.state = s.state)
    (hp : s'.pumps.stdout = s.pumps.stdout) : s'.announcedState = s.announcedState := by
  rw [announcedState, announcedState, hl, hstate, hp]

theorem telling_taken (h : Telling s) {e : WorkerEvent Frame} {k : AfterSend}
    (hopen : s.receiveOpen = true) (hl : s.lifecycle = .sending ⟨e, false⟩ k) :
    Telling { s with channel := s.channel ++ [e], lifecycle := .sending ⟨e, true⟩ k } := by
  have hs := sane_moves h.toSane (.taken hopen hl)
  have hplace := h.place
  rw [hl] at hplace
  have hbefore : s.announcedState = s.state :=
    announcedState_of_not (not_loopTaken fun x k hx => by cases hl.symm.trans hx; rfl)
      (h.not_pumpTaken fun t ht => by cases hl.symm.trans ht)
  have hafter := announcedState_sending hs rfl
  by_cases he : IsState e
  · cases e with
    | state new old cause =>
      obtain ⟨rfl, -, hallowed⟩ := allowed_announced hplace
      exact h.changes hs rfl hallowed hopen hbefore hafter
    | progress | error | exited | stalled => exact he.elim
  · rw [arrived_of_plain he] at hafter
    exact h.puts hs rfl he id (hafter.trans hbefore.symm)

theorem telling_announcementTaken (h : Telling s) {e : WorkerEvent Frame} {frame : Frame}
    {rest : List Frame} {fresh : Bool} (hopen : s.receiveOpen = true)
    (hx : s.pumps.stdout = .announcing ⟨e, false⟩ frame rest fresh) :
    Telling { s with
      channel := s.channel ++ [e]
      pumps := { s.pumps with stdout := .announcing ⟨e, true⟩ frame rest fresh } } := by
  have hs := sane_moves h.toSane (.announcementTaken hopen hx)
  obtain ⟨t, hl⟩ := h.pumping fun b hb => by rw [hb] at hx; cases hx
  obtain ⟨cause, he, -, hallowed⟩ := h.allowed_first hx
  obtain rfl : e = .state .running s.state cause := he
  have hbefore : s.announcedState = s.state :=
    announcedState_of_not (not_loopTaken_of_pumping hl)
      (not_pumpTaken fun x frame rest fresh hx' => by cases hx.symm.trans hx'; rfl)
  exact h.changes hs rfl hallowed hopen hbefore (announcedState_announcing hs rfl)

/-! ### The loop -/

/-- The loop goes on outside the task group, or when no pump is left in it. -/
theorem Sane.ended_resumes (h : Sane s) (hr : Resumes s draw s') :
    ∃ b, s.pumps = endedPumps b := by
  cases hr with
  | starts hl | startsAnew hl | stops hl | resets hl | resetsAnew hl | wakes hl =>
    exact h.ended fun t ht => by cases hl.symm.trans ht
  | sent hl hgo hgoes => exact h.ended fun t ht => by cases hl.symm.trans ht
  | exits hl hpumps hplain hsends => exact endedPumps_of_pumpsEnded hpumps

/-- Outside the announcements the channel knows the state. -/
theorem announcedState_of_only (h : Only s s') {b : Bool} (hp : s.pumps = endedPumps b) :
    s'.announcedState = s.state := by
  rw [announcedState_of_not (not_loopTaken h.fresh) (not_pumpTaken_of_ended (b := b) ?_), h.eq]
  rw [h.eq]
  exact hp

theorem telling_resumes (h : Telling s) (hr : Resumes s draw s') : Telling s' := by
  have hs := sane_moves h.toSane (.resumes hr)
  obtain ⟨b, hb⟩ := h.ended_resumes hr
  obtain ⟨-, ⟨honly, hno⟩ | ⟨⟨e, accepted⟩, k, hl, hgo, honly⟩⟩ := only_resumes hr
  · refine h.quiet hs (by rw [honly.eq]) (fun hopen => by rw [honly.eq] at hopen; exact hopen)
      fun _ => ?_
    rw [announcedState_of_only honly hb, announcedState_of_not (not_loopTaken fun x k hx =>
      absurd hx (hno x k)) (not_pumpTaken_of_ended hb)]
  · have hreceived : (s.received e k).channel = s.channel ∧
        (s.received e k).receiveOpen = s.receiveOpen ∧ (s.received e k).pumps = s.pumps ∧
        (s.received e k).state = (s.arrived e).state := by
      cases k <;> cases e <;> exact ⟨rfl, rfl, rfl, rfl⟩
    obtain ⟨hchannel, hreceive, hpumps, hstate⟩ := hreceived
    have hopen : s'.receiveOpen = s.receiveOpen := by
      rw [honly.eq]
      exact hreceive
    refine h.quiet hs (by rw [honly.eq]; exact hchannel) (fun ho => hopen.symm.trans ho)
      fun ho => ?_
    -- an open channel has taken what the loop comes back from
    cases accepted
    · rw [canGoOn, ← hopen, ho] at hgo
      cases hgo
    · rw [announcedState_of_only honly (hpumps.trans hb), hstate, announcedState_sending h.toSane hl]

/-! ### The stdout pump -/

theorem telling_keeps (h : Telling s) (hs : Sane s') {t : ℚ} (hl : s.lifecycle = .pumping t)
    (hno : ¬ s.PumpTaken) (hk : PumpKeeps s s') : Telling s' := by
  have hl' : s'.lifecycle = .pumping t := by
    rw [hk.eq]
    exact hl
  refine h.quiet hs (by rw [hk.eq]) (fun ho => by rw [hk.eq] at ho; exact ho) fun _ => ?_
  rw [announcedState_of_not (not_loopTaken_of_pumping hl') (not_pumpTaken hk.fresh),
    announcedState_of_not (not_loopTaken_of_pumping hl) hno, hk.eq]

/-- RUNNING is assigned. -/
theorem telling_announced (h : Telling s) (hs : Sane s') {x : Sending Frame} {frame : Frame}
    {rest : List Frame} {fresh : Bool} (hx : s.pumps.stdout = .announcing x frame rest fresh)
    (hgo : s.canGoOn x = true) (hpump : PumpOnly s s') (hstate : s'.state = .running)
    (hno : ∀ x frame rest fresh, s'.pumps.stdout ≠ .announcing x frame rest fresh) :
    Telling s' := by
  obtain ⟨t, hl⟩ := h.pumping fun b hb => by rw [hb] at hx; cases hx
  have hl' : s'.lifecycle = .pumping t := by
    rw [hpump]
    exact hl
  refine h.quiet hs (by rw [hpump]) (fun ho => by rw [hpump] at ho; exact ho) fun ho => ?_
  have ho : s.receiveOpen = true := by
    rw [hpump] at ho
    exact ho
  obtain ⟨e, accepted⟩ := x
  cases accepted
  · rw [canGoOn, ho] at hgo
    cases hgo
  · rw [announcedState_of_not (not_loopTaken_of_pumping hl') (not_pumpTaken fun x frame rest fresh
      hx => absurd hx (hno x frame rest fresh)), hstate, announcedState_announcing h.toSane hx]

theorem telling_stdoutGoesOn (h : Telling s) (hg : StdoutGoesOn s s') : Telling s' := by
  have hs := sane_moves h.toSane (.stdoutGoesOn hg)
  have hpump := pumpOnly_stdoutGoesOn hg
  cases hg with
  | announced hx hgo hsends | resumed hx hgo hsends =>
    obtain ⟨cause, he, -⟩ := h.allowed_first hx
    have hstate := state_arrived (s := s) he
    cases hsends with
    | sent hopen =>
      exact telling_announced h hs hx hgo hpump hstate fun x frame rest fresh hx => by cases hx
    | refused hclosed =>
      exact telling_announced h hs hx hgo hpump hstate fun x frame rest fresh hx => by cases hx
  | reported hx hgo hhandles =>
    obtain ⟨t, hl⟩ := h.pumping fun b hb => by rw [hb] at hx; cases hx
    exact telling_keeps h hs hl (not_pumpTaken fun x frame rest fresh hx' => by
      cases hx.symm.trans hx') (pumpKeeps_handles hhandles)
  | @erred x goesOn hx hgo =>
    obtain ⟨t, hl⟩ := h.pumping fun b hb => by rw [hb] at hx; cases hx
    have hno : ¬ s.PumpTaken := not_pumpTaken fun x frame rest fresh hx' => by
      cases hx.symm.trans hx'
    cases goesOn
    · exact telling_keeps h hs hl hno ⟨rfl, fun x frame rest fresh hx => by cases hx⟩
    · exact telling_keeps h hs hl hno ⟨rfl, fun x frame rest fresh hx => by cases hx⟩

/-! ### The steps beside them, and `stop` -/

theorem telling_beside (h : Telling s) (hs : Sane s') (hb : Beside s s') : Telling s' := by
  have hsame : s'.announcedState = s.announcedState := by
    obtain hsame | ⟨hclosed, hended⟩ := hb.stdout
    · exact announcedState_keeps (by rw [hb.eq]) (by rw [hb.eq]) hsame
    · -- the stream is open while the stdout pump announces something
      have hno : ¬ s.PumpTaken := not_pumpTaken fun x frame rest fresh hx => by
        obtain ⟨t, hl⟩ := h.pumping fun b hb => by rw [hb] at hx; cases hx
        exact absurd (hclosed.symm.trans (h.pumpOpen hl)) Bool.false_ne_true
      have hl : s'.lifecycle = s.lifecycle := by rw [hb.eq]
      by_cases hloop : s.LoopTaken
      · rw [LoopTaken] at hloop
        split at hloop
        · rename_i hl'
          rw [announcedState, announcedState, hl, hl']
        · exact hloop.elim
      · have hloop' : ¬ s'.LoopTaken := by
          rw [LoopTaken, hl]
          exact hloop
        rw [announcedState_of_not hloop' (not_pumpTaken_of_ended hended),
          announcedState_of_not hloop hno, hb.eq]
  obtain hchannel | ⟨e, hchannel, he⟩ := hb.channel
  · exact h.quiet hs hchannel hb.receive fun _ => hsame
  · exact h.puts hs hchannel (he h.plain) hb.receive hsame

theorem telling_stops (h : Telling s) (hs : Sane s') {phase : StopPhase} (hst : Stops s s' phase) :
    Telling s' := by
  cases hst with
  | signals hp hrun => exact h.quiet hs rfl id fun _ => rfl
  | joins hno hj => cases hj <;> exact h.quiet hs rfl id fun _ => rfl

/-- A cancellation that cuts no announcement off. -/
theorem telling_cancels (h : Telling s) (hs : Sane s') (hc : Cancels s s')
    (huncut : s.receiveOpen = true → ¬ s.LoopTaken ∧ (s.pumps.failed = false → ¬ s.PumpTaken)) :
    Telling s' := by
  cases hc with
  | ended hdead => exact h
  | swallowed hl hfailed => exact h
  | pumping hl hgoing =>
    refine h.quiet hs rfl id fun ho => ?_
    obtain ⟨hloop, hpump⟩ := huncut ho
    rw [announcedState_of_not hloop (hpump hgoing)]
    exact announcedState_of_not (not_loopTaken fun x k hx => by cases hx)
      (not_pumpTaken_of_ended rfl)
  | elsewhere halive hno =>
    refine h.quiet hs rfl id fun ho => ?_
    have hpump := h.not_pumpTaken hno
    rw [announcedState_of_not (huncut ho).1 hpump]
    exact announcedState_of_not (not_loopTaken fun x k hx => by cases hx) hpump

theorem telling_stopGoesOn (h : Telling s) (hs : Sane s') {phase phase' : StopPhase}
    {timedOut : Bool} (hg : StopGoesOn s phase timedOut s' phase')
    (huncut : phase = .awaitingLifecycle → timedOut = true → s.receiveOpen = true →
      ¬ s.LoopTaken ∧ (s.pumps.failed = false → ¬ s.PumpTaken)) : Telling s' := by
  have hjoins {s' : FFmpegWorker Frame} {phase' : StopPhase} (hs : Sane s')
      (hj : Joins s s' phase') : Telling s' := by
    cases hj <;> exact h.quiet hs rfl id fun _ => rfl
  cases hg with
  | exited hexited hj => exact hjoins hs hj
  | killed hj => exact hjoins hs hj
  | cancels hc => exact telling_cancels h hs hc (huncut rfl rfl)
  | kills | joined | cancelled => exact h.quiet hs rfl id fun _ => rfl
  | closesReceive => exact h.quiet hs rfl (fun ho => by cases ho) fun _ => rfl
  | raised | raisedAnyway | returns => exact h

/-! ### Every step -/

/-- The list of calls of `stop` says nothing about the channel. -/
theorem Telling.with_stops (h : Telling s) (stops : List StopPhase) :
    Telling { s with stops := stops } :=
  ⟨⟨h.ended, h.opened, h.place, h.first, h.plain⟩, h.path, h.last⟩

/-- **One step that cuts nothing off.** -/
theorem telling_moves (h : Telling s) {l : Label Frame} (huncut : Uncut s (.other l))
    (hm : Moves s l s') : Telling s' := by
  have hs := sane_moves h.toSane hm
  have hplace := h.place
  cases hm with
  | beside hl hb => exact telling_beside h hs hb
  | taken hopen hl => exact telling_taken h hopen hl
  | announcementTaken hopen hx => exact telling_announcementTaken h hopen hx
  | progressTaken hopen hx =>
    obtain ⟨t, hl⟩ := h.pumping fun b hb => by rw [hb] at hx; cases hx
    refine h.puts hs rfl (h.plain.progressing _ _ hx) id ?_
    rw [announcedState_pumping hl fun x frame rest fresh hx' => by cases hx.symm.trans hx']
    exact announcedState_pumping hl fun x frame rest fresh hx' => by cases hx'
  | errorTaken hopen hx =>
    obtain ⟨t, hl⟩ := h.pumping fun b hb => by rw [hb] at hx; cases hx
    refine h.puts hs rfl (h.plain.erring _ _ hx) id ?_
    rw [announcedState_pumping hl fun x frame rest fresh hx' => by cases hx.symm.trans hx']
    exact announcedState_pumping hl fun x frame rest fresh hx' => by cases hx'
  | resumes hr => exact telling_resumes h hr
  | spawns hl =>
    refine h.quiet hs rfl id fun _ => ?_
    rw [announcedState_spawning h.toSane hl]
    exact announcedState_pumping (t := s.now) rfl fun x frame rest fresh hx => by cases hx
  | spawnFails hl hsends =>
    have honly := only_sends hsends
    obtain ⟨b, hb⟩ := h.ended fun t ht => by cases hl.symm.trans ht
    refine h.quiet hs (by rw [honly.eq]) (fun ho => by rw [honly.eq] at ho; exact ho) fun _ => ?_
    rw [announcedState_of_only honly hb, announcedState_spawning h.toSane hl]
  | spawnRaises hl =>
    refine h.quiet hs rfl id fun _ => ?_
    rw [announcedState_spawning h.toSane hl]
    exact announcedState_of_not (not_loopTaken fun x k hx => by cases hx)
      (h.not_pumpTaken fun t ht => by cases hl.symm.trans ht)
  | reads hreading hr =>
    obtain ⟨t, hl⟩ := h.pumping fun b hb => by rw [hb] at hreading; cases hreading
    exact telling_keeps h hs hl (not_pumpTaken fun x frame rest fresh hx => by
      cases hreading.symm.trans hx) (pumpKeeps_reads hr)
  | stdoutGoesOn hg => exact telling_stdoutGoesOn h hg
  | pumpRaises halive =>
    refine h.quiet hs rfl id fun ho => ?_
    by_cases hloop : s.LoopTaken
    · rw [LoopTaken] at hloop
      split at hloop
      · rename_i hl
        rw [announcedState, announcedState, abortPumps, hl]
      · exact hloop.elim
    · have hafter : s.abortPumps.announcedState = s.state :=
        announcedState_of_not (s := s.abortPumps) hloop (not_pumpTaken_of_ended rfl)
      rw [hafter, announcedState_of_not hloop (huncut halive ho)]
  | resets hstate => exact h.quiet hs rfl id fun _ => rfl
  | resetIgnored hstate => exact h
  | stops hst => exact (telling_stops h (sane_stops h.toSane hst) hst).with_stops _
  | @stopGoesOn i timedOut phase s' phase' hphase hg =>
    refine (telling_stopGoesOn h (sane_stopGoesOn h.toSane hg) hg fun hp ht => ?_).with_stops _
    subst hp ht
    exact huncut hphase

/-! ### The exact guard -/

/-- An announcement the channel has taken is of another state. -/
theorem Sane.announced_ne (h : Sane s) (ht : s.LoopTaken ∨ s.PumpTaken) :
    s.announcedState ≠ s.state := by
  obtain ht | ht := ht
  · rw [LoopTaken] at ht
    split at ht
    · rename_i hl
      have hplace := h.place
      rw [hl] at hplace
      rw [announcedState_sending h hl]
      exact (allowed_announced hplace).2.1
    · exact ht.elim
  · rw [PumpTaken] at ht
    split at ht
    · rename_i hx
      obtain ⟨cause, he, hne, -⟩ := h.allowed_first hx
      rw [announcedState_announcing h hx]
      exact hne
    · exact ht.elim

theorem alive_of_taken (h : Sane s) (ht : s.LoopTaken ∨ s.PumpTaken) : s.LifecycleAlive = true := by
  obtain ht | ht := ht
  · rw [LoopTaken] at ht
    split at ht
    · rename_i hl
      rw [LifecycleAlive, hl]
    · exact ht.elim
  · by_contra hdead
    exact h.not_pumpTaken (fun t hl => hdead (alive_of_pumping hl)) ht

/-- A taken announcement came from a loop that had begun, over an open stream. -/
theorem open_of_taken (h : Sane s) (ht : s.LoopTaken ∨ s.PumpTaken) : s.sendOpen = true := by
  refine h.opened (alive_of_taken h ht) fun hl => ?_
  obtain ht | ht := ht
  · exact not_loopTaken (fun x k hx => by cases hl.symm.trans hx) ht
  · exact h.not_pumpTaken (fun t hl' => by cases hl.symm.trans hl') ht

/-- A task that is cut off after the channel took its announcement. -/
theorem Telling.cut (h : Telling s) (ht : s.LoopTaken ∨ s.PumpTaken)
    (hopen : s.receiveOpen = true) {w : FFmpegWorker Frame} (hchannel : w.channel = s.channel)
    (hstate : w.state = s.state) (hsend : w.sendOpen = s.sendOpen)
    (hreceive : w.receiveOpen = s.receiveOpen) (hquiet : ¬ w.Announcing) : ¬ Refines w := by
  intro hw
  have hlast := hw.last hquiet (hsend.trans (open_of_taken h.toSane ht)) (hreceive.trans hopen)
  rw [hchannel, hstate, h.last hopen] at hlast
  exact h.announced_ne ht hlast

/-- Once the loop is cancelled nothing is announced. -/
theorem not_announcing_cancelled {w : FFmpegWorker Frame} {b : Bool}
    (hl : w.lifecycle = .finished .cancelled) (hp : w.pumps = endedPumps b) : ¬ w.Announcing := by
  rintro (⟨x, k, hx, -⟩ | ⟨x, frame, rest, fresh, hx⟩)
  · cases hl.symm.trans hx
  · rw [hp] at hx
    cases hx

/-- **One step that cuts an announcement off.** -/
theorem cut_moves (h : Telling s) {l : Label Frame} (hcut : ¬ Uncut s (.other l))
    (hm : Moves s l s') : ¬ Refines s' := by
  cases hm with
  | beside hl hb => cases l <;> first | exact absurd trivial hcut | exact hl.elim
  | @pumpRaises t halive =>
    obtain ⟨hopen, ht⟩ : s.receiveOpen = true ∧ s.PumpTaken := by
      simpa only [Uncut, halive, true_implies, Classical.not_imp, not_not] using hcut
    refine h.cut (.inr ht) hopen rfl rfl rfl rfl ?_
    rintro (⟨x, k, hx, -⟩ | ⟨x, frame, rest, fresh, hx⟩)
    · exact h.not_pumpTaken (fun t hl => by cases hl.symm.trans hx) ht
    · cases hx
  | @stopGoesOn i timedOut phase s' phase' hphase hg =>
    cases timedOut
    · exact absurd trivial hcut
    · obtain ⟨hwait, hopen, hcut⟩ : s.stops[i]? = some .awaitingLifecycle ∧ s.receiveOpen = true ∧
          ¬ (¬ s.LoopTaken ∧ (s.pumps.failed = false → ¬ s.PumpTaken)) := by
        simpa only [Uncut, Classical.not_imp] using hcut
      obtain rfl : phase = .awaitingLifecycle := Option.some.inj (hphase.symm.trans hwait)
      have ht : s.LoopTaken ∨ s.pumps.failed = false ∧ s.PumpTaken := by tauto
      have ht' : s.LoopTaken ∨ s.PumpTaken := ht.imp_right And.right
      cases hg with
      | cancels hc =>
        cases hc with
        | ended hdead =>
          exact absurd (hdead.symm.trans (alive_of_taken h.toSane ht')) Bool.false_ne_true
        | swallowed hl hfailed =>
          obtain ht | ⟨hgoing, -⟩ := ht
          · exact absurd ht (not_loopTaken_of_pumping hl)
          · exact absurd (hgoing.symm.trans hfailed) Bool.false_ne_true
        | pumping hl hgoing =>
          exact h.cut ht' hopen rfl rfl rfl rfl (not_announcing_cancelled rfl rfl)
        | elsewhere halive hno =>
          obtain ⟨b, hb⟩ := h.ended hno
          exact h.cut ht' hopen rfl rfl rfl rfl (not_announcing_cancelled rfl hb)
  | _ => exact absurd trivial hcut

end Step

/-! ## Every run -/

theorem Telling.start {w : FFmpegWorker Frame} (h : Telling w.bare) (honce : Once w .start) :
    Telling w.start.bare := by
  have hs := sane_start h.toSane honce
  obtain ⟨heq, -⟩ | ⟨heq, hdead⟩ := start_eq w
  · rw [heq]
    exact h
  · have hno : ¬ w.bare.LoopTaken ∧ ¬ w.bare.PumpTaken := by
      have hdead : w.bare.LifecycleAlive = false := hdead
      refine ⟨fun ht => ?_, fun ht => ?_⟩
      · exact Bool.false_ne_true (hdead.symm.trans (alive_of_taken h.toSane (.inl ht)))
      · exact Bool.false_ne_true (hdead.symm.trans (alive_of_taken h.toSane (.inr ht)))
    rw [heq] at hs ⊢
    refine h.quiet hs rfl id fun _ => ?_
    rw [announcedState_of_not hno.1 hno.2]
    exact announcedState_of_not (not_loopTaken fun x k hx => by cases hx) hno.2

theorem telling_restartable {w w' : FFmpegWorker Frame} {l : Restart Frame} (h : Telling w.bare)
    (honce : Once w l) (huncut : Uncut w l) (hs : restartable.step w l = some w') :
    Telling w'.bare := by
  cases l with
  | start =>
    simp only [restartable] at hs
    split at hs
    · cases hs
    · obtain rfl := Option.some.inj hs
      exact h.start honce
  | other l => exact telling_moves h huncut (moves_of_step hs)

theorem cut_restartable {w w' : FFmpegWorker Frame} {l : Restart Frame} (h : Telling w.bare)
    (hcut : ¬ Uncut w l) (hs : restartable.step w l = some w') : ¬ Refines w' := by
  cases l with
  | start => exact absurd trivial hcut
  | other l =>
    intro hw
    exact cut_moves h hcut (moves_of_step hs) ⟨hw.path, hw.last⟩

/-- What is not enabled cuts nothing off. -/
theorem uncut_of_none {w : FFmpegWorker Frame} {l : Restart Frame}
    (h : restartable.step w l = none) : Uncut w l := by
  cases l with
  | start => trivial
  | other l =>
    change w.step l = none at h
    cases l with
    | pumpRaised t =>
      intro halive
      rw [step, if_pos halive] at h
      cases h
    | resumeStop i timedOut =>
      cases timedOut
      · trivial
      · intro hwait
        simp only [step, hwait, resumeStop, Option.map_some] at h
        cases h
    | _ => trivial

theorem telling_init (policy : CircuitBreakerPolicy) (now : ℚ) :
    Telling (init policy now : FFmpegWorker Frame).bare :=
  ⟨sane_init policy now, .start, fun _ => rfl⟩

instance (w : FFmpegWorker Frame) : DecidablePred (Once w)
  | .start =>
    match hl : w.lifecycle with
    | .finished e => .isFalse fun h => h e hl
    | .notStarted | .created | .sending .. | .spawning | .pumping _ | .waitingReset
    | .backingOff _ => .isTrue fun e he => by cases hl.symm.trans he
  | .other _ => .isTrue trivial

/-- **The state events refine the state machine** in exactly the runs that cut no
announcement off. -/
theorem state_events_refine_iff (policy : CircuitBreakerPolicy) (now : ℚ)
    (labels : List (Restart Frame)) (h : restartable.Meets Once (init policy now) labels) :
    restartable.Always Refines (init policy now) labels ↔
      restartable.Meets Uncut (init policy now) labels :=
  Machine.always_iff_meets_under (I := fun w => Telling w.bare)
    (fun _ _ _ hw honce huncut hs => telling_restartable hw honce huncut hs)
    (fun _ hw => hw.refines) (fun _ _ _ hw _ hcut hs => cut_restartable hw hcut hs)
    (fun _ _ hs => uncut_of_none hs) (telling_init policy now) h

/-- A worker that comes up and is stopped, every event being taken. -/
def upAndDown : List (Restart Unit) :=
  .start :: ([.lifecycle 0, .accept .lifecycle, .lifecycle 0, .spawned,
    .readStdout (.frames [()]), .accept .stdout, .resumeStdout, .accept .stdout, .resumeStdout,
    .stop, .exit 0 0, .readStdout .eof, .readStderr .eof, .stallTick, .seeExit, .lifecycle 0,
    .accept .lifecycle, .lifecycle 0, .accept .lifecycle, .lifecycle 0, .accept .lifecycle,
    .lifecycle 0, .resumeStop 0 false, .resumeStop 0 false].map .other)

theorem state_events_refine_upAndDown :
    restartable.Meets Once (init {} 0) upAndDown ∧
      restartable.Always Refines (init {} 0) upAndDown := by
  have honce : restartable.Meets Once (init {} 0) upAndDown := by decide +kernel
  exact ⟨honce, (state_events_refine_iff {} 0 upAndDown honce).mpr (by decide +kernel)⟩

/-- The reader takes STARTING just as `stop` loses its patience. -/
def cutOff : List (Restart Unit) :=
  [.start, .other (.lifecycle 0), .other .stop, .other (.accept .lifecycle),
    .other (.resumeStop 0 true)]

/-- **STARTING is announced and the worker stays IDLE.** -/
theorem announced_and_forgotten :
    restartable.Meets Once (init {} 0) cutOff ∧
      (∃ w : FFmpegWorker Unit, restartable.run (init {} 0) cutOff = some w ∧
        ¬ w.Announcing ∧ w.sendOpen = true ∧ w.receiveOpen = true ∧
          lastTold w.channel = .starting ∧ w.state = .idle) ∧
      ¬ restartable.Always Refines (init {} 0) cutOff := by
  have hforgotten : ∃ w : FFmpegWorker Unit, restartable.run (init {} 0) cutOff = some w ∧
      ¬ w.Announcing ∧ w.sendOpen = true ∧ w.receiveOpen = true ∧
        lastTold w.channel = .starting ∧ w.state = .idle :=
    ⟨_, rfl, not_announcing_cancelled rfl rfl, rfl, rfl, rfl, rfl⟩
  refine ⟨by decide, hforgotten, fun h => ?_⟩
  obtain ⟨w, hw, hquiet, hsend, hreceive, htold, hstate⟩ := hforgotten
  have hlast := (Machine.always_last h hw).last hquiet hsend hreceive
  rw [htold, hstate] at hlast
  cases hlast

end FFmpegWorker

end RestreamPlus
