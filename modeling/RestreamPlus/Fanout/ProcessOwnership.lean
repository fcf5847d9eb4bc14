import RestreamPlus.Fanout.FFmpegWorker

/-!
# No process escapes its worker

A process that runs should be the one in `_process`, and once `stop` has
returned no process should run that was not told to end. Two things break this:

* `stop` looks at `_process` once. A `spawn` that is in flight at that time and
  comes back later leaves a process that nobody signals (`stop_misses_spawn`);
* a pump that raises ends the task group, the exit waiter included, and
  `_run_one_spawn` then forgets a process that still runs
  (`pump_exception_drops_process`).

`processes_contained` says that there is nothing else: in every run in which
`spawn` returns no process after a stop was requested, and in which no pump
raises while its process runs, both properties hold throughout.
-/

namespace RestreamPlus

open Interleaving

namespace FFmpegWorker

variable {Frame : Type}

/-- `terminate` or `kill` was called on the process. -/
def Signalled (w : FFmpegWorker Frame) (p : ℕ) : Prop :=
  ∃ c, w.children[p]? = some c ∧ c.signalled = true

/-- What is asked of the processes of a worker. -/
structure Contained (w : FFmpegWorker Frame) : Prop where
  /-- a process that runs is the one in `_process` -/
  referenced : ∀ p, w.Running p → w.process = some p
  /-- when a `stop` has returned, every process has exited or was signalled -/
  handled : StopPhase.returned ∈ w.stops → ∀ p, w.Running p → w.Signalled p

/-- `spawn` returns no process after a stop was requested, and no pump raises
while its process runs. -/
def Careful (w : FFmpegWorker Frame) : Label Frame → Prop
  | .spawned => w.stopRequested = false
  | .pumpRaised _ => ∀ p ∈ w.process, ¬ w.Running p
  | _ => True

instance (w : FFmpegWorker Frame) (l : Label Frame) : Decidable (Careful w l) := by
  unfold Careful
  split <;> infer_instance

/-! ## What the code leaves alone -/

/-- What the lifecycle code shares with the other tasks. -/
structure Shared (Frame : Type) : Type where
  process : Option ℕ
  children : List Child
  pumps : Pumps Frame
  stops : List StopPhase
  stopRequested : Bool
  sendOpen : Bool

def shared (w : FFmpegWorker Frame) : Shared Frame :=
  ⟨w.process, w.children, w.pumps, w.stops, w.stopRequested, w.sendOpen⟩

/-- The lifecycle code went on from `w` to `w'` and is not in a task group. -/
structure Quiet (w w' : FFmpegWorker Frame) : Prop where
  shared_eq : w'.shared = w.shared
  lifecycle : ∀ t, w'.lifecycle ≠ .pumping t

theorem quiet_send (w : FFmpegWorker Frame) (e : WorkerEvent Frame) (k : AfterSend) :
    Quiet w (w.send e k) := by
  rw [send]
  dsimp only
  split
  · exact ⟨rfl, fun t h => by cases h⟩
  · exact ⟨rfl, fun t h => by cases h⟩

theorem quiet_setState (w : FFmpegWorker Frame) (a : WorkerAction) (cause : String) (k : AfterSend)
    {skip : FFmpegWorker Frame → FFmpegWorker Frame} (h : Quiet w (skip w)) :
    Quiet w (w.setState a cause k skip) := by
  rw [setState]
  split
  · exact h
  · exact quiet_send _ _ _

theorem quiet_finish (w : FFmpegWorker Frame) : Quiet w w.finish := ⟨rfl, fun t h => by cases h⟩

theorem quiet_becomeIdle (w : FFmpegWorker Frame) : Quiet w w.becomeIdle := by
  rw [becomeIdle]
  split
  · exact quiet_setState _ _ _ _ (quiet_finish w)
  · exact quiet_finish w

theorem quiet_leaveLoop (w : FFmpegWorker Frame) : Quiet w w.leaveLoop := by
  rw [leaveLoop]
  split
  · exact quiet_setState _ _ _ _ (quiet_becomeIdle w)
  · exact quiet_becomeIdle w

theorem quiet_loopHead (w : FFmpegWorker Frame) : Quiet w w.loopHead := by
  rw [loopHead]
  split
  · exact quiet_leaveLoop w
  · exact ⟨rfl, fun t h => by cases h⟩

theorem quiet_backOff (w : FFmpegWorker Frame) (draw : ℚ) : Quiet w (w.backOff draw) := by
  rw [backOff]
  split
  · exact ⟨rfl, fun t h => by cases h⟩
  · exact ⟨rfl, fun t h => by cases h⟩

theorem quiet_afterVerdict (w : FFmpegWorker Frame) (draw : ℚ) : Quiet w (w.afterVerdict draw) := by
  rw [afterVerdict]
  split
  · exact ⟨rfl, fun t h => by cases h⟩
  · exact quiet_backOff w draw

theorem quiet_applyReconnectVerdict (w : FFmpegWorker Frame) (v : BreakerVerdict) (now draw : ℚ) :
    Quiet w (w.applyReconnectVerdict v now draw) := by
  rw [applyReconnectVerdict]
  split
  · exact quiet_afterVerdict w draw
  · split
    · exact quiet_afterVerdict w draw
    · have hq := quiet_send { w with breaker := (w.breaker.failureCountInWindow now).1 }
      exact ⟨(hq _ _).shared_eq, (hq _ _).lifecycle⟩

theorem quiet_afterRun (w : FFmpegWorker Frame) (draw : ℚ) : Quiet w (w.afterRun draw) := by
  rw [afterRun]
  split
  · exact quiet_leaveLoop w
  · dsimp only
    -- the breaker and the error change before anything else happens
    have hfrom : ∀ {w₁ w' : FFmpegWorker Frame}, Quiet w₁ w' → w₁.shared = w.shared → Quiet w w' :=
      fun hq h => ⟨hq.shared_eq.trans h, hq.lifecycle⟩
    split
    · exact hfrom (quiet_setState _ _ _ _ (quiet_applyReconnectVerdict _ _ _ _)) rfl
    · split
      · exact hfrom (quiet_setState _ _ _ _ (quiet_applyReconnectVerdict _ _ _ _)) rfl
      · exact hfrom (quiet_applyReconnectVerdict _ _ _ _) rfl

theorem shared_arrived (w : FFmpegWorker Frame) (e : WorkerEvent Frame) :
    (w.arrived e).shared = w.shared := by
  cases e <;> rfl

/-- After a `send` only `_process` may have changed, to `None`. -/
theorem quiet_afterSend (w : FFmpegWorker Frame) (draw : ℚ) (k : AfterSend) :
    Quiet w (w.afterSend draw k) ∨ Quiet { w with process := none } (w.afterSend draw k) := by
  cases k with
  | startingSet => exact .inl (quiet_loopHead w)
  | spawnErrorSent => exact .inl (quiet_afterRun w draw)
  | exitedSent => exact .inr (quiet_afterRun _ draw)
  | reconnectingSet v now => exact .inl (quiet_applyReconnectVerdict w v now draw)
  | verdictSet => exact .inl (quiet_afterVerdict w draw)
  | resetSet => exact .inl (quiet_loopHead w)
  | stoppingSet => exact .inl (quiet_becomeIdle w)
  | idleSet => exact .inl (quiet_finish w)

/-- A pump went on from `w` to `w'`, and neither the exit waiter nor a failure
of the group changed. -/
structure Pumped (w w' : FFmpegWorker Frame) : Prop where
  process : w'.process = w.process
  children : w'.children = w.children
  stops : w'.stops = w.stops
  stopRequested : w'.stopRequested = w.stopRequested
  sendOpen : w'.sendOpen = w.sendOpen
  lifecycle : w'.lifecycle = w.lifecycle
  exit : w'.pumps.exit = w.pumps.exit
  failed : w'.pumps.failed = w.pumps.failed

theorem Pumped.refl (w : FFmpegWorker Frame) : Pumped w w := ⟨rfl, rfl, rfl, rfl, rfl, rfl, rfl, rfl⟩

theorem Pumped.trans {w w₁ w₂ : FFmpegWorker Frame} (h : Pumped w w₁) (h' : Pumped w₁ w₂) :
    Pumped w w₂ :=
  ⟨h'.process.trans h.process, h'.children.trans h.children, h'.stops.trans h.stops,
    h'.stopRequested.trans h.stopRequested, h'.sendOpen.trans h.sendOpen,
    h'.lifecycle.trans h.lifecycle, h'.exit.trans h.exit, h'.failed.trans h.failed⟩

theorem pumped_pumpSend {w₀ w : FFmpegWorker Frame} {pumps : Pumps Frame} (h : Pumped w₀ w)
    (hopen : w₀.sendOpen = true) (hexit : pumps.exit = w₀.pumps.exit)
    (hfailed : pumps.failed = w₀.pumps.failed) : Pumped w₀ (w.pumpSend pumps) := by
  rw [pumpSend]
  dsimp only
  rw [if_pos (h.sendOpen.trans hopen)]
  exact ⟨h.process, h.children, h.stops, h.stopRequested, h.sendOpen, h.lifecycle, hexit, hfailed⟩

theorem pumped_emitProgress {w : FFmpegWorker Frame} (hopen : w.sendOpen = true) (frame : Frame)
    (rest : List Frame) : Pumped w (w.emitProgress frame rest) := by
  rw [emitProgress]
  dsimp only
  split
  · exact pumped_pumpSend ⟨rfl, rfl, rfl, rfl, rfl, rfl, rfl, rfl⟩ hopen rfl rfl
  · exact pumped_pumpSend ⟨rfl, rfl, rfl, rfl, rfl, rfl, rfl, rfl⟩ hopen rfl rfl

theorem pumped_reset (w : FFmpegWorker Frame) (fresh : Bool) :
    Pumped w (if fresh then { w with attempt := 0 } else w) := by
  split
  · exact ⟨rfl, rfl, rfl, rfl, rfl, rfl, rfl, rfl⟩
  · exact Pumped.refl w

theorem pumped_announceRunning {w : FFmpegWorker Frame} (hopen : w.sendOpen = true) (cause : String)
    (frame : Frame) (rest : List Frame) (fresh : Bool) :
    Pumped w (w.announceRunning cause frame rest fresh) := by
  rw [announceRunning]
  split
  · have hreset := pumped_reset w fresh
    exact hreset.trans (pumped_emitProgress (hreset.sendOpen.trans hopen) frame rest)
  · exact pumped_pumpSend (Pumped.refl w) hopen rfl rfl

theorem pumped_nextFrame {w : FFmpegWorker Frame} (hopen : w.sendOpen = true)
    (frames : List Frame) : Pumped w (w.nextFrame frames) := by
  cases frames with
  | nil => exact ⟨rfl, rfl, rfl, rfl, rfl, rfl, rfl, rfl⟩
  | cons frame rest =>
    rw [nextFrame]
    have hseen : Pumped w { w with lastProgressAt := w.now } :=
      ⟨rfl, rfl, rfl, rfl, rfl, rfl, rfl, rfl⟩
    refine hseen.trans ?_
    dsimp only
    split
    · exact pumped_announceRunning (by exact hopen) _ _ _ _
    · split
      · exact pumped_announceRunning (by exact hopen) _ _ _ _
      · exact pumped_emitProgress (by exact hopen) _ _

theorem pumped_readStdout {w : FFmpegWorker Frame} (hopen : w.sendOpen = true)
    (r : StdoutRead Frame) : Pumped w (w.readStdout r) := by
  cases r with
  | eof => exact ⟨rfl, rfl, rfl, rfl, rfl, rfl, rfl, rfl⟩
  | frames frames => exact pumped_nextFrame hopen frames
  | parseError text =>
    exact pumped_pumpSend ⟨rfl, rfl, rfl, rfl, rfl, rfl, rfl, rfl⟩ hopen rfl rfl
  | failed type =>
    exact pumped_pumpSend ⟨rfl, rfl, rfl, rfl, rfl, rfl, rfl, rfl⟩ hopen rfl rfl

theorem pumped_arrived (w : FFmpegWorker Frame) (e : WorkerEvent Frame) :
    Pumped w (w.arrived e) := by
  cases e <;> exact ⟨rfl, rfl, rfl, rfl, rfl, rfl, rfl, rfl⟩

theorem pumped_resumeStdout {w w' : FFmpegWorker Frame} (hopen : w.sendOpen = true)
    (h : w.resumeStdout = some w') : Pumped w w' := by
  rw [resumeStdout] at h
  split at h
  · rename_i s frame rest fresh _
    split at h
    · obtain rfl := Option.some.inj h
      have harrived := pumped_arrived w s.event
      have hreset := harrived.trans (pumped_reset (w.arrived s.event) fresh)
      exact hreset.trans (pumped_emitProgress (hreset.sendOpen.trans hopen) frame rest)
    · cases h
  · split at h
    · obtain rfl := Option.some.inj h
      exact pumped_nextFrame hopen _
    · cases h
  · split at h
    · obtain rfl := Option.some.inj h
      exact ⟨rfl, rfl, rfl, rfl, rfl, rfl, rfl, rfl⟩
    · cases h
  · cases h
  · cases h

/-! ## Who owns a running process -/

/-- A running process is in `_process`. Its task group waits for its exit, or
the lifecycle task is over. -/
structure Owned (w : FFmpegWorker Frame) : Prop where
  referenced : ∀ p, w.Running p → w.process = some p
  watched : ∀ p, w.Running p →
    (∃ t, w.lifecycle = .pumping t) ∧ w.pumps.exit = .waiting ∧ w.pumps.failed = false ∨
      ∃ e, w.lifecycle = .finished e
  /-- pumps exist inside the task group only -/
  ended : (∀ t, w.lifecycle ≠ .pumping t) → ∃ b, w.pumps = endedPumps b
  opened : w.LifecycleAlive = true → w.sendOpen = true
  /-- from the first `stop` on every running process was signalled -/
  stopping : w.stops ≠ [] → w.stopRequested = true ∧ ∀ p, w.Running p → w.Signalled p

theorem Owned.contained {w : FFmpegWorker Frame} (h : Owned w) : Contained w :=
  ⟨h.referenced, fun hret => (h.stopping (List.ne_nil_of_mem hret)).2⟩

theorem owned_boot (policy : CircuitBreakerPolicy) (now : ℚ) :
    Owned (boot policy now : FFmpegWorker Frame) where
  referenced p hp := by
    obtain ⟨c, hc, -⟩ := hp
    cases hc
  watched p hp := by
    obtain ⟨c, hc, -⟩ := hp
    cases hc
  ended _ := ⟨false, rfl⟩
  opened _ := rfl
  stopping hne := absurd rfl hne

section Step

variable {w w' : FFmpegWorker Frame}

/-- Nothing these tasks share changed. -/
theorem Owned.of_shared (h : Owned w) (hs : w'.shared = w.shared)
    (hl : w'.lifecycle = w.lifecycle) : Owned w' := by
  obtain ⟨hp, hc, hpumps, hst, hreq, hopen⟩ := Shared.mk.inj hs
  have hrun : ∀ p, w'.Running p → w.Running p := by
    intro p
    rw [Running, Running, hc]
    exact id
  refine ⟨fun p hr => ?_, fun p hr => ?_, fun hno => ?_, fun halive => ?_, fun hne => ?_⟩
  · rw [hp]
    exact h.referenced p (hrun p hr)
  · rw [hl, hpumps]
    exact h.watched p (hrun p hr)
  · rw [hpumps]
    rw [hl] at hno
    exact h.ended hno
  · rw [hopen]
    refine h.opened ?_
    rw [LifecycleAlive, hl] at halive
    exact halive
  · rw [hst] at hne
    obtain ⟨hreq', hsig⟩ := h.stopping hne
    refine ⟨hreq.trans hreq', fun p hr => ?_⟩
    rw [Signalled, hc]
    exact hsig p (hrun p hr)

/-- Outside the task group and before its end the lifecycle task owns no running
process. -/
theorem Owned.none_running (h : Owned w) (hno : ∀ t, w.lifecycle ≠ .pumping t)
    (halive : w.LifecycleAlive = true) (p : ℕ) : ¬ w.Running p := by
  intro hr
  rcases h.watched p hr with ⟨⟨t, ht⟩, -⟩ | ⟨e, he⟩
  · exact hno t ht
  · rw [LifecycleAlive, he] at halive
    cases halive

/-- The lifecycle task went on without a running process. -/
theorem Owned.of_quiet (h : Owned w) (hno : ∀ p, ¬ w.Running p)
    (hended : ∃ b, w.pumps = endedPumps b) (halive : w.LifecycleAlive = true)
    (hq : Quiet w w' ∨ Quiet { w with process := none } w') : Owned w' := by
  have hview : w'.children = w.children ∧ w'.pumps = w.pumps ∧ w'.stops = w.stops ∧
      w'.stopRequested = w.stopRequested ∧ w'.sendOpen = w.sendOpen := by
    rcases hq with hq | hq
    · obtain ⟨-, hc, hpumps, hst, hreq, hopen⟩ := Shared.mk.inj hq.shared_eq
      exact ⟨hc, hpumps, hst, hreq, hopen⟩
    · obtain ⟨-, hc, hpumps, hst, hreq, hopen⟩ := Shared.mk.inj hq.shared_eq
      exact ⟨hc, hpumps, hst, hreq, hopen⟩
  obtain ⟨hc, hpumps, hst, hreq, hopen⟩ := hview
  have hno' : ∀ p, ¬ w'.Running p := by
    intro p
    rw [Running, hc]
    exact hno p
  refine ⟨fun p hr => absurd hr (hno' p), fun p hr => absurd hr (hno' p), fun _ => ?_,
    fun _ => hopen.trans (h.opened halive), fun hne => ?_⟩
  · rw [hpumps]
    exact hended
  · rw [hst] at hne
    exact ⟨hreq.trans (h.stopping hne).1, fun p hr => absurd hr (hno' p)⟩

/-- A pump that has not ended is inside the task group. -/
theorem Owned.pumping (h : Owned w) (hp : ∀ b, w.pumps ≠ endedPumps b) :
    ∃ t, w.lifecycle = .pumping t := by
  by_contra hno
  obtain ⟨b, hb⟩ := h.ended fun t ht => hno ⟨t, ht⟩
  exact hp b hb

theorem alive_of_pumping {t : ℚ} (h : w.lifecycle = .pumping t) : w.LifecycleAlive = true := by
  rw [LifecycleAlive, h]

/-- A pump went on. -/
theorem Owned.of_pumped (h : Owned w) (hp : ∃ t, w.lifecycle = .pumping t) (hw : Pumped w w') :
    Owned w' := by
  obtain ⟨t, ht⟩ := hp
  have hrun : ∀ p, w'.Running p → w.Running p := by
    intro p
    rw [Running, Running, hw.children]
    exact id
  refine ⟨fun p hr => ?_, fun p hr => ?_, fun hno => ?_, fun _ => ?_, fun hne => ?_⟩
  · rw [hw.process]
    exact h.referenced p (hrun p hr)
  · rw [hw.lifecycle, hw.exit, hw.failed]
    exact h.watched p (hrun p hr)
  · exact absurd (hw.lifecycle.trans ht) (hno t)
  · exact hw.sendOpen.trans (h.opened (alive_of_pumping ht))
  · rw [hw.stops] at hne
    obtain ⟨hreq, hsig⟩ := h.stopping hne
    refine ⟨hw.stopRequested.trans hreq, fun p hr => ?_⟩
    rw [Signalled, hw.children]
    exact hsig p (hrun p hr)

theorem running_signal {p q : ℕ} : (w.signal p).Running q ↔ w.Running q := by
  rw [Running, Running, signal]
  simp only [List.getElem?_modify]
  rcases w.children[q]? with _ | c
  · simp
  · by_cases hpq : p = q <;> simp [hpq]

theorem signalled_signal {p : ℕ} (h : w.Running p) : (w.signal p).Signalled p := by
  obtain ⟨c, hc, -⟩ := h
  exact ⟨{ c with signalled := true }, by simp [signal, hc], rfl⟩

theorem Signalled.signal {p q : ℕ} (h : w.Signalled q) : (w.signal p).Signalled q := by
  obtain ⟨c, hc, hs⟩ := h
  by_cases hpq : p = q
  · exact ⟨{ c with signalled := true }, by simp [FFmpegWorker.signal, hc, hpq], rfl⟩
  · exact ⟨c, by simp [FFmpegWorker.signal, hc, hpq], hs⟩

theorem Owned.signal (h : Owned w) (p : ℕ) : Owned (w.signal p) where
  referenced q hr := h.referenced q (running_signal.mp hr)
  watched q hr := h.watched q (running_signal.mp hr)
  ended := h.ended
  opened := h.opened
  stopping hne :=
    ⟨(h.stopping hne).1, fun q hr => ((h.stopping hne).2 q (running_signal.mp hr)).signal⟩

/-- A process that exited is running no more. -/
theorem running_of_exit {p q : ℕ} {rc : ℤ} (h : FFmpegWorker.Running
    { w with children := w.children.modify p fun c => { c with returncode := some rc } } q) :
    w.Running q ∧ p ≠ q := by
  obtain ⟨c, hc, hrc⟩ := h
  simp only [List.getElem?_modify] at hc
  rcases hq : w.children[q]? with _ | c₀ <;> rw [hq] at hc
  · cases hc
  · by_cases hpq : p = q
    · simp only [hpq, if_true, Option.map_eq_map, Option.map_some, Option.some.injEq] at hc
      rw [← hc] at hrc
      cases hrc
    · simp only [hpq, if_false, Option.map_eq_map, Option.map_some, Option.some.injEq] at hc
      subst hc
      exact ⟨⟨c₀, hq, hrc⟩, hpq⟩

/-- The others are as before. -/
theorem Signalled.exit {p q : ℕ} (h : w.Signalled q) (hpq : p ≠ q) (rc : ℤ) :
    Signalled
      { w with children := w.children.modify p fun c => { c with returncode := some rc } } q := by
  obtain ⟨c, hc, hs⟩ := h
  exact ⟨c, by simp [hc, hpq], hs⟩

theorem Owned.exit (h : Owned w) (p : ℕ) (rc : ℤ) :
    Owned { w with children := w.children.modify p fun c => { c with returncode := some rc } } := by
  refine ⟨fun q hr => h.referenced q (running_of_exit hr).1,
    fun q hr => h.watched q (running_of_exit hr).1, h.ended, h.opened,
    fun hne => ⟨(h.stopping hne).1, fun q hr => ?_⟩⟩
  obtain ⟨hq, hpq⟩ := running_of_exit hr
  exact ((h.stopping hne).2 q hq).exit hpq rc

/-- Every event that can be taken belongs to a task that stays where it is. -/
theorem owned_accept (h : Owned w) {t : Sender} (hs : w.accept t = some w') : Owned w' := by
  unfold accept at hs
  split at hs
  · split at hs
    · -- the lifecycle loop is sending, so it is in no task group
      rename_i hl
      obtain rfl := Option.some.inj hs
      have hno : ∀ t, w.lifecycle ≠ .pumping t := fun t ht => by rw [hl] at ht; cases ht
      have halive : w.LifecycleAlive = true := by rw [LifecycleAlive, hl]
      exact h.of_quiet (h.none_running hno halive) (h.ended hno) halive
        (.inl ⟨rfl, fun t ht => by cases ht⟩)
    case h_7 => cases hs
    -- a pump that sends has not ended
    all_goals
      rename_i hpump
      obtain rfl := Option.some.inj hs
      refine h.of_pumped (h.pumping fun b hb => ?_) ⟨rfl, rfl, rfl, rfl, rfl, rfl, rfl, rfl⟩
      rw [hb] at hpump
      cases hpump
  · cases hs

theorem endedPumps_of_pumpsEnded (h : w.PumpsEnded = true) : ∃ b, w.pumps = endedPumps b := by
  unfold PumpsEnded at h
  split at h
  · rename_i h₁ h₂ h₃ h₄
    refine ⟨w.pumps.failed, ?_⟩
    rw [endedPumps, ← h₁, ← h₂, ← h₃, ← h₄]
  · cases h

/-- The lifecycle task goes on. -/
theorem owned_resumeLifecycle (h : Owned w) {draw : ℚ} (hs : w.resumeLifecycle draw = some w') :
    Owned w' := by
  have hgo : (∀ t, w.lifecycle ≠ .pumping t) → w.LifecycleAlive = true →
      (Quiet w w' ∨ Quiet { w with process := none } w') → Owned w' := fun hno halive hq =>
    h.of_quiet (h.none_running hno halive) (h.ended hno) halive hq
  rw [resumeLifecycle] at hs
  rcases hl : w.lifecycle with _ | _ | ⟨s, k⟩ | _ | spawnedAt | _ | wakeAt | e <;>
    simp only [hl] at hs hgo
  · cases hs
  · obtain rfl := Option.some.inj hs
    exact hgo (fun t ht => by cases ht) (by rw [LifecycleAlive, hl])
      (.inl (quiet_setState _ _ _ _ (quiet_loopHead w)))
  · split at hs
    · obtain rfl := Option.some.inj hs
      refine hgo (fun t ht => by cases ht) (by rw [LifecycleAlive, hl]) ?_
      have hview := shared_arrived w s.event
      obtain ⟨-, hc, hpumps, hst, hreq, hopen⟩ := Shared.mk.inj hview
      rcases quiet_afterSend (w.arrived s.event) draw k with hq | hq
      · exact .inl ⟨hq.shared_eq.trans hview, hq.lifecycle⟩
      · refine .inr ⟨hq.shared_eq.trans ?_, hq.lifecycle⟩
        simp only [shared, hc, hpumps, hst, hreq, hopen]
    · cases hs
  · cases hs
  · -- the task group is over, so the exit waiter has seen the exit
    split at hs
    · rename_i hended
      obtain rfl := Option.some.inj hs
      obtain ⟨b, hb⟩ := endedPumps_of_pumpsEnded hended
      have hno : ∀ p, ¬ w.Running p := by
        intro p hr
        rcases h.watched p hr with ⟨-, hwait, -⟩ | ⟨e, he⟩
        · rw [hb] at hwait
          cases hwait
        · rw [hl] at he
          cases he
      exact h.of_quiet hno ⟨b, hb⟩ (alive_of_pumping hl) (.inl (quiet_send _ _ _))
    · cases hs
  · split at hs
    · split at hs
      · obtain rfl := Option.some.inj hs
        exact hgo (fun t ht => by cases ht) (by rw [LifecycleAlive, hl]) (.inl (quiet_leaveLoop w))
      · obtain rfl := Option.some.inj hs
        exact hgo (fun t ht => by cases ht) (by rw [LifecycleAlive, hl])
          (.inl (quiet_setState _ _ _ _ (quiet_loopHead w)))
    · cases hs
  · split at hs
    · obtain rfl := Option.some.inj hs
      exact hgo (fun t ht => by cases ht) (by rw [LifecycleAlive, hl]) (.inl (quiet_loopHead w))
    · cases hs
  · cases hs

theorem spawning_iff : w.Spawning = true ↔ w.lifecycle = .spawning := by
  rw [Spawning]
  split
  · rename_i hl
    exact iff_of_true rfl hl
  · rename_i hl
    exact iff_of_false Bool.false_ne_true hl

/-- `spawn` came back with a process before any stop was requested. -/
theorem owned_spawned (h : Owned w) (hl : w.lifecycle = .spawning) (hreq : w.stopRequested = false) :
    Owned w.spawned := by
  have hno := h.none_running (fun t ht => by rw [hl] at ht; cases ht)
    (by rw [LifecycleAlive, hl])
  have hrun : ∀ p, w.spawned.Running p → p = w.children.length := by
    rintro p ⟨c, hc, hrc⟩
    rw [spawned] at hc
    by_contra hne
    rcases Nat.lt_or_ge p w.children.length with hlt | hge
    · rw [List.getElem?_append_left hlt] at hc
      exact hno p ⟨c, hc, hrc⟩
    · rw [List.getElem?_append_right hge, List.getElem?_eq_none] at hc
      · cases hc
      · rw [List.length_singleton]
        omega
  refine ⟨fun p hr => ?_, fun p hr => .inl ⟨⟨w.now, rfl⟩, rfl, rfl⟩, fun hnp => ?_, fun _ => ?_,
    fun hne => ?_⟩
  · rw [hrun p hr]
    rfl
  · exact absurd rfl (hnp w.now)
  · exact h.opened (by rw [LifecycleAlive, hl])
  · have hreq' := (h.stopping hne).1
    rw [hreq] at hreq'
    cases hreq'

/-- A pump raised after its process had exited. -/
theorem owned_abortPumps (h : Owned w) (hno : ∀ p ∈ w.process, ¬ w.Running p) :
    Owned w.abortPumps := by
  have hnone : ∀ p, ¬ w.Running p := fun p hr => hno p (h.referenced p hr) hr
  exact ⟨fun p hr => absurd hr (hnone p), fun p hr => absurd hr (hnone p), fun _ => ⟨true, rfl⟩,
    h.opened, fun hne => ⟨(h.stopping hne).1, fun p hr => absurd hr (hnone p)⟩⟩

theorem owned_seeExit (h : Owned w) (hs : w.seeExit = some w') : Owned w' := by
  have hdone : ∀ (_ : w.pumps.exit = .waiting) (_ : ∀ p, ¬ w.Running p),
      Owned { w with pumps := { w.pumps with exit := .done } } := by
    intro hwait hno
    obtain ⟨t, ht⟩ := h.pumping fun b hb => by
      rw [hb] at hwait
      cases hwait
    exact ⟨fun p hr => absurd hr (hno p), fun p hr => absurd hr (hno p),
      fun hnp => absurd ht (hnp t), h.opened,
      fun hne => ⟨(h.stopping hne).1, fun p hr => absurd hr (hno p)⟩⟩
  rw [seeExit] at hs
  split at hs
  · rename_i p hwait hproc
    split at hs
    · cases hs
    · rename_i hexited
      obtain rfl := Option.some.inj hs
      refine hdone hwait fun q hr => hexited ?_
      obtain rfl : p = q := Option.some.inj (hproc.symm.trans (h.referenced q hr))
      exact hr
  · rename_i hwait hproc
    obtain rfl := Option.some.inj hs
    exact hdone hwait fun q hr => by cases (h.referenced q hr).symm.trans hproc
  · cases hs

theorem pumped_readStderr (hopen : w.sendOpen = true) (r : StderrRead) :
    Pumped w (w.readStderr r) := by
  cases r with
  | eof => exact ⟨rfl, rfl, rfl, rfl, rfl, rfl, rfl, rfl⟩
  | data => exact Pumped.refl w
  | failed type => exact pumped_pumpSend (Pumped.refl w) hopen rfl rfl

theorem pumped_resumeStderr (hs : w.resumeStderr = some w') : Pumped w w' := by
  rw [resumeStderr] at hs
  split at hs
  · split at hs
    · obtain rfl := Option.some.inj hs
      exact ⟨rfl, rfl, rfl, rfl, rfl, rfl, rfl, rfl⟩
    · cases hs
  · cases hs
  · cases hs

theorem pumped_stallTick (hopen : w.sendOpen = true) : Pumped w w.stallTick := by
  rw [stallTick]
  split
  · exact ⟨rfl, rfl, rfl, rfl, rfl, rfl, rfl, rfl⟩
  · split
    · dsimp only
      split
      · exact pumped_pumpSend (Pumped.refl w) hopen rfl rfl
      · exact Pumped.refl w
    · exact ⟨rfl, rfl, rfl, rfl, rfl, rfl, rfl, rfl⟩

/-- What `stop` does to the processes before it waits for the lifecycle task. -/
theorem owned_joinLifecycle (h : Owned w) : Owned w.joinLifecycle.1 := by
  rw [joinLifecycle]
  split
  · exact h.of_shared rfl rfl
  · rename_i hdead
    exact ⟨h.referenced, h.watched, h.ended, fun halive => absurd halive hdead, h.stopping⟩

theorem stops_joinLifecycle (w : FFmpegWorker Frame) : w.joinLifecycle.1.stops = w.stops := by
  rw [joinLifecycle]
  split <;> rfl

/-- Calls of `stop` may be added and move on as long as the first one has done
its part. -/
theorem Owned.with_stops (h : Owned w) (stops : List StopPhase) (hreq : w.stopRequested = true)
    (hsig : ∀ p, w.Running p → w.Signalled p) : Owned { w with stops := stops } :=
  ⟨h.referenced, h.watched, h.ended, h.opened, fun _ => ⟨hreq, hsig⟩⟩

/-- The first segment of `stop` signals what runs. -/
theorem owned_stop (h : Owned w) : Owned w.stop.1 ∧ w.stop.1.stopRequested = true ∧
    ∀ p, w.stop.1.Running p → w.stop.1.Signalled p := by
  have hasked : Owned { w with stopRequested := true } :=
    ⟨h.referenced, h.watched, h.ended, h.opened, fun hne => ⟨rfl, (h.stopping hne).2⟩⟩
  have hjoin : (∀ p, ¬ w.Running p) →
      Owned ({ w with stopRequested := true } : FFmpegWorker Frame).joinLifecycle.1 ∧
        ({ w with stopRequested := true } : FFmpegWorker Frame).joinLifecycle.1.stopRequested = true ∧
        ∀ p, ({ w with stopRequested := true } : FFmpegWorker Frame).joinLifecycle.1.Running p →
          ({ w with stopRequested := true } : FFmpegWorker Frame).joinLifecycle.1.Signalled p := by
    intro hno
    refine ⟨owned_joinLifecycle hasked, ?_, fun p hr => absurd ?_ (hno p)⟩
    · rw [joinLifecycle]
      dsimp only
      split <;> rfl
    · rw [joinLifecycle] at hr
      dsimp only at hr
      split at hr <;> exact hr
  rw [stop]
  dsimp only
  split
  · rename_i p hproc
    split
    · rename_i hr
      refine ⟨hasked.signal p, rfl, fun q hq => ?_⟩
      obtain rfl : p = q := Option.some.inj
        (hproc.symm.trans (h.referenced q (running_signal.mp hq)))
      exact signalled_signal hr
    · rename_i hexited
      refine hjoin fun q hr => hexited ?_
      obtain rfl : p = q := Option.some.inj (hproc.symm.trans (h.referenced q hr))
      exact hr
  · rename_i hproc
    exact hjoin fun q hr => by cases (h.referenced q hr).symm.trans hproc

/-- A cancelled lifecycle task leaves its process in `_process`. -/
theorem owned_cancelLifecycle (h : Owned w) : Owned w.cancelLifecycle := by
  have hover : (∃ b, w.pumps = endedPumps b) →
      Owned { w with lifecycle := .finished .cancelled } := fun hended =>
    ⟨h.referenced, fun _ _ => .inr ⟨.cancelled, rfl⟩, fun _ => hended,
      fun halive => Bool.noConfusion halive, h.stopping⟩
  unfold cancelLifecycle
  split
  · exact h
  · exact h
  · split
    · exact h
    · exact ⟨h.referenced, fun _ _ => .inr ⟨.cancelled, rfl⟩, fun _ => ⟨false, rfl⟩,
        fun halive => Bool.noConfusion halive, h.stopping⟩
  · rename_i hnp
    exact hover (h.ended fun t ht => hnp t ht)

theorem owned_resumeStop (h : Owned w) {phase : StopPhase} {timedOut : Bool}
    {r : FFmpegWorker Frame × StopPhase} (hs : w.resumeStop phase timedOut = some r) :
    Owned r.1 ∧ r.1.stops = w.stops := by
  have hjoin : Owned w.joinLifecycle.1 ∧ w.joinLifecycle.1.stops = w.stops :=
    ⟨owned_joinLifecycle h, stops_joinLifecycle w⟩
  have hclose : (∃ e, w.lifecycle = .finished e) →
      Owned w.closeSend.1 ∧ w.closeSend.1.stops = w.stops := by
    rintro ⟨e, he⟩
    refine ⟨⟨h.referenced, h.watched, h.ended, fun halive => ?_, h.stopping⟩, rfl⟩
    have hdead : w.LifecycleAlive = true := halive
    rw [LifecycleAlive, he] at hdead
    cases hdead
  cases phase with
  | terminating p =>
    cases timedOut
    · rw [resumeStop] at hs
      split at hs
      · cases hs
      · obtain rfl := Option.some.inj hs
        exact hjoin
    · obtain rfl := Option.some.inj hs
      exact ⟨h.signal p, rfl⟩
  | killing p =>
    cases timedOut
    · rw [resumeStop] at hs
      split at hs
      · cases hs
      · obtain rfl := Option.some.inj hs
        exact hjoin
    · obtain rfl := Option.some.inj hs
      exact hjoin
  | awaitingLifecycle =>
    cases timedOut
    · rw [resumeStop] at hs
      split at hs
      · rename_i hl
        obtain rfl := Option.some.inj hs
        exact hclose ⟨_, hl⟩
      · obtain rfl := Option.some.inj hs
        exact ⟨h, rfl⟩
      · cases hs
    · obtain rfl := Option.some.inj hs
      refine ⟨owned_cancelLifecycle h, ?_⟩
      show w.cancelLifecycle.stops = w.stops
      unfold cancelLifecycle
      split
      · rfl
      · rfl
      · split <;> rfl
      · rfl
  | awaitingCancelled =>
    rw [resumeStop] at hs
    split at hs
    · obtain rfl := Option.some.inj hs
      exact ⟨h, rfl⟩
    · rename_i hl
      obtain rfl := Option.some.inj hs
      exact hclose ⟨_, hl⟩
    · cases hs
  | closingSend =>
    obtain rfl := Option.some.inj hs
    exact ⟨h.of_shared rfl rfl, rfl⟩
  | closingReceive =>
    obtain rfl := Option.some.inj hs
    exact ⟨h, rfl⟩
  | returned => cases hs
  | raised => cases hs

/-- **One careful step** keeps every running process owned. -/
theorem owned_step (h : Owned w) {l : Label Frame} (hc : Careful w l)
    (hs : machine.step w l = some w') : Owned w' := by
  change w.step l = some w' at hs
  have hpump : (∀ b, w.pumps ≠ endedPumps b) → w.sendOpen = true := fun hne => by
    obtain ⟨t, ht⟩ := h.pumping hne
    exact h.opened (alive_of_pumping ht)
  cases l with
  | tick d =>
    simp only [step] at hs
    split at hs
    · obtain rfl := Option.some.inj hs
      exact h.of_shared rfl rfl
    · cases hs
  | exit p rc =>
    simp only [step] at hs
    split at hs
    · obtain rfl := Option.some.inj hs
      exact h.exit p rc
    · cases hs
  | accept t => exact owned_accept h hs
  | closeReceive =>
    obtain rfl := Option.some.inj hs
    exact h.of_shared rfl rfl
  | snapshot =>
    obtain rfl := Option.some.inj hs
    exact h.of_shared rfl rfl
  | lifecycle draw => exact owned_resumeLifecycle h hs
  | spawned =>
    simp only [step] at hs
    split at hs
    · rename_i hl
      obtain rfl := Option.some.inj hs
      exact owned_spawned h (spawning_iff.mp hl) hc
    · cases hs
  | spawnFailed error =>
    simp only [step] at hs
    split at hs
    · rename_i hl
      obtain rfl := Option.some.inj hs
      have hl := spawning_iff.mp hl
      have hno : ∀ t, w.lifecycle ≠ .pumping t := fun t ht => by rw [hl] at ht; cases ht
      have halive : w.LifecycleAlive = true := by rw [LifecycleAlive, hl]
      have hq := quiet_send { w with lastError := some ("spawn failed: " ++ error) }
      exact h.of_quiet (h.none_running hno halive) (h.ended hno) halive
        (.inl ⟨(hq _ _).shared_eq, (hq _ _).lifecycle⟩)
    · cases hs
  | spawnRaised =>
    simp only [step] at hs
    split at hs
    · rename_i hl
      obtain rfl := Option.some.inj hs
      have hl := spawning_iff.mp hl
      have hno : ∀ t, w.lifecycle ≠ .pumping t := fun t ht => by rw [hl] at ht; cases ht
      have halive : w.LifecycleAlive = true := by rw [LifecycleAlive, hl]
      exact h.of_quiet (h.none_running hno halive) (h.ended hno) halive
        (.inl ⟨rfl, fun t ht => by cases ht⟩)
    · cases hs
  | readStdout r =>
    simp only [step] at hs
    split at hs
    · rename_i hreading
      obtain rfl := Option.some.inj hs
      have hne : ∀ b, w.pumps ≠ endedPumps b := fun b hb => by rw [hb] at hreading; cases hreading
      exact h.of_pumped (h.pumping hne) (pumped_readStdout (hpump hne) r)
    · cases hs
  | resumeStdout =>
    have hne : ∀ b, w.pumps ≠ endedPumps b := fun b hb => by
      simp only [step, resumeStdout, hb, endedPumps] at hs
      cases hs
    exact h.of_pumped (h.pumping hne) (pumped_resumeStdout (hpump hne) hs)
  | readStderr r =>
    simp only [step] at hs
    split at hs
    · rename_i hreading
      obtain rfl := Option.some.inj hs
      have hne : ∀ b, w.pumps ≠ endedPumps b := fun b hb => by rw [hb] at hreading; cases hreading
      exact h.of_pumped (h.pumping hne) (pumped_readStderr (hpump hne) r)
    · cases hs
  | resumeStderr =>
    have hne : ∀ b, w.pumps ≠ endedPumps b := fun b hb => by
      simp only [step, resumeStderr, hb, endedPumps] at hs
      cases hs
    exact h.of_pumped (h.pumping hne) (pumped_resumeStderr hs)
  | stallTick =>
    simp only [step] at hs
    split at hs
    · rename_i hsleeping
      obtain rfl := Option.some.inj hs
      have hne : ∀ b, w.pumps ≠ endedPumps b := fun b hb => by rw [hb] at hsleeping; cases hsleeping
      exact h.of_pumped (h.pumping hne) (pumped_stallTick (hpump hne))
    · cases hs
  | resumeStall =>
    simp only [step, resumeStall] at hs
    split at hs
    · rename_i s p hsending
      have hne : ∀ b, w.pumps ≠ endedPumps b := fun b hb => by rw [hb] at hsending; cases hsending
      split at hs
      · obtain rfl := Option.some.inj hs
        have hdone : Owned { w with pumps := { w.pumps with stall := .done } } :=
          h.of_pumped (h.pumping hne) ⟨rfl, rfl, rfl, rfl, rfl, rfl, rfl, rfl⟩
        exact hdone.signal p
      · cases hs
    · cases hs
    · cases hs
  | seeExit => exact owned_seeExit h hs
  | pumpRaised t =>
    simp only [step] at hs
    split at hs
    · obtain rfl := Option.some.inj hs
      exact owned_abortPumps h hc
    · cases hs
  | userReset =>
    obtain rfl := Option.some.inj hs
    rw [userReset]
    split
    · exact h.of_shared rfl rfl
    · exact h
  | stop =>
    obtain rfl := Option.some.inj hs
    obtain ⟨hown, hreq, hsig⟩ := owned_stop h
    exact hown.with_stops _ hreq hsig
  | resumeStop i timedOut =>
    simp only [step] at hs
    split at hs
    · rename_i phase hphase
      obtain ⟨r, hr, rfl⟩ := Option.map_eq_some_iff.mp hs
      obtain ⟨hown, hstops⟩ := owned_resumeStop h hr
      have hne : r.1.stops ≠ [] := by
        rw [hstops]
        exact List.ne_nil_of_mem (List.mem_of_getElem? hphase)
      obtain ⟨hreq, hsig⟩ := hown.stopping hne
      exact hown.with_stops _ hreq hsig
    · cases hs

end Step

/-- **No process escapes**, in every run in which `spawn` returns no process
after a stop was requested and no pump raises while its process runs. -/
theorem processes_contained (policy : CircuitBreakerPolicy) (now : ℚ) (labels : List (Label Frame))
    (h : machine.Meets Careful (boot policy now) labels) :
    machine.Always Contained (boot policy now : FFmpegWorker Frame) labels :=
  Machine.always_of_inv (I := Owned) (fun _ _ _ hi hc hs => owned_step hi hc hs)
    (fun _ hi => hi.contained) (owned_boot policy now) h

/-! ## The two ways out -/

section Escapes

/-- From the start to the first `spawn`. -/
def untilSpawn : List (Label ℕ) := [.lifecycle 0, .accept .lifecycle, .lifecycle 0]

/-- A process that comes up, is stopped in time and is told to end. -/
theorem processes_contained_stopped :
    machine.Always Contained (boot {} 0 : FFmpegWorker ℕ)
      (untilSpawn ++ [.spawned, .readStdout (.frames [1]), .accept .stdout, .resumeStdout, .stop,
        .resumeStop 0 true, .exit 0 (-9), .seeExit, .resumeStop 0 false]) :=
  processes_contained {} 0 _ (by decide)

/-- `stop` looks at `_process` while `spawn` is in flight. The process that comes
back is never signalled, and `stop` returns after it gave up on the lifecycle
task. -/
theorem stop_misses_spawn :
    ∃ w : FFmpegWorker ℕ, machine.run (boot {} 0) (untilSpawn ++ [.stop, .spawned,
      .resumeStop 0 true, .resumeStop 0 false, .resumeStop 0 false, .resumeStop 0 false]) = some w ∧
        ¬ Contained w := by
  refine ⟨_, rfl, fun h => ?_⟩
  obtain ⟨c, hc, hsig⟩ := h.handled (List.mem_singleton.mpr rfl) 0 ⟨_, rfl, rfl⟩
  obtain rfl := Option.some.inj hc
  cases hsig

/-- A pump raises, and the process that still runs is forgotten. -/
theorem pump_exception_drops_process :
    ∃ w : FFmpegWorker ℕ, machine.run (boot {} 0) (untilSpawn ++ [.spawned, .pumpRaised .stderr,
      .lifecycle 0, .accept .lifecycle, .lifecycle 0]) = some w ∧ ¬ Contained w := by
  refine ⟨_, rfl, fun h => ?_⟩
  cases h.referenced 0 ⟨_, rfl, rfl⟩

end Escapes

end FFmpegWorker

end RestreamPlus
