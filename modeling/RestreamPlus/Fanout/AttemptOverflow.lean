import RestreamPlus.Fanout.DeadTarget
import RestreamPlus.Fanout.WorkerPlaces

/-!
# The loop and its arithmetic

`compute_backoff` caps the delay after it has multiplied, so the attempt counter
decides whether there is a delay at all: from `2 ^ 1024` on the conversion to
`float` raises. `untroubled_iff` says that this is the only way the loop dies of
its own arithmetic: in every run the delay can be computed, the lifecycle task
has not raised and goes on until somebody stops it, exactly as long as the
counter stays below 1024.

The counter gets there. A dead target never opens the breaker and nothing
resets the counter, and the failure after the 1024th delay raises
(`overflow_on_dead_target`).
-/

namespace RestreamPlus

open Interleaving

namespace FFmpegWorker

variable {Frame : Type}

/-- `spawn` raises nothing but an `OSError` or a `ValueError`. -/
def Spawnable : Label Frame → Prop
  | .spawnRaised => False
  | _ => True

instance : DecidablePred (Spawnable : Label Frame → Prop) := by
  intro l
  induction l using Label.casesOn <;> unfold Spawnable <;> infer_instance

/-- The worker can compute its delays and has not died of them. -/
structure Untroubled (w : FFmpegWorker Frame) : Prop where
  delays : ∀ draw, 0 ≤ draw → draw < 1 →
    ∃ delay, computeBackoff w.attempt draw = some delay ∧ 0 ≤ delay ∧ delay ≤ 6 / 5 * backoffCap
  unraised : w.lifecycle ≠ .finished .raised
  /-- until somebody stops it -/
  going : w.stops = [] → w.LifecycleAlive = true

theorem untroubled_delays {attempt : ℕ} (h : attempt < floatMaxExponent) {draw : ℚ}
    (hnonneg : 0 ≤ draw) (hlt : draw < 1) :
    ∃ delay, computeBackoff attempt draw = some delay ∧ 0 ≤ delay ∧
      delay ≤ 6 / 5 * backoffCap := by
  obtain ⟨delay, hdelay⟩ := exists_computeBackoff_iff.mpr h
  have hraw := rawBackoff_nonneg attempt
  have hlow := le_computeBackoff hnonneg hdelay
  have hhigh := computeBackoff_le hlt.le hdelay
  have hcap := rawBackoff_le attempt
  exact ⟨delay, hdelay, by linarith, by linarith⟩

/-! ## The loop raises for no other reason -/

/-- The loop is not on its way out. -/
def Staying : Lifecycle Frame → Prop
  | .notStarted | .sending _ .stoppingSet | .sending _ .idleSet | .finished _ => False
  | _ => True

/-- The loop has not raised, and before the first `stop` it stays. -/
structure Going (s : FFmpegWorker Frame) : Prop extends Booted s where
  unraised : s.lifecycle ≠ .finished .raised
  staying : s.stops = [] → s.stopRequested = false ∧ Staying s.lifecycle

theorem going_boot (policy : CircuitBreakerPolicy) (now : ℚ) :
    Going (boot policy now : FFmpegWorker Frame).bare :=
  ⟨booted_boot policy now, nofun, fun _ => ⟨rfl, trivial⟩⟩

theorem Going.alive {s : FFmpegWorker Frame} (h : Going s) (hs : s.stops = []) :
    s.LifecycleAlive = true := by
  obtain ⟨-, hstaying⟩ := h.staying hs
  rw [LifecycleAlive]
  split
  · rename_i hl
    rw [hl] at hstaying
    exact hstaying.elim
  · rename_i e hl
    rw [hl] at hstaying
    exact hstaying.elim
  · rfl

section Step

variable {s s' : FFmpegWorker Frame} {draw : ℚ}

theorem unraised_sends (hopen : s.sendOpen = true) {e : WorkerEvent Frame} {k : AfterSend}
    (h : Sends s e k s') : s'.lifecycle ≠ .finished .raised := by
  rw [lifecycle_of_sends hopen h]
  exact fun hl => by cases hl

theorem unraised_settles (hopen : s.sendOpen = true) (h : Settles s s') :
    s'.lifecycle ≠ .finished .raised := by
  cases h with
  | idle hs hsends => exact unraised_sends hopen hsends
  | returned hs => exact fun hl => by cases hl

theorem unraised_leaves (hopen : s.sendOpen = true) (h : Leaves s s') :
    s'.lifecycle ≠ .finished .raised := by
  cases h with
  | stopping hstop hidle hsends => exact unraised_sends hopen hsends
  | settles hs hsettles => exact unraised_settles hopen hsettles

theorem going_heads (hopen : s.sendOpen = true) (h : Heads s s') :
    s'.lifecycle ≠ .finished .raised ∧ (s.stopRequested = false → Staying s'.lifecycle) := by
  cases h with
  | leaves hreq hleaves =>
    exact ⟨unraised_leaves hopen hleaves,
      fun hno => absurd (hno.symm.trans hreq) Bool.false_ne_true⟩
  | spawning hreq => exact ⟨(fun hl => by cases hl), fun _ => trivial⟩

/-- A delay is chosen below the bound. -/
theorem going_decides (hsmall : s.attempt < floatMaxExponent) (h : Decides s draw s') :
    s'.lifecycle ≠ .finished .raised ∧ Staying s'.lifecycle := by
  cases h with
  | waits hs => exact ⟨(fun hl => by cases hl), trivial⟩
  | backsOff hs hdelay => exact ⟨(fun hl => by cases hl), trivial⟩
  | overflows hs hnone =>
    obtain ⟨delay, hdelay⟩ := exists_computeBackoff_iff.mpr hsmall
    cases hnone.symm.trans hdelay

theorem going_judges (hopen : s.sendOpen = true) (hsmall : s.attempt < floatMaxExponent)
    {verdict : BreakerVerdict} (h : Judges s verdict draw s') :
    s'.lifecycle ≠ .finished .raised ∧ Staying s'.lifecycle := by
  cases h with
  | opens hs hverdict hsends =>
    rw [lifecycle_of_sends hopen hsends]
    exact ⟨(fun hl => by cases hl), trivial⟩
  | decides hnot hdecides => exact going_decides hsmall hdecides

theorem going_fails (hopen : s.sendOpen = true) (hsmall : s.attempt < floatMaxExponent)
    (h : Fails s draw s') :
    s'.lifecycle ≠ .finished .raised ∧ (s.stopRequested = false → Staying s'.lifecycle) := by
  cases h with
  | leaves hreq hleaves =>
    exact ⟨unraised_leaves hopen hleaves,
      fun hno => absurd (hno.symm.trans hreq) Bool.false_ne_true⟩
  | announces hreq hs hsends =>
    rw [lifecycle_of_sends hopen hsends]
    exact ⟨(fun hl => by cases hl), fun _ => trivial⟩
  | judges hreq hstarting hrunning hjudges =>
    obtain ⟨hraised, hstaying⟩ := going_judges hopen hsmall hjudges
    exact ⟨hraised, fun _ => hstaying⟩

theorem going_goesOn {e : WorkerEvent Frame} {k : AfterSend} (hopen : s.sendOpen = true)
    (hsmall : s.attempt < floatMaxExponent) (h : GoesOn (s.arrived e) draw k s') :
    s'.lifecycle ≠ .finished .raised ∧
      (s.stopRequested = false → k ≠ .stoppingSet → k ≠ .idleSet → Staying s'.lifecycle) := by
  have hopen : (s.arrived e).sendOpen = true := by cases e <;> exact hopen
  have hsmall : (s.arrived e).attempt < floatMaxExponent := by cases e <;> exact hsmall
  have hreq : (s.arrived e).stopRequested = s.stopRequested := by cases e <;> rfl
  cases h with
  | startingSet hheads | resetSet hheads =>
    obtain ⟨hraised, hstaying⟩ := going_heads hopen hheads
    exact ⟨hraised, fun hno _ _ => hstaying (hreq.trans hno)⟩
  | spawnErrorSent hfails =>
    obtain ⟨hraised, hstaying⟩ := going_fails hopen hsmall hfails
    exact ⟨hraised, fun hno _ _ => hstaying (hreq.trans hno)⟩
  | exitedSent hfails =>
    obtain ⟨hraised, hstaying⟩ :=
      going_fails (s := { s.arrived e with process := none }) hopen hsmall hfails
    exact ⟨hraised, fun hno _ _ => hstaying (hreq.trans hno)⟩
  | reconnectingSet hjudges =>
    obtain ⟨hraised, hstaying⟩ := going_judges hopen hsmall hjudges
    exact ⟨hraised, fun _ _ _ => hstaying⟩
  | verdictSet hdecides =>
    obtain ⟨hraised, hstaying⟩ := going_decides hsmall hdecides
    exact ⟨hraised, fun _ _ _ => hstaying⟩
  | stoppingSet hsettles =>
    exact ⟨unraised_settles hopen hsettles, fun _ hno _ => absurd rfl hno⟩
  | idleSet => exact ⟨(fun hl => by cases hl), fun _ _ hno => absurd rfl hno⟩

theorem going_resumes (h : Going s) (hsmall : s.attempt < floatMaxExponent)
    (hr : Resumes s draw s') : s'.lifecycle ≠ .finished .raised ∧
      (s.stops = [] → Staying s'.lifecycle) := by
  have hopen := h.sending (only_resumes hr).1
  have hcalm := h.staying
  cases hr with
  | starts hl hs hsends =>
    rw [lifecycle_of_sends hopen hsends]
    exact ⟨(fun hl => by cases hl), fun _ => trivial⟩
  | startsAnew hl hs hheads =>
    obtain ⟨hraised, hstaying⟩ := going_heads hopen hheads
    exact ⟨hraised, fun hno => hstaying (hcalm hno).1⟩
  | @sent x k hl hgo hgoes =>
    obtain ⟨hraised, hstaying⟩ := going_goesOn hopen hsmall hgoes
    refine ⟨hraised, fun hno => ?_⟩
    obtain ⟨hreq, hat⟩ := hcalm hno
    rw [hl] at hat
    refine hstaying hreq (fun hk => ?_) (fun hk => ?_)
    · rw [hk] at hat
      exact hat
    · rw [hk] at hat
      exact hat
  | exits hl hpumps hplain hsends =>
    rw [lifecycle_of_sends hopen hsends]
    exact ⟨(fun hl => by cases hl), fun _ => trivial⟩
  | stops hl hevent hreq hleaves =>
    exact ⟨unraised_leaves hopen hleaves,
      fun hno => absurd ((hcalm hno).1.symm.trans hreq) Bool.false_ne_true⟩
  | resets hl hevent hreq hs hsends =>
    rw [lifecycle_of_sends hopen hsends]
    exact ⟨(fun hl => by cases hl), fun _ => trivial⟩
  | resetsAnew hl hevent hreq hs hheads =>
    obtain ⟨hraised, hstaying⟩ := going_heads hopen hheads
    exact ⟨hraised, fun hno => hstaying (hcalm hno).1⟩
  | wakes hl hwake hheads =>
    obtain ⟨hraised, hstaying⟩ := going_heads hopen hheads
    exact ⟨hraised, fun hno => hstaying (hcalm hno).1⟩

theorem going_stopGoesOn (h : Going s) {phase phase' : StopPhase} {timedOut : Bool}
    (hg : StopGoesOn s phase timedOut s' phase') : s'.lifecycle ≠ .finished .raised := by
  have hjoins {s' : FFmpegWorker Frame} {phase : StopPhase} (hj : Joins s s' phase) :
      s'.lifecycle ≠ .finished .raised := by
    cases hj <;> exact h.unraised
  cases hg with
  | exited hexited hj => exact hjoins hj
  | killed hj => exact hjoins hj
  | cancels hc =>
    cases hc with
    | ended hdead => exact h.unraised
    | swallowed hl hfailed => exact h.unraised
    | pumping hl hgoing => exact fun hl => by cases hl
    | elsewhere halive hno => exact fun hl => by cases hl
  | kills | joined | raised | cancelled | raisedAnyway | closesReceive | returns => exact h.unraised

/-- **One step** below the bound. -/
theorem going_moves (h : Going s) {l : Label Frame} (hsmall : s.attempt < floatMaxExponent)
    (hspawn : Spawnable l) (hm : Moves s l s') : Going s' := by
  refine ⟨booted_moves h.toBooted hm, ?_, ?_⟩
  · cases hm with
    | beside hl hb =>
      rw [hb.eq]
      exact h.unraised
    | resumes hr => exact (going_resumes h hsmall hr).1
    | spawnFails hl hsends =>
      exact unraised_sends (h.sending (by rw [LifecycleAlive, hl])) hsends
    | spawnRaises => exact hspawn.elim
    | reads hreading hr =>
      rw [pumpOnly_reads hr]
      exact h.unraised
    | stdoutGoesOn hg =>
      rw [pumpOnly_stdoutGoesOn hg]
      exact h.unraised
    | stops hs =>
      cases hs with
      | signals hp hrun => exact h.unraised
      | joins hno hj => cases hj <;> exact h.unraised
    | stopGoesOn hphase hg =>
      have hraised := going_stopGoesOn h hg
      exact hraised
    | taken | spawns => exact fun hl => by cases hl
    | announcementTaken | progressTaken | errorTaken | pumpRaises | resets | resetIgnored =>
      exact h.unraised
  · intro hno
    cases hm with
    | beside hl hb =>
      rw [hb.eq] at hno ⊢
      exact h.staying hno
    | taken hopen hl =>
      obtain ⟨hreq, hat⟩ := h.staying hno
      rw [hl] at hat
      refine ⟨hreq, ?_⟩
      rename_i k
      cases k <;> exact hat
    | resumes hr =>
      have hstaying := (going_resumes h hsmall hr).2
      obtain ⟨-, ⟨honly, -⟩ | ⟨x, k, hl, hgo, honly⟩⟩ := only_resumes hr
      · rw [honly.eq] at hno ⊢
        exact ⟨(h.staying hno).1, hstaying hno⟩
      · have hsame : s'.stops = s.stops ∧ s'.stopRequested = s.stopRequested := by
          rw [honly.eq]
          obtain ⟨e, accepted⟩ := x
          cases k <;> cases e <;> exact ⟨rfl, rfl⟩
        rw [hsame.1] at hno
        exact ⟨hsame.2.trans (h.staying hno).1, hstaying hno⟩
    | spawnFails hl hsends =>
      have hopen := h.sending (by rw [LifecycleAlive, hl])
      rw [lifecycle_of_sends hopen hsends]
      rw [(only_sends hsends).eq] at hno ⊢
      exact ⟨(h.staying hno).1, trivial⟩
    | spawns hl => exact ⟨(h.staying hno).1, trivial⟩
    | spawnRaises => exact hspawn.elim
    | reads hreading hr =>
      rw [pumpOnly_reads hr] at hno ⊢
      exact h.staying hno
    | stdoutGoesOn hg =>
      rw [pumpOnly_stdoutGoesOn hg] at hno ⊢
      exact h.staying hno
    | stops hs => exact absurd hno (by simp)
    | stopGoesOn hphase hg =>
      have hsome := List.mem_of_getElem? hphase
      rw [List.set_eq_nil_iff _ _ |>.mp hno] at hsome
      cases hsome
    | announcementTaken | progressTaken | errorTaken | pumpRaises | resets | resetIgnored =>
      exact h.staying hno

end Step

/-- **The loop and its arithmetic.** The delays never get shorter before the
jitter. In every run in which `spawn` raises nothing else, the next delay can
always be computed and lies between zero and the cap plus a fifth, the lifecycle
task has not raised, and it goes on until somebody stops it, exactly if the
attempt counter stays below 1024. -/
theorem untroubled_iff (policy : CircuitBreakerPolicy) (now : ℚ) (labels : List (Label Frame))
    (h : machine.Meets (fun _ l => Spawnable l) (boot policy now) labels) :
    Monotone rawBackoff ∧
      (machine.Always Untroubled (boot policy now) labels ↔
        machine.Always (fun w => w.attempt < floatMaxExponent) (boot policy now) labels) := by
  refine ⟨monotone_rawBackoff, ⟨Machine.Always.mono fun w hw => ?_, fun hsmall => ?_⟩⟩
  · obtain ⟨delay, hdelay, -⟩ := hw.delays 0 le_rfl one_pos
    exact exists_computeBackoff_iff.mp ⟨delay, hdelay⟩
  · refine Machine.always_of_always (I := fun w => Going w.bare)
      (fun w l w' hi hw hl hs => going_moves hi hw hl (moves_of_step hs)) (fun w hi hw => ?_)
      (going_boot policy now) h hsmall
    exact ⟨fun draw => untroubled_delays hw, hi.unraised, hi.alive⟩

/-- A worker whose target is dead from the start, until its first delay. -/
theorem untroubled_comeUp :
    machine.Always Untroubled (boot {} 0 : FFmpegWorker ℕ)
      (comeUp ++ [.spawnFailed "FileNotFoundError", .accept .lifecycle, .lifecycle 0,
        .accept .lifecycle, .lifecycle 0, .tick 1, .lifecycle 0]) :=
  (untroubled_iff {} 0 _ (by decide +kernel)).2.mpr (by decide +kernel)

/-! ## A dead target gets there -/

section Overflow

/-- There is no ffmpeg to spawn. -/
def spawnFails : List (Label ℕ) := [.spawnFailed "FileNotFoundError", .accept .lifecycle]

/-- The first failure, at which RECONNECTING is announced. -/
def firstFailure : List (Label ℕ) :=
  spawnFails ++ [.lifecycle (1 / 2), .accept .lifecycle, .lifecycle (1 / 2), .tick (rawBackoff 0),
    .lifecycle (1 / 2)]

/-- One more failure, and the delay it is followed by. -/
def oneFailure (attempt : ℕ) : List (Label ℕ) :=
  spawnFails ++ [.lifecycle (1 / 2), .tick (rawBackoff attempt), .lifecycle (1 / 2)]

/-- The failures until the counter is at `attempt`. -/
def failures : ℕ → List (Label ℕ)
  | 0 => []
  | 1 => comeUp ++ firstFailure
  | attempt + 2 => failures (attempt + 1) ++ oneFailure (attempt + 1)

/-- The worker retries a dead target and spawns its next process. -/
structure Respawning (w : FFmpegWorker ℕ) (attempt : ℕ) : Prop extends Retrying w where
  spawning : w.lifecycle = .spawning
  reconnecting : w.state = .reconnecting
  counted : w.attempt = attempt
  sending : w.sendOpen = true
  receiving : w.receiveOpen = true

theorem computeBackoff_half {attempt : ℕ} (h : attempt < floatMaxExponent) :
    computeBackoff attempt (1 / 2) = some (rawBackoff attempt) := by
  have hraw := rawBackoff_nonneg attempt
  rw [computeBackoff, if_pos h]
  norm_num [hraw]

variable {w : FFmpegWorker ℕ} {attempt : ℕ}

/-- The channel takes what the loop sends. -/
theorem step_accept_lifecycle {Frame : Type} {w : FFmpegWorker Frame} {e : WorkerEvent Frame}
    {k : AfterSend} (hopen : w.receiveOpen = true) (hl : w.lifecycle = .sending ⟨e, false⟩ k) :
    machine.step w (.accept .lifecycle) =
      some { w with channel := w.channel ++ [e], lifecycle := .sending ⟨e, true⟩ k } := by
  change w.accept .lifecycle = _
  simp only [accept, hopen, hl, if_true]

/-- A failure was recorded and the breaker was asked. -/
def recorded {Frame : Type} (w : FFmpegWorker Frame) : FFmpegWorker Frame :=
  { w with
    breaker := ((w.breaker.recordFailure w.now).shouldOpen w.now).1
    lastError := w.lastError.or (some "process exited unexpectedly") }

/-- A CLOSED verdict in RECONNECTING leads to the delay. -/
theorem afterRun_of_closed {Frame : Type} {w : FFmpegWorker Frame} {draw : ℚ}
    (hreq : w.stopRequested = false) (hs : w.state = .reconnecting)
    (hclosed : ((w.breaker.recordFailure w.now).shouldOpen w.now).2 = .closed) :
    w.afterRun draw = w.recorded.backOff draw := by
  rw [afterRun, if_neg (by rw [hreq]; decide)]
  dsimp only
  have hstay : w.state.transition .reconnect (some .closed) = some .reconnecting := by
    rw [hs]
    rfl
  rw [hclosed, if_neg (by rw [hs]; decide), if_neg (by rw [hs]; decide), applyReconnectVerdict]
  dsimp only
  rw [hstay]
  dsimp only
  rw [if_pos hs.symm, afterVerdict]
  exact if_neg (by rw [hs]; decide)

/-- The delay is over. -/
theorem step_wake {Frame : Type} {w : FFmpegWorker Frame} {t : ℚ} (draw : ℚ)
    (hl : w.lifecycle = .backingOff t) (ht : t ≤ w.now) (hreq : w.stopRequested = false) :
    machine.step w (.lifecycle draw) = some { w with lifecycle := .spawning } := by
  change w.resumeLifecycle draw = _
  rw [resumeLifecycle, hl]
  dsimp only
  rw [if_pos (.inr ht), loopHead, if_neg (by rw [hreq]; decide)]

/-- The error of a failed spawn was taken. -/
structure Failed (w : FFmpegWorker ℕ) (attempt : ℕ) : Prop extends Retrying w where
  reported : ∃ error, w.lifecycle = .sending ⟨.error error false, true⟩ .spawnErrorSent
  reconnecting : w.state = .reconnecting
  counted : w.attempt = attempt
  sending : w.sendOpen = true
  receiving : w.receiveOpen = true

theorem Respawning.fails (h : Respawning w attempt) :
    ∃ w', machine.run w spawnFails = some w' ∧ Failed w' attempt := by
  obtain ⟨error, herror⟩ : ∃ error, spawnFails = [.spawnFailed error, .accept .lifecycle] := ⟨_, rfl⟩
  rw [herror]
  have hfirst : machine.step w (.spawnFailed error) = some (w.spawnFailed error) :=
    if_pos (spawning_iff.mpr h.spawning)
  have hsent : w.spawnFailed error = { w with
      lastError := some ("spawn failed: " ++ error), lastEventAt := w.now
      lifecycle := .sending ⟨.error ("spawn failed: " ++ error) false, false⟩ .spawnErrorSent } := by
    rw [FFmpegWorker.spawnFailed, send]
    exact if_pos h.sending
  have hretrying : Retrying (w.spawnFailed error) :=
    retrying_step (l := .spawnFailed error) h.toRetrying trivial hfirst
  rw [hsent] at hfirst hretrying
  have hsecond := step_accept_lifecycle (w := { w with
    lastError := some ("spawn failed: " ++ error), lastEventAt := w.now
    lifecycle := .sending ⟨.error ("spawn failed: " ++ error) false, false⟩ .spawnErrorSent })
    h.receiving rfl
  have hretrying := retrying_step (l := .accept .lifecycle) hretrying trivial hsecond
  refine ⟨_, ?_, hretrying, ⟨_, rfl⟩, h.reconnecting, h.counted, h.sending, h.receiving⟩
  rw [Machine.run_cons_of_step _ hfirst, Machine.run_cons_of_step _ hsecond]
  rfl

/-- The failure is recorded, and the loop goes to its delay. -/
theorem Failed.resume (h : Failed w attempt) :
    machine.step w (.lifecycle (1 / 2)) = some (w.recorded.backOff (1 / 2)) := by
  obtain ⟨error, hl⟩ := h.reported
  have hpacing := h.pacing
  rw [hl] at hpacing
  change w.resumeLifecycle (1 / 2) = _
  rw [resumeLifecycle, hl]
  change some (w.afterRun (1 / 2)) = _
  rw [afterRun_of_closed h.unasked h.reconnecting hpacing.2.recordFailure.shouldOpen]

theorem Respawning.next (h : Respawning w attempt) (hlt : attempt < floatMaxExponent) :
    ∃ w', machine.run w (oneFailure attempt) = some w' ∧ Respawning w' (attempt + 1) := by
  obtain ⟨w₁, hrun, hfailed⟩ := h.fails
  have hback : w₁.recorded.backOff (1 / 2) = { w₁.recorded with
      attempt := attempt + 1, lifecycle := .backingOff (w₁.now + rawBackoff attempt) } := by
    have hcounted : w₁.recorded.attempt = attempt := hfailed.counted
    rw [backOff, hcounted, computeBackoff_half hlt]
    rfl
  have hresume := hfailed.resume
  have hretrying := retrying_step (l := .lifecycle (1 / 2)) hfailed.toRetrying
    (by constructor <;> norm_num) hresume
  rw [hback] at hresume hretrying
  have htick : machine.step { w₁.recorded with
      attempt := attempt + 1, lifecycle := .backingOff (w₁.now + rawBackoff attempt) }
      (.tick (rawBackoff attempt)) = some { w₁.recorded with
        attempt := attempt + 1, lifecycle := .backingOff (w₁.now + rawBackoff attempt)
        now := w₁.now + rawBackoff attempt } := if_pos (rawBackoff_nonneg attempt)
  have hretrying := retrying_step (l := .tick (rawBackoff attempt)) hretrying trivial htick
  have hwake := step_wake (1 / 2) (w := { w₁.recorded with
      attempt := attempt + 1, lifecycle := .backingOff (w₁.now + rawBackoff attempt)
      now := w₁.now + rawBackoff attempt }) rfl le_rfl hfailed.unasked
  have hretrying := retrying_step (l := .lifecycle (1 / 2)) hretrying
    (by constructor <;> norm_num) hwake
  refine ⟨_, ?_, hretrying, rfl, hfailed.reconnecting, rfl, hfailed.sending, hfailed.receiving⟩
  rw [oneFailure, Machine.run_append, hrun, Option.bind_some, Machine.run_cons_of_step _ hresume,
    Machine.run_cons_of_step _ htick, Machine.run_cons_of_step _ hwake]
  rfl

/-- The failure after the last delay there is. -/
theorem Respawning.raises (h : Respawning w floatMaxExponent) :
    ∃ w', machine.run w (spawnFails ++ [.lifecycle (1 / 2)]) = some w' ∧
      w'.lifecycle = .finished .raised := by
  obtain ⟨w₁, hrun, hfailed⟩ := h.fails
  have hnone : computeBackoff w₁.recorded.attempt (1 / 2) = none := by
    rw [show w₁.recorded.attempt = floatMaxExponent from hfailed.counted, computeBackoff]
    exact if_neg (lt_irrefl _)
  refine ⟨{ w₁.recorded with lifecycle := .finished .raised }, ?_, rfl⟩
  rw [Machine.run_append, hrun, Option.bind_some, Machine.run_cons_of_step _ hfailed.resume, backOff,
    hnone]
  rfl

/-- Nobody interferes, and `spawn` raises an `OSError`. -/
def Hopeless (l : Label ℕ) : Prop := Dead l ∧ Spawnable l

theorem hopeless_first : ∀ l ∈ comeUp ++ firstFailure, Hopeless l := by
  have hhalf : (0 : ℚ) ≤ 1 / 2 ∧ (1 / 2 : ℚ) ≤ 1 := by constructor <;> norm_num
  intro l hl
  simp only [comeUp, firstFailure, spawnFails, List.cons_append, List.nil_append, List.mem_cons,
    List.not_mem_nil, or_false] at hl
  rcases hl with rfl | rfl | rfl | rfl | rfl | rfl | rfl | rfl | rfl | rfl
  all_goals first
    | exact ⟨trivial, trivial⟩
    | exact ⟨hhalf, trivial⟩
    | exact ⟨⟨le_rfl, zero_le_one⟩, trivial⟩

theorem hopeless_oneFailure (attempt : ℕ) : ∀ l ∈ oneFailure attempt, Hopeless l := by
  have hhalf : (0 : ℚ) ≤ 1 / 2 ∧ (1 / 2 : ℚ) ≤ 1 := by constructor <;> norm_num
  intro l hl
  simp only [oneFailure, spawnFails, List.cons_append, List.nil_append, List.mem_cons,
    List.not_mem_nil, or_false] at hl
  rcases hl with rfl | rfl | rfl | rfl | rfl
  all_goals first
    | exact ⟨trivial, trivial⟩
    | exact ⟨hhalf, trivial⟩

theorem hopeless_failures (attempt : ℕ) : ∀ l ∈ failures attempt, Hopeless l := by
  match attempt with
  | 0 => exact fun l hl => absurd hl List.not_mem_nil
  | 1 => exact hopeless_first
  | attempt + 2 =>
    intro l hl
    rw [failures] at hl
    rcases List.mem_append.mp hl with hl | hl
    · exact hopeless_failures (attempt + 1) l hl
    · exact hopeless_oneFailure (attempt + 1) l hl

/-- The first failure from the start. -/
theorem respawning_first : ∃ w, machine.run (boot {} 0) (failures 1) = some w ∧ Respawning w 1 := by
  obtain ⟨w, hw⟩ : ∃ w, machine.run (boot {} 0 : FFmpegWorker ℕ) (failures 1) = some w :=
    Option.isSome_iff_exists.mp (by decide +kernel)
  have hretrying : Retrying w := Machine.inv_run
    (fun _ _ _ hi hl hs => retrying_step hi hl hs) (retrying_boot 0)
    (Machine.meets_of_labels (fun l hl => (hopeless_first l hl).1) _) hw
  have hat : (machine.run (boot {} 0 : FFmpegWorker ℕ) (failures 1)).any (fun w =>
      w.Spawning ∧ w.state = .reconnecting ∧ w.attempt = 1 ∧ w.sendOpen = true ∧
        w.receiveOpen = true) = true := by decide +kernel
  rw [hw] at hat
  obtain ⟨hl, hs, hcount, hsend, hreceive⟩ := of_decide_eq_true hat
  exact ⟨w, hw, hretrying, spawning_iff.mp hl, hs, hcount, hsend, hreceive⟩

theorem respawning_failures {attempt : ℕ} (h : attempt < floatMaxExponent) :
    ∃ w, machine.run (boot {} 0) (failures (attempt + 1)) = some w ∧ Respawning w (attempt + 1) := by
  induction attempt with
  | zero => exact respawning_first
  | succ attempt ih =>
    obtain ⟨w, hrun, hw⟩ := ih (Nat.lt_of_succ_lt h)
    obtain ⟨w', hrun', hw'⟩ := hw.next h
    refine ⟨w', ?_, hw'⟩
    rw [failures, Machine.run_append, hrun]
    exact hrun'

/-- ffmpeg cannot be spawned, 1025 times in a row. -/
def overflow : List (Label ℕ) := failures floatMaxExponent ++ (spawnFails ++ [.lifecycle (1 / 2)])

theorem hopeless_overflow : ∀ l ∈ overflow, Hopeless l := by
  intro l hl
  rcases List.mem_append.mp hl with hl | hl
  · exact hopeless_failures _ l hl
  · refine hopeless_oneFailure 0 l ?_
    rw [oneFailure, List.mem_append]
    rcases List.mem_append.mp hl with hl | hl
    · exact .inl hl
    · exact .inr (List.mem_cons.mpr (.inl (List.mem_singleton.mp hl)))

theorem run_overflow : ∃ w, machine.run (boot {} 0) overflow = some w ∧
    w.lifecycle = .finished .raised := by
  obtain ⟨w, hrun, hw⟩ := respawning_failures (show 1023 < floatMaxExponent by decide)
  obtain ⟨w', hrun', hraised⟩ := hw.raises
  refine ⟨w', ?_, hraised⟩
  rw [overflow, Machine.run_append, show floatMaxExponent = 1023 + 1 from rfl, hrun]
  exact hrun'

/-- **The loop dies of its arithmetic.** The target is dead, nobody stops the
worker, and with the default policy the failure after the 1024th delay ends the
lifecycle task with an exception. -/
theorem overflow_on_dead_target :
    machine.Meets (fun _ l => Hopeless l) (boot {} 0) overflow ∧
      ∃ w : FFmpegWorker ℕ, machine.run (boot {} 0) overflow = some w ∧
        w.lifecycle = .finished .raised ∧ ¬ Untroubled w := by
  obtain ⟨w, hrun, hraised⟩ := run_overflow
  have hhopeless := hopeless_overflow
  generalize overflow = labels at *
  exact ⟨Machine.meets_of_labels hhopeless _, w, hrun, hraised, fun h => h.unraised hraised⟩

end Overflow

end FFmpegWorker

end RestreamPlus
