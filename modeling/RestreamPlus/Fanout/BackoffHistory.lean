import RestreamPlus.Fanout.WorkerPlaces

/-!
# The delays and the failures before them

ADR-0003 lets the delay grow with the failures in a row, and starts over after a
minute of healthy RUNNING or a reset by the user. `BackoffLog` counts the
failures that way, beside the worker and without looking at its attempt counter,
and writes down each delay with the number of failures before the one it
follows (`compute_backoff` is zero-indexed: the first failure is followed by the
base delay).

The worker starts over at the first frame after a reconnect. So the delays are
those of the document in the runs in which no process that comes up after a
failure dies within the minute (`delays_follow_history`), and a target that
flaps is retried every second (`flapping_target_sees_base_delay`).
-/

namespace RestreamPlus

open Interleaving

namespace FFmpegWorker

variable {Frame : Type}

/-! ## The history -/

/-- The delay of the document after `k` earlier failures, without jitter. -/
def documentedDelay (k : ℕ) : ℚ := min 60 (2 ^ k)

/-- A delay within a fifth of the documented one. -/
def Jittered (k : ℕ) (delay : ℚ) : Prop :=
  4 / 5 * documentedDelay k ≤ delay ∧ delay ≤ 6 / 5 * documentedDelay k

instance (k : ℕ) (delay : ℚ) : Decidable (Jittered k delay) := by
  unfold Jittered
  infer_instance

/-- RUNNING for that long starts the count over. -/
def healthySpan : ℚ := 60

/-- What happened since the start. -/
structure BackoffLog : Type where
  /-- failures since the start, the last reset and the last healthy minute -/
  failures : ℕ
  /-- since when the worker has been RUNNING without a failure -/
  runningSince : Option ℚ
  /-- the delays, each with the number of failures before the one it follows -/
  delays : List (ℕ × ℚ)

namespace BackoffLog

def empty : BackoffLog := ⟨0, none, []⟩

/-- The worker has been RUNNING for a minute. -/
def Healthy (g : BackoffLog) (now : ℚ) : Prop := ∃ t ∈ g.runningSince, t + healthySpan ≤ now

instance (g : BackoffLog) (now : ℚ) : Decidable (g.Healthy now) :=
  match hs : g.runningSince with
  | none => .isFalse (by rintro ⟨t, ht, -⟩; rw [hs] at ht; cases ht)
  | some t => decidable_of_iff (t + healthySpan ≤ now)
      ⟨fun h => ⟨t, hs, h⟩, by rintro ⟨t', ht, h⟩; rw [hs] at ht; cases ht; exact h⟩

/-- The failures in a row before the next one. -/
def before (g : BackoffLog) (now : ℚ) : ℕ := if g.Healthy now then 0 else g.failures

end BackoffLog

/-- The loop comes back from a process or from a failed spawn. -/
def AtFailure : Lifecycle Frame → Prop
  | .sending _ .spawnErrorSent | .sending _ .exitedSent => True
  | _ => False

instance : DecidablePred (AtFailure : Lifecycle Frame → Prop) := by
  intro l
  unfold AtFailure
  split <;> infer_instance

/-- The step records a failure. -/
def Failing (w : FFmpegWorker Frame) : Label Frame → Prop
  | .lifecycle _ => w.stopRequested = false ∧ AtFailure w.lifecycle
  | _ => False

instance (w : FFmpegWorker Frame) : DecidablePred w.Failing := by
  intro l
  induction l using Label.casesOn <;> unfold Failing <;> infer_instance

/-- The step is a `user_reset` that is heard. -/
def Resetting (w : FFmpegWorker Frame) : Label Frame → Prop
  | .userReset => w.state = .failedOpen
  | _ => False

instance (w : FFmpegWorker Frame) : DecidablePred w.Resetting := by
  intro l
  induction l using Label.casesOn <;> unfold Resetting <;> infer_instance

/-- The delay a step chooses. -/
def chosen (w w' : FFmpegWorker Frame) : Option ℚ :=
  match w.lifecycle, w'.lifecycle with
  | .backingOff _, _ => none
  | _, .backingOff wakeAt => some (wakeAt - w'.now)
  | _, _ => none

/-- The failures after a step. -/
def failuresAfter (g : BackoffLog) (w : FFmpegWorker Frame) (l : Label Frame) : ℕ :=
  if Failing w l then g.before w.now + 1 else if Resetting w l then 0 else g.failures

/-- What a step adds to the history. -/
def note (g : BackoffLog) (w : FFmpegWorker Frame) (l : Label Frame) (w' : FFmpegWorker Frame) :
    BackoffLog where
  failures := failuresAfter g w l
  runningSince :=
    if Failing w l ∨ w'.state ≠ .running then none
    else if w.state = .running then g.runningSince else some w'.now
  delays := g.delays ++ ((chosen w w').map fun delay => (failuresAfter g w l - 1, delay)).toList

/-- `random()` returns a number from zero to below one, and a worker that fails
in RUNNING has no failure behind it or has been RUNNING for a minute. -/
def Steady (p : FFmpegWorker Frame × BackoffLog) : Label Frame → Prop
  | .lifecycle draw => 0 ≤ draw ∧ draw < 1 ∧
    (Failing p.1 (.lifecycle draw) → p.1.state = .running →
      p.2.failures = 0 ∨ p.2.Healthy p.1.now)
  | _ => True

instance (p : FFmpegWorker Frame × BackoffLog) : DecidablePred (Steady p) := by
  intro l
  induction l using Label.casesOn <;> unfold Steady <;> infer_instance

/-! ## The attempt counter -/

/-- The counter against the failures, at a place of the loop. -/
def Count (attempt failures : ℕ) (state : WorkerState) : Lifecycle Frame → Prop
  | .created | .sending _ .startingSet | .sending _ .resetSet => attempt = 0 ∧ failures = 0
  -- the first frame after a reconnect resets the counter
  | .spawning | .pumping _ | .sending _ .spawnErrorSent | .sending _ .exitedSent =>
    (state ≠ .reconnecting → attempt = 0) ∧ (state ≠ .running → failures = attempt)
  -- the failure is recorded, its delay is not yet chosen
  | .sending _ (.reconnectingSet ..) => failures = attempt + 1
  | .backingOff _ => failures = attempt
  | _ => True

/-- The counter, the count of the history and the delays so far. -/
structure Tally (s : FFmpegWorker Frame) (g : BackoffLog) : Prop extends Booted s where
  count : Count s.attempt g.failures s.state s.lifecycle
  reset : s.lifecycle = .waitingReset → s.userResetEvent = true → s.stopRequested = false →
    s.attempt = 0 ∧ g.failures = 0
  since : s.state ≠ .running → g.runningSince = none
  delays : ∀ d ∈ g.delays, Jittered d.1 d.2

theorem tally_boot (policy : CircuitBreakerPolicy) (now : ℚ) :
    Tally (boot policy now : FFmpegWorker Frame).bare .empty :=
  ⟨booted_boot policy now, ⟨rfl, rfl⟩, nofun, fun _ => rfl, fun _ hd => absurd hd List.not_mem_nil⟩

section Step

variable {s s' : FFmpegWorker Frame} {g : BackoffLog} {draw : ℚ}

theorem jittered_computeBackoff {attempt : ℕ} {delay : ℚ} (hnonneg : 0 ≤ draw) (hlt : draw < 1)
    (h : computeBackoff attempt draw = some delay) : Jittered attempt delay := by
  have hraw : rawBackoff attempt = documentedDelay attempt := by
    rw [rawBackoff, documentedDelay, backoffCap, backoffBase, one_mul]
  rw [Jittered, ← hraw]
  exact ⟨le_computeBackoff hnonneg h, computeBackoff_le hlt.le h⟩

theorem chosen_of_not (h : ∀ t, s'.lifecycle ≠ .backingOff t) : chosen s s' = none := by
  rw [chosen]
  split
  · rfl
  · rename_i hl hno
    exact absurd hl (h _)
  · rfl

theorem chosen_of_same (h : s'.lifecycle = s.lifecycle) : chosen s s' = none := by
  rw [chosen, h]
  cases s.lifecycle <;> rfl

/-- What is left to say of a step. -/
theorem Tally.step (h : Tally s g) {l : Label Frame} (hm : Moves s l s')
    (hcount : Count s'.attempt (failuresAfter g s l) s'.state s'.lifecycle)
    (hreset : s'.lifecycle = .waitingReset → s'.userResetEvent = true →
      s'.stopRequested = false → s'.attempt = 0 ∧ failuresAfter g s l = 0)
    (hchosen : ∀ delay ∈ chosen s s', Jittered (failuresAfter g s l - 1) delay) :
    Tally s' (note g s l s') := by
  refine ⟨booted_moves h.toBooted hm, hcount, hreset, fun hs => if_pos (.inr hs), fun d hd => ?_⟩
  rcases List.mem_append.mp hd with hd | hd
  · exact h.delays d hd
  · rw [Option.mem_toList] at hd
    obtain ⟨delay, hdelay, rfl⟩ := Option.mem_map.mp hd
    exact hchosen delay hdelay

/-- A step that neither fails nor resets and stays where it is. -/
theorem Tally.stay (h : Tally s g) {l : Label Frame} (hm : Moves s l s')
    (hl : s'.lifecycle = s.lifecycle) (hfail : ¬ Failing s l) (hheard : ¬ Resetting s l)
    (hcount : Count s'.attempt g.failures s'.state s.lifecycle)
    (hreset : s.lifecycle = .waitingReset → s'.userResetEvent = true →
      s'.stopRequested = false → s'.attempt = 0 ∧ g.failures = 0) :
    Tally s' (note g s l s') := by
  have hsame : failuresAfter g s l = g.failures := by
    rw [failuresAfter, if_neg hfail, if_neg hheard]
  refine h.step hm ?_ ?_ fun delay hdelay => ?_
  · rw [hsame, hl]
    exact hcount
  · rw [hsame, hl]
    exact hreset
  · rw [chosen_of_same hl] at hdelay
    cases hdelay

/-! ### The loop -/

/-- Where no delay is waited for and no reset. -/
def Busy : Lifecycle Frame → Prop
  | .waitingReset | .backingOff _ => False
  | _ => True

/-- The loop went on to a place where it does not wait. -/
theorem Tally.busy (h : Tally s g) {l : Label Frame} (hm : Moves s l s') (hbusy : Busy s'.lifecycle)
    (hcount : Count s'.attempt (failuresAfter g s l) s'.state s'.lifecycle) :
    Tally s' (note g s l s') := by
  refine h.step hm hcount (fun hl => ?_) fun delay hdelay => ?_
  · rw [hl] at hbusy
    exact hbusy.elim
  · rw [chosen_of_not fun t hl => by rw [hl] at hbusy; exact hbusy] at hdelay
    cases hdelay

theorem count_sends {e : WorkerEvent Frame} {k : AfterSend} {f : ℕ}
    (h : Sends s e k s')
    (hcount : Count s.attempt f s.state (.sending ⟨e, false⟩ k)) :
    Busy s'.lifecycle ∧ Count s'.attempt f s'.state s'.lifecycle := by
  cases h with
  | sent hopen => exact ⟨trivial, hcount⟩
  | refused hclosed => exact ⟨trivial, trivial⟩

theorem count_settles {f : ℕ} (h : Settles s s') :
    Busy s'.lifecycle ∧ Count s'.attempt f s'.state s'.lifecycle := by
  cases h with
  | idle hs hsends => exact count_sends hsends trivial
  | returned hs => exact ⟨trivial, trivial⟩

theorem count_leaves {f : ℕ} (h : Leaves s s') :
    Busy s'.lifecycle ∧ Count s'.attempt f s'.state s'.lifecycle := by
  cases h with
  | stopping hstop hidle hsends => exact count_sends hsends trivial
  | settles hs hsettles => exact count_settles hsettles

theorem count_heads {f : ℕ} (h : Heads s s')
    (hcount : Count s.attempt f s.state (.spawning : Lifecycle Frame)) :
    Busy s'.lifecycle ∧ Count s'.attempt f s'.state s'.lifecycle := by
  cases h with
  | leaves hreq hleaves => exact count_leaves hleaves
  | spawning hreq => exact ⟨trivial, hcount⟩

/-- The delay is chosen for the failure that was counted last. -/
theorem Tally.decides (h : Tally s g) {d : ℚ} (hm : Moves s (.lifecycle d) s')
    (hl : ∀ t, s.lifecycle ≠ .backingOff t) {s₀ : FFmpegWorker Frame} (hnonneg : 0 ≤ draw)
    (hlt : draw < 1)
    (hcount : s₀.state ≠ .failedOpen → failuresAfter g s (.lifecycle d) = s₀.attempt + 1)
    (hd : Decides s₀ draw s') : Tally s' (note g s (.lifecycle d) s') := by
  cases hd with
  | waits hs =>
    refine h.step hm trivial (fun _ hevent => by cases hevent) fun delay hdelay => ?_
    rw [chosen_of_not fun t hl => by cases hl] at hdelay
    cases hdelay
  | @backsOff delay hs hdelay =>
    refine h.step hm (hcount hs) (fun hl => by cases hl) fun delay' hdelay' => ?_
    have hchosen : delay' = delay := by
      rw [chosen] at hdelay'
      split at hdelay'
      · rename_i hback
        exact absurd hback (hl _)
      · rename_i hat hno
        cases hat
        rw [← Option.some.inj hdelay']
        exact add_sub_cancel_left _ _
      · cases hdelay'
    rw [hchosen, hcount hs]
    exact jittered_computeBackoff hnonneg hlt hdelay
  | overflows hs hnone => exact h.busy hm trivial trivial

theorem Tally.judges (h : Tally s g) {d : ℚ} (hm : Moves s (.lifecycle d) s')
    (hl : ∀ t, s.lifecycle ≠ .backingOff t) {s₀ : FFmpegWorker Frame} (hnonneg : 0 ≤ draw)
    (hlt : draw < 1) (hcount : failuresAfter g s (.lifecycle d) = s₀.attempt + 1)
    {verdict : BreakerVerdict} (hj : Judges s₀ verdict draw s') :
    Tally s' (note g s (.lifecycle d) s') := by
  cases hj with
  | opens hs hverdict hsends =>
    obtain ⟨hbusy, hcount⟩ := count_sends hsends trivial
    exact h.busy hm hbusy hcount
  | decides hnot hdecides => exact h.decides hm hl hnonneg hlt (fun _ => hcount) hdecides

/-- **The counter is the number of failures before the one to record.** -/
theorem Tally.before_eq (h : Tally s g) (hat : AtFailure s.lifecycle)
    (hsteady : s.state = .running → g.failures = 0 ∨ g.Healthy s.now) :
    g.before s.now = s.attempt := by
  have hcount : (s.state ≠ .reconnecting → s.attempt = 0) ∧
      (s.state ≠ .running → g.failures = s.attempt) := by
    have hcount := h.count
    rcases hl : s.lifecycle with _ | _ | ⟨x, k⟩ | _ | _ | _ | _ | _ <;> rw [hl] at hat hcount
    case sending => cases k <;> first | exact hcount | exact hat.elim
    all_goals exact hat.elim
  rw [BackoffLog.before]
  by_cases hs : s.state = .running
  · have hzero : s.attempt = 0 := hcount.1 (by rw [hs]; decide)
    split
    · exact hzero.symm
    · rename_i hill
      exact ((hsteady hs).resolve_right hill).trans hzero.symm
  · rw [if_neg]
    · exact hcount.2 hs
    · rintro ⟨t, ht, -⟩
      rw [h.since hs] at ht
      cases ht

/-- The failure is recorded; `s₀` is the worker after the event of the failure. -/
theorem Tally.fails (h : Tally s g) {d : ℚ} (hm : Moves s (.lifecycle d) s')
    (hat : AtFailure s.lifecycle) {s₀ : FFmpegWorker Frame} (hnonneg : 0 ≤ draw) (hlt : draw < 1)
    (hreq : s₀.stopRequested = s.stopRequested) (hattempt : s₀.attempt = s.attempt)
    (hsteady : Failing s (.lifecycle d) → s.state = .running → g.failures = 0 ∨ g.Healthy s.now)
    (hf : Fails s₀ draw s') : Tally s' (note g s (.lifecycle d) s') := by
  have hl (t : ℚ) (hl : s.lifecycle = .backingOff t) : False := by
    rw [hl] at hat
    exact hat
  have hcount (hno : s₀.stopRequested = false) :
      failuresAfter g s (.lifecycle d) = s₀.attempt + 1 := by
    have hfailing : Failing s (.lifecycle d) := ⟨hreq.symm.trans hno, hat⟩
    rw [failuresAfter, if_pos hfailing, h.before_eq hat (hsteady hfailing), hattempt]
  cases hf with
  | leaves hreq' hleaves =>
    obtain ⟨hbusy, hcount⟩ := count_leaves hleaves
    exact h.busy hm hbusy hcount
  | announces hno hs hsends =>
    obtain ⟨hbusy, hcount⟩ := count_sends hsends (hcount hno)
    exact h.busy hm hbusy hcount
  | judges hno hstarting hrunning hjudges => exact h.judges hm hl hnonneg hlt (hcount hno) hjudges

theorem not_failing {d : ℚ} (h : ¬ AtFailure s.lifecycle) :
    failuresAfter g s (.lifecycle d) = g.failures := by
  rw [failuresAfter, if_neg fun hf => h hf.2, if_neg (show ¬ Resetting s (.lifecycle d) from id)]

/-- The loop goes on after a `send`. -/
theorem Tally.goesOn (h : Tally s g) {d : ℚ} (hm : Moves s (.lifecycle d) s') {x : Sending Frame}
    {k : AfterSend} (hl : s.lifecycle = .sending x k) (hnonneg : 0 ≤ draw) (hlt : draw < 1)
    (hsteady : Failing s (.lifecycle d) → s.state = .running → g.failures = 0 ∨ g.Healthy s.now)
    (hg : GoesOn (s.arrived x.event) draw k s') : Tally s' (note g s (.lifecycle d) s') := by
  have hplace := h.place
  have hcount := h.count
  rw [hl] at hplace hcount
  have hback (t : ℚ) (ht : s.lifecycle = .backingOff t) : False := by cases hl.symm.trans ht
  have hattempt : (s.arrived x.event).attempt = s.attempt := by cases x.event <;> rfl
  cases hg with
  | startingSet hheads | resetSet hheads =>
    have hsame : failuresAfter g s (.lifecycle d) = g.failures :=
      not_failing (by rw [hl]; exact not_false)
    obtain ⟨hbusy, hcount⟩ := count_heads (f := g.failures) hheads
      ⟨fun _ => hattempt.trans hcount.1, fun _ => hcount.2.trans (hattempt.trans hcount.1).symm⟩
    exact h.busy hm hbusy (hsame ▸ hcount)
  | spawnErrorSent hfails =>
    rw [arrived_of_plain hplace.2] at hfails
    exact h.fails hm (by rw [hl]; exact trivial) hnonneg hlt rfl rfl hsteady hfails
  | exitedSent hfails =>
    rw [arrived_of_plain hplace.2] at hfails
    have hreq : { s with process := none }.stopRequested = s.stopRequested := rfl
    exact h.fails hm (by rw [hl]; exact trivial) hnonneg hlt hreq rfl hsteady hfails
  | reconnectingSet hjudges =>
    refine h.judges hm hback hnonneg hlt ?_ hjudges
    rw [not_failing (by rw [hl]; exact not_false), hattempt]
    exact hcount
  | verdictSet hdecides =>
    obtain ⟨-, count, he⟩ := hplace
    exact h.decides hm hback hnonneg hlt (fun hs => absurd (state_arrived he) hs) hdecides
  | stoppingSet hsettles =>
    obtain ⟨hbusy, hcount⟩ := count_settles hsettles
    exact h.busy hm hbusy hcount
  | idleSet => exact h.busy hm trivial trivial

theorem Tally.resumes (h : Tally s g) (hsteady : Steady (s, g) (.lifecycle draw))
    (hr : Resumes s draw s') : Tally s' (note g s (.lifecycle draw) s') := by
  have hm : Moves s (.lifecycle draw) s' := .resumes hr
  have hplace := h.place
  have hcount := h.count
  obtain ⟨hnonneg, hlt, hsteady⟩ := hsteady
  cases hr with
  | starts hl hs hsends =>
    rw [hl] at hcount
    obtain ⟨hbusy, hcount'⟩ := count_sends (f := g.failures) hsends hcount
    exact h.busy hm hbusy (not_failing (s := s) (by rw [hl]; exact not_false) ▸ hcount')
  | startsAnew hl hs hheads =>
    rw [hl] at hplace
    exact absurd hplace hs
  | sent hl hgo hgoes => exact h.goesOn hm hl hnonneg hlt hsteady hgoes
  | exits hl hpumps hplain hsends =>
    rw [hl] at hcount
    obtain ⟨hbusy, hcount'⟩ := count_sends (f := g.failures) hsends hcount
    exact h.busy hm hbusy (not_failing (s := s) (by rw [hl]; exact not_false) ▸ hcount')
  | stops hl hevent hreq hleaves =>
    obtain ⟨hbusy, hcount⟩ := count_leaves hleaves
    exact h.busy hm hbusy hcount
  | resets hl hevent hreq hs hsends =>
    obtain ⟨hbusy, hcount'⟩ := count_sends (f := g.failures) hsends (h.reset hl hevent hreq)
    exact h.busy hm hbusy (not_failing (s := s) (by rw [hl]; exact not_false) ▸ hcount')
  | resetsAnew hl hevent hreq hs hheads =>
    rw [hl] at hplace
    exact absurd hplace hs
  | wakes hl hwake hheads =>
    rw [hl] at hplace hcount
    obtain ⟨hbusy, hcount'⟩ := count_heads (f := g.failures) hheads
      ⟨fun hs => absurd hplace hs, fun _ => hcount⟩
    exact h.busy hm hbusy (not_failing (s := s) (by rw [hl]; exact not_false) ▸ hcount')

/-! ### The stdout pump -/

/-- What the count rests on is left alone. -/
structure Kept (s s' : FFmpegWorker Frame) : Prop where
  lifecycle : s'.lifecycle = s.lifecycle
  state : s'.state = s.state
  attempt : s'.attempt = s.attempt
  event : s'.userResetEvent = s.userResetEvent
  stopRequested : s'.stopRequested = s.stopRequested

theorem PumpKeeps.kept (h : PumpKeeps s s') : Kept s s' := by
  rw [h.eq]
  exact ⟨rfl, rfl, rfl, rfl, rfl⟩

theorem kept_pumpSends {pumps : Pumps Frame} (h : PumpSends s pumps s') : Kept s s' := by
  cases h <;> exact ⟨rfl, rfl, rfl, rfl, rfl⟩

theorem Tally.kept (h : Tally s g) {l : Label Frame} (hm : Moves s l s')
    (hfail : ¬ Failing s l) (hheard : ¬ Resetting s l) (hkept : Kept s s') :
    Tally s' (note g s l s') := by
  refine h.stay hm hkept.lifecycle hfail hheard ?_ fun hwait hevent hreq => ?_
  · rw [hkept.state, hkept.attempt]
    exact h.count
  · rw [hkept.attempt]
    exact h.reset hwait (hkept.event.symm.trans hevent) (hkept.stopRequested.symm.trans hreq)

/-- RUNNING is entered, with the counter at zero. -/
theorem Tally.entersRunning (h : Tally s g) (hm : Moves s .resumeStdout s') {t : ℚ}
    (hl : s.lifecycle = .pumping t) (hl' : s'.lifecycle = s.lifecycle) (hs : s'.state = .running)
    (hattempt : s'.attempt = 0) : Tally s' (note g s .resumeStdout s') := by
  refine h.stay hm hl' not_false not_false ?_ fun hwait => by cases hl.symm.trans hwait
  rw [hl]
  exact ⟨fun _ => hattempt, fun hno => absurd hs hno⟩

theorem Tally.stdoutGoesOn (h : Tally s g) (hg : StdoutGoesOn s s') :
    Tally s' (note g s .resumeStdout s') := by
  have hm : Moves s .resumeStdout s' := .stdoutGoesOn hg
  have hl' : s'.lifecycle = s.lifecycle := by rw [pumpOnly_stdoutGoesOn hg]
  cases hg with
  | announced hx hgo hsends =>
    obtain ⟨t, hl⟩ := h.pumping fun b hb => by rw [hb] at hx; cases hx
    obtain ⟨⟨cause, he⟩, ⟨hs, -⟩ | ⟨-, hfresh⟩⟩ := h.first _ _ _ _ hx
    · have hkept := kept_pumpSends hsends
      have hcount := h.count
      rw [hl] at hcount
      refine h.entersRunning hm hl hl' (hkept.state.trans (state_arrived he)) ?_
      rw [hkept.attempt, he]
      exact hcount.1 fun hrec => by cases hs.symm.trans hrec
    · cases hfresh
  | resumed hx hgo hsends =>
    obtain ⟨t, hl⟩ := h.pumping fun b hb => by rw [hb] at hx; cases hx
    obtain ⟨⟨cause, he⟩, -⟩ := h.first _ _ _ _ hx
    have hkept := kept_pumpSends hsends
    exact h.entersRunning hm hl hl' (hkept.state.trans (state_arrived he)) hkept.attempt
  | reported hx hgo hhandles => exact h.kept hm not_false not_false (pumpKeeps_handles hhandles).kept
  | erred hx hgo => exact h.kept hm not_false not_false ⟨rfl, rfl, rfl, rfl, rfl⟩

/-! ### `user_reset` and `stop` -/

/-- A reset that is heard starts the count over. -/
theorem Tally.resets (h : Tally s g) (hs : s.state = .failedOpen) :
    Tally { s with attempt := 0, userResetEvent := true }
      (note g s .userReset { s with attempt := 0, userResetEvent := true }) := by
  have hzero : failuresAfter g s .userReset = 0 := by
    rw [failuresAfter, if_neg (show ¬ Failing s .userReset from id),
      if_pos (show Resetting s .userReset from hs)]
  have hplace := h.place
  have hsame : chosen s { s with attempt := 0, userResetEvent := true } = none := chosen_of_same rfl
  refine h.step (.resets hs) ?_ (fun _ _ _ => ⟨rfl, hzero⟩) fun delay hdelay => ?_
  · rw [hzero]
    change Count 0 0 s.state s.lifecycle
    rw [hs] at hplace ⊢
    rcases hl : s.lifecycle with _ | _ | ⟨x, k⟩ | _ | t | _ | t | e <;> rw [hl] at hplace
    case sending =>
      cases k with
      | startingSet | resetSet => exact ⟨rfl, rfl⟩
      | verdictSet | stoppingSet | idleSet => exact trivial
      | spawnErrorSent | exitedSent | reconnectingSet =>
        obtain ⟨hup, -⟩ := hplace
        rcases hup with hup | hup | hup <;> cases hup
    case spawning => rcases hplace with hup | hup <;> cases hup
    case pumping => rcases hplace with hup | hup | hup <;> cases hup
    case backingOff => cases hplace
    case created => exact ⟨rfl, rfl⟩
    all_goals trivial
  · rw [hsame] at hdelay
    cases hdelay

/-- Once a stop was asked for no reset is waited for. -/
theorem Tally.asks (h : Tally s g) {l : Label Frame} (hm : Moves s l s')
    (hfail : ¬ Failing s l) (hheard : ¬ Resetting s l) (hl : s'.lifecycle = s.lifecycle)
    (hstate : s'.state = s.state) (hattempt : s'.attempt = s.attempt) (hstops : s'.stops ≠ []) :
    Tally s' (note g s l s') := by
  refine h.stay hm hl hfail hheard ?_ fun _ _ hreq => ?_
  · rw [hstate, hattempt]
    exact h.count
  · have hasked := (booted_moves h.toBooted hm).asked hstops
    exact absurd (hasked.symm.trans hreq) (by decide)

theorem Tally.stops (h : Tally s g) {phase : StopPhase} (hs : Stops s s' phase) :
    Tally { s' with stops := s.stops ++ [phase] }
      (note g s .stop { s' with stops := s.stops ++ [phase] }) := by
  have hm : Moves s .stop { s' with stops := s.stops ++ [phase] } := .stops hs
  have hne : s.stops ++ [phase] ≠ [] := List.append_ne_nil_of_right_ne_nil _ (List.cons_ne_nil _ _)
  cases hs with
  | signals hp hrun => exact h.asks hm not_false not_false rfl rfl rfl hne
  | joins hno hj => cases hj <;> exact h.asks hm not_false not_false rfl rfl rfl hne

theorem Tally.stopGoesOn (h : Tally s g) {i : ℕ} {timedOut : Bool} {phase phase' : StopPhase}
    (hphase : s.stops[i]? = some phase) (hg : StopGoesOn s phase timedOut s' phase') :
    Tally { s' with stops := s.stops.set i phase' }
      (note g s (.resumeStop i timedOut) { s' with stops := s.stops.set i phase' }) := by
  have hm : Moves s (.resumeStop i timedOut) { s' with stops := s.stops.set i phase' } :=
    .stopGoesOn hphase hg
  have hne : s.stops.set i phase' ≠ [] := fun hnil =>
    List.ne_nil_of_mem (List.mem_of_getElem? hphase) ((List.set_eq_nil_iff i phase').mp hnil)
  have hjoins {s' : FFmpegWorker Frame} {phase' : StopPhase} (hj : Joins s s' phase')
      (hm : Moves s (.resumeStop i timedOut) { s' with stops := s.stops.set i phase' })
      (hne : s.stops.set i phase' ≠ []) :
      Tally { s' with stops := s.stops.set i phase' }
        (note g s (.resumeStop i timedOut) { s' with stops := s.stops.set i phase' }) := by
    cases hj <;> exact h.asks hm not_false not_false rfl rfl rfl hne
  cases hg with
  | exited hexited hj | killed hj => exact hjoins hj hm hne
  | cancels hc =>
    cases hc with
    | ended hdead => exact h.asks hm not_false not_false rfl rfl rfl hne
    | swallowed hl hfailed => exact h.asks hm not_false not_false rfl rfl rfl hne
    | pumping hl hgoing => exact h.busy hm trivial trivial
    | elsewhere halive hno => exact h.busy hm trivial trivial
  | kills | joined | raised | cancelled | raisedAnyway | closesReceive | returns =>
    exact h.asks hm not_false not_false rfl rfl rfl hne

/-! ### Every step -/

/-- **One step keeps the count.** -/
theorem tally_moves (h : Tally s g) {l : Label Frame} (hsteady : Steady (s, g) l)
    (hm : Moves s l s') : Tally s' (note g s l s') := by
  have hcount := h.count
  cases hm with
  | beside hl hb =>
    have hfail : ¬ Failing s l := by
      cases l <;> first | exact not_false | exact hl.elim
    have hheard : ¬ Resetting s l := by
      cases l <;> first | exact not_false | exact hl.elim
    have hm : Moves s l s' := .beside hl hb
    refine h.stay hm (by rw [hb.eq]) hfail hheard ?_ fun hwait hevent hreq => ?_
    · rw [hb.eq]
      exact hcount
    · rw [hb.eq] at hevent hreq ⊢
      exact h.reset hwait hevent hreq
  | @taken e k hopen hl =>
    rw [hl] at hcount
    exact h.busy (.taken hopen hl) trivial (by cases k <;> exact hcount)
  | announcementTaken hopen hx =>
    exact h.kept (.announcementTaken hopen hx) not_false not_false ⟨rfl, rfl, rfl, rfl, rfl⟩
  | progressTaken hopen hx =>
    exact h.kept (.progressTaken hopen hx) not_false not_false ⟨rfl, rfl, rfl, rfl, rfl⟩
  | errorTaken hopen hx =>
    exact h.kept (.errorTaken hopen hx) not_false not_false ⟨rfl, rfl, rfl, rfl, rfl⟩
  | resumes hr => exact h.resumes hsteady hr
  | spawns hl =>
    rw [hl] at hcount
    exact h.busy (.spawns hl) trivial hcount
  | spawnFails hl hsends =>
    rw [hl] at hcount
    obtain ⟨hbusy, hcount'⟩ := count_sends (f := g.failures) hsends hcount
    exact h.busy (.spawnFails hl hsends) hbusy hcount'
  | spawnRaises hl => exact h.busy (.spawnRaises hl) trivial trivial
  | reads hreading hr =>
    exact h.kept (.reads hreading hr) not_false not_false (pumpKeeps_reads hr).kept
  | stdoutGoesOn hg => exact h.stdoutGoesOn hg
  | pumpRaises halive =>
    exact h.kept (.pumpRaises halive) not_false not_false ⟨rfl, rfl, rfl, rfl, rfl⟩
  | resets hs => exact h.resets hs
  | resetIgnored hs => exact h.kept (.resetIgnored hs) not_false hs ⟨rfl, rfl, rfl, rfl, rfl⟩
  | stops hs => exact h.stops hs
  | stopGoesOn hphase hg => exact h.stopGoesOn hphase hg

end Step

theorem steady_bare {w : FFmpegWorker Frame} {g : BackoffLog} {l : Label Frame}
    (h : Steady (w, g) l) : Steady (w.bare, g) l := by
  cases l <;> exact h

/-! ## Every run -/

/-- **The delays of the document**, in every run in which a worker that fails in
RUNNING has no failure behind it or has been RUNNING for a minute. -/
theorem delays_follow_history (policy : CircuitBreakerPolicy) (now : ℚ)
    (labels : List (Label Frame))
    (h : (machine.recording note).Meets Steady (boot policy now, .empty) labels) :
    (machine.recording note).Always (fun p => ∀ d ∈ p.2.delays, Jittered d.1 d.2)
      (boot policy now, .empty) labels := by
  refine Machine.always_of_inv (I := fun p => Tally p.1.bare p.2) ?_ (fun p hp => hp.delays)
    (tally_boot policy now) h
  rintro ⟨w, g⟩ l ⟨w', g'⟩ htally hsteady hstep
  obtain ⟨hw, hg⟩ := Machine.step_recording hstep
  obtain rfl : g' = note g w l w' := hg
  exact tally_moves htally (steady_bare hsteady) (moves_of_step hw)

/-- The target comes up, shows one frame and dies; the next spawn is a second
later. -/
def flap (p : ℕ) : List (Label Unit) :=
  [.spawned, .readStdout (.frames [()]), .accept .stdout, .resumeStdout, .accept .stdout,
    .resumeStdout, .readStdout .eof, .readStderr .eof, .exit p 1, .seeExit, .stallTick,
    .lifecycle 0, .accept .lifecycle, .lifecycle 0, .accept .lifecycle, .lifecycle 0, .tick 1,
    .lifecycle 0]

/-- STARTING is announced. -/
def announced : List (Label Unit) := [.lifecycle 0, .accept .lifecycle, .lifecycle 0]

/-- The spawn fails; the next one is two seconds later. -/
def refusal : List (Label Unit) :=
  [.spawnFailed "", .accept .lifecycle, .lifecycle 0, .tick 2, .lifecycle 0]

/-- A target that dies once and is then gone is retried as the document says. -/
theorem delays_follow_history_gone :
    (machine.recording note).Meets Steady (boot {} 0, .empty) (announced ++ flap 0 ++ refusal) ∧
      (machine.recording note).Always (fun p => ∀ d ∈ p.2.delays, Jittered d.1 d.2)
        (boot {} 0, .empty) (announced ++ flap 0 ++ refusal) ∧
      ((machine.recording note).run (boot {} 0, .empty) (announced ++ flap 0 ++ refusal)).map
        (fun p => p.2.delays) = some [(0, 4 / 5), (1, 8 / 5)] := by
  have hsteady : (machine.recording note).Meets Steady (boot {} 0, .empty)
      (announced ++ flap 0 ++ refusal) := by decide +kernel
  exact ⟨hsteady, delays_follow_history {} 0 _ hsteady, by decide +kernel⟩

/-- **A target that flaps does not see growing delays**: after four failures in
a row each delay was the one that follows the first. -/
theorem flapping_target_sees_base_delay :
    ((machine.recording note).run (boot {} 0, .empty)
        (announced ++ (List.range 4).flatMap flap)).map (fun p => p.2.delays) =
          some [(0, 4 / 5), (1, 4 / 5), (2, 4 / 5), (3, 4 / 5)] ∧
      ¬ (machine.recording note).Always (fun p => ∀ d ∈ p.2.delays, Jittered d.1 d.2)
        (boot {} 0, .empty) (announced ++ (List.range 4).flatMap flap) := by
  have hrun : ((machine.recording note).run (boot {} 0, .empty)
      (announced ++ (List.range 4).flatMap flap)).map (fun p => p.2.delays) =
        some [(0, 4 / 5), (1, 4 / 5), (2, 4 / 5), (3, 4 / 5)] := by decide +kernel
  refine ⟨hrun, fun h => ?_⟩
  obtain ⟨p, hp, hdelays⟩ := Option.map_eq_some_iff.mp hrun
  have hjittered : Jittered 3 (4 / 5) := Machine.always_last h hp (3, 4 / 5) (by rw [hdelays]; simp)
  exact absurd hjittered (by decide +kernel)

end FFmpegWorker

end RestreamPlus
