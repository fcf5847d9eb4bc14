import RestreamPlus.Fanout.FFmpegWorker
import RestreamPlus.Lib.Spacing

/-!
# A dead target is retried for ever

The breaker opens on thirty failures within five minutes. The seventh failure
and every later one is followed by a delay of at least 48 seconds, a minute less
the jitter, so that at most seven of them fit into the window, and at most six
came before (`Paced.length_le`). Hence the verdict is CLOSED after every failure,
and a worker whose processes never report progress is never FAILED_OPEN, however
often it has failed (`never_failed_open`).
-/

namespace RestreamPlus

open Interleaving Spacing

/-- The least delay after the seventh failure and every later one. -/
def longDelay : ℚ := 48

/-- Failures before the delays are long. -/
def shortDelays : ℕ := 6

/-- How the failures of a breaker are spaced after `k` attempts: but for the
first few they are a long delay apart, and a long delay before `bound`. -/
structure Paced (b : CircuitBreaker) (k : ℕ) (bound now : ℚ) : Prop where
  policy : b.policy = {}
  sorted : b.failures.Pairwise (· ≤ ·)
  past : ∀ t ∈ b.failures, t ≤ now
  apart : ∃ early late, b.failures = early ++ late ∧ early.length ≤ min k shortDelays ∧
    (k ≤ shortDelays → late = []) ∧ Spaced longDelay late ∧ ∀ t ∈ late, t + longDelay ≤ bound

namespace Paced

variable {b b' : CircuitBreaker} {k : ℕ} {bound bound' now now' : ℚ}

theorem init (now bound : ℚ) : Paced (.init {}) 0 bound now where
  policy := rfl
  sorted := List.Pairwise.nil
  past _ ht := absurd ht List.not_mem_nil
  apart := ⟨[], [], rfl, Nat.zero_le _, fun _ => rfl, spaced_nil,
    fun _ ht => absurd ht List.not_mem_nil⟩

/-- Time passes. -/
theorem mono (h : Paced b k bound now) (hbound : bound ≤ bound') (hnow : now ≤ now') :
    Paced b k bound' now' := by
  obtain ⟨early, late, hl, hearly, hnil, hspaced, hlate⟩ := h.apart
  exact ⟨h.policy, h.sorted, fun t ht => (h.past t ht).trans hnow,
    early, late, hl, hearly, hnil, hspaced, fun t ht => (hlate t ht).trans hbound⟩

/-- Old failures are dropped from the front. -/
theorem of_suffix (h : Paced b k bound now) (hp : b'.policy = b.policy)
    (hs : b'.failures <:+ b.failures) : Paced b' k bound now := by
  obtain ⟨early, late, hl, hearly, hnil, hspaced, hlate⟩ := h.apart
  refine ⟨hp.trans h.policy, h.sorted.sublist hs.sublist, fun t ht => h.past t (hs.subset ht), ?_⟩
  obtain ⟨dropped, hdropped⟩ := hs
  rw [hl] at hdropped
  -- either the cut is among the early failures or none of them is left
  rcases List.append_eq_append_iff.mp hdropped with ⟨early', he, hb'⟩ | ⟨late', hd, hb'⟩
  · refine ⟨early', late, hb', le_trans ?_ hearly, hnil, hspaced, hlate⟩
    rw [he, List.length_append]
    exact Nat.le_add_left _ _
  · have hsuffix : b'.failures <:+ late := ⟨late', hb'.symm⟩
    refine ⟨[], b'.failures, rfl, Nat.zero_le _, fun hk => ?_, hspaced.of_suffix hsuffix,
      fun t ht => hlate t (hsuffix.subset ht)⟩
    rw [hnil hk] at hsuffix
    exact List.suffix_nil.mp hsuffix

theorem evictOld (h : Paced b k bound now) (t : ℚ) : Paced (b.evictOld t) k bound now :=
  h.of_suffix rfl (b.failures_evictOld_suffix t)

/-- One more failure, after the delay of the one before. -/
theorem recordFailure (h : Paced b k now now) :
    Paced (b.recordFailure now) (k + 1) (now + longDelay) now := by
  have he := h.evictOld now
  obtain ⟨early, late, hl, hearly, hnil, hspaced, hlate⟩ := he.apart
  have hfailures : (b.recordFailure now).failures = early ++ late ++ [now] := by
    rw [← hl]
    rfl
  refine ⟨h.policy, ?_, ?_, ?_⟩
  · rw [hfailures, ← hl, List.pairwise_append]
    refine ⟨he.sorted, List.pairwise_singleton _ _, fun t ht t' ht' => ?_⟩
    obtain rfl := List.mem_singleton.mp ht'
    exact he.past t ht
  · intro t ht
    rw [hfailures, ← hl] at ht
    rcases List.mem_append.mp ht with ht | ht
    · exact he.past t ht
    · exact (List.mem_singleton.mp ht).le
  · by_cases hk : k < shortDelays
    · obtain rfl := hnil hk.le
      refine ⟨early ++ [now], [], ?_, ?_, fun _ => rfl, spaced_nil,
        fun t ht => absurd ht List.not_mem_nil⟩
      · rw [hfailures, List.append_nil, List.append_nil]
      · rw [List.length_append, List.length_singleton]
        omega
    · refine ⟨early, late ++ [now], ?_, hearly.trans (by omega), fun hk' => by omega,
        hspaced.concat hlate, fun t ht => ?_⟩
      · rw [hfailures, List.append_assoc]
      · rcases List.mem_append.mp ht with ht | ht
        · have hle := hlate t ht
          rw [longDelay] at hle ⊢
          linarith
        · rw [List.mem_singleton.mp ht]

/-- **Few failures fit into the window.** -/
theorem length_le (h : Paced b k bound now) : (b.evictOld now).failures.length ≤ 13 := by
  have he := h.evictOld now
  obtain ⟨early, late, hl, hearly, -, hspaced, -⟩ := he.apart
  have hlate : late.length ≤ 7 := by
    cases late with
    | nil => exact Nat.zero_le 7
    | cons a late =>
      -- `a` is not before the head of the list, which is inside the window
      have hinside : now - 300 ≤ a := by
        obtain ⟨t, l, hhead⟩ : ∃ t l, (b.evictOld now).failures = t :: l := by
          cases early with
          | nil => exact ⟨a, late, hl⟩
          | cons t early => exact ⟨t, early ++ a :: late, hl⟩
        have hwindow := CircuitBreaker.head_evictOld hhead
        rw [h.policy] at hwindow
        refine hwindow.trans ?_
        have hmem : a ∈ t :: l := by
          rw [← hhead, hl]
          exact List.mem_append_right _ List.mem_cons_self
        rcases List.mem_cons.mp hmem with rfl | hmem
        · exact le_refl _
        · have hsorted := he.sorted
          rw [hhead] at hsorted
          exact List.rel_of_pairwise_cons hsorted hmem
      have hpack := hspaced.packing fun t ht => he.past t (by
        rw [hl]
        exact List.mem_append_right _ ht)
      rw [longDelay] at hpack
      have hlen : (late.length : ℚ) < 7 := by linarith
      have hlen' : late.length < 7 := by exact_mod_cast hlen
      exact hlen'
  rw [hl, List.length_append]
  rw [shortDelays] at hearly
  omega

/-- The breaker never opens. -/
theorem shouldOpen (h : Paced b k bound now) : (b.shouldOpen now).2 = .closed := by
  have hlen := h.length_le
  rw [CircuitBreaker.shouldOpen]
  dsimp only
  rw [CircuitBreaker.policy_evictOld, h.policy]
  exact if_neg (by change ¬ 30 ≤ _; omega)

/-- The delay that follows a failure. -/
theorem delayed {draw delay : ℚ} (h : Paced b (k + 1) (now + longDelay) now) (hdraw : 0 ≤ draw)
    (hd : computeBackoff k draw = some delay) : Paced b (k + 1) (now + delay) now := by
  by_cases hk : shortDelays ≤ k
  · refine h.mono ?_ le_rfl
    have hle := le_computeBackoff hdraw hd
    rw [rawBackoff_of_le hk, backoffCap] at hle
    rw [longDelay]
    linarith
  · obtain ⟨early, late, hl, hearly, hnil, hspaced, -⟩ := h.apart
    obtain rfl := hnil (by omega)
    exact ⟨h.policy, h.sorted, h.past, early, [], hl, hearly, hnil, hspaced,
      fun t ht => absurd ht List.not_mem_nil⟩

end Paced

namespace FFmpegWorker

variable {Frame : Type}

/-- Nobody calls `stop` or `user_reset`, no process reports progress, and
`random()` returns a number between 0 and 1. -/
def Dead : Label Frame → Prop
  | .stop | .userReset => False
  | .readStdout (.frames frames) => frames = []
  | .lifecycle draw => 0 ≤ draw ∧ draw ≤ 1
  | _ => True

instance : DecidablePred (Dead : Label Frame → Prop) := by
  intro l
  induction l using Label.casesOn with
  | readStdout r => induction r using StdoutRead.casesOn <;> unfold Dead <;> infer_instance
  | _ => unfold Dead; infer_instance

/-- The stdout pump handles no frame. -/
def Silent : StdoutPump Frame → Prop
  | .announcing .. | .progressing .. => False
  | _ => True

/-- The event does not announce FAILED_OPEN. -/
def NotOpening : WorkerEvent Frame → Prop
  | .state new _ _ => new ≠ .failedOpen
  | _ => True

/-- The failures are spaced as the place of the lifecycle task needs it. -/
def Pacing (b : CircuitBreaker) (attempt : ℕ) (now : ℚ) : Lifecycle Frame → Prop
  | .created | .spawning | .pumping _ => Paced b attempt now now
  | .backingOff wakeAt => Paced b attempt wakeAt now
  | .sending s .startingSet | .sending s .spawnErrorSent | .sending s .exitedSent =>
    NotOpening s.event ∧ Paced b attempt now now
  -- the failure is recorded, its delay is not yet chosen
  | .sending s (.reconnectingSet verdict _) =>
    NotOpening s.event ∧ verdict = .closed ∧ Paced b (attempt + 1) (now + longDelay) now
  | .finished _ => True
  | .sending _ _ | .notStarted | .waitingReset => False

/-- What the code between two awaits relies on. -/
structure Unattended (w : FFmpegWorker Frame) : Prop where
  unasked : w.stopRequested = false
  unstopped : w.stops = []
  closed : w.state ≠ .failedOpen
  silent : Silent w.pumps.stdout

/-- The worker retries a dead target. -/
structure Retrying (w : FFmpegWorker Frame) : Prop extends Unattended w where
  pacing : Pacing w.breaker w.attempt w.now w.lifecycle

theorem retrying_boot (now : ℚ) : Retrying (boot {} now : FFmpegWorker Frame) where
  unasked := rfl
  unstopped := rfl
  closed h := by cases h
  silent := trivial
  pacing := Paced.init now now

section Step

variable {w w' : FFmpegWorker Frame} {draw : ℚ}

/-! ### The lifecycle loop -/

/-- A `send` that the invariant allows; a closed stream ends the task. -/
theorem Unattended.send (h : Unattended w) {e : WorkerEvent Frame} {k : AfterSend}
    (hp : Pacing w.breaker w.attempt w.now (.sending ⟨e, false⟩ k)) :
    Retrying (w.send e k) := by
  rw [FFmpegWorker.send]
  dsimp only
  split
  · exact ⟨⟨h.unasked, h.unstopped, h.closed, h.silent⟩, hp⟩
  · exact ⟨⟨h.unasked, h.unstopped, h.closed, h.silent⟩, trivial⟩

theorem Unattended.loopHead (h : Unattended w) (hp : Paced w.breaker w.attempt w.now w.now) :
    Retrying w.loopHead := by
  rw [FFmpegWorker.loopHead, if_neg (by simp [h.unasked])]
  exact ⟨⟨h.unasked, h.unstopped, h.closed, h.silent⟩, hp⟩

theorem Unattended.afterVerdict (h : Unattended w) (hdraw : 0 ≤ draw)
    (hp : Paced w.breaker (w.attempt + 1) (w.now + longDelay) w.now) :
    Retrying (w.afterVerdict draw) := by
  rw [FFmpegWorker.afterVerdict, if_neg h.closed, FFmpegWorker.backOff]
  split
  · exact ⟨⟨h.unasked, h.unstopped, h.closed, h.silent⟩, trivial⟩
  · rename_i delay hd
    exact ⟨⟨h.unasked, h.unstopped, h.closed, h.silent⟩, hp.delayed hdraw hd⟩

/-- A CLOSED verdict leads to the next delay, whatever the state is. -/
theorem Unattended.applyReconnectVerdict (h : Unattended w) (hdraw : 0 ≤ draw) (t : ℚ)
    (hp : Paced w.breaker (w.attempt + 1) (w.now + longDelay) w.now) :
    Retrying (w.applyReconnectVerdict .closed t draw) := by
  rw [FFmpegWorker.applyReconnectVerdict]
  split
  · exact h.afterVerdict hdraw hp
  · rename_i new hnew
    have hsame : new = w.state := by
      cases hs : w.state <;> rw [hs] at hnew <;> cases hnew
      rfl
    rw [if_pos hsame]
    exact h.afterVerdict hdraw hp

theorem Unattended.setState (h : Unattended w) {a : WorkerAction} {cause : String} {k : AfterSend}
    {skip : FFmpegWorker Frame → FFmpegWorker Frame} (hskip : Retrying (skip w))
    (hp : ∀ new, w.state.transition a none = some new →
      Pacing w.breaker w.attempt w.now
        (.sending (⟨.state new w.state cause, false⟩ : Sending Frame) k)) :
    Retrying (w.setState a cause k skip) := by
  rw [FFmpegWorker.setState]
  split
  · exact hskip
  · rename_i new hnew
    exact h.send (hp new hnew)

/-- Without a verdict FAILED_OPEN is not announced. -/
theorem notOpening_of_transition {s new : WorkerState} {a : WorkerAction}
    (h : s.transition a none = some new) : new ≠ .failedOpen := by
  rintro rfl
  exact absurd (WorkerState.transition_eq_failedOpen h).2.2 (by simp)

/-- **One more failure** is recorded; the verdict is CLOSED. -/
theorem Unattended.afterRun (h : Unattended w) (hdraw : 0 ≤ draw)
    (hp : Paced w.breaker w.attempt w.now w.now) : Retrying (w.afterRun draw) := by
  rw [FFmpegWorker.afterRun, if_neg (by simp [h.unasked])]
  have hrecorded := hp.recordFailure
  have hevicted := hrecorded.evictOld w.now
  have hverdict := hrecorded.shouldOpen
  dsimp only
  rw [hverdict]
  have hgo : Unattended { w with
      breaker := ((w.breaker.recordFailure w.now).shouldOpen w.now).1
      lastError := w.lastError.or (some "process exited unexpectedly") } :=
    ⟨h.unasked, h.unstopped, h.closed, h.silent⟩
  have hskip := hgo.applyReconnectVerdict hdraw w.now hevicted
  split
  · exact hgo.setState hskip fun new hnew => ⟨notOpening_of_transition hnew, rfl, hevicted⟩
  · split
    · exact hgo.setState hskip fun new hnew => ⟨notOpening_of_transition hnew, rfl, hevicted⟩
    · exact hskip

/-- Only the state changes when a state change was announced. -/
theorem Unattended.arrived (h : Unattended w) {e : WorkerEvent Frame} (he : NotOpening e) :
    ∃ new, w.arrived e = { w with state := new } ∧ Unattended (w.arrived e) := by
  cases e with
  | state new old cause => exact ⟨new, rfl, h.unasked, h.unstopped, he, h.silent⟩
  | progress | error | exited | stalled => exact ⟨w.state, rfl, h⟩

theorem Retrying.resumeLifecycle (h : Retrying w) (hdraw : 0 ≤ draw)
    (hs : w.resumeLifecycle draw = some w') : Retrying w' := by
  have hcalm := h.toUnattended
  have hpacing := h.pacing
  rw [FFmpegWorker.resumeLifecycle] at hs
  split at hs
  · rename_i hl
    obtain rfl := Option.some.inj hs
    rw [hl] at hpacing
    exact hcalm.setState (hcalm.loopHead hpacing)
      fun new hnew => ⟨notOpening_of_transition hnew, hpacing⟩
  · rename_i s k hl
    rw [hl] at hpacing
    split at hs
    · obtain rfl := Option.some.inj hs
      cases k with
      | startingSet =>
        obtain ⟨new, heq, harrived⟩ := hcalm.arrived hpacing.1
        refine harrived.loopHead ?_
        rw [heq]
        exact hpacing.2
      | spawnErrorSent =>
        obtain ⟨new, heq, harrived⟩ := hcalm.arrived hpacing.1
        refine harrived.afterRun hdraw ?_
        rw [heq]
        exact hpacing.2
      | exitedSent =>
        obtain ⟨new, heq, harrived⟩ := hcalm.arrived hpacing.1
        have hforgot : Unattended { w.arrived s.event with process := none } :=
          ⟨harrived.unasked, harrived.unstopped, harrived.closed, harrived.silent⟩
        refine hforgot.afterRun hdraw ?_
        rw [heq]
        exact hpacing.2
      | reconnectingSet verdict t =>
        obtain ⟨hevent, rfl, hpaced⟩ := hpacing
        obtain ⟨new, heq, harrived⟩ := hcalm.arrived hevent
        refine harrived.applyReconnectVerdict hdraw t ?_
        rw [heq]
        exact hpaced
      | verdictSet | resetSet | stoppingSet | idleSet => exact hpacing.elim
    · cases hs
  · rename_i spawnedAt hl
    rw [hl] at hpacing
    split at hs
    · obtain rfl := Option.some.inj hs
      rw [reportExit]
      refine hcalm.send ⟨?_, hpacing⟩
      split
      · split <;> trivial
      · trivial
    · cases hs
  · rename_i hl
    rw [hl] at hpacing
    exact hpacing.elim
  · rename_i wakeAt hl
    rw [hl] at hpacing
    split at hs
    · rename_i hwake
      obtain rfl := Option.some.inj hs
      have hreached : wakeAt ≤ w.now := by simpa [hcalm.unasked] using hwake
      exact hcalm.loopHead (Paced.mono hpacing hreached le_rfl)
    · cases hs
  · cases hs
  · cases hs
  · cases hs

/-! ### The pumps -/

theorem Retrying.pumpSend (h : Retrying w) {pumps : Pumps Frame} (hs : Silent pumps.stdout) :
    Retrying (w.pumpSend pumps) := by
  rw [FFmpegWorker.pumpSend]
  dsimp only
  split
  · exact ⟨⟨h.unasked, h.unstopped, h.closed, hs⟩, h.pacing⟩
  · exact ⟨⟨h.unasked, h.unstopped, h.closed, trivial⟩, h.pacing⟩

theorem Retrying.readStdout (h : Retrying w) {r : StdoutRead Frame} (hr : Dead (.readStdout r)) :
    Retrying (w.readStdout r) := by
  cases r with
  | eof => exact ⟨⟨h.unasked, h.unstopped, h.closed, trivial⟩, h.pacing⟩
  | frames frames =>
    obtain rfl : frames = [] := hr
    exact ⟨⟨h.unasked, h.unstopped, h.closed, trivial⟩, h.pacing⟩
  | parseError text =>
    have hnoted : Retrying { w with lastError := some ("progress parse: " ++ text) } :=
      ⟨⟨h.unasked, h.unstopped, h.closed, h.silent⟩, h.pacing⟩
    exact hnoted.pumpSend trivial
  | failed type =>
    have hnoted : Retrying { w with lastError := some ("stdout pump: " ++ type) } :=
      ⟨⟨h.unasked, h.unstopped, h.closed, h.silent⟩, h.pacing⟩
    exact hnoted.pumpSend trivial

/-- The stdout pump only ever comes back from reporting an error. -/
theorem Retrying.resumeStdout (h : Retrying w) (hs : w.resumeStdout = some w') : Retrying w' := by
  have hsilent := h.silent
  rw [FFmpegWorker.resumeStdout] at hs
  split at hs
  · rename_i hp
    rw [hp] at hsilent
    exact hsilent.elim
  · rename_i hp
    rw [hp] at hsilent
    exact hsilent.elim
  · rename_i goesOn hp
    split at hs
    · obtain rfl := Option.some.inj hs
      refine ⟨⟨h.unasked, h.unstopped, h.closed, ?_⟩, h.pacing⟩
      cases goesOn <;> trivial
    · cases hs
  · cases hs
  · cases hs

theorem Retrying.readStderr (h : Retrying w) (r : StderrRead) : Retrying (w.readStderr r) := by
  cases r with
  | eof => exact ⟨⟨h.unasked, h.unstopped, h.closed, h.silent⟩, h.pacing⟩
  | data => exact h
  | failed type => exact h.pumpSend h.silent

theorem Retrying.stallTick (h : Retrying w) : Retrying w.stallTick := by
  rw [FFmpegWorker.stallTick]
  split
  · exact ⟨⟨h.unasked, h.unstopped, h.closed, h.silent⟩, h.pacing⟩
  · split
    · dsimp only
      split
      · exact h.pumpSend h.silent
      · exact h
    · exact ⟨⟨h.unasked, h.unstopped, h.closed, h.silent⟩, h.pacing⟩

/-- Whether the channel has taken the event does not matter. -/
theorem pacing_accepted {b : CircuitBreaker} {attempt : ℕ} {now : ℚ} {e : WorkerEvent Frame}
    {k : AfterSend} (h : Pacing b attempt now (.sending ⟨e, false⟩ k)) :
    Pacing b attempt now (.sending ⟨e, true⟩ k) := by
  cases k <;> exact h

/-- The channel takes an event; where the tasks are does not change. -/
theorem Retrying.accept (h : Retrying w) {t : Sender} (hs : w.accept t = some w') : Retrying w' := by
  have hsilent := h.silent
  have hpacing := h.pacing
  unfold FFmpegWorker.accept at hs
  split at hs
  · split at hs
    · rename_i hl
      obtain rfl := Option.some.inj hs
      rw [hl] at hpacing
      exact ⟨⟨h.unasked, h.unstopped, h.closed, h.silent⟩, pacing_accepted hpacing⟩
    · rename_i hp
      rw [hp] at hsilent
      exact hsilent.elim
    · rename_i hp
      rw [hp] at hsilent
      exact hsilent.elim
    · obtain rfl := Option.some.inj hs
      exact ⟨⟨h.unasked, h.unstopped, h.closed, trivial⟩, h.pacing⟩
    · obtain rfl := Option.some.inj hs
      exact ⟨⟨h.unasked, h.unstopped, h.closed, h.silent⟩, h.pacing⟩
    · obtain rfl := Option.some.inj hs
      exact ⟨⟨h.unasked, h.unstopped, h.closed, h.silent⟩, h.pacing⟩
    · cases hs
  · cases hs

/-! ### One step, and every run -/

theorem Retrying.tick (h : Retrying w) {d : ℚ} (hd : 0 ≤ d) :
    Retrying { w with now := w.now + d } := by
  refine ⟨⟨h.unasked, h.unstopped, h.closed, h.silent⟩, ?_⟩
  have hpacing := h.pacing
  have hle : w.now ≤ w.now + d := le_add_of_nonneg_right hd
  dsimp only
  cases hl : w.lifecycle with
  | created | spawning | pumping =>
    rw [hl] at hpacing
    exact Paced.mono hpacing hle hle
  | backingOff wakeAt =>
    rw [hl] at hpacing
    exact Paced.mono hpacing le_rfl hle
  | sending s k =>
    rw [hl] at hpacing
    cases k with
    | startingSet | spawnErrorSent | exitedSent =>
      exact ⟨hpacing.1, hpacing.2.mono hle hle⟩
    | reconnectingSet verdict t =>
      exact ⟨hpacing.1, hpacing.2.1, hpacing.2.2.mono (add_le_add_left hle _) hle⟩
    | verdictSet | resetSet | stoppingSet | idleSet => exact hpacing.elim
  | finished e => trivial
  | notStarted | waitingReset =>
    rw [hl] at hpacing
    exact hpacing.elim

theorem Retrying.snapshot (h : Retrying w) :
    Retrying { w with breaker := (w.breaker.failureCountInWindow w.now).1 } := by
  refine ⟨⟨h.unasked, h.unstopped, h.closed, h.silent⟩, ?_⟩
  have hpacing := h.pacing
  dsimp only [CircuitBreaker.failureCountInWindow]
  cases hl : w.lifecycle with
  | created | spawning | pumping | backingOff =>
    rw [hl] at hpacing
    exact Paced.evictOld hpacing w.now
  | sending s k =>
    rw [hl] at hpacing
    cases k with
    | startingSet | spawnErrorSent | exitedSent => exact ⟨hpacing.1, hpacing.2.evictOld w.now⟩
    | reconnectingSet verdict t => exact ⟨hpacing.1, hpacing.2.1, hpacing.2.2.evictOld w.now⟩
    | verdictSet | resetSet | stoppingSet | idleSet => exact hpacing.elim
  | finished e => trivial
  | notStarted | waitingReset =>
    rw [hl] at hpacing
    exact hpacing.elim

theorem pacing_of_spawning (h : Retrying w) (hs : w.Spawning = true) :
    Paced w.breaker w.attempt w.now w.now := by
  have hpacing := h.pacing
  rw [Spawning] at hs
  split at hs
  · rename_i hl
    rw [hl] at hpacing
    exact hpacing
  · cases hs

/-- **One step** of a worker whose target is dead. -/
theorem retrying_step (h : Retrying w) {l : Label Frame} (hd : Dead l)
    (hs : machine.step w l = some w') : Retrying w' := by
  change w.step l = some w' at hs
  cases l with
  | tick d =>
    simp only [step] at hs
    split at hs
    · rename_i hle
      obtain rfl := Option.some.inj hs
      exact h.tick hle
    · cases hs
  | exit p rc =>
    simp only [step] at hs
    split at hs
    · obtain rfl := Option.some.inj hs
      exact ⟨⟨h.unasked, h.unstopped, h.closed, h.silent⟩, h.pacing⟩
    · cases hs
  | accept t => exact h.accept hs
  | closeReceive =>
    obtain rfl := Option.some.inj hs
    exact ⟨⟨h.unasked, h.unstopped, h.closed, h.silent⟩, h.pacing⟩
  | snapshot =>
    obtain rfl := Option.some.inj hs
    exact h.snapshot
  | lifecycle draw => exact h.resumeLifecycle hd.1 hs
  | spawned =>
    simp only [step] at hs
    split at hs
    · rename_i hspawning
      obtain rfl := Option.some.inj hs
      have hpaced := pacing_of_spawning h hspawning
      exact ⟨⟨h.unasked, h.unstopped, h.closed, trivial⟩, hpaced⟩
    · cases hs
  | spawnFailed error =>
    simp only [step] at hs
    split at hs
    · rename_i hspawning
      obtain rfl := Option.some.inj hs
      have hnoted : Unattended { w with lastError := some ("spawn failed: " ++ error) } :=
        ⟨h.unasked, h.unstopped, h.closed, h.silent⟩
      have hpaced := pacing_of_spawning h hspawning
      exact hnoted.send ⟨trivial, hpaced⟩
    · cases hs
  | spawnRaised =>
    simp only [step] at hs
    split at hs
    · obtain rfl := Option.some.inj hs
      exact ⟨⟨h.unasked, h.unstopped, h.closed, h.silent⟩, trivial⟩
    · cases hs
  | readStdout r =>
    simp only [step] at hs
    split at hs
    · obtain rfl := Option.some.inj hs
      exact h.readStdout hd
    · cases hs
  | resumeStdout => exact h.resumeStdout hs
  | readStderr r =>
    simp only [step] at hs
    split at hs
    · obtain rfl := Option.some.inj hs
      exact h.readStderr r
    · cases hs
  | resumeStderr =>
    simp only [step, resumeStderr] at hs
    split at hs
    · split at hs
      · obtain rfl := Option.some.inj hs
        exact ⟨⟨h.unasked, h.unstopped, h.closed, h.silent⟩, h.pacing⟩
      · cases hs
    · cases hs
    · cases hs
  | stallTick =>
    simp only [step] at hs
    split at hs
    · obtain rfl := Option.some.inj hs
      exact h.stallTick
    · cases hs
  | resumeStall =>
    simp only [step, resumeStall] at hs
    split at hs
    · split at hs
      · obtain rfl := Option.some.inj hs
        exact ⟨⟨h.unasked, h.unstopped, h.closed, h.silent⟩, h.pacing⟩
      · cases hs
    · cases hs
    · cases hs
  | seeExit =>
    simp only [step, seeExit] at hs
    split at hs
    · split at hs
      · cases hs
      · obtain rfl := Option.some.inj hs
        exact ⟨⟨h.unasked, h.unstopped, h.closed, h.silent⟩, h.pacing⟩
    · obtain rfl := Option.some.inj hs
      exact ⟨⟨h.unasked, h.unstopped, h.closed, h.silent⟩, h.pacing⟩
    · cases hs
  | pumpRaised t =>
    simp only [step] at hs
    split at hs
    · obtain rfl := Option.some.inj hs
      exact ⟨⟨h.unasked, h.unstopped, h.closed, trivial⟩, h.pacing⟩
    · cases hs
  | userReset => exact hd.elim
  | stop => exact hd.elim
  | resumeStop i timedOut =>
    simp only [step, h.unstopped] at hs
    cases hs

end Step

/-- **A dead target is retried for ever**: with the default policy and schedule,
however often the worker has failed, it is not FAILED_OPEN. -/
theorem never_failed_open (now : ℚ) (labels : List (Label Frame))
    (h : machine.Meets (fun _ l => Dead l) (boot {} now) labels) :
    machine.Always (fun w => w.state ≠ .failedOpen) (boot {} now : FFmpegWorker Frame) labels :=
  Machine.always_of_inv (I := Retrying) (fun _ _ _ hi hd hs => retrying_step hi hd hs)
    (fun _ hi => hi.closed) (retrying_boot now) h

section Thirty

/-- From the start to the first `spawn`. -/
def comeUp : List (Label ℕ) := [.lifecycle 0, .accept .lifecycle, .lifecycle 0]

/-- Process `p` dies at once, and its exit is reported. -/
def dies (p : ℕ) : List (Label ℕ) :=
  [.spawned, .exit p 1, .readStdout .eof, .readStderr .eof, .stallTick, .seeExit,
    .lifecycle 0, .accept .lifecycle]

/-- The failure is recorded and the delay, without jitter, elapses. -/
def waits (p : ℕ) : List (Label ℕ) := [.lifecycle (1 / 2), .tick (rawBackoff p), .lifecycle 0]

/-- Thirty processes die one after the other; the first failure is announced. -/
def thirtyFailures : List (Label ℕ) :=
  comeUp ++ dies 0 ++ [.lifecycle 0, .accept .lifecycle] ++ waits 0 ++
    (List.range' 1 29).flatMap fun p => dies p ++ waits p

theorem dead_thirtyFailures :
    machine.Meets (fun _ l => Dead l) (boot {} 0 : FFmpegWorker ℕ) thirtyFailures := by
  decide +kernel

/-- The run of the thirty failures does not lead to FAILED_OPEN. -/
theorem never_failed_open_thirty :
    machine.Always (fun w => w.state ≠ .failedOpen) (boot {} 0 : FFmpegWorker ℕ) thirtyFailures :=
  never_failed_open 0 thirtyFailures dead_thirtyFailures

/-- Thirty failures are recorded in a row on a dead target, and the worker
spawns the next process. -/
theorem thirty_failures_stay_closed :
    machine.Meets (fun _ l => Dead l) (boot {} 0 : FFmpegWorker ℕ) thirtyFailures ∧
      (machine.run (boot {} 0) thirtyFailures).any
        (fun w => w.attempt = 30 ∧ w.state = .reconnecting ∧ w.Spawning) :=
  ⟨dead_thirtyFailures, by decide +kernel⟩

end Thirty

end FFmpegWorker

end RestreamPlus
