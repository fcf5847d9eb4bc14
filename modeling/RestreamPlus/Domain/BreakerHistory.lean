import Mathlib.Data.List.DropRight
import RestreamPlus.Domain.CircuitBreaker
import RestreamPlus.Lib.SlidingWindow

/-!
# What a breaker answers, from its history

`CircuitBreaker` throws away what it believes it will not need: failures that
left the window, and all of them once the worker has been healthy for long
enough. `failureCount` throws nothing away. It reads the number of failures
that still count off the list of all calls.

The two agree as long as the clock does not go back (`Agrees`).
-/

namespace RestreamPlus

namespace CircuitBreaker

/-- A call of the breaker. -/
inductive Op : Type where
  | recordFailure (now : ℚ)
  | recordHealthy (now : ℚ)
  | shouldOpen (now : ℚ)
  | failureCountInWindow (now : ℚ)
  | reset
  deriving DecidableEq

namespace Op

/-- The timestamp of a call; `reset` takes none. -/
def time : Op → Option ℚ
  | .recordFailure now | .recordHealthy now => some now
  | .shouldOpen now | .failureCountInWindow now => some now
  | .reset => none

/-- The two calls that only ask. -/
def isQuery : Op → Bool
  | .shouldOpen _ | .failureCountInWindow _ => true
  | _ => false

/-- What a call leaves of the breaker. -/
def apply (b : CircuitBreaker) : Op → CircuitBreaker
  | .recordFailure now => b.recordFailure now
  | .recordHealthy now => b.recordHealthy now
  | .shouldOpen now => (b.shouldOpen now).1
  | .failureCountInWindow now => (b.failureCountInWindow now).1
  | .reset => b.reset

/-- Not one of the calls that disarm the healthy timer. -/
def keepsTimer : Op → Bool
  | .recordFailure _ | .reset => false
  | _ => true

def healthyAt : Op → Option ℚ
  | .recordHealthy now => some now
  | _ => none

/-- A failure recorded at or after an instant. -/
def FailedSince (c : ℚ) : Op → Prop
  | .recordFailure t => c ≤ t
  | _ => False

instance (c : ℚ) (op : Op) : Decidable (op.FailedSince c) := by
  cases op <;> unfold FailedSince <;> infer_instance

end Op

/-- The breaker after a list of calls. -/
def after (policy : CircuitBreakerPolicy) (h : List Op) : CircuitBreaker :=
  h.foldl Op.apply (init policy)

/-- The timestamps of the calls, and then `now`, never decrease. -/
def Ordered (h : List Op) (now : ℚ) : Prop := (h.filterMap Op.time ++ [now]).Pairwise (· ≤ ·)

instance (h : List Op) (now : ℚ) : Decidable (Ordered h now) :=
  inferInstanceAs (Decidable (List.Pairwise _ _))

section Specification

/-- The first `record_healthy` since the last failure or reset. -/
def healthySince (h : List Op) : Option ℚ := (h.rtakeWhile Op.keepsTimer).findSome? Op.healthyAt

/-- **The clearing events**: a reset, and a `record_healthy` that comes at least
`healthy_reset_after` after the first one since the last failure or reset. -/
def Clears (policy : CircuitBreakerPolicy) (h : List Op) : Op → Prop
  | .reset => True
  | .recordHealthy now => ∃ since ∈ healthySince h, policy.healthyResetAfter ≤ now - since
  | _ => False

instance (policy : CircuitBreakerPolicy) (h : List Op) (op : Op) :
    Decidable (Clears policy h op) := by
  cases op <;> unfold Clears <;> infer_instance

/-- While the span is positive, it makes no difference whether the first
`record_healthy` is held against itself as well. -/
theorem clears_recordHealthy_iff {policy : CircuitBreakerPolicy} {h : List Op} {now : ℚ}
    (hpos : 0 < policy.healthyResetAfter) : Clears policy h (.recordHealthy now) ↔
      ∃ since ∈ healthySince (h ++ [.recordHealthy now]),
        policy.healthyResetAfter ≤ now - since := by
  rw [Clears, healthySince, healthySince, List.rtakeWhile_concat_pos _ _ _ rfl,
    List.findSome?_append]
  rcases (h.rtakeWhile Op.keepsTimer).findSome? Op.healthyAt with _ | since
  · refine ⟨fun ⟨since, hs, _⟩ => (by cases hs), fun ⟨since, hs, hle⟩ => ?_⟩
    obtain rfl : now = since := Option.some.inj hs
    rw [sub_self] at hle
    exact absurd hle (not_le_of_gt hpos)
  · exact Iff.rfl

/-- The call at index `i` recorded a failure in the window, and no clearing event
came after it. -/
def Counts (policy : CircuitBreakerPolicy) (h : List Op) (now : ℚ) (i : ℕ) : Prop :=
  (∃ op ∈ h[i]?, op.FailedSince (now - policy.window)) ∧
    ∀ j < h.length, i < j → ¬ ∃ op ∈ h[j]?, Clears policy (h.take j) op

instance (policy : CircuitBreakerPolicy) (h : List Op) (now : ℚ) (i : ℕ) :
    Decidable (Counts policy h now i) := by unfold Counts; infer_instance

/-- How many failures count. -/
def failureCount (policy : CircuitBreakerPolicy) (h : List Op) (now : ℚ) : ℕ :=
  (List.range h.length).countP (Counts policy h now ·)

end Specification

section OneMoreCall

variable {policy : CircuitBreakerPolicy} {h : List Op} {op : Op} {now : ℚ} {i : ℕ}

theorem healthySince_disarm (hop : op.keepsTimer = false) : healthySince (h ++ [op]) = none := by
  rw [healthySince, List.rtakeWhile_concat, hop]
  rfl

theorem healthySince_concat (hop : op.keepsTimer = true) :
    healthySince (h ++ [op]) = (healthySince h).or op.healthyAt := by
  rw [healthySince, List.rtakeWhile_concat, if_pos hop, List.findSome?_append]
  exact congrArg _ (by rw [List.findSome?_cons]; cases op.healthyAt <;> rfl)

/-- What counted before counts on, unless the new call clears. -/
theorem counts_concat_of_lt (hi : i < h.length) :
    Counts policy (h ++ [op]) now i ↔ Counts policy h now i ∧ ¬ Clears policy h op := by
  have hget : ∀ j < h.length, (h ++ [op])[j]? = h[j]? := fun j hj => List.getElem?_append_left hj
  have hlast : (h ++ [op])[h.length]? = some op := List.getElem?_concat_length
  rw [Counts, Counts, hget i hi, and_assoc]
  refine and_congr_right fun _ =>
    ⟨fun hno => ⟨fun j hj hij => ?_, fun hc => ?_⟩, fun hno j hj hij => ?_⟩
  · have := hno j (by rw [List.length_append]; omega) hij
    rwa [hget j hj, List.take_append_of_le_length hj.le] at this
  · refine hno h.length (by rw [List.length_append]; simp) hi ⟨op, hlast, ?_⟩
    rwa [List.take_left]
  · rw [List.length_append, List.length_singleton] at hj
    rcases Nat.lt_succ_iff_lt_or_eq.mp hj with hj | rfl
    · rw [hget j hj, List.take_append_of_le_length hj.le]
      exact hno.1 j hj hij
    · rw [hlast, List.take_left]
      rintro ⟨_, hop, hc⟩
      obtain rfl := Option.some.inj hop
      exact hno.2 hc

theorem counts_concat_last :
    Counts policy (h ++ [op]) now h.length ↔ op.FailedSince (now - policy.window) := by
  have hlast : (h ++ [op])[h.length]? = some op := List.getElem?_concat_length
  rw [Counts, hlast]
  refine ⟨?_, fun hf => ⟨⟨op, rfl, hf⟩, fun j hj hij => ?_⟩⟩
  · rintro ⟨⟨_, hop, hf⟩, -⟩
    obtain rfl := Option.some.inj hop
    exact hf
  · rw [List.length_append, List.length_singleton] at hj
    omega

/-- **One more call**, as the specification sees it. -/
theorem failureCount_concat (policy : CircuitBreakerPolicy) (h : List Op) (op : Op) (now : ℚ) :
    failureCount policy (h ++ [op]) now =
      (if Clears policy h op then 0 else failureCount policy h now)
        + if op.FailedSince (now - policy.window) then 1 else 0 := by
  have hold : (List.range h.length).countP (Counts policy (h ++ [op]) now ·) =
      if Clears policy h op then 0 else failureCount policy h now := by
    split
    case isTrue hc =>
      refine List.countP_eq_zero.mpr fun i hi => ?_
      rw [decide_eq_true_iff, counts_concat_of_lt (List.mem_range.mp hi)]
      exact fun hcounts => hcounts.2 hc
    case isFalse hc =>
      refine List.countP_congr fun i hi => ?_
      rw [decide_eq_true_iff, decide_eq_true_iff, counts_concat_of_lt (List.mem_range.mp hi)]
      exact and_iff_left hc
  rw [failureCount, List.length_append, List.length_singleton, List.range_succ, List.countP_append,
    hold, List.countP_singleton]
  simp only [counts_concat_last, decide_eq_true_eq]

/-- A query is not part of what the specification reads. -/
theorem failureCount_filter (policy : CircuitBreakerPolicy) (h : List Op) (now : ℚ) :
    healthySince (h.filter (!·.isQuery)) = healthySince h ∧
      failureCount policy (h.filter (!·.isQuery)) now = failureCount policy h now := by
  induction h using List.reverseRecOn with
  | nil => exact ⟨rfl, rfl⟩
  | append_singleton h op ih =>
    rw [List.filter_append]
    cases hq : op.isQuery with
    | true =>
      -- a query leaves the timer and the failures as they are
      have hclears : ¬ Clears policy h op := by cases op <;> first | exact id | cases hq
      have hfailed : ¬ op.FailedSince (now - policy.window) := by
        cases op <;> first | exact id | cases hq
      have hkeeps : op.keepsTimer = true ∧ op.healthyAt = none := by
        cases op <;> first | exact ⟨rfl, rfl⟩ | cases hq
      rw [List.filter_singleton, hq, failureCount_concat, if_neg hclears, if_neg hfailed,
        healthySince_concat hkeeps.1, hkeeps.2, Option.or_none]
      simpa using ih
    | false =>
      have hfilter : [op].filter (!·.isQuery) = [op] := by rw [List.filter_singleton, hq]; rfl
      have hclears : Clears policy (h.filter (!·.isQuery)) op ↔ Clears policy h op := by
        cases op <;> simp only [Clears, ih.1]
      rw [hfilter, failureCount_concat, failureCount_concat, ih.2]
      simp only [hclears, and_true]
      cases hk : op.keepsTimer with
      | true => rw [healthySince_concat hk, healthySince_concat hk, ih.1]
      | false => rw [healthySince_disarm hk, healthySince_disarm hk]

end OneMoreCall

section Agreement

variable {policy : CircuitBreakerPolicy} {b : CircuitBreaker} {h : List Op} {op : Op} {now t : ℚ}

theorem Ordered.of_concat (hord : Ordered (h ++ [op]) now) : Ordered h now := by
  refine List.Pairwise.sublist ?_ hord
  rw [List.filterMap_append, List.append_assoc]
  exact List.Sublist.append_left (List.sublist_append_right _ _) _

theorem Ordered.at_last (hord : Ordered (h ++ [op]) now) (ht : op.time = some t) :
    Ordered h t ∧ t ≤ now := by
  have htimes : [op].filterMap Op.time = [t] := by rw [List.filterMap_cons, ht]; rfl
  rw [Ordered, List.filterMap_append, htimes, List.pairwise_append] at hord
  exact ⟨hord.1, hord.2.2 t (List.mem_append_right _ List.mem_cons_self) now List.mem_cons_self⟩

/-- **The breaker agrees with its history**: the timer is the one the history
shows, the failures it holds are in order, and from now on every window has as
many of them as count. What it has thrown away makes no difference. -/
structure Agrees (policy : CircuitBreakerPolicy) (h : List Op) (b : CircuitBreaker) : Prop where
  policy_eq : b.policy = policy
  timer : b.lastHealthySince = healthySince h
  sorted : b.failures.Pairwise (· ≤ ·)
  earlier : ∀ now, Ordered h now → ∀ t ∈ b.failures, t ≤ now
  count : ∀ now, Ordered h now →
    b.failures.countP (now - policy.window ≤ ·) = failureCount policy h now

theorem agrees_init (policy : CircuitBreakerPolicy) : Agrees policy [] (init policy) :=
  ⟨rfl, rfl, .nil, fun _ _ _ ht => (List.not_mem_nil ht).elim, fun _ _ => rfl⟩

/-- An eviction at an instant the history allows. -/
theorem Agrees.evictOld (ha : Agrees policy h b) (t : ℚ) :
    (b.evictOld t).failures = SlidingWindow.evict (t - policy.window) b.failures := by
  rw [← ha.policy_eq]
  rfl

/-- The two queries only evict. -/
theorem Agrees.query (ha : Agrees policy h b) (htime : op.time = some t)
    (hquery : op.isQuery = true) : Agrees policy (h ++ [op]) (b.evictOld t) := by
  have hkeeps : op.keepsTimer = true ∧ op.healthyAt = none := by
    cases op <;> first | exact ⟨rfl, rfl⟩ | cases hquery
  have hcount : ∀ now, failureCount policy (h ++ [op]) now = failureCount policy h now := by
    intro now
    rw [← (failureCount_filter policy (h ++ [op]) now).2, List.filter_append, List.filter_singleton,
      hquery, ← (failureCount_filter policy h now).2]
    exact congrArg (failureCount policy · now) (List.append_nil _)
  refine ⟨ha.policy_eq, ?_, ?_, fun now hord u hu => ?_, fun now hord => ?_⟩
  · rw [healthySince_concat hkeeps.1, hkeeps.2, Option.or_none]
    exact ha.timer
  · rw [ha.evictOld]
    exact SlidingWindow.pairwise_evict ha.sorted _
  · exact ha.earlier now hord.of_concat u ((failures_evictOld_suffix b t).subset hu)
  · have hle : t - policy.window ≤ now - policy.window := sub_le_sub_right (hord.at_last htime).2 _
    rw [ha.evictOld, SlidingWindow.countP_evict ha.sorted hle, hcount]
    exact ha.count now hord.of_concat

theorem Agrees.recordFailure (ha : Agrees policy h b) (hord : Ordered h t) :
    Agrees policy (h ++ [.recordFailure t]) (b.recordFailure t) := by
  refine ⟨ha.policy_eq, (healthySince_disarm rfl).symm, ?_, fun now hnow u hu => ?_,
    fun now hnow => ?_⟩
  · refine List.pairwise_append.mpr ⟨?_, List.pairwise_singleton _ _, fun u hu v hv => ?_⟩
    · rw [ha.evictOld]
      exact SlidingWindow.pairwise_evict ha.sorted _
    · obtain rfl := List.mem_singleton.mp hv
      exact ha.earlier v hord u ((failures_evictOld_suffix b v).subset hu)
  · rcases List.mem_append.mp hu with hu | hu
    · exact ha.earlier now hnow.of_concat u ((failures_evictOld_suffix b t).subset hu)
    · obtain rfl := List.mem_singleton.mp hu
      exact (hnow.at_last rfl).2
  · have hle : t - policy.window ≤ now - policy.window := sub_le_sub_right (hnow.at_last rfl).2 _
    rw [failureCount_concat, if_neg (show ¬ Clears policy h (.recordFailure t) from id),
      ← ha.count now hnow.of_concat]
    show ((b.evictOld t).failures ++ [t]).countP _ = _
    rw [List.countP_append, ha.evictOld, SlidingWindow.countP_evict ha.sorted hle,
      List.countP_singleton]
    simp only [decide_eq_true_eq, Op.FailedSince]

/-- An early `record_healthy` arms the timer, a late one clears. -/
theorem Agrees.recordHealthy (ha : Agrees policy h b) (t : ℚ) :
    Agrees policy (h ++ [.recordHealthy t]) (b.recordHealthy t) := by
  have htimer : healthySince (h ++ [.recordHealthy t]) = b.lastHealthySince.or (some t) := by
    rw [healthySince_concat rfl, ha.timer]
    rfl
  have hcount : ∀ now, failureCount policy (h ++ [.recordHealthy t]) now =
      if Clears policy h (.recordHealthy t) then 0 else failureCount policy h now := by
    intro now
    rw [failureCount_concat, if_neg (show ¬ Op.FailedSince _ (.recordHealthy t) from id),
      Nat.add_zero]
  rw [CircuitBreaker.recordHealthy]
  rcases hs : b.lastHealthySince with _ | since
  · have hnot : ¬ Clears policy h (.recordHealthy t) := by
      rintro ⟨since, hsince, -⟩
      rw [← ha.timer, hs] at hsince
      cases hsince
    refine ⟨ha.policy_eq, ?_, ha.sorted, fun now hord => ha.earlier now hord.of_concat,
      fun now hord => ?_⟩
    · rw [htimer, hs]
      rfl
    · rw [hcount, if_neg hnot]
      exact ha.count now hord.of_concat
  · have hiff : Clears policy h (.recordHealthy t) ↔ b.policy.healthyResetAfter ≤ t - since := by
      rw [Clears, ← ha.timer, hs, ha.policy_eq]
      exact ⟨fun ⟨u, hu, hle⟩ => Option.some.inj hu ▸ hle, fun hle => ⟨since, rfl, hle⟩⟩
    have htimer' : b.lastHealthySince = healthySince (h ++ [.recordHealthy t]) := by
      rw [htimer, hs]
      rfl
    dsimp only
    split
    case isTrue hle =>
      refine ⟨ha.policy_eq, hs.symm.trans htimer', .nil, fun _ _ _ hu => (List.not_mem_nil hu).elim,
        fun now hord => ?_⟩
      rw [hcount, if_pos (hiff.mpr hle)]
      rfl
    case isFalse hlt =>
      refine ⟨ha.policy_eq, htimer', ha.sorted, fun now hord => ha.earlier now hord.of_concat,
        fun now hord => ?_⟩
      rw [hcount, if_neg (mt hiff.mp hlt)]
      exact ha.count now hord.of_concat

theorem Agrees.reset (ha : Agrees policy h b) : Agrees policy (h ++ [.reset]) b.reset := by
  refine ⟨ha.policy_eq, (healthySince_disarm rfl).symm, .nil,
    fun _ _ _ hu => (List.not_mem_nil hu).elim, fun now _ => ?_⟩
  rw [failureCount_concat, if_pos (show Clears policy h .reset from trivial),
    if_neg (show ¬ Op.FailedSince _ .reset from id)]
  rfl

/-- What one call preserves. -/
theorem Agrees.apply (ha : Agrees policy h b) (hord : ∀ t ∈ op.time, Ordered h t) :
    Agrees policy (h ++ [op]) (op.apply b) := by
  cases op with
  | recordFailure t => exact ha.recordFailure (hord t rfl)
  | recordHealthy t => exact ha.recordHealthy t
  | shouldOpen t => exact ha.query rfl rfl
  | failureCountInWindow t => exact ha.query rfl rfl
  | reset => exact ha.reset

/-- **After every ordered list of calls** the breaker agrees with it. -/
theorem agrees_after (hord : Ordered h now) : Agrees policy h (after policy h) := by
  induction h using List.reverseRecOn generalizing now with
  | nil => exact agrees_init policy
  | append_singleton h op ih =>
    rw [after, List.foldl_append]
    exact (ih hord.of_concat).apply fun t ht => (hord.at_last ht).1

theorem failureCountInWindow_after (hord : Ordered h now) :
    ((after policy h).failureCountInWindow now).2 = failureCount policy h now := by
  have ha : Agrees policy h (after policy h) := agrees_after hord
  rw [← ha.count now hord, failureCountInWindow, ha.evictOld, SlidingWindow.length_evict ha.sorted]

theorem shouldOpen_after (hord : Ordered h now) :
    ((after policy h).shouldOpen now).2 = .open ↔
      policy.maxFailures ≤ failureCount policy h now := by
  have ha : Agrees policy h (after policy h) := agrees_after hord
  rw [← failureCountInWindow_after hord, shouldOpen, policy_evictOld, ha.policy_eq]
  dsimp only
  split
  case isTrue hle => exact ⟨fun _ => hle, fun _ => rfl⟩
  case isFalse hlt => exact ⟨fun heq => (by cases heq), fun hle => (hlt hle).elim⟩

private theorem verdict_eq {u v : BreakerVerdict} (h : u = .open ↔ v = .open) : u = v := by
  cases u with
  | «open» => exact (h.mp rfl).symm
  | closed =>
    cases v with
    | «open» => cases h.mpr rfl
    | closed => rfl

/-- **Both queries read the history**, and histories that differ in queries only
are answered alike. -/
theorem answers_from_history (policy : CircuitBreakerPolicy) (h : List Op) (now : ℚ)
    (hord : Ordered h now) :
    (((after policy h).shouldOpen now).2 = .open ↔ policy.maxFailures ≤ failureCount policy h now) ∧
    ((after policy h).failureCountInWindow now).2 = failureCount policy h now ∧
    ∀ h' : List Op, h'.filter (!·.isQuery) = h.filter (!·.isQuery) → Ordered h' now →
      ((after policy h').shouldOpen now).2 = ((after policy h).shouldOpen now).2 ∧
      ((after policy h').failureCountInWindow now).2 =
        ((after policy h).failureCountInWindow now).2 := by
  refine ⟨shouldOpen_after hord, failureCountInWindow_after hord, fun h' heq hord' => ?_⟩
  have hcount : failureCount policy h' now = failureCount policy h now := by
    rw [← (failureCount_filter policy h' now).2, heq, (failureCount_filter policy h now).2]
  refine ⟨verdict_eq ?_, ?_⟩
  · rw [shouldOpen_after hord', shouldOpen_after hord, hcount]
  · rw [failureCountInWindow_after hord', failureCountInWindow_after hord, hcount]

/-- Two failures are cleared by five healthy seconds, a third one counts. -/
theorem answers_from_history_cleared :
    ((after ⟨2, 10, 5⟩ [.recordFailure 0, .recordFailure 1, .shouldOpen 1, .recordHealthy 2,
      .recordHealthy 7, .recordFailure 8]).failureCountInWindow 9).2 = 1 :=
  (answers_from_history _ _ _ (by decide +kernel)).2.1.trans (by decide +kernel)

end Agreement

end CircuitBreaker

end RestreamPlus
