import RestreamPlus.Lib.Condition
import RestreamPlus.Lib.DropOldest
import RestreamPlus.Lib.Machine

/-!
# The event bus (`app/fanout/event_bus.py`)

A bounded buffer between the supervisor and one drainer. A producer calls `put`
and then `_notify_bus_soon`, which schedules a callback; the callback creates a
task that runs `notify()`. The drainer pops the whole buffer under the condition
and yields it entry by entry, suspended for as long as its consumer likes.

The steps are finer than those of the event loop: a producer may come in between
any two operations on the condition, also between the drainer's look at the
buffer and its `wait()`.

* `bus_conserves` — what was yielded, popped and buffered is in the order of the
  puts, and everything else was counted as dropped;
* `no_lost_wake_up` — a drainer that waits in front of a filled buffer has its
  wake-up on the way, and `wake_up_can_proceed` says that nothing blocks it.
-/

namespace RestreamPlus

open Interleaving DropOldest

universe u

/-- The attributes of `EventBus`, without the condition. -/
structure EventBus (ε : Type u) : Type u where
  buf : List ε
  capacity : ℕ
  droppedTotal : ℕ

namespace EventBus

variable {ε : Type u}

/-- `EventBus.__init__`. -/
def new (capacity : ℤ) : Except String (EventBus ε) :=
  if capacity ≤ 0 then .error "capacity must be > 0"
  else .ok ⟨[], capacity.toNat, 0⟩

/-- `EventBus.put`. -/
def put (bus : EventBus ε) (event : ε) : EventBus ε where
  buf := push bus.capacity bus.buf event
  capacity := bus.capacity
  droppedTotal :=
    if bus.buf.length ≥ bus.capacity then bus.droppedTotal + 1 else bus.droppedTotal

/-- `self._buf.clear()`. -/
def clear (bus : EventBus ε) : EventBus ε := { bus with buf := [] }

/-! ## The tasks around a bus -/

/-- The tasks that use the condition. -/
inductive BusTask : Type where
  | drainer
  /-- the task with this number that runs `notify()` -/
  | notifier : ℕ → BusTask
  deriving DecidableEq

/-- Where `notify()` is. -/
inductive NotifyPhase : Type where
  | created
  /-- inside the condition, before `notify_all` -/
  | entered
  /-- … after it -/
  | notified
  | finished
  deriving DecidableEq

/-- Where `drain()` is. -/
inductive DrainPhase (ε : Type u) : Type u where
  /-- about to enter the condition -/
  | outside
  /-- inside, about to look at the buffer -/
  | looking
  /-- saw an empty buffer, about to call `wait()` -/
  | foundEmpty
  /-- suspended in `wait()` -/
  | waiting
  /-- popped a batch, still inside the condition -/
  | popped : List ε → DrainPhase ε
  /-- suspended with this much of a batch to yield -/
  | yielding : List ε → DrainPhase ε
  /-- cancelled in `wait()`, which takes the lock once more -/
  | cancelled
  /-- over, with what is left of its last batch -/
  | closed : List ε → DrainPhase ε
  deriving DecidableEq

/-- The batch that was popped and not yielded yet. -/
def DrainPhase.batch : DrainPhase ε → List ε
  | popped batch | yielding batch | closed batch => batch
  | _ => []

/-- A bus with its producers, its notifications and its drainer. -/
structure System (ε : Type u) : Type u where
  bus : EventBus ε
  cond : Condition BusTask
  /-- callbacks `_spawn_notify_task` that the loop has not run yet -/
  scheduled : ℕ
  /-- the tasks those callbacks created, oldest first -/
  notifiers : List NotifyPhase
  drainer : DrainPhase ε
  /-- the entries the drainer has yielded -/
  yielded : List ε
  /-- the entries put before the last pop, and since -/
  earlier : List ε
  recent : List ε

/-- What happens next. -/
inductive Label (ε : Type u) : Type u where
  /-- a producer: `put`, then `_notify_bus_soon` -/
  | put : ε → Label ε
  /-- the loop runs a scheduled callback -/
  | spawnNotifyTask
  /-- a task goes on with `notify()` -/
  | notify : ℕ → Label ε
  /-- the drainer goes on -/
  | drain
  /-- the drainer is cancelled, or its generator closed -/
  | cancel

/-- The entry a step puts. -/
def Label.entry? : Label ε → Option ε
  | .put ev => some ev
  | .spawnNotifyTask | .notify _ | .drain | .cancel => none

/-- The entries put in a run, in order. -/
def puts (labels : List (Label ε)) : List ε := labels.filterMap Label.entry?

namespace System

/-- A fresh bus with its drainer started. -/
def boot (bus : EventBus ε) : System ε where
  bus := bus
  cond := .idle
  scheduled := 0
  notifiers := []
  drainer := .outside
  yielded := []
  earlier := []
  recent := []

/-- One step of `notify()` in the task `i`. -/
def notify (s : System ε) (i : ℕ) : Option (System ε) :=
  match s.notifiers[i]? with
  | some .created => (s.cond.acquire (.notifier i)).map fun cond =>
      { s with cond := cond, notifiers := s.notifiers.set i .entered }
  | some .entered => (s.cond.notifyAll (.notifier i)).map fun cond =>
      { s with cond := cond, notifiers := s.notifiers.set i .notified }
  | some .notified => (s.cond.release (.notifier i)).map fun cond =>
      { s with cond := cond, notifiers := s.notifiers.set i .finished }
  | some .finished | none => none

/-- One step of `drain()`. -/
def drain (s : System ε) : Option (System ε) :=
  match s.drainer with
  | .outside => (s.cond.acquire .drainer).map fun cond =>
      { s with cond := cond, drainer := .looking }
  | .looking =>
    if s.bus.buf.isEmpty then some { s with drainer := .foundEmpty }
    else some { s with
      drainer := .popped s.bus.buf
      bus := s.bus.clear
      earlier := s.earlier ++ s.recent
      recent := [] }
  | .foundEmpty => (s.cond.wait .drainer).map fun cond =>
      { s with cond := cond, drainer := .waiting }
  -- back in the inner `while`
  | .waiting => (s.cond.resume .drainer).map fun cond =>
      { s with cond := cond, drainer := .looking }
  | .popped batch => (s.cond.release .drainer).map fun cond =>
      { s with cond := cond, drainer := .yielding batch }
  | .yielding (ev :: batch) =>
    some { s with drainer := .yielding batch, yielded := s.yielded ++ [ev] }
  | .yielding [] => some { s with drainer := .outside }
  -- `wait()` takes the lock, and leaving the condition gives it up
  | .cancelled => ((s.cond.resume .drainer).bind (·.release .drainer)).map fun cond =>
      { s with cond := cond, drainer := .closed [] }
  | .closed _ => none

/-- A cancellation arrives where the drainer is suspended. -/
def cancel (s : System ε) : Option (System ε) :=
  match s.drainer with
  | .outside => some { s with drainer := .closed [] }
  | .waiting => (s.cond.interrupt .drainer).map fun cond =>
      { s with cond := cond, drainer := .cancelled }
  | .yielding batch => some { s with drainer := .closed batch }
  | .looking | .foundEmpty | .popped _ | .cancelled | .closed _ => none

/-- One step. -/
def step (s : System ε) : Label ε → Option (System ε)
  | .put ev => some { s with
      bus := s.bus.put ev, scheduled := s.scheduled + 1, recent := s.recent ++ [ev] }
  | .spawnNotifyTask =>
    if s.scheduled = 0 then none
    else some { s with
      scheduled := s.scheduled - 1, notifiers := s.notifiers ++ [.created] }
  | .notify i => s.notify i
  | .drain => s.drain
  | .cancel => s.cancel

/-- The bus as a machine. -/
def machine : Machine (System ε) (Label ε) := ⟨step⟩

/-! ## What one step can do -/

variable {s s' t : System ε} {l : Label ε}

theorem step_spawnNotifyTask (h : step s .spawnNotifyTask = some s') :
    s.scheduled ≠ 0 ∧ s' = { s with
      scheduled := s.scheduled - 1, notifiers := s.notifiers ++ [.created] } := by
  simp only [step] at h
  split at h
  · cases h
  · exact ⟨‹_›, (Option.some.inj h).symm⟩

/-- `notify()` touches the condition and its own place only. -/
theorem notify_cases {i : ℕ} (h : s.notify i = some s') :
    ∃ cond phase, s' = { s with cond := cond, notifiers := s.notifiers.set i phase } ∧
      (s.notifiers[i]? = some .created ∧ s.cond.acquire (.notifier i) = some cond ∧
          phase = .entered ∨
        s.notifiers[i]? = some .entered ∧ s.cond.notifyAll (.notifier i) = some cond ∧
          phase = .notified ∨
        s.notifiers[i]? = some .notified ∧ s.cond.release (.notifier i) = some cond ∧
          phase = .finished) := by
  unfold notify at h
  split at h
  · rename_i hi
    obtain ⟨cond, hc, rfl⟩ := Option.map_eq_some_iff.mp h
    exact ⟨cond, _, rfl, .inl ⟨hi, hc, rfl⟩⟩
  · rename_i hi
    obtain ⟨cond, hc, rfl⟩ := Option.map_eq_some_iff.mp h
    exact ⟨cond, _, rfl, .inr (.inl ⟨hi, hc, rfl⟩)⟩
  · rename_i hi
    obtain ⟨cond, hc, rfl⟩ := Option.map_eq_some_iff.mp h
    exact ⟨cond, _, rfl, .inr (.inr ⟨hi, hc, rfl⟩)⟩
  · cases h
  · cases h

/-! ## Conservation -/

/-- What the entries of the bus add up to. -/
structure Conserved (s : System ε) : Prop where
  /-- what left the buffer in a batch left it in order -/
  taken : (s.yielded ++ s.drainer.batch).Sublist s.earlier
  buffer : s.bus.buf = s.recent.rtake s.bus.capacity
  total : (s.earlier ++ s.recent).length =
    s.yielded.length + s.drainer.batch.length + s.bus.buf.length + s.bus.droppedTotal

theorem Conserved.length_buf (h : Conserved s) : s.bus.buf.length ≤ s.bus.capacity := by
  rw [h.buffer, length_rtake]
  exact min_le_left ..

/-- A put evicts exactly what it counts. -/
theorem conserved_put (ev : ε) (h : Conserved s) : Conserved { s with
    bus := s.bus.put ev, scheduled := s.scheduled + 1, recent := s.recent ++ [ev] } where
  taken := h.taken
  buffer := by
    have hb := h.buffer
    simp only [EventBus.put, hb, rtake_push]
  total := by
    have hl := length_push (x := ev) h.length_buf
    have ht := h.total
    rw [evicted] at hl
    simp only [List.length_append, List.length_singleton, EventBus.put, ge_iff_le] at ht ⊢
    split at hl <;> rename_i hc <;> simp only [hc, if_true, if_false] <;> omega

/-- A pop moves the buffer into the batch. -/
theorem conserved_pop (hb : s.drainer.batch = []) (h : Conserved s) : Conserved { s with
    drainer := .popped s.bus.buf, bus := s.bus.clear
    earlier := s.earlier ++ s.recent, recent := [] } where
  taken := by
    have ht := h.taken
    rw [hb, List.append_nil] at ht
    refine ht.append ?_
    rw [DrainPhase.batch, h.buffer]
    exact List.drop_sublist ..
  buffer := by simp [clear]
  total := by
    have ht := h.total
    rw [hb] at ht
    simp only [DrainPhase.batch, clear, List.length_append, List.length_nil] at ht ⊢
    omega

/-- The drainer changes its place, and the batch stays what it was. -/
theorem conserved_move {cond : Condition BusTask} {phase : DrainPhase ε}
    (hb : phase.batch = s.drainer.batch) (h : Conserved s) :
    Conserved { s with cond := cond, drainer := phase } where
  taken := by
    have ht := h.taken
    rwa [← hb] at ht
  buffer := h.buffer
  total := by
    have ht := h.total
    rwa [← hb] at ht

theorem conserved_yield {ev : ε} {batch : List ε} (hd : s.drainer = .yielding (ev :: batch))
    (h : Conserved s) :
    Conserved { s with drainer := .yielding batch, yielded := s.yielded ++ [ev] } where
  taken := by
    have ht := h.taken
    rw [hd] at ht
    simpa [DrainPhase.batch] using ht
  buffer := h.buffer
  total := by
    have ht := h.total
    rw [hd] at ht
    simp only [DrainPhase.batch, List.length_cons, List.length_append, List.length_nil] at ht ⊢
    omega

theorem conserved_drain (hs : s.drain = some s') (h : Conserved s) : Conserved s' := by
  unfold drain at hs
  split at hs <;> rename_i hd
  case h_2 =>
    split at hs
    · obtain rfl := Option.some.inj hs
      exact conserved_move (by rw [hd]; rfl) h
    · obtain rfl := Option.some.inj hs
      exact conserved_pop (by rw [hd]; rfl) h
  case h_6 =>
    obtain rfl := Option.some.inj hs
    exact conserved_yield hd h
  case h_7 =>
    obtain rfl := Option.some.inj hs
    exact conserved_move (by rw [hd]; rfl) h
  case h_9 => cases hs
  all_goals
    obtain ⟨cond, -, rfl⟩ := Option.map_eq_some_iff.mp hs
    exact conserved_move (by rw [hd]; rfl) h

theorem conserved_cancel (hs : s.cancel = some s') (h : Conserved s) : Conserved s' := by
  unfold cancel at hs
  split at hs <;> rename_i hd
  case h_2 =>
    obtain ⟨cond, -, rfl⟩ := Option.map_eq_some_iff.mp hs
    exact conserved_move (by rw [hd]; rfl) h
  case h_1 | h_3 =>
    obtain rfl := Option.some.inj hs
    exact conserved_move (by rw [hd]; rfl) h
  all_goals cases hs

theorem conserved_step (hs : step s l = some s') (h : Conserved s) : Conserved s' := by
  cases l with
  | put ev =>
    obtain rfl := Option.some.inj hs
    exact conserved_put ev h
  | spawnNotifyTask =>
    obtain ⟨-, rfl⟩ := step_spawnNotifyTask hs
    exact ⟨h.taken, h.buffer, h.total⟩
  | notify i =>
    obtain ⟨cond, phase, rfl, -⟩ := notify_cases hs
    exact ⟨h.taken, h.buffer, h.total⟩
  | drain => exact conserved_drain hs h
  | cancel => exact conserved_cancel hs h

/-- The drainer puts nothing and drops nothing. -/
theorem drain_frame (h : s.drain = some s') :
    s'.earlier ++ s'.recent = s.earlier ++ s.recent ∧
      s'.bus.droppedTotal = s.bus.droppedTotal ∧ s'.bus.capacity = s.bus.capacity := by
  unfold drain at h
  split at h
  case h_2 =>
    split at h
    · obtain rfl := Option.some.inj h
      exact ⟨rfl, rfl, rfl⟩
    · obtain rfl := Option.some.inj h
      exact ⟨List.append_nil _, rfl, rfl⟩
  case h_6 | h_7 =>
    obtain rfl := Option.some.inj h
    exact ⟨rfl, rfl, rfl⟩
  case h_9 => cases h
  all_goals
    obtain ⟨cond, -, rfl⟩ := Option.map_eq_some_iff.mp h
    exact ⟨rfl, rfl, rfl⟩

theorem cancel_frame (h : s.cancel = some s') :
    s'.earlier ++ s'.recent = s.earlier ++ s.recent ∧ s'.bus = s.bus := by
  unfold cancel at h
  split at h
  case h_2 =>
    obtain ⟨cond, -, rfl⟩ := Option.map_eq_some_iff.mp h
    exact ⟨rfl, rfl⟩
  case h_1 | h_3 =>
    obtain rfl := Option.some.inj h
    exact ⟨rfl, rfl⟩
  all_goals cases h

/-- The log grows by what a step puts, the counter never goes down, and the
capacity stays. -/
theorem frame_step (h : step s l = some s') :
    s'.earlier ++ s'.recent = s.earlier ++ s.recent ++ l.entry?.toList ∧
      s.bus.droppedTotal ≤ s'.bus.droppedTotal ∧ s'.bus.capacity = s.bus.capacity := by
  cases l with
  | put ev =>
    obtain rfl := Option.some.inj h
    refine ⟨by simp [Label.entry?], ?_, rfl⟩
    simp only [EventBus.put]
    split <;> omega
  | spawnNotifyTask =>
    obtain ⟨-, rfl⟩ := step_spawnNotifyTask h
    exact ⟨by simp [Label.entry?], le_rfl, rfl⟩
  | notify i =>
    obtain ⟨cond, phase, rfl, -⟩ := notify_cases h
    exact ⟨by simp [Label.entry?], le_rfl, rfl⟩
  | drain =>
    obtain ⟨hl, hd, hc⟩ := drain_frame h
    exact ⟨by simp [hl, Label.entry?], hd.ge, hc⟩
  | cancel =>
    obtain ⟨hl, hb⟩ := cancel_frame h
    exact ⟨by simp [hl, Label.entry?], by rw [hb], by rw [hb]⟩

theorem frame_run {labels : List (Label ε)} (h : machine.run s labels = some t) :
    t.earlier ++ t.recent = s.earlier ++ s.recent ++ puts labels ∧
      s.bus.droppedTotal ≤ t.bus.droppedTotal ∧ t.bus.capacity = s.bus.capacity := by
  induction labels generalizing s with
  | nil =>
    obtain rfl := Option.some.inj h
    exact ⟨by simp [puts], le_rfl, rfl⟩
  | cons l labels ih =>
    obtain ⟨s', hs, ht⟩ := Machine.run_cons_eq_some h
    obtain ⟨hl, hd, hc⟩ := frame_step hs
    obtain ⟨hl', hd', hc'⟩ := ih ht
    refine ⟨?_, hd.trans hd', hc'.trans hc⟩
    rw [hl', hl, List.append_assoc, puts, puts]
    cases l <;> rfl

/-! ## Wake-ups -/

/-- The drainer holds the condition's lock here. -/
def Inside : DrainPhase ε → Prop
  | .looking | .foundEmpty | .popped _ => True
  | _ => False

/-- A callback or a task is going to notify, or the drainer has been woken. -/
def WakeUpPending (s : System ε) : Prop :=
  s.scheduled ≠ 0 ∨
    (∃ i : ℕ, s.notifiers[i]? = some .created ∨ s.notifiers[i]? = some .entered) ∨
    BusTask.drainer ∈ s.cond.woken

/-- No callback is scheduled, no task is left, and nobody has been woken. -/
def Quiescent (s : System ε) : Prop :=
  s.scheduled = 0 ∧ (∀ phase ∈ s.notifiers, phase = .finished) ∧ s.cond.woken = []

/-- The lock is held by whoever is inside, and a drainer that goes to sleep in
front of a filled buffer is woken. -/
structure Sound (s : System ε) : Prop where
  drainer_inside : s.cond.holder = some .drainer ↔ Inside s.drainer
  notifier_inside : ∀ i : ℕ, s.cond.holder = some (.notifier i) ↔
    s.notifiers[i]? = some .entered ∨ s.notifiers[i]? = some .notified
  suspended : s.drainer = .waiting →
    BusTask.drainer ∈ s.cond.waiting ∨ BusTask.drainer ∈ s.cond.woken
  announced : s.bus.buf ≠ [] → s.drainer = .foundEmpty ∨ s.drainer = .waiting → WakeUpPending s

theorem sound_boot (bus : EventBus ε) : Sound (boot bus) where
  drainer_inside := by simp [boot, Condition.idle, Inside]
  notifier_inside i := by simp [boot, Condition.idle]
  suspended h := by cases h
  announced _ h := by rcases h with h | h <;> cases h

theorem sound_put (ev : ε) (h : Sound s) : Sound { s with
    bus := s.bus.put ev, scheduled := s.scheduled + 1, recent := s.recent ++ [ev] } where
  drainer_inside := h.drainer_inside
  notifier_inside := h.notifier_inside
  suspended := h.suspended
  -- the callback is scheduled in the same step
  announced _ _ := .inl (Nat.succ_ne_zero _)

theorem sound_spawn (h : Sound s) : Sound { s with
    scheduled := s.scheduled - 1, notifiers := s.notifiers ++ [.created] } where
  drainer_inside := h.drainer_inside
  notifier_inside i := by
    rw [h.notifier_inside i]
    rcases lt_or_ge i s.notifiers.length with hi | hi
    · rw [List.getElem?_append_left hi]
    · rw [List.getElem?_append_right hi, List.getElem?_eq_none hi, List.getElem?_singleton]
      split <;> simp
  suspended := h.suspended
  announced _ _ := .inr (.inl ⟨s.notifiers.length, .inl (by simp)⟩)

/-- The task `i` takes the lock. -/
theorem sound_enter {i : ℕ} (hi : s.notifiers[i]? = some .created) (hc : s.cond.holder = none)
    (h : Sound s) : Sound { s with
      cond := { s.cond with holder := some (.notifier i) }
      notifiers := s.notifiers.set i .entered } where
  drainer_inside := by
    have hd := h.drainer_inside
    rw [hc] at hd
    simpa using hd
  notifier_inside j := by
    have hj := h.notifier_inside j
    rw [hc] at hj
    rw [List.getElem?_set]
    split
    · rename_i hij
      obtain ⟨hlt, -⟩ := List.getElem?_eq_some_iff.mp hi
      simp [hij ▸ hlt, hij]
    · rename_i hij
      rw [← hj]
      simp [hij]
  suspended := h.suspended
  announced hb hd := by
    refine .inr (.inl ⟨i, .inr ?_⟩)
    obtain ⟨hlt, -⟩ := List.getElem?_eq_some_iff.mp hi
    simp [hlt]

/-- The task `i` notifies: it holds the lock, so the drainer is not on its way
into `wait()`. -/
theorem sound_notifyAll {i : ℕ} (hi : s.notifiers[i]? = some .entered)
    (hc : s.cond.holder = some (.notifier i)) (h : Sound s) : Sound { s with
      cond := { s.cond with waiting := [], woken := s.cond.woken ++ s.cond.waiting }
      notifiers := s.notifiers.set i .notified } where
  drainer_inside := h.drainer_inside
  notifier_inside j := by
    rw [h.notifier_inside j, List.getElem?_set]
    split
    · rename_i hij
      subst hij
      obtain ⟨hlt, -⟩ := List.getElem?_eq_some_iff.mp hi
      exact ⟨fun _ => .inr (by simp [hlt]), fun _ => .inl hi⟩
    · rfl
  suspended hd := .inr (List.mem_append.mpr (h.suspended hd).symm)
  announced hb hd := by
    rcases hd with hd | hd
    · have hin : s.cond.holder = some .drainer := h.drainer_inside.mpr (by rw [hd]; trivial)
      rw [hc] at hin
      cases hin
    · exact .inr (.inr (List.mem_append.mpr (h.suspended hd).symm))

/-- The task `i` is done. -/
theorem sound_leave {i : ℕ} (hi : s.notifiers[i]? = some .notified)
    (hc : s.cond.holder = some (.notifier i)) (h : Sound s) : Sound { s with
      cond := { s.cond with holder := none }
      notifiers := s.notifiers.set i .finished } where
  drainer_inside := by
    have hd := h.drainer_inside
    rw [hc] at hd
    simpa using hd
  notifier_inside j := by
    have hj := h.notifier_inside j
    rw [hc] at hj
    rw [List.getElem?_set]
    split
    · split <;> simp
    · rename_i hij
      rw [← hj]
      simp [hij]
  suspended := h.suspended
  announced hb hd := by
    rcases h.announced hb hd with hp | ⟨j, hj⟩ | hp
    · exact .inl hp
    · refine .inr (.inl ⟨j, ?_⟩)
      have hij : i ≠ j := by
        rintro rfl
        rw [hi] at hj
        simp at hj
      rwa [List.getElem?_set_ne hij]
    · exact .inr (.inr hp)

theorem sound_notify {i : ℕ} (hs : s.notify i = some s') (h : Sound s) : Sound s' := by
  obtain ⟨cond, phase, rfl, ⟨hi, hc, rfl⟩ | ⟨hi, hc, rfl⟩ | ⟨hi, hc, rfl⟩⟩ := notify_cases hs
  · obtain ⟨hn, rfl⟩ := Condition.acquire_eq_some hc
    exact sound_enter hi hn h
  · obtain ⟨hn, rfl⟩ := Condition.notifyAll_eq_some hc
    exact sound_notifyAll hi hn h
  · obtain ⟨hn, rfl⟩ := Condition.release_eq_some hc
    exact sound_leave hi hn h

/-- The drainer goes to a place where it does not wait and is about to do so. -/
theorem sound_move {bus : EventBus ε} {cond : Condition BusTask} {phase : DrainPhase ε}
    {yielded earlier recent : List ε} (hin : cond.holder = some .drainer ↔ Inside phase)
    (hout : ∀ i : ℕ, cond.holder = some (.notifier i) ↔ s.cond.holder = some (.notifier i))
    (hp : phase ≠ .foundEmpty ∧ phase ≠ .waiting) (h : Sound s) : Sound { s with
      bus := bus, cond := cond, drainer := phase
      yielded := yielded, earlier := earlier, recent := recent } where
  drainer_inside := hin
  notifier_inside i := (hout i).trans (h.notifier_inside i)
  suspended hd := absurd hd hp.2
  announced _ hd := (hd.elim hp.1 hp.2).elim

/-- The drainer goes to sleep: what was pending stays pending. -/
theorem sound_wait (hd : s.drainer = .foundEmpty) (hc : s.cond.holder = some .drainer)
    (h : Sound s) : Sound { s with
      cond := { s.cond with holder := none, waiting := s.cond.waiting ++ [.drainer] }
      drainer := .waiting } where
  drainer_inside := by simp [Inside]
  notifier_inside i := by
    rw [← h.notifier_inside i, hc]
    simp
  suspended _ := .inl (by simp)
  announced hb _ := h.announced hb (.inl hd)

theorem sound_look (hd : s.drainer = .looking) (hb : s.bus.buf.isEmpty = true) (h : Sound s) :
    Sound { s with drainer := .foundEmpty } where
  drainer_inside := by
    rw [h.drainer_inside, hd]
    rfl
  notifier_inside := h.notifier_inside
  suspended hd' := by cases hd'
  announced hb' _ := absurd (List.isEmpty_iff.mp hb) hb'

theorem sound_drain (hs : s.drain = some s') (h : Sound s) : Sound s' := by
  have hin := h.drainer_inside
  unfold drain at hs
  split at hs <;> rename_i hd <;> rw [hd] at hin
  · obtain ⟨cond, hc, rfl⟩ := Option.map_eq_some_iff.mp hs
    obtain ⟨hn, rfl⟩ := Condition.acquire_eq_some hc
    exact sound_move (by simp [Inside]) (by simp [hn]) (by simp) h
  · split at hs
    · rename_i hb
      obtain rfl := Option.some.inj hs
      exact sound_look hd hb h
    · obtain rfl := Option.some.inj hs
      exact sound_move hin (fun _ => Iff.rfl) (by simp) h
  · obtain ⟨cond, hc, rfl⟩ := Option.map_eq_some_iff.mp hs
    obtain ⟨hn, rfl⟩ := Condition.wait_eq_some hc
    exact sound_wait hd hn h
  · obtain ⟨cond, hc, rfl⟩ := Option.map_eq_some_iff.mp hs
    obtain ⟨hn, -, rfl⟩ := Condition.resume_eq_some hc
    exact sound_move (by simp [Inside]) (by simp [hn]) (by simp) h
  · obtain ⟨cond, hc, rfl⟩ := Option.map_eq_some_iff.mp hs
    obtain ⟨hn, rfl⟩ := Condition.release_eq_some hc
    exact sound_move (by simp [Inside]) (by simp [hn]) (by simp) h
  · obtain rfl := Option.some.inj hs
    exact sound_move hin (fun _ => Iff.rfl) (by simp) h
  · obtain rfl := Option.some.inj hs
    exact sound_move hin (fun _ => Iff.rfl) (by simp) h
  · obtain ⟨cond, hc, rfl⟩ := Option.map_eq_some_iff.mp hs
    obtain ⟨cond', hc', hr⟩ := Option.bind_eq_some_iff.mp hc
    obtain ⟨hn, -, rfl⟩ := Condition.resume_eq_some hc'
    obtain ⟨-, rfl⟩ := Condition.release_eq_some hr
    exact sound_move (by simp [Inside]) (by simp [hn]) (by simp) h
  · cases hs

theorem sound_cancel (hs : s.cancel = some s') (h : Sound s) : Sound s' := by
  have hin := h.drainer_inside
  unfold cancel at hs
  split at hs <;> rename_i hd
  case h_2 =>
    rw [hd] at hin
    obtain ⟨cond, hc, rfl⟩ := Option.map_eq_some_iff.mp hs
    obtain ⟨-, rfl⟩ | ⟨-, rfl⟩ := Condition.interrupt_eq_some hc
    · exact sound_move hin (fun _ => Iff.rfl) (by simp) h
    · exact sound_move hin (fun _ => Iff.rfl) (by simp) h
  case h_1 | h_3 =>
    rw [hd] at hin
    obtain rfl := Option.some.inj hs
    exact sound_move hin (fun _ => Iff.rfl) (by simp) h
  all_goals cases hs

theorem sound_step (hs : step s l = some s') (h : Sound s) : Sound s' := by
  cases l with
  | put ev =>
    obtain rfl := Option.some.inj hs
    exact sound_put ev h
  | spawnNotifyTask =>
    obtain ⟨-, rfl⟩ := step_spawnNotifyTask hs
    exact sound_spawn h
  | notify i => exact sound_notify hs h
  | drain => exact sound_drain hs h
  | cancel => exact sound_cancel hs h

/-- What the bus owes the drainer is not only pending: some step towards it is
enabled, whoever holds the lock. -/
theorem Sound.can_proceed (h : Sound s) (hb : s.bus.buf ≠ []) (hd : s.drainer = .waiting) :
    ∃ l ≠ Label.cancel, l.entry? = none ∧ (step s l).isSome := by
  have hout : s.cond.holder ≠ some .drainer := by
    rw [Ne, h.drainer_inside, hd]
    exact not_false
  rcases hc : s.cond.holder with _ | t
  · rcases h.announced hb (.inr hd) with hp | ⟨i, hi | hi⟩ | hp
    · exact ⟨.spawnNotifyTask, nofun, rfl, by simp [step, hp]⟩
    · exact ⟨.notify i, nofun, rfl, by simp [step, notify, hi, Condition.acquire, hc]⟩
    · have := (h.notifier_inside i).mpr (.inl hi)
      rw [hc] at this
      cases this
    · exact ⟨.drain, nofun, rfl, by simp [step, drain, hd, Condition.resume, hc, hp]⟩
  · cases t with
    | drainer => exact absurd hc hout
    | notifier i =>
      refine ⟨.notify i, nofun, rfl, ?_⟩
      rcases (h.notifier_inside i).mp hc with hi | hi
      · simp [step, notify, hi, Condition.notifyAll, hc]
      · simp [step, notify, hi, Condition.release, hc]

/-! ## Runs of a bus -/

section Runs

variable {capacity : ℤ} {bus : EventBus ε} {labels : List (Label ε)}

theorem conserved_boot (hb : new capacity = .ok bus) : Conserved (boot bus) := by
  unfold new at hb
  split at hb
  · cases hb
  · obtain rfl := Except.ok.inj hb
    exact ⟨List.Sublist.refl _, by simp [boot, List.rtake], rfl⟩

theorem new_capacity (hb : new capacity = .ok bus) : (bus.capacity : ℤ) = capacity := by
  unfold new at hb
  split at hb
  · cases hb
  · obtain rfl := Except.ok.inj hb
    exact Int.toNat_of_nonneg (by omega)

theorem conserved_run (hb : new capacity = .ok bus)
    (hr : machine.run (boot bus) labels = some s) : Conserved s := by
  have hok : machine.Meets (fun _ _ => True) (boot bus) labels :=
    Machine.meets_of_forall (fun _ _ => trivial) _ _
  exact Machine.inv_run (I := Conserved) (fun _ _ _ hi _ hs => conserved_step hs hi)
    (conserved_boot hb) hok hr

theorem sound_run (hr : machine.run (boot bus) labels = some s) : Sound s := by
  have hok : machine.Meets (fun _ _ => True) (boot bus) labels :=
    Machine.meets_of_forall (fun _ _ => trivial) _ _
  exact Machine.inv_run (I := Sound) (fun _ _ _ hi _ hs => sound_step hs hi) (sound_boot bus) hok hr

/-- **Conservation and order.** Whatever the interleaving, the entries yielded,
then those of the batch, then those of the buffer are in the order of the puts;
the buffer holds the most recent of the puts since the last pop; every put is
yielded, in the batch, buffered or counted as dropped; the counter never goes
down; and the buffer stays within the capacity. -/
theorem bus_conserves (hb : new capacity = .ok bus)
    (hr : machine.run (boot bus) labels = some s) :
    (s.yielded ++ s.drainer.batch ++ s.bus.buf).Sublist (puts labels) ∧
      (puts labels = s.earlier ++ s.recent ∧ s.bus.buf = s.recent.rtake capacity.toNat) ∧
      (puts labels).length =
        s.yielded.length + s.drainer.batch.length + s.bus.buf.length + s.bus.droppedTotal ∧
      (∀ more t, machine.run s more = some t → s.bus.droppedTotal ≤ t.bus.droppedTotal) ∧
      (s.bus.buf.length : ℤ) ≤ capacity := by
  have h := conserved_run hb hr
  obtain ⟨hlog, -, hcap⟩ := frame_run hr
  have hcap' : (s.bus.capacity : ℤ) = capacity := by
    rw [hcap]
    exact new_capacity hb
  have hputs : puts labels = s.earlier ++ s.recent := by
    rw [hlog]
    rfl
  rw [hputs]
  refine ⟨?_, ⟨rfl, ?_⟩, h.total, fun more t ht => (frame_run ht).2.1, ?_⟩
  · refine h.taken.append ?_
    rw [h.buffer]
    exact List.drop_sublist ..
  · rw [h.buffer, ← hcap', Int.toNat_natCast]
  · have hle := h.length_buf
    omega

/-- Three entries into a buffer for two, a batch in the middle of which the
drainer is suspended, and one more entry. -/
def overflow : List (Label ℕ) :=
  [.put 1, .put 2, .put 3, .drain, .drain, .drain, .drain, .put 4]

theorem bus_conserves_overflow :
    ∃ s, machine.run (boot ⟨[], 2, 0⟩) overflow = some s ∧
      s.yielded = [2] ∧ s.drainer.batch = [3] ∧ s.bus.buf = [4] ∧
      (puts overflow).length = s.yielded.length + s.drainer.batch.length + s.bus.buf.length +
        s.bus.droppedTotal := by
  have hb : new 2 = .ok (⟨[], 2, 0⟩ : EventBus ℕ) := rfl
  exact ⟨_, rfl, rfl, rfl, rfl, (bus_conserves hb rfl).2.2.1⟩

/-- **No lost wake-up.** Whenever the drainer waits in front of a filled buffer,
a callback or a task is going to notify it or it has been woken already; once no
scheduled work remains, the buffer is empty or the drainer is not in `wait()`. -/
theorem no_lost_wake_up (hr : machine.run (boot bus) labels = some s) :
    (s.bus.buf ≠ [] → s.drainer = .waiting → WakeUpPending s) ∧
      (Quiescent s → s.bus.buf = [] ∨ s.drainer ≠ .waiting) := by
  have h := sound_run hr
  refine ⟨fun hb hd => h.announced hb (.inr hd), fun hq => ?_⟩
  by_contra hno
  obtain ⟨hb, hd⟩ := not_or.mp hno
  obtain ⟨hs, hn, hw⟩ := hq
  rcases h.announced hb (.inr (not_not.mp hd)) with hp | ⟨i, hi | hi⟩ | hp
  · exact hp hs
  · cases hn _ (List.mem_of_getElem? hi)
  · cases hn _ (List.mem_of_getElem? hi)
  · rw [hw] at hp
    cases hp

/-- The drainer goes to sleep, then something is put. -/
def asleep : List (Label ℕ) := [.drain, .drain, .drain, .put 1]

theorem no_lost_wake_up_asleep :
    ∃ s, machine.run (boot ⟨[], 2, 0⟩) asleep = some s ∧
      s.drainer = DrainPhase.waiting ∧ s.bus.buf = [1] ∧ WakeUpPending s := by
  have hr : machine.run (boot ⟨[], 2, 0⟩) asleep = some _ := rfl
  exact ⟨_, hr, rfl, rfl, (no_lost_wake_up hr).1 (List.cons_ne_nil 1 []) rfl⟩

/-- … and the work that is pending is never stuck behind the lock. -/
theorem wake_up_can_proceed (hr : machine.run (boot bus) labels = some s)
    (hb : s.bus.buf ≠ []) (hd : s.drainer = .waiting) :
    ∃ l ≠ Label.cancel, l.entry? = none ∧ (step s l).isSome :=
  (sound_run hr).can_proceed hb hd

end Runs

end System

end EventBus

end RestreamPlus
