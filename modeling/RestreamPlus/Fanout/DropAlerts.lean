import RestreamPlus.Api.Ws
import RestreamPlus.Fanout.EventBus

/-!
# Drop alerts (`Supervisor._drop_alert_loop`)

The bus counts what it drops and tells nobody; every second the supervisor compares the
counter with the total it announced last, and a difference goes onto the same bus as a
`DropAlertEvent`. An alert is an entry like any other: on a full buffer its own put evicts
the oldest entry, which the next alert counts, and alerts may be evicted themselves.

`drop_alerts` says what alerts mean, whatever is put, drained and cancelled around the loop.
-/

namespace RestreamPlus

open Interleaving EventBus

/-- The total that an alert announces. -/
def BusEvent.alert? (event : BusEvent) : Option ℕ :=
  match event.payload with
  | .dropAlert total => some total
  | _ => none

/-- The announcements among entries, in order. -/
def alertTotals (entries : List BusEvent) : List ℕ := entries.filterMap BusEvent.alert?

/-- The bus, its tasks, and the loop. -/
structure DropAlerts : Type where
  system : System BusEvent
  /-- `_last_drop_alert_total` -/
  lastDropAlertTotal : ℕ

namespace DropAlerts

/-- What happens next. -/
inductive Label : Type where
  /-- the sleep of the loop is over -/
  | tick (time : ℚ)
  /-- something else happens on the bus -/
  | other (l : EventBus.Label BusEvent)

/-- A fresh bus. -/
def boot (bus : EventBus BusEvent) : DropAlerts := ⟨.boot bus, 0⟩

/-- The supervisor goes on like this on the bus. -/
def onBus (s : DropAlerts) (l : EventBus.Label BusEvent) : Option DropAlerts :=
  (s.system.step l).map fun system => { s with system := system }

/-- The body of the loop. -/
def tick (s : DropAlerts) (time : ℚ) : Option DropAlerts :=
  let total := s.system.bus.droppedTotal
  if total > s.lastDropAlertTotal then
    { s with lastDropAlertTotal := total }.onBus (.put ⟨time, .dropAlert total⟩)
  else some s

/-- One step. Nobody but the loop puts an alert. -/
def step (s : DropAlerts) : Label → Option DropAlerts
  | .tick time => s.tick time
  | .other l => if l.entry?.bind BusEvent.alert? = none then s.onBus l else none

/-- The bus and the loop as a machine. -/
def machine : Machine DropAlerts Label := ⟨step⟩

/-- Everything that was put, in order. -/
def log (s : DropAlerts) : List BusEvent := s.system.earlier ++ s.system.recent

/-- What the drainer has been given or still can be. -/
def delivered (s : DropAlerts) : List BusEvent :=
  s.system.yielded ++ s.system.drainer.batch ++ s.system.bus.buf

/-! ## What one step can do -/

variable {s s' t : DropAlerts} {l : Label}

/-- **Inversion**: a step on the bus that puts no alert, an alert, or a tick with nothing to
announce. -/
theorem step_cases (h : step s l = some s') :
    (∃ l', l = .other l' ∧ l'.entry?.bind BusEvent.alert? = none ∧
        s.system.step l' = some s'.system ∧ s'.lastDropAlertTotal = s.lastDropAlertTotal) ∨
      (∃ time, l = .tick time ∧ s.lastDropAlertTotal < s.system.bus.droppedTotal ∧
        s.system.step (.put ⟨time, .dropAlert s.system.bus.droppedTotal⟩) = some s'.system ∧
        s'.lastDropAlertTotal = s.system.bus.droppedTotal) ∨
      (∃ time, l = .tick time) ∧ s.system.bus.droppedTotal ≤ s.lastDropAlertTotal ∧ s' = s := by
  cases l with
  | other l =>
    obtain ⟨hquiet, h⟩ := Option.ite_none_right_eq_some.mp h
    obtain ⟨system, hs, rfl⟩ := Option.map_eq_some_iff.mp h
    exact .inl ⟨l, rfl, hquiet, hs, rfl⟩
  | tick time =>
    simp only [step, tick] at h
    split at h
    · rename_i hlt
      obtain ⟨system, hs, rfl⟩ := Option.map_eq_some_iff.mp h
      exact .inr (.inl ⟨time, rfl, hlt, hs, rfl⟩)
    · rename_i hle
      exact .inr (.inr ⟨⟨time, rfl⟩, not_lt.mp hle, (Option.some.inj h).symm⟩)

/-! ## The invariant -/

/-- What holds between two steps. -/
structure Sound (s : DropAlerts) : Prop where
  conserved : s.system.Conserved
  /-- nothing is announced that was not dropped -/
  announced : s.lastDropAlertTotal ≤ s.system.bus.droppedTotal
  rising : (alertTotals s.log).Pairwise (· < ·)
  /-- the last announcement is the highest -/
  last : ∀ total ∈ alertTotals s.log, 0 < total ∧ total ≤ s.lastDropAlertTotal

theorem alertTotals_append (as bs : List BusEvent) :
    alertTotals (as ++ bs) = alertTotals as ++ alertTotals bs := List.filterMap_append ..

/-- A step on the bus adds its entry to the log. -/
theorem log_of_step {l' : EventBus.Label BusEvent} (h : s.system.step l' = some s'.system) :
    s'.log = s.log ++ l'.entry?.toList := (System.frame_step h).1

/-- An entry that is no alert announces nothing. -/
theorem alertTotals_of_quiet {entry : Option BusEvent} (h : entry.bind BusEvent.alert? = none) :
    alertTotals entry.toList = [] := by
  cases entry with
  | none => rfl
  | some event => exact List.filterMap_cons_none h

theorem sound_step (hs : step s l = some s') (h : Sound s) : Sound s' := by
  rcases step_cases hs with ⟨l', -, hquiet, hbus, hlast⟩ | ⟨time, -, hlt, hbus, hlast⟩ | ⟨-, -, rfl⟩
  · have hlog : alertTotals s'.log = alertTotals s.log := by
      rw [log_of_step hbus, alertTotals_append, alertTotals_of_quiet hquiet, List.append_nil]
    refine ⟨System.conserved_step hbus h.conserved, ?_, hlog ▸ h.rising, ?_⟩
    · rw [hlast]
      exact h.announced.trans (System.frame_step hbus).2.1
    · rw [hlog, hlast]
      exact h.last
  · have hlog : alertTotals s'.log = alertTotals s.log ++ [s.system.bus.droppedTotal] := by
      rw [log_of_step hbus, alertTotals_append]
      rfl
    refine ⟨System.conserved_step hbus h.conserved, ?_, ?_, ?_⟩
    · rw [hlast]
      exact (System.frame_step hbus).2.1
    · rw [hlog]
      refine List.pairwise_append.mpr ⟨h.rising, List.pairwise_singleton _ _, ?_⟩
      intro total hmem total' hmem'
      rw [List.mem_singleton.mp hmem']
      exact (h.last total hmem).2.trans_lt hlt
    · rw [hlog, hlast]
      intro total hmem
      rcases List.mem_append.mp hmem with hmem | hmem
      · obtain ⟨hpos, hle⟩ := h.last total hmem
        exact ⟨hpos, hle.trans hlt.le⟩
      · rw [List.mem_singleton.mp hmem]
        exact ⟨(Nat.zero_le _).trans_lt hlt, le_rfl⟩
  · exact h

section Runs

variable {capacity : ℤ} {bus : EventBus BusEvent} {labels : List Label}

theorem sound_run (hb : EventBus.new capacity = .ok bus)
    (hr : machine.run (boot bus) labels = some s) : Sound s := by
  refine Machine.inv_run_of_step (I := Sound) (fun _ _ _ hi hs => sound_step hs hi) ?_ hr
  refine ⟨System.conserved_boot hb, Nat.zero_le _, List.Pairwise.nil, ?_⟩
  rintro _ ⟨⟩

/-- What the drainer is given is in the order of the puts. -/
theorem delivered_sublist (h : Sound s) : s.delivered.Sublist s.log := by
  refine h.conserved.taken.append ?_
  rw [h.conserved.buffer]
  exact List.drop_sublist ..

/-- An entry of a log is the last one or was there before. -/
theorem split_of_append {log pre post : List BusEvent} {last event : BusEvent}
    (h : log ++ [last] = pre ++ event :: post) :
    (log = pre ∧ last = event) ∨ ∃ post', log = pre ++ event :: post' := by
  rcases List.eq_nil_or_concat post with rfl | ⟨post', event', rfl⟩
  · exact .inl (List.append_singleton_inj.mp h)
  · rw [List.concat_eq_append, ← List.cons_append, ← List.append_assoc] at h
    exact .inr ⟨post', (List.append_singleton_inj.mp h).1⟩

/-- **Every alert counts what had been dropped when it was put.** -/
theorem alert_counts (hr : machine.run (boot bus) labels = some s) {pre post : List BusEvent}
    {event : BusEvent} {total : ℕ} (hlog : s.log = pre ++ event :: post)
    (halert : event.alert? = some total) :
    ∃ before time after s₁, labels = before ++ .tick time :: after ∧
      machine.run (boot bus) before = some s₁ ∧ s₁.log = pre ∧
      s₁.system.bus.droppedTotal = total := by
  induction labels using List.reverseRecOn generalizing s post with
  | nil =>
    obtain rfl := Option.some.inj hr
    exact absurd hlog (by simp [log, boot, System.boot])
  | append_singleton labels l ih =>
    rw [Machine.run_append] at hr
    obtain ⟨s₀, hr₀, hrest⟩ := Option.bind_eq_some_iff.mp hr
    obtain ⟨s', hs, hend⟩ := Machine.run_cons_eq_some hrest
    obtain rfl := Option.some.inj hend
    -- the alert may have been there before the last step
    have hold : ∀ post', s₀.log = pre ++ event :: post' →
        ∃ before time after s₁, labels ++ [l] = before ++ .tick time :: after ∧
          machine.run (boot bus) before = some s₁ ∧ s₁.log = pre ∧
          s₁.system.bus.droppedTotal = total := by
      intro post' hlog'
      obtain ⟨before, time, after, s₁, rfl, hbefore⟩ := ih hr₀ hlog'
      exact ⟨before, time, after ++ [l], s₁, by simp, hbefore⟩
    rcases step_cases hs with ⟨l', -, hquiet, hbus, -⟩ | ⟨time, rfl, -, hbus, -⟩ | ⟨-, -, rfl⟩
    · rw [log_of_step hbus] at hlog
      rcases hentry : l'.entry? with _ | last <;> rw [hentry] at hlog hquiet
      · exact hold post (by simpa using hlog)
      · rcases split_of_append hlog with ⟨-, rfl⟩ | ⟨post', hpost⟩
        · rw [Option.bind_some, halert] at hquiet
          cases hquiet
        · exact hold post' hpost
    · rw [log_of_step hbus] at hlog
      rcases split_of_append hlog with ⟨hpre, rfl⟩ | ⟨post', hpost⟩
      · exact ⟨labels, time, [], s₀, rfl, hr₀, hpre, Option.some.inj halert⟩
      · exact hold post' hpost
    · exact hold post hlog

/-- A tick announces the counter if it has grown since the last announcement. -/
theorem step_tick {time : ℚ} (h : Sound s) (hs : step s (.tick time) = some s') :
    s'.lastDropAlertTotal = s.system.bus.droppedTotal ∧ alertTotals s'.log = alertTotals s.log ++
      if s.lastDropAlertTotal < s.system.bus.droppedTotal then [s.system.bus.droppedTotal] else [] := by
  rcases step_cases hs with ⟨_, heq, -⟩ | ⟨time, -, hlt, hbus, hlast⟩ | ⟨-, hle, rfl⟩
  · cases heq
  · refine ⟨hlast, ?_⟩
    rw [log_of_step hbus, alertTotals_append, if_pos hlt]
    rfl
  · refine ⟨le_antisymm h.announced hle, ?_⟩
    rw [if_neg (not_lt.mpr hle), List.append_nil]

/-- **What alerts mean**, in every run. The totals that reach the drainer rise from one alert
to the next, and none is above the counter. An alert with a total was put at a tick when
exactly this many of the entries before it had been dropped, and the others had been handed
out or were still in the batch or the buffer. And a tick leaves no drop unannounced. -/
theorem drop_alerts (hb : EventBus.new capacity = .ok bus)
    (hr : machine.run (boot bus) labels = some s) :
    (alertTotals s.delivered).Pairwise (· < ·) ∧
      (∀ total ∈ alertTotals s.delivered, 0 < total ∧ total ≤ s.system.bus.droppedTotal) ∧
      (∀ pre post event total, s.log = pre ++ event :: post → event.alert? = some total →
        ∃ before time after s₁, labels = before ++ .tick time :: after ∧
          machine.run (boot bus) before = some s₁ ∧ s₁.log = pre ∧
          s₁.system.bus.droppedTotal = total ∧ pre.length = s₁.delivered.length + total) ∧
      ∀ time s', step s (.tick time) = some s' →
        s'.lastDropAlertTotal = s.system.bus.droppedTotal ∧
          alertTotals s'.log = alertTotals s.log ++
            if s.lastDropAlertTotal < s.system.bus.droppedTotal then [s.system.bus.droppedTotal]
            else [] := by
  have h := sound_run hb hr
  have hsub : (alertTotals s.delivered).Sublist (alertTotals s.log) :=
    (delivered_sublist h).filterMap _
  refine ⟨h.rising.sublist hsub, fun total hmem => ?_, fun pre post event total hlog halert => ?_,
    fun time s' hs => step_tick h hs⟩
  · obtain ⟨hpos, hle⟩ := h.last total (hsub.subset hmem)
    exact ⟨hpos, hle.trans h.announced⟩
  · obtain ⟨before, time, after, s₁, hsplit, hbefore, hpre, htotal⟩ := alert_counts hr hlog halert
    refine ⟨before, time, after, s₁, hsplit, hbefore, hpre, htotal, ?_⟩
    rw [← hpre, ← htotal]
    have hcount := (sound_run hb hbefore).conserved.total
    simpa only [log, delivered, List.length_append] using hcount

/-- An event of the supervisor. -/
def stateEvent : BusEvent := ⟨0, .runStateChanged .live .armed⟩

/-- Three events on a bus for two, the alert, and what a drainer gets of it. -/
def threeIntoTwo : List Label :=
  [.other (.put stateEvent), .other (.put stateEvent), .other (.put stateEvent), .tick 1,
    .other .drain, .other .drain, .other .drain, .other .drain, .other .drain, .tick 2]

theorem drop_alerts_threeIntoTwo : ∃ s, machine.run (boot ⟨[], 2, 0⟩) threeIntoTwo = some s ∧
    s.delivered = [stateEvent, ⟨1, .dropAlert 1⟩, ⟨2, .dropAlert 2⟩] ∧
      (alertTotals s.delivered).Pairwise (· < ·) := by
  have hb : EventBus.new 2 = .ok (⟨[], 2, 0⟩ : EventBus BusEvent) := rfl
  have hr : machine.run (boot ⟨[], 2, 0⟩) threeIntoTwo = some _ := rfl
  exact ⟨_, hr, rfl, (drop_alerts hb hr).1⟩

end Runs

/-! ## A buffer that stays full -/

/-- After a tick that announces. -/
def announce (s : DropAlerts) (time : ℚ) : DropAlerts where
  system := { s.system with
    bus := s.system.bus.put ⟨time, .dropAlert s.system.bus.droppedTotal⟩
    scheduled := s.system.scheduled + 1
    recent := s.system.recent ++ [⟨time, .dropAlert s.system.bus.droppedTotal⟩] }
  lastDropAlertTotal := s.system.bus.droppedTotal

theorem step_tick_of_lt {time : ℚ} (h : s.lastDropAlertTotal < s.system.bus.droppedTotal) :
    step s (.tick time) = some (s.announce time) := if_pos h

theorem log_announce (time : ℚ) : (s.announce time).log =
    s.log ++ [⟨time, .dropAlert s.system.bus.droppedTotal⟩] := (List.append_assoc ..).symm

/-- The put of an alert on a full buffer evicts an entry. -/
theorem full_announce (time : ℚ) (h : s.system.bus.buf.length = s.system.bus.capacity) :
    (s.announce time).system.bus.buf.length = (s.announce time).system.bus.capacity ∧
      (s.announce time).system.bus.droppedTotal = s.system.bus.droppedTotal + 1 := by
  refine ⟨?_, if_pos h.ge⟩
  simp [announce, EventBus.put, DropOldest.push, DropOldest.length_rtake, h]

/-- **Alerts feed themselves**: once something was dropped from a buffer that stays full, every
tick evicts one more entry for its alert, and the next tick announces that one. -/
theorem ticks_full (hfull : s.system.bus.buf.length = s.system.bus.capacity)
    (hlt : s.lastDropAlertTotal < s.system.bus.droppedTotal) (times : List ℚ) :
    ∃ t, machine.run s (times.map .tick) = some t ∧
      t.system.bus.droppedTotal = s.system.bus.droppedTotal + times.length ∧
      alertTotals t.log =
        alertTotals s.log ++ List.range' s.system.bus.droppedTotal times.length := by
  induction times generalizing s with
  | nil => exact ⟨s, rfl, rfl, (List.append_nil _).symm⟩
  | cons time times ih =>
    obtain ⟨hfull', hdropped⟩ := full_announce time hfull
    obtain ⟨t, ht, htotal, halerts⟩ := ih hfull' (hdropped ▸ Nat.lt_succ_self _)
    refine ⟨t, (Machine.run_cons_of_step _ (step_tick_of_lt hlt)).trans ht, ?_, ?_⟩
    · rw [htotal, hdropped, List.length_cons]
      omega
    · rw [halerts, hdropped, log_announce, alertTotals_append, List.length_cons,
        List.range'_succ, List.append_assoc]
      rfl

end DropAlerts

end RestreamPlus
