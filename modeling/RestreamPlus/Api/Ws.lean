import RestreamPlus.Fanout.EventBus
import RestreamPlus.Fanout.TargetView
import RestreamPlus.Lib.Feed
import RestreamPlus.Web.WsReducer

/-!
# The socket of a client (`app/api/ws.py`)

`ws_endpoint` registers the queue of a client, sends it what `_build_state_full`
gives, and then forwards what `ws_broadcaster` puts into the queue. The
broadcaster drains the bus, into which the supervisor publishes every transition of
the run and, after a worker event, the entry of its target.

`Wire` is all of this around one client. The supervisor runs as a monitor, so its
operations, the reports of its workers, the broadcaster and the client come in any
order. Two changes reach no client that is already there: the map of the targets
is replaced by `start_run`, and an entry of it by `enable_target`, without an
event; and a transition reads the clock twice, once for its own record and once
for the event. `stale` and `missed` keep account of them.

`clients_converge`: where the client has missed nothing, and nothing is on its way,
the folded messages show what `_build_state_full` would return.
-/

namespace RestreamPlus

open Interleaving Supervisor

/-! ## Events and messages -/

/-- The payload of a `BusEvent`. -/
inductive BusPayload : Type where
  /-- the new state and the previous one -/
  | runStateChanged : RunState → RunState → BusPayload
  | targetSnapshot : TargetSnapshot → BusPayload
  | dropAlert : ℕ → BusPayload
  | hostStats : HostStats → BusPayload
  /-- published by nobody -/
  | workerEvent : BusPayload
  deriving DecidableEq

/-- `BusEvent`, with its `at`. -/
structure BusEvent : Type where
  time : ℚ
  payload : BusPayload
  deriving DecidableEq

/-- `_event_to_envelope`. -/
def BusEvent.toEnvelope (event : BusEvent) : Option WsKnownEvent :=
  match event.payload with
  | .runStateChanged newState previousState =>
    some (.runStateChanged newState previousState event.time)
  | .targetSnapshot data => some (.targetSnapshot data event.time)
  | .hostStats data => some (.hostStats data event.time)
  | .dropAlert droppedTotal => some (.dropAlert droppedTotal event.time)
  | .workerEvent => none

/-- What an event assigns at the client. -/
def BusEvent.assignment? (event : BusEvent) : Option (ViewKey × ViewValue) :=
  event.toEnvelope.bind WsKnownEvent.assignment?

/-- The assignments on their way. -/
def assignments (events : List BusEvent) : List (ViewKey × ViewValue) :=
  events.filterMap BusEvent.assignment?

theorem assignments_append (events events' : List BusEvent) :
    assignments (events ++ events') = assignments events ++ assignments events' :=
  List.filterMap_append ..

/-! ## What the server shows -/

namespace Viewed

/-- An entry of the map as it is sent. -/
def snapshotOf (v : Viewed) (t : Target) : TargetSnapshot :=
  ⟨t.id, v.uiState t, t.snapshotsByRole (v.workerSet t.id)⟩

/-- `_build_state_full`. -/
def buildStateFull (v : Viewed) (runStateChangedAt : Option ℚ) (heartbeatAge : ℚ)
    (droppedTotal : ℕ) : RunStateView where
  runState := v.supervisor.runState
  targets := v.supervisor.targets.values.map v.snapshotOf
  heartbeatAgeSeconds := heartbeatAge
  droppedTotal := droppedTotal
  runStateChangedAt := runStateChangedAt

/-- What it shows under each key. -/
def value (v : Viewed) (runStateChangedAt : Option ℚ) : ViewKey → ViewValue :=
  (v.buildStateFull runStateChangedAt 0 0).value

/-- The targets that are shown otherwise than before. -/
def changed (v v' : Viewed) : Finset ViewKey :=
  ((v.supervisor.targets.keys ++ v'.supervisor.targets.keys).map ViewKey.target).toFinset.filter
    fun k => v'.value none k ≠ v.value none k

end Viewed

/-- The transitions of one stretch, as pairs of the previous and the new state: one at most, but a
stop that has nothing to wait for passes through STOPPING. -/
def transitions (previous new : RunState) : List (RunState × RunState) :=
  if new = previous then []
  else if previous.isActive = true ∧ new = .offline then
    [(previous, .stopping), (.stopping, .offline)]
  else [(previous, new)]

/-! ## The wire -/

/-- A client. -/
inductive Client : Type where
  | away
  /-- registered, `state.full` not yet built -/
  | subscribed : List BusEvent → Client
  /-- with what is queued, what was received, and what it has missed -/
  | following : List BusEvent → List WsKnownEvent → Finset ViewKey → Client
  deriving DecidableEq

namespace Client

def queue : Client → List BusEvent
  | away => []
  | subscribed queue | following queue _ _ => queue

/-- The keys of whose value it has not been told. -/
def missed : Client → Finset ViewKey
  | away | subscribed _ => ∅
  | following _ _ missed => missed

def received : Client → List WsKnownEvent
  | away | subscribed _ => []
  | following _ received _ => received

def owing (client : Client) (f : Finset ViewKey → Finset ViewKey) : Client :=
  match client with
  | away => away
  | subscribed queue => subscribed queue
  | following queue received missed => following queue received (f missed)

def enqueue (event : BusEvent) : Client → Client
  | away => away
  | subscribed queue => subscribed (queue ++ [event])
  | following queue received missed => following (queue ++ [event]) received missed

/-- `put_nowait` of the broadcaster; a full queue ends the connection (`WS_CLOSE_OVERLOAD`). -/
def putNowait (client : Client) (event : BusEvent) : Client :=
  -- `WS_PER_CLIENT_QUEUE_CAPACITY`
  if 256 ≤ client.queue.length then away else client.enqueue event

end Client

/-- The supervisor, its bus, the broadcaster, and one client. -/
structure Wire : Type where
  monitor : Monitor.Config Viewed Op Section
  runStateChangedAt : Option ℚ
  bus : EventBus BusEvent
  /-- drained and not yet broadcast -/
  batch : List BusEvent
  client : Client
  /-- the keys whose value no event tells -/
  stale : Finset ViewKey

/-- What happens next. -/
inductive WireLabel : Type where
  /-- a step of the supervisor, the two readings of the clock for each transition, and the one for
  the event of a target -/
  | supervisor : Monitor.Label Op Supervisor.Outcome Viewed.Env → List (ℚ × ℚ) → ℚ → WireLabel
  | dropAlert : ℚ → WireLabel
  | hostStats : HostStats → ℚ → WireLabel
  /-- the drainer takes what is buffered -/
  | drain
  /-- the broadcaster passes an event on -/
  | broadcast
  | connect
  /-- with the age of the heartbeat -/
  | sendFull : ℚ → WireLabel
  /-- the client gets the next queued event -/
  | receive
  | disconnect

namespace Wire

/-- Before the first operation, and without a client. -/
def boot (s : Supervisor) (capacity : ℕ) : Wire where
  monitor := Monitor.idle (Viewed.init s)
  runStateChangedAt := none
  bus := ⟨[], capacity, 0⟩
  batch := []
  client := .away
  stale := ∅

/-- A change of a value of which an event says this. -/
def owe (w : Wire) (f : Finset ViewKey → Finset ViewKey) : Wire :=
  { w with stale := f w.stale, client := w.client.owing f }

/-- `_publish_run_state`: one reading of the clock for the record, another one for the event. -/
def publishRunState (w : Wire) (states : RunState × RunState) (clock : ℚ × ℚ) : Wire :=
  let owing (D : Finset ViewKey) : Finset ViewKey :=
    Feed.owing D ViewKey.run (ViewValue.run states.2 (some clock.2)) (.run states.2 (some clock.1))
  { w.owe owing with
    runStateChangedAt := some clock.1
    bus := w.bus.put ⟨clock.2, .runStateChanged states.2 states.1⟩ }

/-- `_publish_target_snapshot`. -/
def publishTargetSnapshot (w : Wire) (data : TargetSnapshot) (time : ℚ) : Wire :=
  { w.owe fun D => D.erase (.target data.targetId) with
    bus := w.bus.put ⟨time, .targetSnapshot data⟩ }

/-- The supervisor moves on, and entries of its map change. -/
def move (w : Wire) (m : Monitor.Config Viewed Op Section) : Wire :=
  { w.owe fun D => D ∪ w.monitor.shared.changed m.shared with monitor := m }

/-- The event at the end of `_handle_worker_event`. -/
def reportTarget (w : Wire) (id : WorkerId) (time : ℚ) : Wire :=
  match w.monitor.shared.supervisor.workers.get? id,
    w.monitor.shared.supervisor.targets.get? id.targetId with
  | some _, some t => w.publishTargetSnapshot (w.monitor.shared.snapshotOf t) time
  | _, _ => w

/-- The transitions since this run state. -/
def publishTransitions (w : Wire) (previous : RunState) (clock : List (ℚ × ℚ)) : Option Wire :=
  let states := transitions previous w.monitor.shared.supervisor.runState
  if states.length = clock.length then
    some ((states.zip clock).foldl (fun w p => w.publishRunState p.1 p.2) w)
  else none

/-- What the supervisor publishes after it moved on from this run state. -/
def publish (w : Wire) (previous : RunState) (l : Monitor.Label Op Supervisor.Outcome Viewed.Env)
    (clock : List (ℚ × ℚ)) (time : ℚ) : Option Wire :=
  match l with
  | .external (.workerEvent id _) => if clock = [] then some (w.reportTarget id time) else none
  | _ => w.publishTransitions previous clock

/-- `_build_state_full` at this moment. -/
def stateFull (w : Wire) (heartbeatAge : ℚ) : RunStateView :=
  w.monitor.shared.buildStateFull w.runStateChangedAt heartbeatAge w.bus.droppedTotal

/-- What is on its way to the client. -/
def backlog (w : Wire) : List BusEvent := w.client.queue ++ w.batch ++ w.bus.buf

end Wire

/-- The wire as a machine. -/
def wire : Machine Wire WireLabel where
  step w
    | .supervisor l clock time =>
      (Viewed.monitor.step w.monitor l).bind fun m =>
        (w.move m).publish w.monitor.shared.supervisor.runState l clock time
    | .dropAlert time =>
      some { w with bus := w.bus.put ⟨time, .dropAlert w.bus.droppedTotal⟩ }
    | .hostStats data time => some { w with bus := w.bus.put ⟨time, .hostStats data⟩ }
    | .drain =>
      if w.batch = [] then some { w with bus := w.bus.clear, batch := w.bus.buf } else none
    | .broadcast =>
      match w.batch with
      | [] => none
      | event :: rest => some { w with batch := rest, client := w.client.putNowait event }
    | .connect =>
      match w.client with
      | .away => some { w with client := .subscribed [] }
      | _ => none
    | .sendFull heartbeatAge =>
      match w.client with
      | .subscribed queue =>
        let missed := w.stale.filter (· ∈ (assignments w.backlog).map Prod.fst)
        some { w with
          client := .following queue [.stateFull (w.stateFull heartbeatAge)] missed }
      | _ => none
    | .receive =>
      match w.client with
      | .following (event :: queue) received missed =>
        some { w with client := .following queue (received ++ event.toEnvelope.toList) missed }
      | _ => none
    | .disconnect => some { w with client := .away }

/-! ## The entries of the map -/

namespace Viewed

/-- Every entry is stored under its own identifier. -/
def Keyed (v : Viewed) : Prop := ∀ id t, v.supervisor.targets.get? id = some t → t.id = id

theorem Keyed.rebuilt {v : Viewed} (h : v.Keyed) (sec : Section) (out : Supervisor.Outcome) :
    ∀ id t, ((v.supervisor.rebuilt sec out).targets v.supervisor.targets).get? id = some t →
      t.id = id := by
  have hflush : ∀ (s : Supervisor) (pairs : List Runnable) (id : TargetId) (t : Target),
      ((s.rebuiltByFlush pairs).targets v.supervisor.targets).get? id = some t → t.id = id := by
    intro s pairs id t ht
    rw [rebuiltByFlush] at ht
    split at ht
    · obtain ⟨r, -, heq⟩ := List.mem_map.mp (Dict.mem_of_get?_ofList ht)
      cases heq
      rfl
    · exact h id t ht
  cases sec with
  | listing kek =>
    cases out with
    | ok =>
      intro id t ht
      rw [Supervisor.rebuilt] at ht
      split at ht
      · exact hflush _ _ id t ht
      · exact h id t ht
    | raised => exact h
  | loading kek e todo pairs =>
    cases out with
    | ok =>
      intro id t ht
      rw [Supervisor.rebuilt] at ht
      split at ht
      · exact hflush _ _ id t ht
      · exact h id t ht
    | raised => exact h
  | auditingFailures pairs => exact hflush _ _
  | reloadingCredential kek id row =>
    cases out with
    | ok =>
      intro id' t ht
      by_cases hid : id' = id
      · subst hid
        obtain rfl := Option.some.inj ((Dict.get?_insert_self _ _ _).symm.trans ht)
        rfl
      · exact h id' t ((Dict.get?_insert_ne _ _ hid).symm.trans ht)
    | raised => exact h
  | opening | committingRun | workerStarting | auditingStart | rollingBack | closingFailed | draining
  | wiping | auditingWipe | closing | auditingStop | reloading | stoppingWorker => exact h

theorem keyed_step {c c' : Monitor.Config Viewed Op Section}
    {l : Monitor.Label Op Supervisor.Outcome Viewed.Env} (h : c.shared.Keyed)
    (hs : Viewed.monitor.step c l = some c') : c'.shared.Keyed := by
  rcases Monitor.shared_of_step hs with heq | ⟨i, op, -, heq⟩ | ⟨i, sec, out, r, -, -, hr, heq⟩ |
    ⟨e, -, he⟩
  · rw [heq]
    exact h
  · intro id t ht
    rw [heq] at ht
    exact h id t ((congrArg (·.get? id) (targets_enter c.shared.supervisor op)).symm.trans ht)
  · obtain rfl := Option.some.inj hr
    intro id t ht
    rw [heq] at ht
    refine h.rebuilt sec out id t ?_
    rw [← targets_continueFrom]
    exact ht
  · obtain hshared := Option.some.inj he
    intro id t ht
    rw [← hshared] at ht
    cases e with
    | supervisor e => exact h id t ((congrArg (·.get? id) (targets_react _ e)).symm.trans ht)
    | workerEvent w snapshot =>
      refine h id t ?_
      rw [← supervisor_handleWorkerEvent c.shared w snapshot]
      exact ht

/-- The entry that a client is sent is the one in the map. -/
theorem Keyed.value_target {v : Viewed} (h : v.Keyed) (a : Option ℚ) (id : TargetId) :
    v.value a (.target id) = .target ((v.supervisor.targets.get? id).map v.snapshotOf) := by
  suffices hl : ∀ l : List (TargetId × Target), (∀ e ∈ l, e.2.id = e.1) →
      snapshotFor ((l.map Prod.snd).map v.snapshotOf) id = (l.lookup id).map v.snapshotOf from
    congrArg ViewValue.target (hl v.supervisor.targets.entries fun e he =>
      h e.1 e.2 (Dict.mem_entries.mp he))
  intro l hl
  induction l with
  | nil => rfl
  | cons e l ih =>
    obtain ⟨key, target⟩ := e
    have hid : (v.snapshotOf target).targetId = key := hl (key, target) List.mem_cons_self
    rw [snapshotFor, List.map_cons, List.map_cons, List.find?_cons, hid]
    by_cases hkey : key = id
    · simp only [hkey, decide_true, List.lookup_cons, beq_self_eq_true, Option.map_some]
    · have hkey' : (id == key) = false := by simp [Ne.symm hkey]
      simp only [hkey, decide_false, List.lookup_cons, hkey']
      exact ih fun e' he' => hl e' (List.mem_cons_of_mem _ he')

/-- Outside `changed` the targets are shown as before. -/
theorem value_eq_of_not_mem_changed {v v' : Viewed} (h : v.Keyed) (h' : v'.Keyed) (a a' : Option ℚ)
    {id : TargetId} (hid : ViewKey.target id ∉ v.changed v') :
    v'.value a' (.target id) = v.value a (.target id) := by
  by_contra hne
  refine hid (Finset.mem_filter.mpr ⟨?_, hne⟩)
  rw [List.mem_toFinset, List.mem_map]
  refine ⟨id, ?_, rfl⟩
  rw [List.mem_append, Dict.mem_keys, Dict.mem_keys]
  by_contra hnone
  rw [not_or, not_exists, not_exists] at hnone
  refine hne ?_
  rw [h.value_target, h'.value_target, Option.eq_none_iff_forall_not_mem.mpr hnone.1,
    Option.eq_none_iff_forall_not_mem.mpr hnone.2]
  rfl

/-- The same map with the same worker sets shows the same targets. -/
theorem changed_eq_empty {v v' : Viewed} (htargets : v'.supervisor.targets = v.supervisor.targets)
    (hsets : v'.workerSets = v.workerSets) : v.changed v' = ∅ := by
  refine Finset.filter_eq_empty_iff.mpr fun k hk hne => hne ?_
  obtain ⟨id, -, rfl⟩ := List.mem_map.mp (List.mem_toFinset.mp hk)
  have hsnapshot : v'.snapshotOf = v.snapshotOf := by
    funext t
    rw [snapshotOf, snapshotOf, uiState, uiState, workerSet, workerSet, hsets]
  rw [value, value, buildStateFull, buildStateFull, RunStateView.value, RunStateView.value,
    htargets, hsnapshot]

/-- **What changes the shown targets**: a worker event, which is published, and the stretches in
which `start_run` replaces the map and `enable_target` an entry, which are not. -/
theorem changed_of_step {c c' : Monitor.Config Viewed Op Section}
    {l : Monitor.Label Op Supervisor.Outcome Viewed.Env} (hs : Viewed.monitor.step c l = some c') :
    c.shared.changed c'.shared = ∅ ∨
      (∃ i sec out, l = .resume i out ∧ c.tasks[i]? = some (.inside sec) ∧
        c.shared.supervisor.rebuilt sec out ≠ .nothing) ∨
      ∃ w snapshot, l = .external (.workerEvent w snapshot) := by
  rcases Monitor.shared_of_step hs with heq | ⟨i, op, -, heq⟩ | ⟨i, sec, out, r, hl, ht, hr, heq⟩ |
    ⟨e, hl, he⟩
  · refine .inl (changed_eq_empty ?_ ?_) <;> rw [heq]
  · refine .inl (changed_eq_empty ?_ ?_) <;> rw [heq]
    · exact targets_enter _ op
    · rfl
  · by_cases hrebuilt : c.shared.supervisor.rebuilt sec out = .nothing
    · obtain rfl := Option.some.inj hr
      refine .inl (changed_eq_empty ?_ ?_) <;> rw [heq]
      · exact (targets_continueFrom _ sec out).trans (by rw [hrebuilt]; rfl)
      · show (c.shared.supervisor.rebuilt sec out).workerSets c.shared.workerSets = _
        rw [hrebuilt]
        rfl
    · exact .inr (.inl ⟨i, sec, out, hl, ht, hrebuilt⟩)
  · cases e with
    | supervisor e =>
      obtain hshared := Option.some.inj he
      refine .inl (changed_eq_empty ?_ ?_) <;> rw [← hshared]
      · exact targets_react _ e
      · rfl
    | workerEvent w snapshot => exact .inr (.inr ⟨w, snapshot, hl⟩)

end Viewed

/-! ## What a client has been told -/

/-- The events on their way end in the values shown, and so does a client that follows, but for
what is accounted for. -/
structure Told (stale : Finset ViewKey) (client : Client) (ms : List (ViewKey × ViewValue))
    (cur : ViewKey → ViewValue) : Prop where
  sound : Feed.Sound stale ms cur
  follows : ∀ queue received missed, client = .following queue received missed →
    ∃ view, cacheOf received = some view ∧
      Feed.AgreesOff missed (Feed.replay view.value ms) cur

section Told

variable {stale : Finset ViewKey} {client : Client} {ms : List (ViewKey × ViewValue)}
  {cur cur' : ViewKey → ViewValue}

theorem Client.following_of_owing {f : Finset ViewKey → Finset ViewKey} {queue : List BusEvent}
    {received : List WsKnownEvent} {missed : Finset ViewKey}
    (h : client.owing f = .following queue received missed) :
    ∃ missed', client = .following queue received missed' ∧ missed = f missed' := by
  cases client with
  | away | subscribed queue => cases h
  | following queue' received' missed' =>
    cases h
    exact ⟨missed', rfl, rfl⟩

/-- Values change and nothing is said. -/
theorem Told.silently {D : Finset ViewKey} (h : Told stale client ms cur)
    (hsame : ∀ k, k ∉ D → cur' k = cur k) :
    Told (stale ∪ D) (client.owing fun missed => missed ∪ D) ms cur' where
  sound := h.sound.silently hsame
  follows queue received missed hc := by
    obtain ⟨missed', rfl, rfl⟩ := Client.following_of_owing hc
    obtain ⟨view, hview, hagrees⟩ := h.follows _ _ _ rfl
    exact ⟨view, hview, hagrees.silently hsame⟩

/-- A value changes and is announced, perhaps as another one. -/
theorem Told.announceAs (h : Told stale client ms cur) (k : ViewKey) (said actual : ViewValue) :
    Told (Feed.owing stale k said actual) (client.owing fun D => Feed.owing D k said actual)
      (ms ++ [(k, said)]) (Function.update cur k actual) where
  sound := h.sound.announceAs k said actual
  follows queue received missed hc := by
    obtain ⟨missed', rfl, rfl⟩ := Client.following_of_owing hc
    obtain ⟨view, hview, hagrees⟩ := h.follows _ _ _ rfl
    exact ⟨view, hview, hagrees.announceAs k said actual⟩

end Told

namespace EventBus

variable {ε : Type} {bus : EventBus ε} {event : ε}

theorem droppedTotal_le_put (bus : EventBus ε) (event : ε) :
    bus.droppedTotal ≤ (bus.put event).droppedTotal := by
  rw [put]
  dsimp only
  split <;> omega

/-- Without a drop the event comes to the end. -/
theorem buf_put_of_not_dropped (h : (bus.put event).droppedTotal = bus.droppedTotal) :
    (bus.put event).buf = bus.buf ++ [event] := by
  rw [put] at h ⊢
  dsimp only at h ⊢
  split at h
  · omega
  · rename_i hroom
    rw [DropOldest.push, List.rtake, List.length_append, List.length_singleton,
      Nat.sub_eq_zero_of_le (by omega), List.drop_zero]

end EventBus

namespace Wire

theorem queue_owing (client : Client) (f : Finset ViewKey → Finset ViewKey) :
    (client.owing f).queue = client.queue := by
  cases client <;> rfl

variable {w w' : Wire} {cur : ViewKey → ViewValue}

/-- An event that nothing was dropped for. -/
theorem backlog_put {event : BusEvent} (hqueue : w'.client.queue = w.client.queue)
    (hbatch : w'.batch = w.batch) (hbus : w'.bus = w.bus.put event)
    (hroom : w'.bus.droppedTotal = w.bus.droppedTotal) : w'.backlog = w.backlog ++ [event] := by
  rw [hbus] at hroom
  rw [backlog, backlog, hqueue, hbatch, hbus, EventBus.buf_put_of_not_dropped hroom,
    List.append_assoc, List.append_assoc, List.append_assoc]

/-- What is accounted for, relative to these values. -/
def ToldOf (w : Wire) (cur : ViewKey → ViewValue) : Prop :=
  Told w.stale w.client (assignments w.backlog) cur

/-- `_publish_run_state` announces the new state with the second reading of the clock. -/
theorem ToldOf.publishRunState (h : w.ToldOf cur) (states : RunState × RunState) (clock : ℚ × ℚ)
    (hroom : (w.publishRunState states clock).bus.droppedTotal = w.bus.droppedTotal) :
    (w.publishRunState states clock).ToldOf
      (Function.update cur .run (.run states.2 (some clock.1))) := by
  have hbacklog : (w.publishRunState states clock).backlog =
      w.backlog ++ [⟨clock.2, .runStateChanged states.2 states.1⟩] :=
    backlog_put (queue_owing _ _) rfl rfl hroom
  rw [ToldOf, hbacklog, assignments_append]
  exact Told.announceAs h .run (.run states.2 (some clock.2)) (.run states.2 (some clock.1))

/-- `_publish_target_snapshot` announces an entry as it is. -/
theorem ToldOf.publishTargetSnapshot (h : w.ToldOf cur) (data : TargetSnapshot) (time : ℚ)
    (hroom : (w.publishTargetSnapshot data time).bus.droppedTotal = w.bus.droppedTotal) :
    (w.publishTargetSnapshot data time).ToldOf
      (Function.update cur (.target data.targetId) (.target (some data))) := by
  have hbacklog : (w.publishTargetSnapshot data time).backlog =
      w.backlog ++ [⟨time, .targetSnapshot data⟩] := backlog_put (queue_owing _ _) rfl rfl hroom
  have howing : ∀ D : Finset ViewKey, D.erase (.target data.targetId) =
      Feed.owing D (.target data.targetId) (ViewValue.target (some data)) (.target (some data)) :=
    fun D => (if_pos rfl).symm
  rw [ToldOf, hbacklog, assignments_append, Wire.publishTargetSnapshot, owe]
  simp only [howing]
  exact Told.announceAs h (.target data.targetId) (.target (some data)) (.target (some data))

end Wire

/-! ## One step -/

namespace Wire

variable {w w' : Wire} {v v' : Viewed} {a : Option ℚ}

/-- The targets are the new ones, the run state is the one that was announced last. -/
def transit (v v' : Viewed) (a : Option ℚ) : ViewKey → ViewValue
  | .run => v.value a .run
  | .target id => v'.value a (.target id)

theorem transit_of_runState (h : v'.supervisor.runState = v.supervisor.runState) :
    transit v v' a = v'.value a := by
  funext k
  cases k with
  | run =>
    show ViewValue.run v.supervisor.runState a = .run v'.supervisor.runState a
    rw [h]
  | target id => rfl

/-- The last transition that is announced leads to the run state. -/
theorem update_transit {st : RunState} (h : v'.supervisor.runState = st) (a' : Option ℚ) :
    Function.update (transit v v' a) .run (.run st a') = v'.value a' := by
  funext k
  cases k with
  | run =>
    rw [Function.update_self, ← h]
    rfl
  | target id =>
    have hne : ViewKey.target id ≠ .run := nofun
    rw [Function.update_of_ne hne]
    rfl

theorem droppedTotal_le_publishRunState (w : Wire) (states : RunState × RunState) (clock : ℚ × ℚ) :
    w.bus.droppedTotal ≤ (w.publishRunState states clock).bus.droppedTotal :=
  EventBus.droppedTotal_le_put ..

/-- **The transitions of a stretch**: none, one, or the two of a stop with nothing to do. -/
theorem ToldOf.publishTransitions {clock : List (ℚ × ℚ)}
    (h : w.ToldOf (transit v w.monitor.shared w.runStateChangedAt))
    (hp : w.publishTransitions v.supervisor.runState clock = some w')
    (hroom : w'.bus.droppedTotal = w.bus.droppedTotal) :
    w'.monitor = w.monitor ∧ w'.ToldOf (w'.monitor.shared.value w'.runStateChangedAt) := by
  rw [Wire.publishTransitions, transitions] at hp
  split at hp
  · rename_i hst
    rcases clock with _ | ⟨c, clock⟩
    · obtain rfl := Option.some.inj hp
      rw [transit_of_runState hst] at h
      exact ⟨rfl, h⟩
    · cases hp
  · split at hp
    · rename_i hst
      rcases clock with _ | ⟨c, _ | ⟨c', _ | ⟨c'', clock⟩⟩⟩
      · cases hp
      · cases hp
      · obtain rfl := Option.some.inj hp
        let stopping := w.publishRunState (v.supervisor.runState, .stopping) c
        have hle := droppedTotal_le_publishRunState w (v.supervisor.runState, .stopping) c
        have hle' := droppedTotal_le_publishRunState stopping (.stopping, .offline) c'
        have hfirst : stopping.bus.droppedTotal = w.bus.droppedTotal :=
          le_antisymm (hle'.trans hroom.le) hle
        have hstopping := h.publishRunState (v.supervisor.runState, .stopping) c hfirst
        have htold := hstopping.publishRunState (.stopping, .offline) c' (hroom.trans hfirst.symm)
        rw [Function.update_idem, update_transit hst.2] at htold
        exact ⟨rfl, htold⟩
      · cases hp
    · rcases clock with _ | ⟨c, _ | ⟨c', clock⟩⟩
      · cases hp
      · obtain rfl := Option.some.inj hp
        have htold := h.publishRunState (v.supervisor.runState, _) c hroom
        rw [update_transit rfl] at htold
        exact ⟨rfl, htold⟩
      · cases hp

/-- **The invariant**: whatever the client is not told is accounted for. -/
structure Synced (w : Wire) : Prop where
  keyed : w.monitor.shared.Keyed
  told : w.ToldOf (w.monitor.shared.value w.runStateChangedAt)

/-- Only `changed` targets are shown otherwise after a step of the supervisor. -/
theorem Synced.move (h : w.Synced) {m : Monitor.Config Viewed Op Section} (hm : m.shared.Keyed) :
    (w.move m).ToldOf (transit w.monitor.shared m.shared w.runStateChangedAt) := by
  have hbacklog : (w.move m).backlog = w.backlog := by
    rw [backlog, backlog]
    exact congrArg (· ++ w.batch ++ w.bus.buf) (queue_owing _ _)
  rw [ToldOf, hbacklog]
  refine Told.silently h.told fun k hk => ?_
  cases k with
  | run => rfl
  | target id => exact Viewed.value_eq_of_not_mem_changed h.keyed hm _ _ hk

/-- A worker event announces the entry of its target. -/
theorem Synced.reportTarget (h : w.Synced) (id : WorkerId) (time : ℚ)
    (hroom : (w.reportTarget id time).bus.droppedTotal = w.bus.droppedTotal) :
    (w.reportTarget id time).Synced := by
  rw [Wire.reportTarget] at hroom ⊢
  split
  · rename_i spec t hw ht
    simp only [hw, ht] at hroom
    have htold := ToldOf.publishTargetSnapshot h.told (w.monitor.shared.snapshotOf t) time hroom
    have hvalue : w.monitor.shared.value w.runStateChangedAt
        (.target (w.monitor.shared.snapshotOf t).targetId) =
          .target (some (w.monitor.shared.snapshotOf t)) := by
      rw [h.keyed.value_target, show (w.monitor.shared.snapshotOf t).targetId = id.targetId from
        h.keyed _ t ht, ht]
      rfl
    rw [← hvalue, Function.update_eq_self] at htold
    exact ⟨h.keyed, htold⟩
  · exact h

/-- **A step of the supervisor.** -/
theorem Synced.supervisor (h : w.Synced) {l : Monitor.Label Op Supervisor.Outcome Viewed.Env}
    {clock : List (ℚ × ℚ)} {time : ℚ} {m : Monitor.Config Viewed Op Section}
    (hm : Viewed.monitor.step w.monitor l = some m)
    (hp : (w.move m).publish w.monitor.shared.supervisor.runState l clock time = some w')
    (hroom : w'.bus.droppedTotal = w.bus.droppedTotal) : w'.Synced := by
  have hkeyed := Viewed.keyed_step h.keyed hm
  have hmoved := h.move hkeyed
  have htransitions : (w.move m).publishTransitions w.monitor.shared.supervisor.runState clock =
      some w' → w'.Synced := by
    intro hp
    obtain ⟨hmonitor, htold⟩ := hmoved.publishTransitions hp hroom
    exact ⟨hmonitor ▸ hkeyed, htold⟩
  cases l with
  | call op => exact htransitions hp
  | start i => exact htransitions hp
  | grant => exact htransitions hp
  | resume i out => exact htransitions hp
  | external e =>
    cases e with
    | supervisor e => exact htransitions hp
    | workerEvent id snapshot =>
      rw [publish] at hp
      split at hp
      · obtain rfl := Option.some.inj hp
        have hst : m.shared.supervisor.runState = w.monitor.shared.supervisor.runState := by
          obtain rfl := Option.some.inj hm
          exact congrArg Supervisor.runState
            (Viewed.supervisor_handleWorkerEvent w.monitor.shared id snapshot)
        rw [transit_of_runState hst] at hmoved
        exact Synced.reportTarget ⟨hkeyed, hmoved⟩ id time hroom
      · cases hp

end Wire

/-! ## The other steps -/

namespace Wire

variable {w w' : Wire}

/-- Some of what was on its way has gone elsewhere, and no client follows. -/
theorem Synced.dropped {events rest : List BusEvent} {client : Client} {bus : EventBus BusEvent}
    {batch : List BusEvent} (h : w.Synced) (hbacklog : w.backlog = events ++ rest)
    (hrest : client.queue ++ batch ++ bus.buf = rest)
    (hclient : ∀ queue received missed, client ≠ .following queue received missed) :
    Synced { w with client := client, batch := batch, bus := bus } where
  keyed := h.keyed
  told := by
    have hsound := h.told.sound
    rw [hbacklog, assignments_append] at hsound
    refine ⟨?_, fun queue received missed hc => absurd hc (hclient queue received missed)⟩
    show Feed.Sound w.stale (assignments (client.queue ++ batch ++ bus.buf)) _
    rw [hrest]
    exact hsound.of_append

/-- The same is on its way to the same client. -/
theorem Synced.same {client : Client} {bus : EventBus BusEvent} {batch : List BusEvent}
    (h : w.Synced)
    (hsame : assignments (client.queue ++ batch ++ bus.buf) = assignments w.backlog)
    (hclient : ∀ queue received missed, client = .following queue received missed →
      ∃ queue', w.client = .following queue' received missed) :
    Synced { w with client := client, batch := batch, bus := bus } where
  keyed := h.keyed
  told := by
    refine ⟨?_, fun queue received missed hc => ?_⟩
    · show Feed.Sound w.stale (assignments (client.queue ++ batch ++ bus.buf)) _
      rw [hsame]
      exact h.told.sound
    · obtain ⟨queue', hc'⟩ := hclient queue received missed hc
      obtain ⟨view, hview, hagrees⟩ := h.told.follows _ _ _ hc'
      refine ⟨view, hview, ?_⟩
      show Feed.AgreesOff missed
        (Feed.replay view.value (assignments (client.queue ++ batch ++ bus.buf))) _
      rw [hsame]
      exact hagrees

/-- An event that assigns nothing. -/
theorem Synced.put {event : BusEvent} (h : w.Synced) (hevent : event.assignment? = none)
    (hroom : (w.bus.put event).droppedTotal = w.bus.droppedTotal) :
    Synced { w with bus := w.bus.put event } := by
  refine h.same ?_ fun queue received missed hc => ⟨queue, hc⟩
  have hnone : assignments [event] = [] := by simp [assignments, hevent]
  rw [EventBus.buf_put_of_not_dropped hroom, ← List.append_assoc, assignments_append, hnone,
    List.append_nil, backlog]

theorem Synced.broadcast (h : w.Synced) {event : BusEvent} {rest : List BusEvent}
    (hbatch : w.batch = event :: rest) :
    Synced { w with batch := rest, client := w.client.putNowait event } := by
  have haway : Synced { w with batch := rest, client := .away } := by
    have hbacklog : w.backlog = (w.client.queue ++ [event]) ++ (rest ++ w.bus.buf) := by
      rw [backlog, hbatch]
      simp
    exact h.dropped hbacklog rfl fun _ _ _ hc => by cases hc
  rw [Client.putNowait]
  split
  · exact haway
  · rcases hclient : w.client with _ | queue | ⟨queue, received, missed⟩
    · exact haway
    · refine h.same ?_ fun _ _ _ hc => by cases hc
      rw [backlog, hbatch, hclient]
      simp [Client.queue, Client.enqueue]
    · refine h.same ?_ fun _ _ _ hc => ?_
      · rw [backlog, hbatch, hclient]
        simp [Client.queue, Client.enqueue]
      · cases hc
        exact ⟨queue, hclient⟩

/-- **`state.full`**: the client has missed what no event on its way tells aright. -/
theorem Synced.sendFull (h : w.Synced) {queue : List BusEvent}
    (hclient : w.client = .subscribed queue) (heartbeatAge : ℚ) : Synced { w with
      client := .following queue [.stateFull (w.stateFull heartbeatAge)]
        (w.stale.filter (· ∈ (assignments w.backlog).map Prod.fst)) } := by
  have hbacklog : queue ++ w.batch ++ w.bus.buf = w.backlog := by
    rw [backlog, hclient]
    rfl
  refine ⟨h.keyed, ?_, fun queue' received missed hc => ?_⟩
  · show Feed.Sound w.stale (assignments (queue ++ w.batch ++ w.bus.buf)) _
    rw [hbacklog]
    exact h.told.sound
  · cases hc
    refine ⟨w.stateFull heartbeatAge, rfl, ?_⟩
    show Feed.AgreesOff _ (Feed.replay (w.monitor.shared.value w.runStateChangedAt)
      (assignments (queue ++ w.batch ++ w.bus.buf))) _
    rw [hbacklog]
    exact h.told.sound.snapshot

theorem toEnvelope_ne_stateFull {event : BusEvent} {envelope : WsKnownEvent}
    (h : event.toEnvelope = some envelope) (data : RunStateView) : envelope ≠ .stateFull data := by
  rintro rfl
  rw [BusEvent.toEnvelope] at h
  split at h <;> cases h

/-- The client applies what it receives. -/
theorem Synced.receive (h : w.Synced) {event : BusEvent} {queue : List BusEvent}
    {received : List WsKnownEvent} {missed : Finset ViewKey}
    (hclient : w.client = .following (event :: queue) received missed) :
    Synced { w with
      client := .following queue (received ++ event.toEnvelope.toList) missed } := by
  have hbacklog : w.backlog = event :: (queue ++ w.batch ++ w.bus.buf) := by
    rw [backlog, hclient]
    rfl
  obtain ⟨view, hview, hagrees⟩ := h.told.follows _ _ _ hclient
  have hsound := h.told.sound
  rw [hbacklog] at hsound hagrees
  refine ⟨h.keyed, ?_, fun queue' received' missed' hc => ?_⟩
  · have hrest : Feed.Sound w.stale
        (assignments [event] ++ assignments (queue ++ w.batch ++ w.bus.buf))
        (w.monitor.shared.value w.runStateChangedAt) := by
      rwa [← assignments_append]
    exact hrest.of_append
  · cases hc
    rcases hevent : event.toEnvelope with _ | envelope
    · -- nothing is sent
      refine ⟨view, by simpa using hview, ?_⟩
      have hnone : event.assignment? = none := by rw [BusEvent.assignment?, hevent]; rfl
      rw [assignments, List.filterMap_cons_none hnone] at hagrees
      exact hagrees
    · obtain ⟨view', hview', hvalue⟩ := value_setQueryData view (toEnvelope_ne_stateFull hevent)
      refine ⟨view', ?_, ?_⟩
      · rw [Option.toList_some, cacheOf_append, hview, hview']
      · have hassign : event.assignment? = envelope.assignment? := by
          rw [BusEvent.assignment?, hevent]
          rfl
        rcases hkv : envelope.assignment? with _ | ⟨k, value⟩ <;> rw [hkv] at hvalue hassign
        · rw [assignments, List.filterMap_cons_none hassign] at hagrees
          rw [hvalue]
          exact hagrees
        · rw [assignments, List.filterMap_cons_some hassign, Feed.replay_cons] at hagrees
          rw [hvalue]
          exact hagrees

theorem Synced.disconnect (h : w.Synced) : Synced { w with client := .away } := by
  have hbacklog : w.backlog = w.client.queue ++ (w.batch ++ w.bus.buf) := by
    rw [backlog, List.append_assoc]
  exact h.dropped hbacklog rfl fun _ _ _ hc => by cases hc

/-- **One step.** -/
theorem synced_step {l : WireLabel} (h : w.Synced) (hs : wire.step w l = some w')
    (hroom : w'.bus.droppedTotal = w.bus.droppedTotal) : w'.Synced := by
  cases l with
  | supervisor l clock time =>
    obtain ⟨m, hm, hp⟩ := Option.bind_eq_some_iff.mp hs
    exact h.supervisor hm hp hroom
  | dropAlert time =>
    obtain rfl := Option.some.inj hs
    exact h.put rfl hroom
  | hostStats data time =>
    obtain rfl := Option.some.inj hs
    exact h.put rfl hroom
  | drain =>
    simp only [wire] at hs
    split at hs
    · rename_i hbatch
      obtain rfl := Option.some.inj hs
      refine h.same ?_ fun queue _ _ hc => ⟨queue, hc⟩
      rw [backlog, hbatch, EventBus.clear, List.append_nil, List.append_nil]
    · cases hs
  | broadcast =>
    simp only [wire] at hs
    split at hs
    · cases hs
    · rename_i event rest hbatch
      obtain rfl := Option.some.inj hs
      exact h.broadcast hbatch
  | connect =>
    simp only [wire] at hs
    split at hs
    · rename_i hclient
      obtain rfl := Option.some.inj hs
      refine h.same ?_ fun _ _ _ hc => by cases hc
      rw [backlog, hclient]
      rfl
    · cases hs
  | sendFull heartbeatAge =>
    simp only [wire] at hs
    split at hs
    · rename_i queue hclient
      obtain rfl := Option.some.inj hs
      exact h.sendFull hclient heartbeatAge
    · cases hs
  | receive =>
    simp only [wire] at hs
    split at hs
    · rename_i event queue received missed hclient
      obtain rfl := Option.some.inj hs
      exact h.receive hclient
    · cases hs
  | disconnect =>
    obtain rfl := Option.some.inj hs
    exact h.disconnect

theorem synced_boot (s : Supervisor) (capacity : ℕ) (h : (Viewed.init s).Keyed) :
    (boot s capacity).Synced :=
  ⟨h, Feed.Sound.nil, fun _ _ _ hc => by cases hc⟩

/-! ## Convergence -/

/-- A task that is over. -/
def isOver : Interleaving.Phase Op Section → Bool
  | .finished => true
  | .called _ | .queued _ | .inside _ => false

/-- Nothing is on its way to the client, and no operation is in flight. -/
def Quiescent (w : Wire) : Prop := w.backlog = [] ∧ ∀ task ∈ w.monitor.tasks, isOver task = true

instance (w : Wire) : Decidable w.Quiescent := inferInstanceAs (Decidable (_ ∧ _))

/-- The folded messages of a client that follows show what `_build_state_full` would return. -/
def Converged (w : Wire) : Prop :=
  w.Quiescent → ∀ queue received missed, w.client = .following queue received missed →
    ∃ view, cacheOf received = some view ∧ ∀ heartbeatAge,
      view.runState = (w.stateFull heartbeatAge).runState ∧
      view.runStateChangedAt = (w.stateFull heartbeatAge).runStateChangedAt ∧
      ∀ id, snapshotFor view.targets id = snapshotFor (w.stateFull heartbeatAge).targets id

/-- The step drops nothing, and if it leaves everything quiescent the client has missed nothing. -/
def Heard (w : Wire) (l : WireLabel) : Prop :=
  ∀ w' ∈ wire.step w l,
    w'.bus.droppedTotal = w.bus.droppedTotal ∧ (w'.Quiescent → w'.client.missed = ∅)

instance (w : Wire) (l : WireLabel) : Decidable (w.Heard l) :=
  inferInstanceAs (Decidable (∀ w' ∈ wire.step w l, _ ∧ _))

/-- A client that has missed nothing and has nothing to come shows every value. -/
theorem Synced.converged (h : w.Synced) (hmissed : w.Quiescent → w.client.missed = ∅) :
    w.Converged := by
  intro hquiet queue received missed hclient
  obtain ⟨view, hview, hagrees⟩ := h.told.follows _ _ _ hclient
  have hnone := hmissed hquiet
  rw [hclient] at hnone
  rw [hquiet.1, show missed = ∅ from hnone] at hagrees
  have hvalue : view.value = w.monitor.shared.value w.runStateChangedAt := hagrees.of_eq
  refine ⟨view, hview, fun heartbeatAge => ?_⟩
  have hrun := congrFun hvalue .run
  refine ⟨(ViewValue.run.inj hrun).1, (ViewValue.run.inj hrun).2, fun id => ?_⟩
  exact ViewValue.target.inj (congrFun hvalue (.target id))

/-- **Clients converge** in every run without a drop in which, whenever everything has come to
rest, the client has missed no change. -/
theorem clients_converge (url : Text) (registry : CredentialRegistry) (keys : Option DerivedKeys)
    (db : Database) (capacity : ℕ) (labels : List WireLabel)
    (h : wire.Meets Heard (boot (Supervisor.init url registry keys db) capacity) labels) :
    wire.Always Converged (boot (Supervisor.init url registry keys db) capacity) labels := by
  have hkeyed : (Viewed.init (Supervisor.init url registry keys db)).Keyed :=
    fun _ _ ht => absurd ht (Option.not_mem_none _)
  refine Machine.always_of_inv
    (I := fun w => w.Synced ∧ (w.Quiescent → w.client.missed = ∅)) (fun w l w' hi hheard hs => ?_)
    (fun w hi => hi.1.converged hi.2) ⟨synced_boot _ capacity hkeyed, fun _ => rfl⟩ h
  obtain ⟨hroom, hmissed⟩ := hheard w' hs
  exact ⟨synced_step hi.1 hs hroom, hmissed⟩

/-! ## A target that nobody reports -/

section Unreported

/-- One enabled Twitch target, with or without a stream key. -/
def unreportedDb (credentials : Dict TargetId CredentialRow) : Database where
  targets := Dict.empty.insert 7
    ⟨.twitch, "main".toList, "rtmp://live.twitch.tv/app".toList, true, ∅⟩
  credentials := credentials
  history := ∅

/-- Its stream key. -/
def reportedCredentials : Dict TargetId CredentialRow :=
  Dict.empty.insert 7 ⟨1, .persistent,
    encryptCredential (deriveKeys "passphrase".toList [1]).streamKeyKek [2] [3]
      "live_0123456789".toList, [2], [3], "6789".toList⟩

/-- A control plane with these tables. -/
def unreportedBoot (db : Database) : Wire :=
  boot (Supervisor.init "rtmp://127.0.0.1/live/k".toList
    .empty (some (deriveKeys "passphrase".toList [1])) db)
    10000

/-- A client connects, and a start comes to the read of the stream key. -/
def unreportedStart : List WireLabel :=
  [.connect, .sendFull 0, .supervisor (.call .startRun) [] 0, .supervisor (.start 0) [(1, 1)] 0,
    .supervisor (.resume 0 .ok) [] 0, .supervisor (.resume 0 .ok) [] 0,
    .supervisor (.resume 0 .ok) [] 0]

/-- The worker of the target delivers before the start returns. -/
theorem clients_converge_reported :
    wire.Always Converged (unreportedBoot (unreportedDb reportedCredentials)) (unreportedStart ++
      [.supervisor (.resume 0 .ok) [] 0, .supervisor (.resume 0 .ok) [(2, 2)] 0,
        .supervisor (.external (.workerEvent ⟨7, .primary⟩ ⟨.primary, .running, 3, none, 0, none⟩))
          [] 3,
        .supervisor (.resume 0 .ok) [] 0, .drain, .broadcast, .broadcast, .broadcast, .receive,
        .receive, .receive]) :=
  clients_converge _ _ _ _ _ _ (by decide +kernel)

/-- The start of a run with a target that has no key: the client is never told of it. -/
theorem client_without_target :
    ∃ w, wire.run (unreportedBoot (unreportedDb ∅)) (unreportedStart ++
      [.supervisor (.resume 0 .ok) [(2, 2)] 0, .supervisor (.resume 0 .ok) [] 0, .drain, .broadcast,
        .broadcast, .receive, .receive]) = some w ∧ ¬ Converged w := by
  have hlast : (wire.run (unreportedBoot (unreportedDb ∅)) (unreportedStart ++
      [.supervisor (.resume 0 .ok) [(2, 2)] 0, .supervisor (.resume 0 .ok) [] 0, .drain, .broadcast,
        .broadcast, .receive, .receive])).any (fun w =>
      decide w.Quiescent && (w.client matches .following _ _ _) &&
        (cacheOf w.client.received).all fun view =>
          snapshotFor view.targets 7 ≠ snapshotFor (w.stateFull 0).targets 7) = true := by
    decide +kernel
  obtain ⟨w, hw, hshown⟩ := (Option.any_eq_true _ _).mp hlast
  refine ⟨w, hw, fun hconverged => ?_⟩
  rw [Bool.and_eq_true, Bool.and_eq_true] at hshown
  obtain ⟨⟨hquiet, hfollows⟩, hdiffers⟩ := hshown
  rcases hclient : w.client with _ | queue | ⟨queue, received, missed⟩ <;> rw [hclient] at hfollows
  · cases hfollows
  · cases hfollows
  · obtain ⟨view, hview, hsame⟩ := hconverged (of_decide_eq_true hquiet) _ _ _ hclient
    rw [hclient, show (Client.following queue received missed).received = received from rfl,
      hview] at hdiffers
    exact of_decide_eq_true hdiffers ((hsame 0).2.2 7)

end Unreported

end Wire

end RestreamPlus
