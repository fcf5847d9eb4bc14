import Mathlib.Data.List.Infix
import Mathlib.Data.List.Perm.Basic
import Mathlib.Logic.Function.Basic
import RestreamPlus.Api.Ws

/-!
# One broadcaster and many sockets (`app/api/ws.py`)

`ws_broadcaster` takes an event, takes a snapshot of the registry, and puts the
event into the queue of every subscriber in it. A queue that is full makes its
subscriber `overflowed`. `_forward_loop` of a client looks at that flag before
each event it takes.

`Hub` is the broadcaster with any number of connections. The steps are finer than
the awaits of the source: between two puts of one event anything may happen.
What a client gets is a prefix of what was broadcast since it registered, and
after an overflow the loop ends (`gap_free_or_closed`). `only` is the hub as one
client sees it: nothing in it depends on the others (`run_only`).
-/

namespace RestreamPlus

open Interleaving

namespace WsBroadcast

/-- `WS_PER_CLIENT_QUEUE_CAPACITY`. -/
def wsPerClientQueueCapacity : ℕ := 256

/-- `WS_CLOSE_OVERLOAD`. -/
def wsCloseOverload : ℕ := 1011

/-- `WsSubscriber`. -/
structure WsSubscriber : Type where
  queue : List BusEvent := []
  overflowed : Bool := false
  deriving DecidableEq

/-- Where `ws_endpoint` of a client is. -/
inductive Stage : Type where
  /-- before `registry.add` -/
  | connecting
  /-- sending `state.full` -/
  | greeting
  /-- at the head of `_forward_loop` -/
  | looping
  /-- in `queue.get()` -/
  | getting
  /-- in `send_json` -/
  | sending
  /-- in `websocket.close` -/
  | closing
  /-- in the `finally`, before `registry.remove` -/
  | leaving
  | gone
  deriving DecidableEq

/-- A connection, with an account of what happened to it. -/
structure Connection : Type extends WsSubscriber where
  stage : Stage := .connecting
  /-- how many events had been broadcast when it registered -/
  since : ℕ := 0
  enqueued : List BusEvent := []
  /-- what the loop got from the queue -/
  taken : List BusEvent := []
  /-- what was handed to `send_json` -/
  sent : List BusEvent := []
  closeCode : Option ℕ := none
  /-- an await of the handler raised -/
  failed : Bool := false
  deriving DecidableEq

/-- The event has a message. -/
def Renders (event : BusEvent) : Bool := event.toEnvelope.isSome

namespace Connection

/-- What the broadcaster does with an event for this subscriber. -/
def offer (k : Connection) (event : BusEvent) : Connection :=
  if k.overflowed = true then k
  else if wsPerClientQueueCapacity ≤ k.queue.length then { k with overflowed := true }
  else { k with queue := k.queue ++ [event], enqueued := k.enqueued ++ [event] }

/-- What the handler of a client does. -/
inductive Act : Type where
  /-- `state.full` is sent -/
  | greeted
  /-- the test of `overflowed` -/
  | check
  /-- `queue.get()` returns -/
  | get
  | sendReturned
  | closeReturned
  /-- an await raises: the client is gone, or the task is cancelled -/
  | fail
  deriving DecidableEq

/-- The handler from one such point to the next. -/
def act (k : Connection) : Act → Option Connection
  | .greeted => if k.stage = .greeting then some { k with stage := .looping } else none
  | .check =>
    if k.stage = .looping then
      if k.overflowed = true then
        some { k with stage := .closing, closeCode := some wsCloseOverload }
      else some { k with stage := .getting }
    else none
  | .get =>
    match k.queue with
    | [] => none
    | event :: queue =>
      if k.stage = .getting then
        if Renders event = true then
          some { k with
            stage := .sending, queue := queue, taken := k.taken ++ [event]
            sent := k.sent ++ [event] }
        -- an event without a message is skipped
        else some { k with stage := .looping, queue := queue, taken := k.taken ++ [event] }
      else none
  | .sendReturned => if k.stage = .sending then some { k with stage := .looping } else none
  | .closeReturned => if k.stage = .closing then some { k with stage := .leaving } else none
  | .fail =>
    if k.stage ∈ [.greeting, .getting, .sending, .closing] then
      some { k with stage := .leaving, failed := true }
    else none

end Connection

/-- The broadcaster, the registry and the connections. -/
structure Hub : Type where
  /-- every event a snapshot was taken for, in order -/
  log : List BusEvent
  /-- the members of the last snapshot that are still to be served -/
  serving : List ℕ
  /-- `WsRegistry.subscribers`, a set in the source -/
  subscribers : List ℕ
  connections : ℕ → Connection

namespace Hub

/-- Nobody is connected. -/
def boot : Hub := ⟨[], [], [], fun _ => {}⟩

/-- What happens next. -/
inductive Label : Type where
  /-- an event is drained, and this is the snapshot of the registry -/
  | broadcast : BusEvent → List ℕ → Label
  /-- the loop over the snapshot serves the next member -/
  | put : Label
  /-- `registry.add` -/
  | add : ℕ → Label
  | act : ℕ → Connection.Act → Label
  /-- `registry.remove` -/
  | remove : ℕ → Label
  deriving DecidableEq

/-- The connection `i` becomes `k`. -/
def setConnection (c : Hub) (i : ℕ) (k : Connection) : Hub :=
  { c with connections := Function.update c.connections i k }

/-- The hub as a machine. -/
def machine : Machine Hub Label where
  step c
    | .broadcast event subs =>
      if c.serving = [] ∧ subs.Perm c.subscribers then
        some { c with log := c.log ++ [event], serving := subs }
      else none
    | .put =>
      match c.serving, c.log.getLast? with
      | i :: rest, some event =>
        some ({ c with serving := rest }.setConnection i ((c.connections i).offer event))
      | _, _ => none
    | .add i =>
      if (c.connections i).stage = .connecting then
        some ({ c with subscribers := c.subscribers ++ [i] }.setConnection i
          { stage := .greeting, since := c.log.length })
      else none
    | .act i a => ((c.connections i).act a).map (c.setConnection i)
    | .remove i =>
      if (c.connections i).stage = .leaving then
        some ({ c with subscribers := c.subscribers.erase i }.setConnection i
          { c.connections i with stage := .gone })
      else none

@[simp] theorem connections_setConnection_self (c : Hub) (i : ℕ) (k : Connection) :
    (c.setConnection i k).connections i = k := Function.update_self ..

theorem connections_setConnection_ne (c : Hub) {i j : ℕ} (k : Connection) (h : j ≠ i) :
    (c.setConnection i k).connections j = c.connections j := Function.update_of_ne h ..

/-! ## Inversion -/

theorem step_put {c c' : Hub} (h : machine.step c .put = some c') :
    ∃ i rest before event, c.serving = i :: rest ∧ c.log = before ++ [event] ∧
      c' = { c with serving := rest }.setConnection i ((c.connections i).offer event) := by
  simp only [machine] at h
  split at h
  · rename_i i rest event hserving hlast
    obtain ⟨before, hlog⟩ := List.getLast?_eq_some_iff.mp hlast
    exact ⟨i, rest, before, event, hserving, hlog, (Option.some.inj h).symm⟩
  · cases h

theorem step_broadcast {c c' : Hub} {event : BusEvent} {subs : List ℕ}
    (h : machine.step c (.broadcast event subs) = some c') :
    c.serving = [] ∧ subs.Perm c.subscribers ∧
      c' = { c with log := c.log ++ [event], serving := subs } := by
  obtain ⟨hfree, heq⟩ := Option.ite_none_right_eq_some.mp h
  exact ⟨hfree.1, hfree.2, (Option.some.inj heq).symm⟩

theorem step_add {c c' : Hub} {i : ℕ} (h : machine.step c (.add i) = some c') :
    (c.connections i).stage = .connecting ∧
      c' = { c with subscribers := c.subscribers ++ [i] }.setConnection i
        { stage := .greeting, since := c.log.length } := by
  obtain ⟨hstage, heq⟩ := Option.ite_none_right_eq_some.mp h
  exact ⟨hstage, (Option.some.inj heq).symm⟩

theorem step_act {c c' : Hub} {i : ℕ} {a : Connection.Act}
    (h : machine.step c (.act i a) = some c') :
    ∃ k, (c.connections i).act a = some k ∧ c' = c.setConnection i k := by
  obtain ⟨k, hk, rfl⟩ := Option.map_eq_some_iff.mp h
  exact ⟨k, hk, rfl⟩

theorem step_remove {c c' : Hub} {i : ℕ} (h : machine.step c (.remove i) = some c') :
    (c.connections i).stage = .leaving ∧
      c' = { c with subscribers := c.subscribers.erase i }.setConnection i
        { c.connections i with stage := .gone } := by
  obtain ⟨hstage, heq⟩ := Option.ite_none_right_eq_some.mp h
  exact ⟨hstage, (Option.some.inj heq).symm⟩

end Hub

/-! ## The handler -/

namespace Connection

/-- What the loop of a client keeps, whenever the broadcaster comes by. -/
structure Sound (k : Connection) : Prop where
  accounted : k.taken ++ k.queue = k.enqueued
  rendered : k.sent = k.taken.filter Renders
  fresh : k.stage = .connecting → k = {}
  /-- a `queue.get()` that an overflow finds waiting returns -/
  full : k.overflowed = true → k.stage = .getting → k.queue ≠ []
  overloaded : k.stage = .closing → k.closeCode = some wsCloseOverload
  ended : k.stage = .leaving ∨ k.stage = .gone →
    k.failed = true ∨ k.closeCode = some wsCloseOverload

theorem sound_fresh : Sound {} :=
  ⟨rfl, rfl, fun _ => rfl, nofun, nofun, fun h => by rcases h with h | h <;> cases h⟩

theorem sound_add (n : ℕ) : Sound { stage := .greeting, since := n } :=
  ⟨rfl, rfl, nofun, nofun, nofun, fun h => by rcases h with h | h <;> cases h⟩

variable {k k' : Connection} {a : Act} {event : BusEvent}

@[simp] theorem stage_offer (k : Connection) (event : BusEvent) :
    (k.offer event).stage = k.stage := by
  rw [offer]
  split
  · rfl
  · split <;> rfl

@[simp] theorem since_offer (k : Connection) (event : BusEvent) :
    (k.offer event).since = k.since := by
  rw [offer]
  split
  · rfl
  · split <;> rfl

/-- An event is dropped only for a subscriber that is, or becomes, overflowed. -/
theorem enqueued_offer (k : Connection) (event : BusEvent) :
    ((k.offer event).enqueued = k.enqueued ∧ (k.offer event).overflowed = true) ∨
      ((k.offer event).enqueued = k.enqueued ++ [event] ∧ k.overflowed = false ∧
        (k.offer event).overflowed = false) := by
  rw [offer]
  split
  · rename_i ho
    exact .inl ⟨rfl, ho⟩
  · rename_i ho
    rw [Bool.not_eq_true] at ho
    split
    · exact .inl ⟨rfl, rfl⟩
    · exact .inr ⟨rfl, ho, ho⟩

theorem offer_of_overflowed (ho : k.overflowed = true) (event : BusEvent) : k.offer event = k :=
  if_pos ho

theorem Sound.offer (h : k.Sound) (hstage : k.stage ≠ .connecting) : (k.offer event).Sound := by
  rw [Connection.offer]
  split
  · exact h
  · split
    · rename_i hfull
      refine ⟨h.accounted, h.rendered, fun hs => absurd hs hstage, fun _ _ hnil => ?_, h.overloaded,
        h.ended⟩
      rw [show k.queue = [] from hnil] at hfull
      exact absurd hfull (by decide)
    · refine ⟨?_, h.rendered, fun hs => absurd hs hstage, fun _ _ => ?_, h.overloaded, h.ended⟩
      · rw [← h.accounted, List.append_assoc]
      · exact List.append_ne_nil_of_right_ne_nil _ (List.cons_ne_nil _ _)

/-- What the handler leaves alone. -/
theorem act_frame (h : k.act a = some k') :
    k'.since = k.since ∧ k'.enqueued = k.enqueued ∧ k'.overflowed = k.overflowed ∧
      (k.stage ≠ .connecting ∧ k.stage ≠ .gone) ∧ k'.stage ≠ .connecting ∧ k'.stage ≠ .gone := by
  have hne : ∀ {st : Stage}, k.stage = st → st ≠ .connecting → st ≠ .gone →
      k.stage ≠ .connecting ∧ k.stage ≠ .gone := fun h h1 h2 => h ▸ ⟨h1, h2⟩
  cases a with
  | greeted =>
    obtain ⟨hs, heq⟩ := Option.ite_none_right_eq_some.mp h
    obtain rfl := Option.some.inj heq
    exact ⟨rfl, rfl, rfl, hne hs nofun nofun, nofun, nofun⟩
  | check =>
    obtain ⟨hs, heq⟩ := Option.ite_none_right_eq_some.mp h
    split at heq <;> obtain rfl := Option.some.inj heq <;>
      exact ⟨rfl, rfl, rfl, hne hs nofun nofun, nofun, nofun⟩
  | get =>
    rw [act] at h
    split at h
    · cases h
    · obtain ⟨hs, heq⟩ := Option.ite_none_right_eq_some.mp h
      split at heq <;> obtain rfl := Option.some.inj heq <;>
        exact ⟨rfl, rfl, rfl, hne hs nofun nofun, nofun, nofun⟩
  | sendReturned =>
    obtain ⟨hs, heq⟩ := Option.ite_none_right_eq_some.mp h
    obtain rfl := Option.some.inj heq
    exact ⟨rfl, rfl, rfl, hne hs nofun nofun, nofun, nofun⟩
  | closeReturned =>
    obtain ⟨hs, heq⟩ := Option.ite_none_right_eq_some.mp h
    obtain rfl := Option.some.inj heq
    exact ⟨rfl, rfl, rfl, hne hs nofun nofun, nofun, nofun⟩
  | fail =>
    obtain ⟨hs, heq⟩ := Option.ite_none_right_eq_some.mp h
    obtain rfl := Option.some.inj heq
    refine ⟨rfl, rfl, rfl, ⟨?_, ?_⟩, nofun, nofun⟩ <;> rintro hst <;> rw [hst] at hs <;>
      exact absurd hs (by decide)

theorem Sound.act (h : k.Sound) (ha : k.act a = some k') : k'.Sound := by
  cases a with
  | greeted =>
    obtain ⟨-, heq⟩ := Option.ite_none_right_eq_some.mp ha
    obtain rfl := Option.some.inj heq
    exact ⟨h.accounted, h.rendered, nofun, nofun, nofun,
      fun h => by rcases h with h | h <;> cases h⟩
  | check =>
    obtain ⟨-, heq⟩ := Option.ite_none_right_eq_some.mp ha
    split at heq
    · obtain rfl := Option.some.inj heq
      exact ⟨h.accounted, h.rendered, nofun, nofun, fun _ => rfl,
        fun h => by rcases h with h | h <;> cases h⟩
    · rename_i ho
      obtain rfl := Option.some.inj heq
      exact ⟨h.accounted, h.rendered, nofun, fun ho' _ => absurd ho' ho, nofun,
        fun h => by rcases h with h | h <;> cases h⟩
  | get =>
    rw [Connection.act] at ha
    split at ha
    · cases ha
    · rename_i event queue hq
      obtain ⟨-, heq⟩ := Option.ite_none_right_eq_some.mp ha
      have hacc : (k.taken ++ [event]) ++ queue = k.enqueued := by
        rw [← h.accounted, hq, List.append_assoc, List.singleton_append]
      split at heq
      · rename_i hr
        obtain rfl := Option.some.inj heq
        refine ⟨hacc, ?_, nofun, nofun, nofun, fun h => by rcases h with h | h <;> cases h⟩
        rw [List.filter_append, List.filter_singleton, hr, ← h.rendered]
        rfl
      · rename_i hr
        obtain rfl := Option.some.inj heq
        refine ⟨hacc, ?_, nofun, nofun, nofun, fun h => by rcases h with h | h <;> cases h⟩
        rw [List.filter_append, List.filter_singleton, eq_false_of_ne_true hr, ← h.rendered]
        exact (List.append_nil _).symm
  | sendReturned =>
    obtain ⟨-, heq⟩ := Option.ite_none_right_eq_some.mp ha
    obtain rfl := Option.some.inj heq
    exact ⟨h.accounted, h.rendered, nofun, nofun, nofun,
      fun h => by rcases h with h | h <;> cases h⟩
  | closeReturned =>
    obtain ⟨hs, heq⟩ := Option.ite_none_right_eq_some.mp ha
    obtain rfl := Option.some.inj heq
    exact ⟨h.accounted, h.rendered, nofun, nofun, nofun, fun _ => .inr (h.overloaded hs)⟩
  | fail =>
    obtain ⟨-, heq⟩ := Option.ite_none_right_eq_some.mp ha
    obtain rfl := Option.some.inj heq
    exact ⟨h.accounted, h.rendered, nofun, nofun, nofun, fun _ => .inl rfl⟩

/-- How many events the loop may still hand over once it is overflowed. -/
def budget (k : Connection) : ℕ := if k.stage = .getting then 1 else 0

/-- **After an overflow** what is handed over comes out of the budget. -/
theorem act_overflowed (ho : k.overflowed = true) (h : k.act a = some k') :
    ∃ l, k'.sent = k.sent ++ l ∧ l.length + k'.budget ≤ k.budget := by
  cases a with
  | get =>
    rw [act] at h
    split at h
    · cases h
    · rename_i event queue hq
      obtain ⟨hs, heq⟩ := Option.ite_none_right_eq_some.mp h
      have hone : k.budget = 1 := if_pos hs
      split at heq <;> obtain rfl := Option.some.inj heq
      · exact ⟨[event], rfl, hone.ge⟩
      · exact ⟨[], (List.append_nil _).symm, Nat.zero_le _⟩
  | check =>
    obtain ⟨-, heq⟩ := Option.ite_none_right_eq_some.mp h
    rw [if_pos ho] at heq
    obtain rfl := Option.some.inj heq
    exact ⟨[], (List.append_nil _).symm, Nat.zero_le _⟩
  | greeted | sendReturned | closeReturned | fail =>
    obtain ⟨-, heq⟩ := Option.ite_none_right_eq_some.mp h
    obtain rfl := Option.some.inj heq
    exact ⟨[], (List.append_nil _).symm, Nat.zero_le _⟩

/-- The handler on its own, no await of it raising, comes to the close in so many steps. -/
def Finishes (n : ℕ) (k : Connection) : Prop :=
  ∃ acts : List Act, acts.length ≤ n ∧ Act.fail ∉ acts ∧
    ∃ k' ∈ acts.foldlM act k, k'.stage = .leaving ∧ k'.closeCode = some wsCloseOverload

theorem Finishes.cons {n : ℕ} (h : k.act a = some k') (ha : a ≠ .fail) (hk : k'.Finishes n) :
    k.Finishes (n + 1) := by
  obtain ⟨acts, hlen, hfail, k'', hfold, hend⟩ := hk
  refine ⟨a :: acts, Nat.succ_le_succ hlen, ?_, k'', ?_, hend⟩
  · rw [List.mem_cons]
    exact not_or.mpr ⟨Ne.symm ha, hfail⟩
  · rw [List.foldlM_cons, h]
    exact hfold

theorem Finishes.mono {m n : ℕ} (h : k.Finishes m) (hle : m ≤ n) : k.Finishes n := by
  obtain ⟨acts, hlen, hrest⟩ := h
  exact ⟨acts, hlen.trans hle, hrest⟩

theorem finishes_closing (hs : k.stage = .closing) (hcode : k.closeCode = some wsCloseOverload) :
    k.Finishes 1 := by
  refine .cons (a := .closeReturned) (if_pos hs) nofun ?_
  exact ⟨[], Nat.le_refl 0, nofun, _, rfl, rfl, hcode⟩

theorem finishes_looping (hs : k.stage = .looping) (ho : k.overflowed = true) : k.Finishes 2 := by
  have hact : k.act .check =
      some { k with stage := .closing, closeCode := some wsCloseOverload } := by
    rw [act, if_pos hs, if_pos ho]
  exact .cons hact nofun (finishes_closing rfl rfl)

theorem finishes_sending (hs : k.stage = .sending) (ho : k.overflowed = true) : k.Finishes 3 := by
  have hact : k.act .sendReturned = some { k with stage := .looping } := if_pos hs
  have hloop : Finishes 2 { k with stage := .looping } := finishes_looping rfl ho
  exact .cons hact nofun hloop

/-- **An overflowed loop ends in the close**, unless an await of it raises. -/
theorem Sound.finishes (h : k.Sound) (ho : k.overflowed = true) :
    (k.failed = true ∨ k.closeCode = some wsCloseOverload) ∧
        (k.stage = .leaving ∨ k.stage = .gone) ∨
      k.Finishes 4 := by
  rcases hs : k.stage
  case connecting =>
    rw [h.fresh hs] at ho
    cases ho
  case gone => exact .inl ⟨h.ended (.inr hs), .inr rfl⟩
  case leaving => exact .inl ⟨h.ended (.inl hs), .inl rfl⟩
  case closing => exact .inr ((finishes_closing hs (h.overloaded hs)).mono (by decide))
  case looping => exact .inr ((finishes_looping hs ho).mono (by decide))
  case sending => exact .inr ((finishes_sending hs ho).mono (by decide))
  case greeting =>
    have hact : k.act .greeted = some { k with stage := .looping } := if_pos hs
    have hloop : Finishes 2 { k with stage := .looping } := finishes_looping rfl ho
    exact .inr (Finishes.mono (.cons hact nofun hloop) (by decide))
  case getting =>
    -- the queue was full when the flag was set, so the `get` returns
    obtain ⟨event, queue, hq⟩ := List.exists_cons_of_ne_nil (h.full ho hs)
    rcases hr : Renders event
    · have hact : k.act .get =
          some { k with stage := .looping, queue := queue, taken := k.taken ++ [event] } := by
        rw [Connection.act, hq]
        simp only [hs, hr, if_true, Bool.false_eq_true, if_false]
      have hloop : Finishes 2
          { k with stage := .looping, queue := queue, taken := k.taken ++ [event] } :=
        finishes_looping rfl ho
      exact .inr (Finishes.mono (.cons hact nofun hloop) (by decide))
    · have hact : k.act .get = some { k with
          stage := .sending, queue := queue, taken := k.taken ++ [event]
          sent := k.sent ++ [event] } := by
        rw [Connection.act, hq]
        simp only [hs, hr, if_true]
      have hsend : Finishes 3 { k with
          stage := .sending, queue := queue, taken := k.taken ++ [event]
          sent := k.sent ++ [event] } := finishes_sending rfl ho
      exact .inr (.cons hact nofun hsend)

end Connection

/-! ## The hub -/

/-- How a connection stands to what was broadcast. -/
structure Fits (log : List BusEvent) (serving subscribers : List ℕ) (i : ℕ) (k : Connection) :
    Prop where
  handler : k.Sound
  member : i ∈ subscribers ↔ k.stage ≠ .connecting ∧ k.stage ≠ .gone
  /-- a snapshot that has it was taken after it registered -/
  served : i ∈ serving → k.stage ≠ .connecting ∧ k.since < log.length
  since_le : k.since ≤ log.length
  segment : k.enqueued <+: log.drop k.since
  /-- the event that is being served is still missing -/
  pending : i ∈ serving → k.overflowed = false → k.enqueued = (log.drop k.since).dropLast
  /-- nothing is missing -/
  complete : i ∈ subscribers → i ∉ serving → k.overflowed = false → k.enqueued = log.drop k.since

section Fits

variable {log : List BusEvent} {serving subscribers : List ℕ} {i : ℕ} {k k' : Connection}
  {event : BusEvent}

/-- Only membership matters. -/
theorem Fits.congr (h : Fits log serving subscribers i k) {serving' subscribers' : List ℕ}
    (hserving : i ∈ serving' ↔ i ∈ serving) (hsubs : i ∈ subscribers' ↔ i ∈ subscribers) :
    Fits log serving' subscribers' i k :=
  ⟨h.handler, hsubs.trans h.member, fun hi => h.served (hserving.mp hi), h.since_le, h.segment,
    fun hi => h.pending (hserving.mp hi),
    fun hi hno => h.complete (hsubs.mp hi) fun hs => hno (hserving.mpr hs)⟩

theorem drop_concat (hle : k.since ≤ log.length) :
    (log ++ [event]).drop k.since = log.drop k.since ++ [event] := by
  rw [List.drop_append_of_le_length hle]

/-- A new event: everybody in the registry is to be served. -/
theorem Fits.broadcast (h : Fits log [] subscribers i k) {subs : List ℕ}
    (hsubs : i ∈ subs ↔ i ∈ subscribers) : Fits (log ++ [event]) subs subscribers i k where
  handler := h.handler
  member := h.member
  served hi := by
    refine ⟨(h.member.mp (hsubs.mp hi)).1, ?_⟩
    rw [List.length_append]
    exact Nat.lt_succ_of_le h.since_le
  since_le := by
    rw [List.length_append]
    exact Nat.le_succ_of_le h.since_le
  segment := by
    rw [drop_concat h.since_le]
    exact h.segment.trans (List.prefix_append _ _)
  pending hi ho := by
    rw [drop_concat h.since_le, List.dropLast_concat]
    exact h.complete (hsubs.mp hi) List.not_mem_nil ho
  complete hi hno := absurd (hsubs.mpr hi) hno

/-- **A member is served**: the event joins the queue, or the connection is
overflowed. -/
theorem Fits.offer {rest : List ℕ} (h : Fits (log ++ [event]) (i :: rest) subscribers i k)
    (hnot : i ∉ rest) : Fits (log ++ [event]) rest subscribers i (k.offer event) := by
  have hmem : i ∈ i :: rest := List.mem_cons_self
  have hle : k.since ≤ log.length := by
    have hlt := (h.served hmem).2
    rw [List.length_append] at hlt
    exact Nat.le_of_lt_succ hlt
  have hwhole : k.overflowed = false →
      k.enqueued ++ [event] = (log ++ [event]).drop k.since := by
    intro ho
    have hpending := h.pending hmem ho
    rw [drop_concat hle, List.dropLast_concat] at hpending
    rw [drop_concat hle, hpending]
  have hsegment : (k.offer event).enqueued <+: (log ++ [event]).drop (k.offer event).since := by
    rw [Connection.since_offer]
    rcases k.enqueued_offer event with ⟨heq, -⟩ | ⟨heq, ho, -⟩ <;> rw [heq]
    · exact h.segment
    · exact (hwhole ho).symm ▸ List.prefix_rfl
  refine ⟨h.handler.offer (h.served hmem).1, ?_, fun hi => absurd hi hnot, ?_, hsegment,
    fun hi => absurd hi hnot, fun _ _ ho => ?_⟩
  · rw [Connection.stage_offer]
    exact h.member
  · rw [Connection.since_offer]
    exact h.since_le
  · rw [Connection.since_offer]
    rcases k.enqueued_offer event with ⟨-, ho'⟩ | ⟨heq, ho', -⟩
    · exact absurd (ho.symm.trans ho') Bool.false_ne_true
    · rw [heq]
      exact hwhole ho'

theorem Fits.act {a : Connection.Act} (h : Fits log serving subscribers i k)
    (ha : k.act a = some k') : Fits log serving subscribers i k' := by
  obtain ⟨hsince, henq, ho, hstage, hstage'⟩ := Connection.act_frame ha
  refine ⟨h.handler.act ha, h.member.trans (iff_of_true hstage hstage'), fun hi => ?_, ?_, ?_, ?_,
    ?_⟩
  · exact ⟨hstage'.1, hsince ▸ (h.served hi).2⟩
  · rw [hsince]
    exact h.since_le
  · rw [hsince, henq]
    exact h.segment
  · rw [hsince, henq, ho]
    exact h.pending
  · rw [hsince, henq, ho]
    exact h.complete

/-- `registry.add`. -/
theorem Fits.add (h : Fits log serving subscribers i k) (hstage : k.stage = .connecting) :
    Fits log serving (subscribers ++ [i]) i { stage := .greeting, since := log.length } where
  handler := Connection.sound_add _
  member := iff_of_true (List.mem_append_right _ List.mem_cons_self) ⟨nofun, nofun⟩
  served hi := absurd hstage (h.served hi).1
  since_le := Nat.le_refl _
  segment := List.nil_prefix
  pending hi := absurd hstage (h.served hi).1
  complete _ _ _ := List.drop_length.symm

/-- `registry.remove`. -/
theorem Fits.remove (h : Fits log serving subscribers i k) (hstage : k.stage = .leaving)
    {subscribers' : List ℕ} (hnot : i ∉ subscribers') :
    Fits log serving subscribers' i { k with stage := .gone } where
  handler := ⟨h.handler.accounted, h.handler.rendered, nofun, nofun, nofun,
    fun _ => h.handler.ended (.inl hstage)⟩
  member := iff_of_false hnot fun hne => hne.2 rfl
  served hi := ⟨nofun, (h.served hi).2⟩
  since_le := h.since_le
  segment := h.segment
  pending := h.pending
  complete hi := absurd hi hnot

end Fits

namespace Hub

/-- The hub keeps its accounts. -/
structure Sound (c : Hub) : Prop where
  nodup : c.serving.Nodup ∧ c.subscribers.Nodup
  fits : ∀ i, Fits c.log c.serving c.subscribers i (c.connections i)

theorem sound_boot : Sound boot :=
  ⟨⟨List.nodup_nil, List.nodup_nil⟩, fun _ => ⟨Connection.sound_fresh,
    iff_of_false List.not_mem_nil fun h => h.1 rfl, fun h => absurd h List.not_mem_nil,
    Nat.le_refl 0, List.nil_prefix, fun h => absurd h List.not_mem_nil,
    fun h => absurd h List.not_mem_nil⟩⟩

/-- One connection is changed, the others see the same. -/
theorem Sound.update {c c₁ : Hub} {i : ℕ} {k : Connection} (h : c.Sound)
    (hnodup : c₁.serving.Nodup ∧ c₁.subscribers.Nodup) (hlog : c₁.log = c.log)
    (hconn : c₁.connections = c.connections)
    (hserving : ∀ j ≠ i, j ∈ c₁.serving ↔ j ∈ c.serving)
    (hsubs : ∀ j ≠ i, j ∈ c₁.subscribers ↔ j ∈ c.subscribers)
    (hk : Fits c₁.log c₁.serving c₁.subscribers i k) : (c₁.setConnection i k).Sound := by
  refine ⟨hnodup, fun j => ?_⟩
  by_cases hj : j = i
  · subst hj
    rw [connections_setConnection_self]
    exact hk
  · rw [connections_setConnection_ne c₁ k hj, hconn]
    show Fits c₁.log c₁.serving c₁.subscribers j (c.connections j)
    rw [hlog]
    exact (h.fits j).congr (hserving j hj) (hsubs j hj)

/-- **What one step keeps.** -/
theorem Sound.step {c c' : Hub} {l : Label} (h : c.Sound) (hs : machine.step c l = some c') :
    c'.Sound := by
  cases l with
  | broadcast event subs =>
    obtain ⟨hfree, hperm, rfl⟩ := step_broadcast hs
    refine ⟨⟨hperm.nodup_iff.mpr h.nodup.2, h.nodup.2⟩, fun i => ?_⟩
    have hi := h.fits i
    rw [hfree] at hi
    exact hi.broadcast hperm.mem_iff
  | put =>
    obtain ⟨i, rest, before, event, hserving, hlog, rfl⟩ := step_put hs
    have hnodup := h.nodup
    rw [hserving, List.nodup_cons] at hnodup
    have hi := h.fits i
    rw [hserving, hlog] at hi
    refine h.update ⟨hnodup.1.2, hnodup.2⟩ rfl rfl (fun j hj => ?_) (fun _ _ => Iff.rfl) ?_
    · rw [hserving, List.mem_cons]
      exact (or_iff_right hj).symm
    · show Fits c.log rest c.subscribers i _
      rw [hlog]
      exact hi.offer hnodup.1.1
  | add i =>
    obtain ⟨hstage, rfl⟩ := step_add hs
    have hnot : i ∉ c.subscribers := fun hi => ((h.fits i).member.mp hi).1 hstage
    refine h.update ⟨h.nodup.1, ?_⟩ rfl rfl (fun _ _ => Iff.rfl) (fun j hj => ?_)
      ((h.fits i).add hstage)
    · exact h.nodup.2.append (List.nodup_singleton i) (List.disjoint_singleton.mpr hnot)
    · rw [List.mem_append, List.mem_singleton]
      exact or_iff_left hj
  | act i a =>
    obtain ⟨k, hk, rfl⟩ := step_act hs
    exact h.update h.nodup rfl rfl (fun _ _ => Iff.rfl) (fun _ _ => Iff.rfl) ((h.fits i).act hk)
  | remove i =>
    obtain ⟨hstage, rfl⟩ := step_remove hs
    refine h.update ⟨h.nodup.1, h.nodup.2.erase i⟩ rfl rfl (fun _ _ => Iff.rfl)
      (fun j hj => List.mem_erase_of_ne hj) ((h.fits i).remove hstage h.nodup.2.not_mem_erase)

theorem sound_run {c : Hub} {labels : List Label} (hrun : machine.run boot labels = some c) :
    c.Sound :=
  Machine.inv_run_of_step (fun _ _ _ h hs => h.step hs) sound_boot hrun

/-! ## After an overflow -/

/-- What a step leaves an overflowed connection. -/
theorem overflowed_step {c c' : Hub} {l : Label} (h : c.Sound) (hs : machine.step c l = some c')
    {i : ℕ} (ho : (c.connections i).overflowed = true) :
    (c'.connections i).overflowed = true ∧
      (c'.connections i).enqueued = (c.connections i).enqueued ∧
      ∃ sent, (c'.connections i).sent = (c.connections i).sent ++ sent ∧
        sent.length + (c'.connections i).budget ≤ (c.connections i).budget := by
  have hsame : ∀ k : Connection, k = c.connections i → k.overflowed = true ∧
      k.enqueued = (c.connections i).enqueued ∧
      ∃ sent, k.sent = (c.connections i).sent ++ sent ∧
        sent.length + k.budget ≤ (c.connections i).budget := by
    rintro k rfl
    exact ⟨ho, rfl, [], (List.append_nil _).symm, Nat.le_of_eq (Nat.zero_add _)⟩
  cases l with
  | broadcast event subs =>
    obtain ⟨-, -, rfl⟩ := step_broadcast hs
    exact hsame _ rfl
  | put =>
    obtain ⟨j, rest, before, event, -, -, rfl⟩ := step_put hs
    refine hsame _ ?_
    by_cases hij : i = j
    · subst hij
      rw [connections_setConnection_self, Connection.offer_of_overflowed ho]
    · exact connections_setConnection_ne _ _ hij
  | add j =>
    obtain ⟨hstage, rfl⟩ := step_add hs
    refine hsame _ (connections_setConnection_ne _ _ ?_)
    rintro rfl
    rw [(h.fits i).handler.fresh hstage] at ho
    cases ho
  | act j a =>
    obtain ⟨k, hk, rfl⟩ := step_act hs
    by_cases hij : i = j
    · subst hij
      rw [connections_setConnection_self]
      obtain ⟨-, henq, hover, -⟩ := Connection.act_frame hk
      exact ⟨hover.trans ho, henq, Connection.act_overflowed ho hk⟩
    · exact hsame _ (connections_setConnection_ne _ _ hij)
  | remove j =>
    obtain ⟨hstage, rfl⟩ := step_remove hs
    by_cases hij : i = j
    · subst hij
      rw [connections_setConnection_self]
      exact ⟨ho, rfl, [], (List.append_nil _).symm, Nat.zero_le _⟩
    · exact hsame _ (connections_setConnection_ne _ _ hij)

/-- … and what a run leaves it. -/
theorem overflowed_run {c c' : Hub} {labels : List Label} (h : c.Sound)
    (hrun : machine.run c labels = some c') {i : ℕ}
    (ho : (c.connections i).overflowed = true) :
    (c'.connections i).enqueued = (c.connections i).enqueued ∧
      ∃ sent, (c'.connections i).sent = (c.connections i).sent ++ sent ∧
        sent.length + (c'.connections i).budget ≤ (c.connections i).budget := by
  induction labels generalizing c with
  | nil =>
    obtain rfl := Option.some.inj hrun
    exact ⟨rfl, [], (List.append_nil _).symm, Nat.le_of_eq (Nat.zero_add _)⟩
  | cons l labels ih =>
    obtain ⟨c₁, hs, hrun⟩ := Machine.run_cons_eq_some hrun
    obtain ⟨ho₁, henq₁, sent₁, hsent₁, hle₁⟩ := overflowed_step h hs ho
    obtain ⟨henq, sent, hsent, hle⟩ := ih (h.step hs) hrun ho₁
    refine ⟨henq.trans henq₁, sent₁ ++ sent, ?_, ?_⟩
    · rw [hsent, hsent₁, List.append_assoc]
    · rw [List.length_append]
      omega

/-- The handler of a client alone moves the hub as it moves the client. -/
theorem run_acts {i : ℕ} (acts : List Connection.Act) (c : Hub) {k : Connection}
    (h : k ∈ acts.foldlM Connection.act (c.connections i)) :
    ∃ c', machine.run c (acts.map (.act i)) = some c' ∧ c'.connections i = k := by
  induction acts generalizing c with
  | nil => exact ⟨c, rfl, Option.some.inj h⟩
  | cons a acts ih =>
    obtain ⟨k₁, hk₁, h⟩ := Option.bind_eq_some_iff.mp h
    have hstep : machine.step c (.act i a) = some (c.setConnection i k₁) := by
      simp only [machine, hk₁, Option.map_some]
    obtain ⟨c', hrun, heq⟩ := ih (c.setConnection i k₁)
      ((connections_setConnection_self c i k₁).symm ▸ h)
    exact ⟨c', by rw [List.map_cons, Machine.run_cons_of_step _ hstep, hrun], heq⟩

/-- The loop of `i` has ended, in the close or because an await raised, or four steps of
its handler at most end it in the close. -/
def Closes (c : Hub) (i : ℕ) : Prop :=
  ((c.connections i).failed = true ∨ (c.connections i).closeCode = some wsCloseOverload) ∧
      ((c.connections i).stage = .leaving ∨ (c.connections i).stage = .gone) ∨
    ∃ acts : List Connection.Act, acts.length ≤ 4 ∧ Connection.Act.fail ∉ acts ∧
      ∃ c', machine.run c (acts.map (.act i)) = some c' ∧
        (c'.connections i).stage = .leaving ∧
        (c'.connections i).closeCode = some wsCloseOverload

theorem Sound.closes {c : Hub} (h : c.Sound) {i : ℕ}
    (ho : (c.connections i).overflowed = true) : c.Closes i := by
  refine ((h.fits i).handler.finishes ho).imp id ?_
  rintro ⟨acts, hlen, hfail, k, hk, hend⟩
  obtain ⟨c', hrun, rfl⟩ := run_acts acts c hk
  exact ⟨acts, hlen, hfail, c', hrun, hend⟩

/-! ## The hub as one client sees it -/

/-- The hub without the other connections. -/
def only (i : ℕ) (c : Hub) : Hub where
  log := c.log
  serving := c.serving.filter (· = i)
  subscribers := c.subscribers.filter (· = i)
  connections j := if j = i then c.connections i else {}

/-- What of a step concerns `i`: every event, its own puts, and its own handler. -/
def keep (i : ℕ) (c : Hub) : Label → Option Label
  | .broadcast event subs => some (.broadcast event (subs.filter (· = i)))
  | .put => if c.serving.head? = some i then some .put else none
  | .add j => if j = i then some (.add i) else none
  | .act j a => if j = i then some (.act i a) else none
  | .remove j => if j = i then some (.remove i) else none

/-- What of a run concerns `i`. -/
def trace (i : ℕ) : Hub → List Label → List Label
  | _, [] => []
  | c, l :: labels =>
    (keep i c l).toList ++ ((machine.step c l).elim [] fun c' => trace i c' labels)

theorem connections_only (i : ℕ) (c : Hub) : (only i c).connections i = c.connections i :=
  if_pos rfl

/-- The others are not seen. -/
theorem only_setConnection_ne {i j : ℕ} (c : Hub) (k : Connection) (h : j ≠ i) :
    only i (c.setConnection j k) = only i c := by
  rw [only, connections_setConnection_ne c k h.symm]
  rfl

theorem only_setConnection_self (i : ℕ) (c : Hub) (k : Connection) :
    only i (c.setConnection i k) = (only i c).setConnection i k := by
  simp only [only, setConnection, Hub.mk.injEq, true_and]
  funext j
  by_cases hj : j = i
  · rw [if_pos hj, hj, Function.update_self, Function.update_self]
  · rw [if_neg hj, Function.update_of_ne hj, if_neg hj]

/-- **One step**, as `i` sees it. -/
theorem step_only {c c' : Hub} {l : Label} (i : ℕ) (hs : machine.step c l = some c') :
    machine.run (only i c) (keep i c l).toList = some (only i c') := by
  cases l with
  | broadcast event subs =>
    obtain ⟨hfree, hperm, rfl⟩ := step_broadcast hs
    have hstep : machine.step (only i c) (.broadcast event (subs.filter (· = i))) =
        some { only i c with log := c.log ++ [event], serving := subs.filter (· = i) } := by
      refine if_pos ⟨?_, hperm.filter _⟩
      show c.serving.filter (· = i) = []
      rw [hfree]
      rfl
    exact Machine.run_cons_of_step [] hstep
  | put =>
    obtain ⟨j, rest, before, event, hserving, hlog, rfl⟩ := step_put hs
    by_cases hj : j = i
    · subst hj
      have hfilter : c.serving.filter (· = j) = j :: rest.filter (· = j) := by
        rw [hserving]
        exact List.filter_cons_of_pos (decide_eq_true rfl)
      have hlast : c.log.getLast? = some event := by rw [hlog, List.getLast?_concat]
      have hstep : machine.step (only j c) .put =
          some (({ only j c with serving := rest.filter (· = j) }).setConnection j
            ((c.connections j).offer event)) := by
        simp only [machine, only, hfilter, hlast, if_true]
      rw [keep, hserving, List.head?_cons, if_pos rfl]
      refine (Machine.run_cons_of_step [] hstep).trans ?_
      rw [only_setConnection_self]
      rfl
    · have hfilter : c.serving.filter (· = i) = rest.filter (· = i) := by
        rw [hserving, List.filter_cons_of_neg (by simpa using hj)]
      rw [keep, hserving, List.head?_cons, if_neg (by simpa using hj), only_setConnection_ne _ _ hj]
      show some (only i c) = _
      rw [only, hfilter]
      rfl
  | add j =>
    obtain ⟨hstage, rfl⟩ := step_add hs
    by_cases hj : j = i
    · subst hj
      have hfilter : (c.subscribers ++ [j]).filter (· = j) =
          c.subscribers.filter (· = j) ++ [j] := by
        rw [List.filter_append, List.filter_singleton]
        simp
      have hstep : machine.step (only j c) (.add j) =
          some (({ only j c with
            subscribers := c.subscribers.filter (· = j) ++ [j] }).setConnection j
            { stage := .greeting, since := c.log.length }) :=
        if_pos (by rw [connections_only]; exact hstage)
      rw [keep, if_pos rfl]
      refine (Machine.run_cons_of_step [] hstep).trans ?_
      rw [only_setConnection_self, ← hfilter]
      rfl
    · have hfilter : (c.subscribers ++ [j]).filter (· = i) = c.subscribers.filter (· = i) := by
        rw [List.filter_append, List.filter_singleton]
        simp [hj]
      rw [keep, if_neg hj, only_setConnection_ne _ _ hj]
      show some (only i c) = _
      rw [only, ← hfilter]
      rfl
  | act j a =>
    obtain ⟨k, hk, rfl⟩ := step_act hs
    by_cases hj : j = i
    · subst hj
      have hstep : machine.step (only j c) (.act j a) = some ((only j c).setConnection j k) := by
        simp only [machine, connections_only, hk, Option.map_some]
      rw [keep, if_pos rfl]
      refine (Machine.run_cons_of_step [] hstep).trans ?_
      rw [only_setConnection_self]
      rfl
    · rw [keep, if_neg hj, only_setConnection_ne _ _ hj]
      rfl
  | remove j =>
    obtain ⟨hstage, rfl⟩ := step_remove hs
    by_cases hj : j = i
    · subst hj
      have hfilter : (c.subscribers.erase j).filter (· = j) =
          (c.subscribers.filter (· = j)).erase j :=
        List.erase_filter.symm
      have hstep : machine.step (only j c) (.remove j) =
          some (({ only j c with
            subscribers := (c.subscribers.filter (· = j)).erase j }).setConnection j
              { c.connections j with stage := .gone }) := by
        simp only [machine, connections_only, hstage, if_true]
        rfl
      rw [keep, if_pos rfl]
      refine (Machine.run_cons_of_step [] hstep).trans ?_
      rw [only_setConnection_self, ← hfilter]
      rfl
    · have hfilter : (c.subscribers.erase j).filter (· = i) = c.subscribers.filter (· = i) := by
        rw [← List.erase_filter, List.erase_of_not_mem]
        simp [hj]
      rw [keep, if_neg hj, only_setConnection_ne _ _ hj]
      show some (only i c) = _
      rw [only, ← hfilter]
      rfl

/-- **A run**, as `i` sees it: whatever becomes of the others. -/
theorem run_only {c c' : Hub} {labels : List Label} (i : ℕ)
    (hrun : machine.run c labels = some c') :
    machine.run (only i c) (trace i c labels) = some (only i c') := by
  induction labels generalizing c with
  | nil =>
    obtain rfl := Option.some.inj hrun
    rfl
  | cons l labels ih =>
    obtain ⟨c₁, hs, hrun⟩ := Machine.run_cons_eq_some hrun
    rw [trace, hs, Machine.run_append, step_only i hs]
    exact ih hrun

/-! ## The result -/

/-- **A client gets a stream without gaps, or is closed.** What is enqueued for it
is what was broadcast from its registration on, all of it while it is
registered and not overflowed. It is sent the messages of a prefix of that. After
an overflow nothing is enqueued, one event at most is handed over, and the loop
ends in the close unless an await of it raises. None of this depends on the
other clients. -/
theorem gap_free_or_closed (labels : List Label) (c : Hub)
    (hrun : machine.run boot labels = some c) (i : ℕ) :
    ((c.connections i).enqueued <+: c.log.drop (c.connections i).since ∧
      (i ∈ c.subscribers → i ∉ c.serving → (c.connections i).overflowed = false →
        (c.connections i).enqueued = c.log.drop (c.connections i).since)) ∧
    (∃ taken, taken <+: (c.connections i).enqueued ∧
      (c.connections i).sent = taken.filter Renders) ∧
    ((c.connections i).overflowed = true →
      (∀ more c', machine.run c more = some c' →
        (c'.connections i).enqueued = (c.connections i).enqueued ∧
        ∃ last, (c'.connections i).sent = (c.connections i).sent ++ last ∧ last.length ≤ 1) ∧
      c.Closes i) ∧
    ∀ labels' c', machine.run boot labels' = some c' →
      trace i boot labels' = trace i boot labels → c'.connections i = c.connections i := by
  have hsound := sound_run hrun
  have hfits := hsound.fits i
  refine ⟨⟨hfits.segment, hfits.complete⟩, ⟨(c.connections i).taken, ?_, hfits.handler.rendered⟩,
    fun ho => ⟨fun more c' hmore => ?_, hsound.closes ho⟩, fun labels' c' hrun' htrace => ?_⟩
  · rw [← hfits.handler.accounted]
    exact List.prefix_append _ _
  · obtain ⟨henq, last, hlast, hle⟩ := overflowed_run hsound hmore ho
    have hbudget : (c.connections i).budget ≤ 1 := by
      rw [Connection.budget]
      split <;> decide
    exact ⟨henq, last, hlast, by omega⟩
  · have hrun := run_only i hrun
    have hrun' := run_only i hrun'
    rw [htrace, hrun] at hrun'
    rw [← connections_only i c, ← connections_only i c', Option.some.inj hrun']

/-! ## What the source does not send -/

section Skipped

/-- Two events, the first of them one for which there is no message. -/
def skippedEvents : List BusEvent := [⟨0, .workerEvent⟩, ⟨1, .dropAlert 1⟩]

/-- A client registers, and gets both from its queue. -/
def skippedRun : List Label :=
  [.add 0, .act 0 .greeted, .broadcast ⟨0, .workerEvent⟩ [0], .put,
    .broadcast ⟨1, .dropAlert 1⟩ [0], .put, .act 0 .check, .act 0 .get, .act 0 .check, .act 0 .get]

/-- A client that is overflowed in the middle of a send, and whose send then raises. -/
def raisedRun : List Label :=
  [.add 0, .act 0 .greeted, .act 0 .check, .broadcast ⟨0, .dropAlert 1⟩ [0], .put, .act 0 .get] ++
    (List.replicate 257 [.broadcast ⟨0, .dropAlert 1⟩ [0], .put]).flatten ++
    [.act 0 .fail, .remove 0]

/-- An event without a message is skipped, and a client that is gone is not closed. -/
theorem skipped_and_raised :
    (∃ c, machine.run boot skippedRun = some c ∧ c.log = skippedEvents ∧
      (c.connections 0).since = 0 ∧ ¬ (c.connections 0).sent <+: c.log) ∧
    ∃ c, machine.run boot raisedRun = some c ∧ (c.connections 0).overflowed = true ∧
      (c.connections 0).stage = .gone ∧ (c.connections 0).closeCode = none := by
  refine ⟨⟨_, rfl, rfl, rfl, by decide⟩, ?_⟩
  have hend : (machine.run boot raisedRun).map (fun c =>
      ((c.connections 0).overflowed, (c.connections 0).stage, (c.connections 0).closeCode)) =
        some (true, .gone, none) := by decide +kernel
  obtain ⟨c, hrun, heq⟩ := Option.map_eq_some_iff.mp hend
  simp only [Prod.mk.injEq] at heq
  exact ⟨c, hrun, heq⟩

/-- The same two events to a client that has taken neither. -/
theorem gap_free_or_closed_queued :
    ∃ c, machine.run boot (skippedRun.take 6) = some c ∧
      (c.connections 0).enqueued <+: c.log.drop (c.connections 0).since :=
  ⟨_, rfl, (gap_free_or_closed (skippedRun.take 6) _ rfl 0).1.1⟩

end Skipped

end Hub

end WsBroadcast

end RestreamPlus
