import Mathlib.Algebra.Group.Nat.Defs
import Mathlib.Data.Rat.Defs
import RestreamPlus.Domain.Target
import RestreamPlus.Lib.Machine

/-!
# The status stream of the browser (`web/src/lib/ws.ts`)

`StatusStream` with the sockets and timers of its page. The calls of the page,
the callbacks of every socket ever created and the reconnect timers come in any
order. A socket opens only while it is connecting, delivers messages only while
it is open, and closes once; `close()` only asks for that, so the close callback
of a socket can come after a newer one was opened.

The callbacks belong to the instance, not to their socket: `onclose` forgets
whatever socket is current, and `connect()` does not look at the pending timer.
`one_live_socket_iff` says that nothing else goes wrong.
-/

namespace RestreamPlus

open Interleaving

/-- What `JSON.parse` gives. -/
inductive JsValue : Type where
  | null
  | bool : Bool → JsValue
  | number : ℚ → JsValue
  | string : Text → JsValue
  | array : List JsValue → JsValue
  | object : List (Text × JsValue) → JsValue

namespace JsValue

/-- The value of a property; the last of two equal names wins. -/
def property? (fields : List (Text × JsValue)) (name : String) : Option JsValue :=
  (fields.reverse.find? fun f => f.1 = name.toList).map Prod.snd

/-- `isEnvelope`. -/
def isEnvelope : JsValue → Bool
  | object fields =>
    (match property? fields "v" with | some (number v) => decide (v = 1) | _ => false) &&
    (match property? fields "event" with | some (string _) => true | _ => false) &&
    (match property? fields "data" with | some (object _) | some (array _) => true | _ => false)
  | _ => false

end JsValue

/-- `WsConnectionStatus`. -/
inductive WsConnectionStatus : Type where
  | idle
  | connecting
  | opened
  | reconnecting
  | authFailed
  | locked
  | closed
  deriving DecidableEq

/-- `WS_CLOSE_AUTH_FAIL`. -/
def wsCloseAuthFail : ℕ := 4401

/-- `WS_CLOSE_LOCKED`. -/
def wsCloseLocked : ℕ := 4503

/-- `readyState` of a `WebSocket`. -/
inductive ReadyState : Type where
  | connecting
  | opened
  | closing
  | closed
  deriving DecidableEq

/-- The fields of `StatusStream`; sockets and timers by their number. -/
structure StatusStream : Type where
  ws : Option ℕ
  wantOpen : Bool
  attempt : ℕ
  reconnectTimer : Option ℕ
  listeners : List ℕ
  status : WsConnectionStatus

/-- A pending `setTimeout`. -/
structure Timer : Type where
  id : ℕ
  delay : ℕ

/-- A listener got an envelope of a socket, this one being `this.ws`. -/
structure Delivery : Type where
  listener : ℕ
  socket : ℕ
  current : Option ℕ

/-- What `globalApiErrorBus` is told. -/
inductive ApiError : Type where
  | unauthorized
  | serviceLocked
  deriving DecidableEq

/-- The stream in its page. -/
structure Page : Type where
  stream : StatusStream
  /-- every socket ever created, oldest first -/
  sockets : List ReadyState
  timers : List Timer
  /-- the number the next timer gets -/
  nextTimer : ℕ
  errors : List ApiError
  deliveries : List Delivery

/-- What happens next. -/
inductive PageEvent : Type where
  | connect
  | disconnect
  | subscribe : ℕ → PageEvent
  | unsubscribe : ℕ → PageEvent
  | onopen : ℕ → PageEvent
  /-- a frame, `none` when it is not JSON -/
  | onmessage : ℕ → Option JsValue → PageEvent
  /-- with the close code -/
  | onclose : ℕ → ℕ → PageEvent
  /-- a reconnect timer fires -/
  | timeout : ℕ → PageEvent

namespace Page

/-- A page that has just been loaded. -/
def init : Page where
  stream := ⟨none, false, 0, none, [], .idle⟩
  sockets := []
  timers := []
  nextTimer := 0
  errors := []
  deliveries := []

/-- `min(RECONNECT_BASE_MS * 2 ** attempt, RECONNECT_CAP_MS)`. -/
def reconnectDelay (attempt : ℕ) : ℕ := min (1000 * 2 ^ attempt) 10000

/-- `open`. -/
def openSocket (p : Page) : Page := { p with
  stream := { p.stream with
    ws := some p.sockets.length
    status := if p.stream.attempt = 0 then .connecting else .reconnecting }
  sockets := p.sockets ++ [.connecting] }

/-- `setStatus`; who observes the status is left out. -/
def setStatus (p : Page) (status : WsConnectionStatus) : Page :=
  { p with stream := { p.stream with status := status } }

/-- An assignment to `wantOpen`. -/
def want (p : Page) (b : Bool) : Page := { p with stream := { p.stream with wantOpen := b } }

/-- `connect`. -/
def connect (p : Page) : Page :=
  if (p.want true).stream.ws.isSome then p.want true else (p.want true).openSocket

/-- `window.clearTimeout`. -/
def clearTimeout (p : Page) (timer : ℕ) : Page :=
  { p with timers := p.timers.filter fun t => t.id ≠ timer }

/-- `close()` of a socket: nothing happens when it is closing or closed already. -/
def closeSocket (p : Page) (i : ℕ) : Page :=
  match p.sockets[i]? with
  | some .connecting | some .opened => { p with sockets := p.sockets.set i .closing }
  | _ => p

/-- The pending timer is cleared. -/
def cancelReconnect (p : Page) : Page :=
  match p.stream.reconnectTimer with
  | some timer => { p.clearTimeout timer with
      stream := { p.stream with reconnectTimer := none } }
  | none => p

/-- The current socket is closed and forgotten. -/
def dropSocket (p : Page) : Page :=
  match p.stream.ws with
  | some i => { p.closeSocket i with stream := { p.stream with ws := none } }
  | none => p

/-- `disconnect`. -/
def disconnect (p : Page) : Page :=
  ((p.want false).cancelReconnect.dropSocket).setStatus .closed

/-- `ws.onopen`. -/
def onopen (p : Page) (i : ℕ) : Page := { p with
  stream := { p.stream with attempt := 0, status := .opened }
  sockets := p.sockets.set i .opened }

/-- `ws.onmessage`. -/
def onmessage (p : Page) (i : ℕ) : Option JsValue → Page
  | some raw =>
    if raw.isEnvelope then { p with
      deliveries := p.deliveries ++ p.stream.listeners.map fun l => ⟨l, i, p.stream.ws⟩ }
    else p
  | none => p

/-- The last lines of `ws.onclose`: schedule a reconnection. -/
def scheduleReconnect (p : Page) : Page := { p with
  stream := { p.stream with
    attempt := p.stream.attempt + 1
    status := .reconnecting
    reconnectTimer := some p.nextTimer }
  timers := p.timers ++ [⟨p.nextTimer, reconnectDelay p.stream.attempt⟩]
  nextTimer := p.nextTimer + 1 }

/-- `globalApiErrorBus.emit`. -/
def emit (p : Page) (error : ApiError) : Page := { p with errors := p.errors ++ [error] }

/-- The socket is closed, and the first line of `ws.onclose`. -/
def forget (p : Page) (i : ℕ) : Page := { p with
  stream := { p.stream with ws := none }
  sockets := p.sockets.set i .closed }

/-- The rest of `ws.onclose`. -/
def afterClose (p : Page) (code : ℕ) : Page :=
  if code = wsCloseAuthFail then ((p.setStatus .authFailed).emit .unauthorized).want false
  else if code = wsCloseLocked then ((p.setStatus .locked).emit .serviceLocked).want false
  else if p.stream.wantOpen then p.scheduleReconnect
  else p.setStatus .closed

/-- `ws.onclose`. -/
def onclose (p : Page) (i code : ℕ) : Page := (p.forget i).afterClose code

/-- The timer has fired, and the first line of its callback. -/
def timerFired (p : Page) (timer : ℕ) : Page := { p.clearTimeout timer with
  stream := { p.stream with reconnectTimer := none } }

/-- The callback of a reconnect timer. -/
def timeout (p : Page) (timer : ℕ) : Page :=
  if (p.timerFired timer).stream.wantOpen then (p.timerFired timer).openSocket
  else p.timerFired timer

/-- One event; the browser delivers it where the state of the socket allows it. -/
def step (p : Page) : PageEvent → Option Page
  | .connect => some p.connect
  | .disconnect => some p.disconnect
  | .subscribe l => some { p with stream := { p.stream with
      listeners := if l ∈ p.stream.listeners then p.stream.listeners else p.stream.listeners ++ [l] } }
  | .unsubscribe l => some { p with stream := { p.stream with
      listeners := p.stream.listeners.erase l } }
  | .onopen i => if p.sockets[i]? = some .connecting then some (p.onopen i) else none
  | .onmessage i raw => if p.sockets[i]? = some .opened then some (p.onmessage i raw) else none
  | .onclose i code =>
    if i < p.sockets.length ∧ p.sockets[i]? ≠ some .closed then some (p.onclose i code) else none
  | .timeout timer => if timer ∈ p.timers.map Timer.id then some (p.timeout timer) else none

/-- The page as a machine. -/
def machine : Machine Page PageEvent := ⟨step⟩

/-! ## What should hold -/

/-- The socket was created, has not been closed, and `close()` was not called. -/
def Live (p : Page) (i : ℕ) : Prop :=
  p.sockets[i]? = some .connecting ∨ p.sockets[i]? = some .opened

/-- At most one live socket, and the rest of the bookkeeping agrees with it. -/
structure OneLiveSocket (p : Page) : Prop where
  unique : ∀ i j, p.Live i → p.Live j → i = j
  current : ∀ i, p.Live i → p.stream.ws = some i
  /-- no listener got an envelope of a socket that was not `this.ws` -/
  delivered : ∀ d ∈ p.deliveries, d.current = some d.socket
  one_timer : p.timers.length ≤ 1
  timer_only : p.timers ≠ [] → p.stream.ws = none

/-- `connect()` finds no pending timer, and the close callback is that of the
current socket, or finds no socket and wants no new one. -/
def Orderly (p : Page) : PageEvent → Prop
  | .connect => p.stream.ws = none → p.timers = []
  | .onclose i code => p.stream.ws = some i ∨ p.stream.ws = none ∧
      (p.stream.wantOpen = false ∨ code = wsCloseAuthFail ∨ code = wsCloseLocked)
  | _ => True

/-- The invariant of orderly runs. -/
structure Tidy (p : Page) : Prop extends OneLiveSocket p where
  /-- `this.ws` is live -/
  ws_live : ∀ i, p.stream.ws = some i → p.Live i
  /-- the pending timer is the one `reconnectTimer` names -/
  tracked : p.timers.map Timer.id = p.stream.reconnectTimer.toList
  /-- without a socket that is wanted, a timer will make one -/
  wanted : p.stream.wantOpen = true → p.stream.ws = none → p.timers ≠ []

theorem tidy_init : Tidy init where
  unique i _ hi := by simp [Live, init] at hi
  current i hi := by simp [Live, init] at hi
  delivered d hd := by cases hd
  one_timer := Nat.zero_le 1
  timer_only h := absurd rfl h
  ws_live i hi := by cases hi
  tracked := rfl
  wanted h := by cases h

/-! ## One lemma for each event -/

variable {p p' : Page}

@[simp] theorem openSocket_ws : p.openSocket.stream.ws = some p.sockets.length := rfl

@[simp] theorem openSocket_timers : p.openSocket.timers = p.timers := rfl

/-- A new socket is live, and every other one is as before. -/
theorem live_openSocket {i : ℕ} : p.openSocket.Live i ↔ p.Live i ∨ i = p.sockets.length := by
  unfold Live openSocket
  rcases lt_trichotomy i p.sockets.length with hi | rfl | hi
  · simp [List.getElem?_append_left hi, hi.ne]
  · simp
  · have hout : (p.sockets ++ [ReadyState.connecting])[i]? = none :=
      List.getElem?_eq_none (by simpa using Nat.succ_le_of_lt hi)
    simp [hout, List.getElem?_eq_none hi.le, hi.ne']

/-- Setting a socket to a state that is not live. -/
theorem live_set {i j : ℕ} {r : ReadyState} (hc : r ≠ .connecting) (ho : r ≠ .opened) :
    (p.sockets.set i r)[j]? = some .connecting ∨ (p.sockets.set i r)[j]? = some .opened ↔
      j ≠ i ∧ p.Live j := by
  unfold Live
  by_cases hij : i = j
  · subst hij
    rcases lt_or_ge i p.sockets.length with hi | hi
    · simp [hi, hc, ho]
    · simp [hi]
  · simp [List.getElem?_set_ne hij, Ne.symm hij]

/-- With no socket around, opening one is fine. -/
theorem tidy_openSocket (hn : ∀ i, ¬ p.Live i) (ht : p.timers = [])
    (hd : ∀ d ∈ p.deliveries, d.current = some d.socket) (hr : p.stream.reconnectTimer = none) :
    Tidy p.openSocket where
  unique i j hi hj := by
    rw [live_openSocket] at hi hj
    rw [hi.resolve_left (hn i), hj.resolve_left (hn j)]
  current i hi := by
    rw [live_openSocket] at hi
    rw [hi.resolve_left (hn i)]
    rfl
  delivered := hd
  one_timer := by simp [ht]
  timer_only h := absurd ht h
  ws_live i hi := by
    rw [live_openSocket]
    exact .inr (Option.some.inj hi).symm
  tracked := by
    have hr' : p.openSocket.stream.reconnectTimer = none := hr
    simp [ht, hr']
  wanted _ h := by cases h

theorem Tidy.no_live (h : Tidy p) (hw : p.stream.ws = none) (i : ℕ) : ¬ p.Live i := by
  intro hi
  have hc := h.current i hi
  rw [hw] at hc
  cases hc

/-- No pending timer, none named. -/
theorem Tidy.no_timer (h : Tidy p) (ht : p.timers = []) : p.stream.reconnectTimer = none := by
  have htr := h.tracked
  rw [ht] at htr
  cases hr : p.stream.reconnectTimer with
  | none => rfl
  | some timer =>
    rw [hr] at htr
    cases htr

/-- The wish for a socket may change as long as something will come of it. -/
theorem Tidy.want (h : Tidy p) {b : Bool}
    (hb : b = true → p.stream.ws = none → p.timers ≠ []) : Tidy (p.want b) where
  unique := h.unique
  current := h.current
  delivered := h.delivered
  one_timer := h.one_timer
  timer_only := h.timer_only
  ws_live := h.ws_live
  tracked := h.tracked
  wanted := hb

theorem Tidy.setStatus (h : Tidy p) (status : WsConnectionStatus) : Tidy (p.setStatus status) :=
  ⟨⟨h.unique, h.current, h.delivered, h.one_timer, h.timer_only⟩, h.ws_live, h.tracked, h.wanted⟩

theorem tidy_connect (h : Tidy p) (hok : p.stream.ws = none → p.timers = []) :
    Tidy p.connect := by
  unfold connect
  split
  · rename_i hs
    refine h.want fun _ hn => ?_
    rw [show (p.want true).stream.ws = p.stream.ws from rfl, hn] at hs
    cases hs
  · rename_i hs
    have hw : p.stream.ws = none := Option.not_isSome_iff_eq_none.mp hs
    exact tidy_openSocket (h.no_live hw) (hok hw) h.delivered (h.no_timer (hok hw))

/-- The timer that `reconnectTimer` names is the only one. -/
theorem Tidy.clear_timers (h : Tidy p) {timer : ℕ} (hr : p.stream.reconnectTimer = some timer) :
    p.timers.filter (fun t => t.id ≠ timer) = [] := by
  have htr := h.tracked
  rw [hr, Option.toList_some] at htr
  refine List.filter_eq_nil_iff.mpr fun t ht => ?_
  have hmem : t.id ∈ p.timers.map Timer.id := List.mem_map_of_mem ht
  rw [htr] at hmem
  simpa using hmem

theorem Tidy.cancelReconnect (h : Tidy p) (ho : p.stream.wantOpen = false) :
    Tidy p.cancelReconnect := by
  unfold Page.cancelReconnect
  split
  · rename_i timer hr
    have ht : ({ p.clearTimeout timer with
        stream := { p.stream with reconnectTimer := none } } : Page).timers = [] :=
      h.clear_timers hr
    refine ⟨⟨h.unique, h.current, h.delivered, ?_, fun hn => absurd ht hn⟩, h.ws_live, ?_, ?_⟩
    · rw [ht]
      exact Nat.zero_le 1
    · rw [ht]
      rfl
    · intro hw
      rw [show ({ p.clearTimeout timer with
        stream := { p.stream with reconnectTimer := none } } : Page).stream.wantOpen =
          p.stream.wantOpen from rfl, ho] at hw
      cases hw
  · exact h

/-- `close()` ends the life of its socket, and of no other. -/
theorem live_closeSocket {i j : ℕ} : (p.closeSocket i).Live j ↔ j ≠ i ∧ p.Live j := by
  unfold closeSocket
  split
  · exact live_set (by simp) (by simp)
  · exact live_set (by simp) (by simp)
  · rename_i hc ho
    refine ⟨fun hj => ⟨?_, hj⟩, And.right⟩
    rintro rfl
    exact hj.elim hc ho

theorem closeSocket_frame (i : ℕ) :
    (p.closeSocket i).timers = p.timers ∧ (p.closeSocket i).deliveries = p.deliveries := by
  unfold closeSocket
  split <;> exact ⟨rfl, rfl⟩

/-- A page where nothing is live and `this.ws` is null. -/
theorem tidy_of_no_live {q : Page} (h : Tidy p) (hn : ∀ i, ¬ q.Live i) (hw : q.stream.ws = none)
    (ht : q.timers = p.timers) (hd : q.deliveries = p.deliveries)
    (hr : q.stream.reconnectTimer = p.stream.reconnectTimer)
    (ho : q.stream.wantOpen = true → p.timers ≠ []) : Tidy q where
  unique i _ hi := absurd hi (hn i)
  current i hi := absurd hi (hn i)
  delivered := by rw [hd]; exact h.delivered
  one_timer := by rw [ht]; exact h.one_timer
  timer_only _ := hw
  ws_live i hi := by rw [hw] at hi; cases hi
  tracked := by rw [ht, hr]; exact h.tracked
  wanted hq _ := by rw [ht]; exact ho hq

theorem Tidy.dropSocket (h : Tidy p) (ho : p.stream.wantOpen = false) : Tidy p.dropSocket := by
  unfold Page.dropSocket
  split
  · rename_i i hw
    obtain ⟨ht, hd⟩ := closeSocket_frame (p := p) i
    refine tidy_of_no_live h (fun j hj => ?_) rfl ht hd rfl fun hq => ?_
    · obtain ⟨hji, hj⟩ := live_closeSocket.mp hj
      have hc := h.current j hj
      rw [hw] at hc
      exact hji (Option.some.inj hc).symm
    · change p.stream.wantOpen = true at hq
      rw [ho] at hq
      cases hq
  · exact h

theorem tidy_disconnect (h : Tidy p) : Tidy p.disconnect := by
  have hwant : Tidy (p.want false) := h.want fun hb => by cases hb
  have hcancel : Tidy (p.want false).cancelReconnect := hwant.cancelReconnect rfl
  refine (hcancel.dropSocket ?_).setStatus .closed
  unfold Page.cancelReconnect
  split <;> rfl

/-- A socket opens. -/
theorem tidy_onopen {i : ℕ} (hi : p.sockets[i]? = some .connecting) (h : Tidy p) :
    Tidy (p.onopen i) := by
  have hlt : i < p.sockets.length := (List.getElem?_eq_some_iff.mp hi).1
  have hlive : ∀ j, (p.onopen i).Live j ↔ p.Live j := by
    intro j
    by_cases hij : i = j
    · subst hij
      exact ⟨fun _ => .inl hi, fun _ => .inr (by simp [onopen, hlt])⟩
    · simp [Live, Page.onopen, List.getElem?_set_ne hij]
  refine ⟨⟨fun j k hj hk => ?_, fun j hj => ?_, h.delivered, h.one_timer, h.timer_only⟩,
    fun j hj => ?_, h.tracked, h.wanted⟩
  · exact h.unique j k ((hlive j).mp hj) ((hlive k).mp hk)
  · exact h.current j ((hlive j).mp hj)
  · exact (hlive j).mpr (h.ws_live j hj)

/-- An open socket is the current one, so its envelopes may be delivered. -/
theorem tidy_onmessage {i : ℕ} (hi : p.sockets[i]? = some .opened) (raw : Option JsValue)
    (h : Tidy p) : Tidy (p.onmessage i raw) := by
  unfold onmessage
  split
  · split
    · refine ⟨⟨h.unique, h.current, fun d hd => ?_, h.one_timer, h.timer_only⟩, h.ws_live,
        h.tracked, h.wanted⟩
      rcases List.mem_append.mp hd with hd | hd
      · exact h.delivered d hd
      · obtain ⟨l, -, rfl⟩ := List.mem_map.mp hd
        exact h.current i (.inr hi)
    · exact h
  · exact h

/-- A reconnection is scheduled when nothing is live and nothing is pending. -/
theorem tidy_scheduleReconnect (hn : ∀ i, ¬ p.Live i) (hw : p.stream.ws = none)
    (ht : p.timers = []) (hd : ∀ d ∈ p.deliveries, d.current = some d.socket) :
    Tidy p.scheduleReconnect where
  unique i _ hi := absurd hi (hn i)
  current i hi := absurd hi (hn i)
  delivered := hd
  one_timer := by simp [scheduleReconnect, ht]
  timer_only _ := hw
  ws_live i hi := by
    change p.stream.ws = some i at hi
    rw [hw] at hi
    cases hi
  tracked := by simp [scheduleReconnect, ht]
  wanted _ _ := by simp [scheduleReconnect]

theorem live_forget {i j : ℕ} : (p.forget i).Live j ↔ j ≠ i ∧ p.Live j :=
  live_set (by simp) (by simp)

/-- A close callback in order: of the current socket, or of an old one when no
socket is wanted. -/
theorem tidy_onclose {i code : ℕ} (h : Tidy p) (hok : p.Orderly (.onclose i code)) :
    Tidy (p.onclose i code) := by
  have hn : ∀ j, ¬ (p.forget i).Live j := by
    intro j hj
    obtain ⟨hji, hj⟩ := live_forget.mp hj
    have hc := h.current j hj
    rcases hok with hw | ⟨hw, -⟩
    · rw [hw] at hc
      exact hji (Option.some.inj hc).symm
    · rw [hw] at hc
      cases hc
  unfold onclose afterClose
  split
  · exact tidy_of_no_live h (fun j hj => hn j hj) rfl rfl rfl rfl fun ho => by cases ho
  split
  · exact tidy_of_no_live h (fun j hj => hn j hj) rfl rfl rfl rfl fun ho => by cases ho
  rename_i ha hl
  split
  · rename_i ho
    have hw : p.stream.ws = some i := by
      rcases hok with hw | ⟨-, hno | hcode | hcode⟩
      · exact hw
      · rw [show (p.forget i).stream.wantOpen = p.stream.wantOpen from rfl, hno] at ho
        cases ho
      · exact absurd hcode ha
      · exact absurd hcode hl
    have ht : p.timers = [] := by
      by_contra hne
      have := h.timer_only hne
      rw [hw] at this
      cases this
    exact tidy_scheduleReconnect hn rfl ht h.delivered
  · rename_i ho
    exact tidy_of_no_live h (fun j hj => hn j hj) rfl rfl rfl rfl fun hq => absurd hq ho

/-- The pending timer fires. -/
theorem tidy_timeout {timer : ℕ} (hm : timer ∈ p.timers.map Timer.id) (h : Tidy p) :
    Tidy (p.timeout timer) := by
  have hr : p.stream.reconnectTimer = some timer := by
    rw [h.tracked] at hm
    exact Option.mem_toList.mp hm
  have ht : (p.timerFired timer).timers = [] := h.clear_timers hr
  have hw : p.stream.ws = none := by
    refine h.timer_only fun hne => ?_
    rw [hne] at hm
    cases hm
  have hn : ∀ i, ¬ (p.timerFired timer).Live i := h.no_live hw
  unfold timeout
  split
  · exact tidy_openSocket hn ht h.delivered rfl
  · rename_i ho
    refine ⟨⟨fun i _ hi => absurd hi (hn i), fun i hi => absurd hi (hn i), h.delivered, ?_,
      fun hne => absurd ht hne⟩, h.ws_live, ?_, fun hq => absurd hq ho⟩
    · rw [ht]
      exact Nat.zero_le 1
    · rw [ht]
      rfl

/-- **One step of an orderly run.** -/
theorem tidy_step {e : PageEvent} (h : Tidy p) (hok : p.Orderly e) (hs : step p e = some p') :
    Tidy p' := by
  cases e with
  | connect =>
    obtain rfl := Option.some.inj hs
    exact tidy_connect h hok
  | disconnect =>
    obtain rfl := Option.some.inj hs
    exact tidy_disconnect h
  | subscribe l =>
    obtain rfl := Option.some.inj hs
    exact ⟨⟨h.unique, h.current, h.delivered, h.one_timer, h.timer_only⟩, h.ws_live, h.tracked,
      h.wanted⟩
  | unsubscribe l =>
    obtain rfl := Option.some.inj hs
    exact ⟨⟨h.unique, h.current, h.delivered, h.one_timer, h.timer_only⟩, h.ws_live, h.tracked,
      h.wanted⟩
  | onopen i =>
    obtain ⟨hi, hs⟩ := Option.ite_none_right_eq_some.mp hs
    obtain rfl := Option.some.inj hs
    exact tidy_onopen hi h
  | onmessage i raw =>
    obtain ⟨hi, hs⟩ := Option.ite_none_right_eq_some.mp hs
    obtain rfl := Option.some.inj hs
    exact tidy_onmessage hi raw h
  | onclose i code =>
    obtain ⟨-, hs⟩ := Option.ite_none_right_eq_some.mp hs
    obtain rfl := Option.some.inj hs
    exact tidy_onclose h hok
  | timeout timer =>
    obtain ⟨hm, hs⟩ := Option.ite_none_right_eq_some.mp hs
    obtain rfl := Option.some.inj hs
    exact tidy_timeout hm h

/-! ## Everything else goes wrong -/

theorem afterClose_frame (code : ℕ) :
    (p.afterClose code).stream.ws = p.stream.ws ∧ (p.afterClose code).sockets = p.sockets := by
  unfold afterClose
  split
  · exact ⟨rfl, rfl⟩
  split
  · exact ⟨rfl, rfl⟩
  split <;> exact ⟨rfl, rfl⟩

/-- A socket is opened beside the pending timer. -/
theorem not_oneLive_connect (hw : p.stream.ws = none) (ht : p.timers ≠ []) :
    ¬ OneLiveSocket p.connect := by
  intro h
  have hc : p.connect = (p.want true).openSocket :=
    if_neg (by rw [show (p.want true).stream.ws = p.stream.ws from rfl, hw]; simp)
  have hn := h.timer_only (by rw [hc]; exact ht)
  rw [hc] at hn
  cases hn

/-- The close of an old socket makes the stream forget the current one. -/
theorem not_oneLive_forget {i j code : ℕ} (h : Tidy p) (hw : p.stream.ws = some j) (hij : j ≠ i) :
    ¬ OneLiveSocket (p.onclose i code) := by
  intro hone
  obtain ⟨hws, hsock⟩ := afterClose_frame (p := p.forget i) code
  have hlive : (p.onclose i code).Live j := by
    unfold Live onclose
    rw [hsock]
    exact live_forget.mpr ⟨hij, h.ws_live j hw⟩
  have hc := hone.current j hlive
  rw [show (p.onclose i code).stream.ws = none from hws] at hc
  cases hc

/-- The close of an old socket schedules a second timer. -/
theorem not_oneLive_second_timer {i code : ℕ} (h : Tidy p) (hw : p.stream.ws = none)
    (ho : p.stream.wantOpen = true) (ha : code ≠ wsCloseAuthFail) (hl : code ≠ wsCloseLocked) :
    ¬ OneLiveSocket (p.onclose i code) := by
  intro hone
  have ho' : (p.forget i).stream.wantOpen = true := ho
  have hc : p.onclose i code = (p.forget i).scheduleReconnect := by
    rw [onclose, afterClose, if_neg ha, if_neg hl, if_pos ho']
  have hlen : (p.timers ++ [(⟨p.nextTimer, reconnectDelay p.stream.attempt⟩ : Timer)]).length ≤ 1 := by
    have hone' := hone.one_timer
    rwa [hc] at hone'
  have hpos : p.timers.length ≠ 0 := by
    rw [Ne, List.length_eq_zero_iff]
    exact h.wanted ho hw
  rw [List.length_append, List.length_singleton] at hlen
  omega

theorem not_oneLive_of_not_orderly {e : PageEvent} (h : Tidy p) (hno : ¬ p.Orderly e)
    (hs : step p e = some p') : ¬ OneLiveSocket p' := by
  cases e with
  | connect =>
    obtain rfl := Option.some.inj hs
    obtain ⟨hw, ht⟩ := Classical.not_imp.mp hno
    exact not_oneLive_connect hw ht
  | onclose i code =>
    obtain ⟨-, hs⟩ := Option.ite_none_right_eq_some.mp hs
    obtain rfl := Option.some.inj hs
    obtain ⟨hi, hno⟩ := not_or.mp hno
    cases hw : p.stream.ws with
    | some j =>
      refine not_oneLive_forget h hw ?_
      rintro rfl
      exact hi hw
    | none =>
      have hcond := not_and.mp hno hw
      simp only [not_or, Bool.not_eq_false] at hcond
      exact not_oneLive_second_timer h hw hcond.1 hcond.2.1 hcond.2.2
  | disconnect | subscribe | unsubscribe | onopen | onmessage | timeout => exact absurd trivial hno

/-- **Exactly when the browser holds one live socket.** Along a run of the page
the sockets, `this.ws`, the listeners and the timers agree if and only if every
`connect()` finds no pending timer unless it finds a socket, and every close
callback is that of the current socket or finds no socket and wants none. -/
theorem one_live_socket_iff {events : List PageEvent}
    (hr : (machine.run init events).isSome = true) :
    machine.Always OneLiveSocket init events ↔ machine.Meets Orderly init events :=
  Machine.always_iff_meets_of_run (I := Tidy) (fun _ _ _ h hok hs => tidy_step h hok hs)
    (fun _ h => h.toOneLiveSocket)
    (fun _ _ _ h hno hs => not_oneLive_of_not_orderly h hno hs) tidy_init hr

instance (p : Page) (e : PageEvent) : Decidable (p.Orderly e) := by
  unfold Orderly
  split <;> infer_instance

/-- A network drop and the reconnection after it. -/
def networkDrop : List PageEvent :=
  [.subscribe 0, .connect, .onopen 0, .onclose 0 1006, .timeout 0, .onopen 1, .disconnect,
    .onclose 1 1000]

theorem one_live_socket_networkDrop : machine.Always OneLiveSocket init networkDrop :=
  (one_live_socket_iff (by decide)).mpr (by decide)

/-- `{v: 1, event: "run", data: {}}`. -/
def someEnvelope : JsValue :=
  .object [(['v'], .number 1), ("event".toList, .string "run".toList), ("data".toList, .object [])]

/-- The page disconnects and connects again; then the first socket closes. -/
def remount : List PageEvent :=
  [.subscribe 0, .connect, .onopen 0, .disconnect, .connect, .onclose 0 1000, .onopen 1,
    .timeout 0, .onopen 2, .onmessage 1 (some someEnvelope)]

/-- Two sockets are live, and an envelope of the abandoned one is delivered. -/
theorem remount_opens_two : ¬ machine.Always OneLiveSocket init remount ∧
    ∃ p, machine.run init remount = some p ∧
      p.Live 1 ∧ p.Live 2 ∧ ⟨0, 1, some 2⟩ ∈ p.deliveries := by
  have hr : machine.run init remount = some _ := rfl
  refine ⟨fun h => ?_, _, hr, .inr rfl, .inr rfl, List.mem_singleton.mpr rfl⟩
  cases (Machine.always_last h hr).unique 1 2 (.inr rfl) (.inr rfl)

end Page

end RestreamPlus
