import Mathlib.Data.List.Induction
import RestreamPlus.Lib.Dict
import RestreamPlus.Web.WsReducer

/-!
# The bell (`web/src/components/StatusStreamHost.tsx`, `RecentEventsProvider.tsx`)

The page compares every message with the last one about the same target, and keeps
reports of failures, recoveries and lost events behind a bell: the newest 50, and the number
of those that were not seen.

`recent_events` says what is behind the bell after any messages, in whatever order it
was opened and cleared in between: reports of news, and what is news is said by `Tells`.
A `state.full` is compared with nothing, so what happened while the page was not
connected is not reported.
-/

namespace RestreamPlus.RecentEvents

/-! ## The store (`RecentEventsProvider.tsx`) -/

/-- `RecentEventKind`. -/
inductive RecentEventKind : Type where
  | info
  | warn
  | error
  | success
  deriving DecidableEq

/-- `RecentEvent`. -/
structure RecentEvent : Type where
  id : Text
  kind : RecentEventKind
  message : Text
  shownAt : ℚ
  deriving DecidableEq

/-- `RecentEventsState`. -/
structure RecentEventsState : Type where
  events : List RecentEvent
  unseenCount : ℕ
  deriving DecidableEq

/-- `RecentEventsAction`. -/
inductive RecentEventsAction : Type where
  | push (event : RecentEvent)
  | markSeen
  | clear

/-- `MAX_EVENTS`. -/
def maxEvents : ℕ := 50

/-- `INITIAL`. -/
def initial : RecentEventsState := ⟨[], 0⟩

def reducer (state : RecentEventsState) : RecentEventsAction → RecentEventsState
  | .push event => ⟨(event :: state.events).take maxEvents, state.unseenCount + 1⟩
  | .markSeen => if state.unseenCount = 0 then state else { state with unseenCount := 0 }
  | .clear => initial

/-! ## The producer (`StatusStreamHost.tsx`) -/

/-- How identifiers and times are written in a message. -/
structure Notation : Type where
  targetId : TargetId → Text
  iso : ℚ → Text

/-- A `TargetUiState` as a string. -/
def uiText : TargetUiState → Text
  | .disabled => "disabled".toList
  | .disabledMisconfigured => "disabled_misconfigured".toList
  | .idle => "idle".toList
  | .starting => "starting".toList
  | .running => "running".toList
  | .degraded => "degraded".toList
  | .errored => "errored".toList
  | .failedOpen => "failed_open".toList

/-- `makeEvent`, with the random part of the identifier. -/
def makeEvent (w : Notation) (random : Text) (kind : RecentEventKind) (message : Text)
    (time : ℚ) : RecentEvent :=
  ⟨w.iso time ++ '-' :: random, kind, message, time⟩

/-- The end of the subscription, from the edge detection on: the states of the targets
(`prevUiStateRef`), and what is pushed. -/
def detect (w : Notation) (random : Text) (prevMap : Dict TargetId TargetUiState) :
    WsKnownEvent → Dict TargetId TargetUiState × Option RecentEvent
  | .stateFull data => (data.targets.foldl (fun m t => m.insert t.targetId t.uiState) prevMap, none)
  | .runStateChanged newState previousState time =>
    (prevMap,
      if newState = .error then
        some (makeEvent w random .error "Run entered ERROR state.".toList time)
      else if newState = .live ∧ previousState = .error then
        some (makeEvent w random .success "Recovered to LIVE.".toList time)
      else none)
  | .targetSnapshot next time =>
    (prevMap.insert next.targetId next.uiState,
      match prevMap.get? next.targetId with
      | none => none
      | some prevUi =>
        if prevUi = next.uiState then none
        else if next.uiState = .errored ∨ next.uiState = .failedOpen then
          some (makeEvent w random .error ("Target ".toList ++ w.targetId next.targetId ++
            " → ".toList ++ (uiText next.uiState).map Char.toUpper ++ ['.']) time)
        else if next.uiState = .running ∧
            (prevUi = .errored ∨ prevUi = .failedOpen ∨ prevUi = .degraded) then
          some (makeEvent w random .success ("Target ".toList ++ w.targetId next.targetId ++
            " recovered.".toList) time)
        else none)
  | .dropAlert droppedTotal time =>
    (prevMap, some (makeEvent w random .warn ("Event bus dropped ".toList ++
      Nat.toDigits 10 droppedTotal ++ " events.".toList) time))
  | .hostStats _ _ => (prevMap, none)

/-- What happens on the page. -/
inductive Input : Type where
  /-- a message, and the random part of an identifier -/
  | message (event : WsKnownEvent) (random : Text)
  /-- the bell is opened -/
  | markSeen
  | clear

/-- The page. -/
structure Page : Type where
  prevUiState : Dict TargetId TargetUiState
  menu : RecentEventsState

/-- The page when it is mounted. -/
def Page.mounted : Page := ⟨∅, initial⟩

def Page.step (w : Notation) (p : Page) : Input → Page
  | .message event random =>
    let detected := detect w random p.prevUiState event
    ⟨detected.1, detected.2.elim p.menu fun event => reducer p.menu (.push event)⟩
  | .markSeen => { p with menu := reducer p.menu .markSeen }
  | .clear => { p with menu := reducer p.menu .clear }

/-- The page after these inputs. -/
def Page.run (w : Notation) (inputs : List Input) : Page := inputs.foldl (Page.step w) .mounted

/-! ## What is to be reported -/

/-- What a message says of targets. -/
def told : WsKnownEvent → List (TargetId × TargetUiState)
  | .stateFull data => data.targets.map fun t => (t.targetId, t.uiState)
  | .targetSnapshot next _ => [(next.targetId, next.uiState)]
  | .runStateChanged _ _ _ | .dropAlert _ _ | .hostStats _ _ => []

/-- The last that was said of a target. -/
def lastTold (before : List WsKnownEvent) (id : TargetId) : Option TargetUiState :=
  (((before.flatMap told).filter (·.1 = id)).getLast?).map Prod.snd

/-- Nothing is delivered. -/
def Failed (ui : TargetUiState) : Prop := ui = .errored ∨ ui = .failedOpen

instance : DecidablePred Failed := fun _ => inferInstanceAs (Decidable (_ ∨ _))

/-- It runs with losses, or not at all. -/
def Impaired (ui : TargetUiState) : Prop := Failed ui ∨ ui = .degraded

instance : DecidablePred Impaired := fun _ => inferInstanceAs (Decidable (_ ∨ _))

/-- What a report is about. -/
inductive News : Type where
  | runFailed
  | runRecovered
  | targetFailed (id : TargetId) (ui : TargetUiState)
  | targetRecovered (id : TargetId)
  | eventsLost (droppedTotal : ℕ)

/-- **What a message is news of**, after these: the run has failed, each time that this is said,
or has recovered from that; a target has failed in another way than it was last told of, or is
out of trouble; events were lost. -/
inductive Tells (before : List WsKnownEvent) : WsKnownEvent → News → Prop
  | runFailed (previous : RunState) (time : ℚ) :
    Tells before (.runStateChanged .error previous time) .runFailed
  | runRecovered (time : ℚ) : Tells before (.runStateChanged .live .error time) .runRecovered
  | targetFailed {next : TargetSnapshot} {time : ℚ} {last : TargetUiState}
      (told : lastTold before next.targetId = some last) (failed : Failed next.uiState)
      (changed : next.uiState ≠ last) :
    Tells before (.targetSnapshot next time) (.targetFailed next.targetId next.uiState)
  | targetRecovered {next : TargetSnapshot} {time : ℚ} {last : TargetUiState}
      (told : lastTold before next.targetId = some last) (impaired : Impaired last)
      (running : next.uiState = .running) :
    Tells before (.targetSnapshot next time) (.targetRecovered next.targetId)
  | eventsLost (droppedTotal : ℕ) (time : ℚ) :
    Tells before (.dropAlert droppedTotal time) (.eventsLost droppedTotal)

namespace News

def kind : News → RecentEventKind
  | runFailed | targetFailed .. => .error
  | runRecovered | targetRecovered .. => .success
  | eventsLost _ => .warn

def message (w : Notation) : News → Text
  | runFailed => "Run entered ERROR state.".toList
  | runRecovered => "Recovered to LIVE.".toList
  | targetFailed id ui =>
    "Target ".toList ++ w.targetId id ++ " → ".toList ++ (uiText ui).map Char.toUpper ++ ['.']
  | targetRecovered id => "Target ".toList ++ w.targetId id ++ " recovered.".toList
  | eventsLost droppedTotal =>
    "Event bus dropped ".toList ++ Nat.toDigits 10 droppedTotal ++ " events.".toList

end News

/-- `at` of a message. -/
def timeOf : WsKnownEvent → ℚ
  | .runStateChanged _ _ time | .targetSnapshot _ time | .dropAlert _ time => time
  | .stateFull _ | .hostStats _ _ => 0

/-- The messages among these inputs. -/
def messages (inputs : List Input) : List WsKnownEvent :=
  inputs.filterMap fun
    | .message event _ => some event
    | .markSeen | .clear => none

/-- Input `i` is a message with news, and this is the report of it. -/
def Reported (w : Notation) (inputs : List Input) (i : ℕ) (e : RecentEvent) : Prop :=
  ∃ event random news, inputs[i]? = some (.message event random) ∧
    Tells (messages (inputs.take i)) event news ∧
    e = makeEvent w random news.kind (news.message w) (timeOf event)

/-- What comes after the last of these. -/
def afterLast {α : Type} (p : α → Bool) (l : List α) : List α :=
  (l.reverse.takeWhile fun a => !p a).reverse

/-! ## The states that are compared -/

variable {w : Notation} {random : Text} {before : List WsKnownEvent} {event : WsKnownEvent}
  {prevMap : Dict TargetId TargetUiState}

/-- The last value for a target among these pairs. -/
def lastFor (pairs : List (TargetId × TargetUiState)) (id : TargetId) : Option TargetUiState :=
  ((pairs.filter (·.1 = id)).getLast?).map Prod.snd

theorem lastFor_concat (pairs : List (TargetId × TargetUiState)) (e : TargetId × TargetUiState)
    (id : TargetId) :
    lastFor (pairs ++ [e]) id = if e.1 = id then some e.2 else lastFor pairs id := by
  rw [lastFor, List.filter_append]
  by_cases h : e.1 = id
  · rw [List.filter_cons_of_pos (by simpa using h), List.filter_nil, List.getLast?_concat, if_pos h]
    rfl
  · rw [List.filter_cons_of_neg (by simpa using h), List.filter_nil, List.append_nil, if_neg h]
    rfl

/-- The states of the targets are the last that were told. -/
def Agrees (prevMap : Dict TargetId TargetUiState) (before : List WsKnownEvent) : Prop :=
  ∀ id, prevMap.get? id = lastTold before id

theorem lastTold_eq (before : List WsKnownEvent) (id : TargetId) :
    lastTold before id = lastFor (before.flatMap told) id := rfl

/-- One pair more. -/
theorem get?_insert_lastFor {pairs : List (TargetId × TargetUiState)}
    (h : ∀ id, prevMap.get? id = lastFor pairs id) (e : TargetId × TargetUiState) (id : TargetId) :
    (prevMap.insert e.1 e.2).get? id = lastFor (pairs ++ [e]) id := by
  rw [Dict.get?_insert, lastFor_concat, h id]
  by_cases heq : id = e.1
  · rw [if_pos heq, if_pos heq.symm]
  · rw [if_neg heq, if_neg (Ne.symm heq)]

/-- The loop over a `state.full`. -/
theorem get?_foldl_lastFor (targets : List TargetSnapshot)
    {pairs : List (TargetId × TargetUiState)} (h : ∀ id, prevMap.get? id = lastFor pairs id)
    (id : TargetId) :
    (targets.foldl (fun m t => m.insert t.targetId t.uiState) prevMap).get? id =
      lastFor (pairs ++ targets.map fun t => (t.targetId, t.uiState)) id := by
  induction targets generalizing prevMap pairs with
  | nil => rw [List.map_nil, List.append_nil, List.foldl_nil, h]
  | cons t targets ih =>
    rw [List.foldl_cons, ih (get?_insert_lastFor h (t.targetId, t.uiState)), List.map_cons,
      List.append_assoc, List.singleton_append]

theorem Agrees.detect (h : Agrees prevMap before) (w : Notation) (random : Text)
    (event : WsKnownEvent) : Agrees (detect w random prevMap event).1 (before ++ [event]) := by
  intro id
  rw [lastTold_eq, List.flatMap_append, List.flatMap_singleton]
  cases event with
  | stateFull data => exact get?_foldl_lastFor data.targets h id
  | targetSnapshot next time => exact get?_insert_lastFor h (next.targetId, next.uiState) id
  | runStateChanged | dropAlert | hostStats =>
    rw [told, List.append_nil]
    exact h id

theorem pushed_runStateChanged {newState previousState : RunState} {time : ℚ} {e : RecentEvent} :
    (detect w random prevMap (.runStateChanged newState previousState time)).2 = some e ↔
      ∃ news, Tells before (.runStateChanged newState previousState time) news ∧
        e = makeEvent w random news.kind (news.message w) time := by
  rw [detect]
  dsimp only
  constructor
  · intro h
    split at h
    · rename_i herror
      subst herror
      exact ⟨.runFailed, .runFailed previousState time, (Option.some.inj h).symm⟩
    · split at h
      · rename_i hlive
        obtain ⟨rfl, rfl⟩ := hlive
        exact ⟨.runRecovered, .runRecovered time, (Option.some.inj h).symm⟩
      · cases h
  · rintro ⟨news, htells, rfl⟩
    cases htells <;> rfl

theorem Agrees.pushed_targetSnapshot (h : Agrees prevMap before) {next : TargetSnapshot} {time : ℚ}
    {e : RecentEvent} :
    (RecentEvents.detect w random prevMap (.targetSnapshot next time)).2 = some e ↔
      ∃ news, Tells before (.targetSnapshot next time) news ∧
        e = makeEvent w random news.kind (news.message w) time := by
  rw [RecentEvents.detect, h next.targetId]
  dsimp only
  constructor
  · intro hpush
    split at hpush
    · cases hpush
    · rename_i last htold
      split at hpush
      · cases hpush
      · rename_i hchanged
        split at hpush
        · rename_i hfailed
          exact ⟨.targetFailed next.targetId next.uiState,
            .targetFailed htold hfailed (Ne.symm hchanged), (Option.some.inj hpush).symm⟩
        · split at hpush
          · rename_i hback
            exact ⟨.targetRecovered next.targetId,
              .targetRecovered htold (or_assoc.mpr hback.2) hback.1,
              (Option.some.inj hpush).symm⟩
          · cases hpush
  · rintro ⟨news, htells, rfl⟩
    cases htells with
    | targetFailed htold hfailed hchanged =>
      rw [htold]
      exact (if_neg (Ne.symm hchanged)).trans (if_pos hfailed)
    | @targetRecovered _ _ last htold himpaired hrunning =>
      -- neither the state it was in, nor a failure
      have hchanged : last ≠ next.uiState := fun hsame => by
        rw [hsame, hrunning] at himpaired
        exact absurd himpaired (by decide)
      have hfine : ¬ (next.uiState = .errored ∨ next.uiState = .failedOpen) := by
        rw [hrunning]
        decide
      rw [htold]
      exact (if_neg hchanged).trans ((if_neg hfine).trans
        (if_pos ⟨hrunning, or_assoc.mp himpaired⟩))

/-- **What is pushed is the report.** -/
theorem Agrees.pushed_iff (h : Agrees prevMap before) {e : RecentEvent} :
    (RecentEvents.detect w random prevMap event).2 = some e ↔
      ∃ news, Tells before event news ∧
        e = makeEvent w random news.kind (news.message w) (timeOf event) := by
  cases event with
  | runStateChanged => exact pushed_runStateChanged
  | targetSnapshot => exact h.pushed_targetSnapshot
  | dropAlert droppedTotal time =>
    constructor
    · intro hpush
      exact ⟨.eventsLost droppedTotal, .eventsLost droppedTotal time,
        (Option.some.inj hpush).symm⟩
    · rintro ⟨news, htells, rfl⟩
      cases htells
      rfl
  | stateFull | hostStats =>
    constructor
    · intro hpush
      cases hpush
    · rintro ⟨news, htells, -⟩
      cases htells

/-! ## The bell -/

section AfterLast

variable {α : Type} {p : α → Bool} {a : α}

theorem afterLast_keep (h : p a = false) (l : List α) :
    afterLast p (l ++ [a]) = afterLast p l ++ [a] := by
  rw [afterLast, List.reverse_concat, List.takeWhile_cons_of_pos (by rw [h]; rfl),
    List.reverse_cons]
  rfl

theorem afterLast_cut (h : p a = true) (l : List α) : afterLast p (l ++ [a]) = [] := by
  rw [afterLast, List.reverse_concat, List.takeWhile_cons_of_neg (by rw [h]; decide),
    List.reverse_nil]

end AfterLast

/-- The bell is cleared. -/
def clears (e : Input × Option RecentEvent) : Bool :=
  match e.1 with
  | .clear => true
  | _ => false

/-- All that is behind the bell has been seen. -/
def sees (e : Input × Option RecentEvent) : Bool :=
  match e.1 with
  | .message _ _ => false
  | _ => true

/-- The page after these inputs; with each its report. -/
structure Rings (w : Notation) (p : Page) (inputs : List Input)
    (l : List (Input × Option RecentEvent)) : Prop where
  agrees : Agrees p.prevUiState (messages inputs)
  paired : l.map Prod.fst = inputs
  reported : ∀ i e, (l[i]?).bind Prod.snd = some e ↔ Reported w inputs i e
  events : p.menu.events = ((afterLast clears l).filterMap Prod.snd).reverse.take maxEvents
  unseen : p.menu.unseenCount = ((afterLast sees l).filterMap Prod.snd).length

variable {p : Page} {inputs : List Input} {l : List (Input × Option RecentEvent)}

theorem reported_concat (l : List (Input × Option RecentEvent)) (input : Input)
    (reported : Option RecentEvent) : (l ++ [(input, reported)]).filterMap Prod.snd =
      l.filterMap Prod.snd ++ reported.toList := by
  rw [List.filterMap_append]
  cases reported <;> rfl

/-- One input more leaves the reports of the others. -/
theorem Rings.reported_append (h : Rings w p inputs l) {input : Input}
    {pushed : Option RecentEvent}
    (hlast : ∀ e, pushed = some e ↔ Reported w (inputs ++ [input]) inputs.length e) :
    ∀ i e, ((l ++ [(input, pushed)])[i]?).bind Prod.snd = some e ↔
      Reported w (inputs ++ [input]) i e := by
  intro i e
  have hlength : l.length = inputs.length := by rw [← h.paired, List.length_map]
  rcases Nat.lt_trichotomy i inputs.length with hlt | rfl | hgt
  · rw [List.getElem?_append_left (hlength ▸ hlt), h.reported, Reported, Reported,
      List.getElem?_append_left hlt, List.take_append_of_le_length hlt.le]
  · rw [← hlength, List.getElem?_concat_length, hlength]
    exact hlast e
  · refine iff_of_false (fun hbind => ?_) ?_
    · rw [List.getElem?_eq_none (by rw [List.length_append, hlength]; exact hgt)] at hbind
      cases hbind
    · rintro ⟨event, random, news, hmem, -⟩
      rw [List.getElem?_eq_none (by rw [List.length_append]; exact hgt)] at hmem
      cases hmem

/-- Only a message is reported. -/
theorem not_reported {input : Input} (h : ∀ event random, input ≠ .message event random)
    (e : RecentEvent) : none = some e ↔ Reported w (inputs ++ [input]) inputs.length e := by
  refine iff_of_false (by rintro ⟨⟩) ?_
  rintro ⟨event, random, news, hmem, -⟩
  rw [List.getElem?_concat_length] at hmem
  exact h event random (Option.some.inj hmem)

theorem messages_concat (inputs : List Input) (input : Input) :
    messages (inputs ++ [input]) = messages inputs ++ messages [input] := List.filterMap_append

theorem Rings.message (h : Rings w p inputs l) (random : Text) (event : WsKnownEvent) :
    Rings w (p.step w (.message event random)) (inputs ++ [.message event random])
      (l ++ [(.message event random, (detect w random p.prevUiState event).2)]) where
  agrees := by
    rw [messages_concat]
    exact h.agrees.detect w random event
  paired := by rw [List.map_append, h.paired]; rfl
  reported := by
    refine h.reported_append fun e => ?_
    rw [h.agrees.pushed_iff, Reported, List.getElem?_concat_length, List.take_left]
    constructor
    · rintro ⟨news, hnews⟩
      exact ⟨event, random, news, rfl, hnews⟩
    · rintro ⟨event', random', news, hsame, hnews⟩
      obtain ⟨rfl, rfl⟩ := Input.message.inj (Option.some.inj hsame)
      exact ⟨news, hnews⟩
  events := by
    rw [afterLast_keep rfl, reported_concat, Page.step]
    dsimp only
    rcases (detect w random p.prevUiState event).2 with _ | pushed
    · rw [Option.toList_none, List.append_nil]
      exact h.events
    · rw [Option.toList_some, List.reverse_concat]
      show (pushed :: p.menu.events).take maxEvents = _
      rw [h.events]
      exact congrArg (pushed :: ·) (by rw [List.take_take]; rfl)
  unseen := by
    rw [afterLast_keep rfl, reported_concat, Page.step]
    dsimp only
    rcases (detect w random p.prevUiState event).2 with _ | pushed
    · rw [Option.toList_none, List.append_nil]
      exact h.unseen
    · rw [Option.toList_some, List.length_append, ← h.unseen]
      rfl

theorem Rings.markSeen (h : Rings w p inputs l) :
    Rings w (p.step w .markSeen) (inputs ++ [.markSeen]) (l ++ [(.markSeen, none)]) where
  agrees := by
    rw [messages_concat, messages, messages, List.filterMap_cons_none rfl, List.filterMap_nil,
      List.append_nil]
    exact h.agrees
  paired := by rw [List.map_append, h.paired]; rfl
  reported := h.reported_append (not_reported fun _ _ h => nomatch h)
  events := by
    rw [afterLast_keep rfl, reported_concat, Option.toList_none,
      List.append_nil, ← h.events, Page.step, reducer]
    split <;> rfl
  unseen := by
    rw [afterLast_cut rfl, Page.step, reducer]
    split
    · rename_i hzero
      exact hzero
    · rfl

theorem Rings.clear (h : Rings w p inputs l) :
    Rings w (p.step w .clear) (inputs ++ [.clear]) (l ++ [(.clear, none)]) where
  agrees := by
    rw [messages_concat, messages, messages, List.filterMap_cons_none rfl, List.filterMap_nil,
      List.append_nil]
    exact h.agrees
  paired := by rw [List.map_append, h.paired]; rfl
  reported := h.reported_append (not_reported fun _ _ h => nomatch h)
  events := by
    rw [afterLast_cut rfl]
    rfl
  unseen := by
    rw [afterLast_cut rfl]
    rfl

theorem rings_run (w : Notation) (inputs : List Input) :
    ∃ l, Rings w (Page.run w inputs) inputs l := by
  induction inputs using List.reverseRecOn with
  | nil =>
    refine ⟨[], fun _ => rfl, rfl, fun i e => iff_of_false (by rintro ⟨⟩) ?_, rfl, rfl⟩
    rintro ⟨event, random, news, ⟨⟩, -⟩
  | append_singleton inputs input ih =>
    obtain ⟨l, h⟩ := ih
    rw [Page.run, List.foldl_concat]
    cases input with
    | message event random => exact ⟨_, h.message random event⟩
    | markSeen => exact ⟨_, h.markSeen⟩
    | clear => exact ⟨_, h.clear⟩

/-- **The menu** after these inputs: the newest 50 of the reports since it was cleared, and the
number of those since it was looked at. -/
theorem recent_events (w : Notation) (inputs : List Input) :
    ∃ l : List (Input × Option RecentEvent), l.map Prod.fst = inputs ∧
      (∀ i e, (l[i]?).bind Prod.snd = some e ↔ Reported w inputs i e) ∧
      (Page.run w inputs).menu.events =
        ((afterLast clears l).filterMap Prod.snd).reverse.take maxEvents ∧
      (Page.run w inputs).menu.unseenCount = ((afterLast sees l).filterMap Prod.snd).length := by
  obtain ⟨l, h⟩ := rings_run w inputs
  exact ⟨l, h.paired, h.reported, h.events, h.unseen⟩

end RestreamPlus.RecentEvents
