import Mathlib.Algebra.BigOperators.Group.List.Basic
import Mathlib.Algebra.Ring.Rat
import RestreamPlus.Lib.DropOldest
import RestreamPlus.Lib.Machine
import RestreamPlus.Web.WsReducer

/-!
# Live metrics in the browser (`web/src/lib/liveMetricsReducer.ts`)

Beside the view the page keeps the last samples of what goes out, for each target
and together, and of what comes in. A `state.full` starts the buffers anew, and so
does going offline; everything else adds one sample at most.

`Sound` is what holds of the buffers, `Told` adds what a reset promises.
`told_iff` finds the two places where `seedFromStateFull` breaks it: it keeps the
samples of the ingest, and it does not look at the cap on the map.
-/

namespace RestreamPlus

open Interleaving

/-- `SparklineSample`. -/
structure SparklineSample : Type where
  bitrate : ℚ
  healthy : Bool
  deriving DecidableEq

/-- `LiveMetricsStateT`; the last host stats with their `at`. -/
structure LiveMetricsState : Type where
  hostStats : Option (HostStats × ℚ)
  egressByTarget : Dict TargetId (List SparklineSample)
  aggregateBuffer : List SparklineSample
  ingestBuffer : List SparklineSample
  deriving DecidableEq

namespace LiveMetrics

/-- `BUFFER_CAP`. -/
def bufferCap : ℕ := 60

/-- `TARGET_MAP_CAP`. -/
def targetMapCap : ℕ := 16

/-- `EMPTY_LIVE_METRICS`. -/
def emptyLiveMetrics : LiveMetricsState := ⟨none, ∅, [], []⟩

/-! ## The reducer -/

/-- `pushCapped` with its default cap. -/
def pushCapped (buf : List SparklineSample) (sample : SparklineSample) : List SparklineSample :=
  if buf.length < bufferCap then buf ++ [sample]
  else buf.drop (buf.length - bufferCap + 1) ++ [sample]

/-- The sample of a target: that of its primary, if it has made progress. -/
def sampleOf (target : TargetSnapshot) : Option SparklineSample :=
  (target.snapshotsByRole.find? (·.role = .primary)).bind fun primary =>
    primary.lastProgress.map fun progress =>
      ⟨progress.bitrateKbps, primary.state = .running⟩

/-- An aggregate with one sample more. -/
def SparklineSample.add (aggregate sample : SparklineSample) : SparklineSample :=
  ⟨aggregate.bitrate + sample.bitrate, aggregate.healthy && sample.healthy⟩

/-- The aggregate of nothing. -/
def zero : SparklineSample := ⟨0, true⟩

/-- The loop of `seedFromStateFull` for a target: the map, and the aggregate. -/
def seedTarget (seeded : Dict TargetId (List SparklineSample) × SparklineSample)
    (target : TargetSnapshot) : Dict TargetId (List SparklineSample) × SparklineSample :=
  match sampleOf target with
  | none => seeded
  -- whatever the size of the map is
  | some sample => (seeded.1.insert target.targetId [sample], SparklineSample.add seeded.2 sample)

/-- `seedFromStateFull`. -/
def seedFromStateFull (base : LiveMetricsState) (data : RunStateView) : LiveMetricsState :=
  let (nextEgress, aggregate) := data.targets.foldl seedTarget (∅, zero)
  { hostStats := base.hostStats
    egressByTarget := nextEgress
    aggregateBuffer := if 0 < nextEgress.keys.length then [aggregate] else []
    ingestBuffer := base.ingestBuffer }

/-- The oldest target makes room for a new one. -/
def evictOldest (egress : Dict TargetId (List SparklineSample)) (id : TargetId) :
    Dict TargetId (List SparklineSample) :=
  if id ∉ egress.keys ∧ targetMapCap ≤ egress.keys.length then
    match egress.keys.head? with
    | none => egress
    | some oldestKey => egress.erase oldestKey
  else egress

/-- The loop of `applyTargetSnapshot` for a buffer. -/
def addHead (aggregate : SparklineSample) (buf : List SparklineSample) : SparklineSample :=
  match buf.getLast? with
  | none => aggregate
  | some head => SparklineSample.add aggregate head

/-- `applyTargetSnapshot`. -/
def applyTargetSnapshot (base : LiveMetricsState) (data : TargetSnapshot) : LiveMetricsState :=
  match sampleOf data with
  | none => base
  | some sample =>
    let evicted := evictOldest base.egressByTarget data.targetId
    let nextEgress := evicted.insert data.targetId
      (pushCapped ((evicted.get? data.targetId).getD []) sample)
    { base with
      egressByTarget := nextEgress
      aggregateBuffer := pushCapped base.aggregateBuffer (nextEgress.values.foldl addHead zero) }

/-- `applyHostStats`. -/
def applyHostStats (base : LiveMetricsState) (data : HostStats) (time : ℚ) : LiveMetricsState :=
  { base with
    hostStats := some (data, time)
    ingestBuffer := match data.ingestKbps with
      -- not known, which is not zero
      | none => base.ingestBuffer
      | some ingestKbps => pushCapped base.ingestBuffer ⟨ingestKbps, true⟩ }

/-- `applyLiveMetricsEvent`. -/
def applyLiveMetricsEvent (prev : Option LiveMetricsState) : WsKnownEvent → LiveMetricsState
  | .stateFull data => seedFromStateFull (prev.getD emptyLiveMetrics) data
  | .targetSnapshot data _ => applyTargetSnapshot (prev.getD emptyLiveMetrics) data
  | .hostStats data time => applyHostStats (prev.getD emptyLiveMetrics) data time
  | .runStateChanged newState _ _ =>
    if newState = .offline then emptyLiveMetrics else prev.getD emptyLiveMetrics
  | .dropAlert _ _ => prev.getD emptyLiveMetrics

/-! ## What should hold -/

/-- The last sample of every target. -/
def lastSamples (egress : Dict TargetId (List SparklineSample)) : List SparklineSample :=
  egress.values.filterMap List.getLast?

/-- The sum of these samples, and whether all of them are healthy. -/
def total (samples : List SparklineSample) : SparklineSample :=
  ⟨(samples.map SparklineSample.bitrate).sum, samples.all SparklineSample.healthy⟩

/-- What the page draws. -/
structure SameBuffers (s t : LiveMetricsState) : Prop where
  egress : s.egressByTarget = t.egressByTarget
  aggregate : s.aggregateBuffer = t.aggregateBuffer
  ingest : s.ingestBuffer = t.ingestBuffer

/-- **The buffers are sound.** -/
structure Sound (s : LiveMetricsState) : Prop where
  egress : ∀ buf ∈ s.egressByTarget.values, buf ≠ [] ∧ buf.length ≤ bufferCap
  aggregate : s.aggregateBuffer.length ≤ bufferCap
  ingest : s.ingestBuffer.length ≤ bufferCap
  map : s.egressByTarget.keys.length ≤ targetMapCap
  /-- the aggregate is that of the last samples -/
  head : s.egressByTarget.keys ≠ [] →
    s.aggregateBuffer.getLast? = some (total (lastSamples s.egressByTarget))

/-- The messages that start anew. -/
def Resets : WsKnownEvent → Prop
  | .stateFull _ => True
  | .runStateChanged newState _ _ => newState = .offline
  | _ => False

/-- A page and the last message it was told. -/
abbrev Page : Type := LiveMetricsState × Option WsKnownEvent

/-- The page, one message after the other. -/
def page : Machine Page WsKnownEvent :=
  Machine.recording
    ⟨fun s event => some (applyLiveMetricsEvent (some s) event)⟩ fun _ _ event _ => some event

/-- **What a page should hold**: sound buffers, and after a reset nothing of what
came before. -/
structure Told (s : Page) : Prop where
  sound : Sound s.1
  reset : ∀ event, s.2 = some event → Resets event →
    SameBuffers s.1 (applyLiveMetricsEvent none event)

/-- The samples a view brings. -/
def samplesOf (data : RunStateView) : List SparklineSample := data.targets.filterMap sampleOf

/-- A view no target is in twice. -/
def Distinct (_ : Page) (event : WsKnownEvent) : Prop :=
  ∀ data, event = .stateFull data → (data.targets.map (·.targetId)).Nodup

/-- A view that comes while no ingest is shown, of no more targets than the cap. -/
def Seedable (s : Page) (event : WsKnownEvent) : Prop :=
  ∀ data, event = .stateFull data →
    s.1.ingestBuffer = [] ∧ (samplesOf data).length ≤ targetMapCap

/-! ## Capped buffers -/

theorem pushCapped_eq (buf : List SparklineSample) (sample : SparklineSample) :
    pushCapped buf sample = DropOldest.push bufferCap buf sample := by
  rw [pushCapped, DropOldest.push, List.rtake, List.length_append, List.length_singleton]
  split
  · rename_i hlt
    have hzero : buf.length + 1 - bufferCap = 0 := by omega
    rw [hzero, List.drop_zero]
  · rename_i hge
    have hle : buf.length - bufferCap + 1 ≤ buf.length := by
      rw [bufferCap] at hge ⊢
      omega
    have hsub : buf.length + 1 - bufferCap = buf.length - bufferCap + 1 := by omega
    rw [hsub, List.drop_append_of_le_length hle]

theorem length_pushCapped (buf : List SparklineSample) (sample : SparklineSample) :
    (pushCapped buf sample).length ≤ bufferCap := by
  rw [pushCapped_eq, DropOldest.push, DropOldest.length_rtake]
  exact min_le_left _ _

theorem getLast?_pushCapped (buf : List SparklineSample) (sample : SparklineSample) :
    (pushCapped buf sample).getLast? = some sample := by
  rw [pushCapped]
  split <;> exact List.getLast?_concat

theorem pushCapped_ne_nil (buf : List SparklineSample) (sample : SparklineSample) :
    pushCapped buf sample ≠ [] := by
  intro h
  have hlast := getLast?_pushCapped buf sample
  rw [h] at hlast
  cases hlast

/-! ## Aggregates -/

theorem foldl_add (samples : List SparklineSample) (aggregate : SparklineSample) :
    samples.foldl SparklineSample.add aggregate =
      SparklineSample.add aggregate (total samples) := by
  induction samples generalizing aggregate with
  | nil =>
    rw [List.foldl_nil, SparklineSample.add, total]
    simp
  | cons sample samples ih =>
    rw [List.foldl_cons, ih]
    simp [SparklineSample.add, total, add_assoc, Bool.and_assoc]

theorem zero_add (sample : SparklineSample) : SparklineSample.add zero sample = sample := by
  simp [SparklineSample.add, zero]

theorem total_append (samples : List SparklineSample) (sample : SparklineSample) :
    total (samples ++ [sample]) = SparklineSample.add (total samples) sample := by
  simp [SparklineSample.add, total]

/-- **The loop of `applyTargetSnapshot`** adds the last samples up. -/
theorem foldl_addHead (egress : Dict TargetId (List SparklineSample)) :
    egress.values.foldl addHead zero = total (lastSamples egress) := by
  have hfold : egress.values.foldl addHead zero =
      (lastSamples egress).foldl SparklineSample.add zero := by
    rw [lastSamples, List.foldl_filterMap]
    congr 1
    funext aggregate buf
    rw [addHead]
    cases buf.getLast? <;> rfl
  rw [hfold, foldl_add, zero_add]

/-! ## One message -/

section Step

variable {s : LiveMetricsState}

theorem length_evictOldest (egress : Dict TargetId (List SparklineSample)) (id : TargetId)
    (h : egress.keys.length ≤ targetMapCap) (buf : List SparklineSample) :
    ((evictOldest egress id).insert id buf).keys.length ≤ targetMapCap := by
  by_cases hmem : id ∈ egress.keys
  · -- the buffer is replaced
    rw [evictOldest, if_neg fun hno => hno.1 hmem, Dict.keys_insert, if_pos hmem]
    exact h
  · have hinsert : ∀ d : Dict TargetId (List SparklineSample), d.keys.length < targetMapCap →
        (d.insert id buf).keys.length ≤ targetMapCap := by
      intro d hd
      rw [Dict.keys_insert]
      split
      · exact hd.le
      · rw [List.length_append]
        exact hd
    rw [evictOldest]
    split
    · -- one key leaves, another one comes
      rename_i hfull
      rcases hhead : egress.keys.head? with _ | oldestKey
      · rw [List.head?_eq_none_iff.mp hhead] at hfull
        exact absurd hfull.2 (by decide)
      · have hold := Dict.length_keys_erase (List.mem_of_head? hhead)
        exact hinsert (egress.erase oldestKey) (by omega)
    · rename_i hroom
      exact hinsert egress (by simpa [hmem] using hroom)

/-- Evicting takes buffers away and changes none. -/
theorem mem_values_evictOldest {egress : Dict TargetId (List SparklineSample)} {id : TargetId}
    {k : TargetId} {buf : List SparklineSample}
    (h : (evictOldest egress id).get? k = some buf) : egress.get? k = some buf := by
  rw [evictOldest] at h
  split at h
  · split at h
    · exact h
    · exact (Dict.get?_of_get?_erase h).2
  · exact h

theorem Sound.applyTargetSnapshot (h : Sound s) (data : TargetSnapshot) :
    Sound (applyTargetSnapshot s data) := by
  rw [LiveMetrics.applyTargetSnapshot]
  split
  · exact h
  · rename_i sample hsample
    exact
      { egress := by
          intro buf hbuf
          obtain ⟨k, hk⟩ := Dict.mem_values.mp hbuf
          rw [Dict.get?_insert] at hk
          split at hk
          · obtain rfl := Option.some.inj hk
            exact ⟨pushCapped_ne_nil _ _, length_pushCapped _ _⟩
          · exact h.egress buf (Dict.mem_values.mpr ⟨k, mem_values_evictOldest hk⟩)
        aggregate := length_pushCapped _ _
        ingest := h.ingest
        map := length_evictOldest _ _ h.map _
        head := fun _ => by rw [getLast?_pushCapped, foldl_addHead] }

theorem Sound.applyHostStats (h : Sound s) (data : HostStats) (time : ℚ) :
    Sound (applyHostStats s data time) where
  egress := h.egress
  aggregate := h.aggregate
  ingest := by
    rw [LiveMetrics.applyHostStats]
    dsimp only
    split
    · exact h.ingest
    · exact length_pushCapped _ _
  map := h.map
  head := h.head

theorem sound_empty : Sound emptyLiveMetrics where
  egress _ hbuf := absurd hbuf List.not_mem_nil
  aggregate := Nat.zero_le _
  ingest := Nat.zero_le _
  map := Nat.zero_le _
  head hne := absurd rfl hne

/-! ## Seeding -/

/-- What a target puts into the map. -/
def seed (target : TargetSnapshot) : Option (TargetId × List SparklineSample) :=
  (sampleOf target).map fun sample => (target.targetId, [sample])

theorem mem_ids_of_seed {targets : List TargetSnapshot} {id : TargetId}
    (h : id ∈ (targets.filterMap seed).map Prod.fst) : id ∈ targets.map (·.targetId) := by
  obtain ⟨entry, hentry, rfl⟩ := List.mem_map.mp h
  obtain ⟨target, htarget, hseed⟩ := List.mem_filterMap.mp hentry
  obtain ⟨sample, -, rfl⟩ := Option.map_eq_some_iff.mp hseed
  exact List.mem_map.mpr ⟨target, htarget, rfl⟩

/-- **The loop of `seedFromStateFull`**, for targets no two of which are the same. -/
theorem foldl_seedTarget {targets : List TargetSnapshot}
    (h : (targets.map (·.targetId)).Nodup) :
    (targets.foldl seedTarget (∅, zero)).1.entries = targets.filterMap seed ∧
      (targets.foldl seedTarget (∅, zero)).2 = total (targets.filterMap sampleOf) := by
  -- from the back, since a target that is new becomes the last entry
  induction targets using List.reverseRecOn with
  | nil => exact ⟨rfl, rfl⟩
  | append_singleton targets target ih =>
    rw [List.map_append] at h
    obtain ⟨hinit, -, hdis⟩ := List.nodup_append.mp h
    obtain ⟨hentries, haggregate⟩ := ih hinit
    rw [List.foldl_append, List.foldl_cons, List.foldl_nil, seedTarget, List.filterMap_append,
      List.filterMap_append]
    rcases hsample : sampleOf target with _ | sample
    · have hseed : seed target = none := by rw [seed, hsample]; rfl
      rw [List.filterMap_cons_none hseed, List.filterMap_cons_none hsample, List.filterMap_nil,
        List.filterMap_nil, List.append_nil, List.append_nil]
      exact ⟨hentries, haggregate⟩
    · have hseed : seed target = some (target.targetId, [sample]) := by rw [seed, hsample]; rfl
      have hnew : target.targetId ∉ (targets.foldl seedTarget (∅, zero)).1.keys := by
        rw [Dict.keys, hentries]
        exact fun hmem => hdis _ (mem_ids_of_seed hmem) _ List.mem_cons_self rfl
      rw [List.filterMap_cons_some hseed, List.filterMap_cons_some hsample, List.filterMap_nil,
        List.filterMap_nil, total_append]
      dsimp only
      rw [Dict.entries_insert hnew, hentries, haggregate]
      exact ⟨rfl, rfl⟩

theorem values_seed (targets : List TargetSnapshot) : (targets.filterMap seed).map Prod.snd =
    (targets.filterMap sampleOf).map fun sample => [sample] := by
  rw [List.map_filterMap, List.map_filterMap]
  congr 1
  funext target
  rw [seed, Option.map_map]
  rfl

section Seeded

variable {data : RunStateView} (hdistinct : (data.targets.map (·.targetId)).Nodup)
include hdistinct

/-- One sample for each target that has one. -/
theorem values_seedFromStateFull (s : LiveMetricsState) :
    (seedFromStateFull s data).egressByTarget.values =
      (samplesOf data).map fun sample => [sample] := by
  rw [Dict.values, seedFromStateFull, (foldl_seedTarget hdistinct).1, values_seed, samplesOf]

theorem length_keys_seedFromStateFull (s : LiveMetricsState) :
    (seedFromStateFull s data).egressByTarget.keys.length = (samplesOf data).length := by
  have hvalues := congrArg List.length (values_seedFromStateFull hdistinct s)
  rw [Dict.values, List.length_map, List.length_map] at hvalues
  rw [Dict.keys, List.length_map, hvalues]

theorem lastSamples_seedFromStateFull (s : LiveMetricsState) :
    lastSamples (seedFromStateFull s data).egressByTarget = samplesOf data := by
  rw [lastSamples, values_seedFromStateFull hdistinct, List.filterMap_map]
  exact List.filterMap_some

theorem aggregateBuffer_seedFromStateFull (s : LiveMetricsState) :
    (seedFromStateFull s data).aggregateBuffer =
      if 0 < (samplesOf data).length then [total (samplesOf data)] else [] := by
  rw [← length_keys_seedFromStateFull hdistinct s, samplesOf, ← (foldl_seedTarget hdistinct).2]
  rfl

/-- **Seeding** is sound if the view has not too many targets. -/
theorem Sound.seedFromStateFull (h : Sound s) (hfit : (samplesOf data).length ≤ targetMapCap) :
    Sound (seedFromStateFull s data) where
  egress := by
    intro buf hbuf
    rw [values_seedFromStateFull hdistinct] at hbuf
    obtain ⟨sample, -, rfl⟩ := List.mem_map.mp hbuf
    exact ⟨List.cons_ne_nil _ _, (by decide : 1 ≤ bufferCap)⟩
  aggregate := by
    rw [aggregateBuffer_seedFromStateFull hdistinct]
    split
    · exact (by decide : 1 ≤ bufferCap)
    · exact Nat.zero_le _
  ingest := h.ingest
  map := by
    rw [length_keys_seedFromStateFull hdistinct]
    exact hfit
  head := by
    intro hne
    have hpos : 0 < (samplesOf data).length := by
      rw [← length_keys_seedFromStateFull hdistinct s]
      exact List.length_pos_of_ne_nil hne
    rw [aggregateBuffer_seedFromStateFull hdistinct, if_pos hpos,
      lastSamples_seedFromStateFull hdistinct]
    rfl

end Seeded

/-! ## Runs -/

theorem step_page {s s' : Page} {event : WsKnownEvent} (h : page.step s event = some s') :
    s' = (applyLiveMetricsEvent (some s.1) event, some event) :=
  (Option.some.inj h).symm

theorem step_page_ne_none (s : Page) (event : WsKnownEvent) : page.step s event ≠ none :=
  Option.some_ne_none _

/-- After a reset nothing is left but, from a `state.full`, the ingest. -/
theorem sameBuffers_of_resets {event : WsKnownEvent} (hresets : Resets event)
    (hingest : ∀ data, event = .stateFull data → s.ingestBuffer = []) :
    SameBuffers (applyLiveMetricsEvent (some s) event) (applyLiveMetricsEvent none event) := by
  cases event with
  | stateFull data => exact ⟨rfl, rfl, hingest data rfl⟩
  | runStateChanged newState previousState time =>
    obtain rfl : newState = .offline := hresets
    exact ⟨rfl, rfl, rfl⟩
  | targetSnapshot next time => exact hresets.elim
  | dropAlert droppedTotal time => exact hresets.elim
  | hostStats data time => exact hresets.elim

/-- **One message** that may be applied keeps what should hold. -/
theorem Told.step {s s' : Page} {event : WsKnownEvent} (h : Told s)
    (hdistinct : Distinct s event) (hok : Seedable s event) (hstep : page.step s event = some s') :
    Told s' := by
  rw [step_page hstep]
  refine ⟨?_, ?_⟩
  · cases event with
    | stateFull data => exact h.sound.seedFromStateFull (hdistinct data rfl) (hok data rfl).2
    | runStateChanged newState previousState time =>
      show Sound (if newState = .offline then emptyLiveMetrics else s.1)
      split
      · exact sound_empty
      · exact h.sound
    | targetSnapshot next time => exact h.sound.applyTargetSnapshot next
    | dropAlert droppedTotal time => exact h.sound
    | hostStats data time => exact h.sound.applyHostStats data time
  · rintro last hlast hresets
    obtain rfl := Option.some.inj hlast
    exact sameBuffers_of_resets hresets fun data heq => (hok data heq).1

/-- **Any other `state.full`** breaks it. -/
theorem not_told_of_not_seedable {s s' : Page} {event : WsKnownEvent}
    (hdistinct : Distinct s event) (hno : ¬ Seedable s event)
    (hstep : page.step s event = some s') : ¬ Told s' := by
  rw [step_page hstep]
  intro htold
  refine hno fun data heq => ?_
  subst heq
  refine ⟨(htold.reset _ rfl trivial).ingest, ?_⟩
  rw [← length_keys_seedFromStateFull (hdistinct data rfl) s.1]
  exact htold.sound.map

/-- **The live metrics** hold what they should exactly as long as every `state.full`
comes while no ingest is shown, and has no more targets than the cap. -/
theorem told_iff {events : List WsKnownEvent}
    (hdistinct : ∀ data, WsKnownEvent.stateFull data ∈ events →
      (data.targets.map (·.targetId)).Nodup) :
    page.Always Told (emptyLiveMetrics, none) events ↔
      page.Meets Seedable (emptyLiveMetrics, none) events := by
  have hempty : Told (emptyLiveMetrics, none) := ⟨sound_empty, fun event hevent => by cases hevent⟩
  have hlabels : ∀ event ∈ events, ∀ data, event = WsKnownEvent.stateFull data →
      (data.targets.map (·.targetId)).Nodup := by
    rintro event hmem data rfl
    exact hdistinct data hmem
  have hpre : page.Meets Distinct (emptyLiveMetrics, none) events :=
    Machine.meets_of_labels hlabels _
  exact Machine.always_iff_meets_under (fun s event s' h hd hok hs => h.step hd hok hs)
    (fun s h => h) (fun s event s' _ hd hno hs => not_told_of_not_seedable hd hno hs)
    (fun s event hnone => absurd hnone (step_page_ne_none s event)) hempty hpre

end Step

/-! ## Two pages -/

/-- One target delivers. -/
def delivering : TargetSnapshot :=
  ⟨1, .running, [⟨.primary, .running, 0, none, 0, some ⟨4500, 30, 0, 1, 0⟩⟩]⟩

/-- The page is opened, and is told how much comes in. -/
def opened : List WsKnownEvent :=
  [.stateFull ⟨.live, [delivering], 0, 0, none⟩, .hostStats ⟨5, [], 4096, some 6000⟩ 1]

theorem told_opened :
    (∀ data, WsKnownEvent.stateFull data ∈ opened → (data.targets.map (·.targetId)).Nodup) ∧
      page.Always Told (emptyLiveMetrics, none) opened := by
  have hdistinct : ∀ data, WsKnownEvent.stateFull data ∈ opened →
      (data.targets.map (·.targetId)).Nodup := by
    intro data hmem
    simp only [opened, List.mem_cons, WsKnownEvent.stateFull.injEq, reduceCtorEq,
      List.not_mem_nil, or_false] at hmem
    subst hmem
    exact List.nodup_singleton _
  refine ⟨hdistinct, (told_iff hdistinct).mpr ⟨?_, fun s' _ => ⟨?_, fun _ _ => trivial⟩⟩⟩
  · intro data heq
    cases heq
    exact ⟨rfl, by decide⟩
  · intro data heq
    cases heq

/-- The socket is lost after that, and comes back. -/
def reconnected : List WsKnownEvent :=
  [.hostStats ⟨5, [], 4096, some 6000⟩ 1, .stateFull ⟨.live, [delivering], 0, 0, none⟩]

/-- **What came in before a reconnect** is still drawn after it. -/
theorem ingest_survives_reconnect :
    (∀ data, WsKnownEvent.stateFull data ∈ reconnected →
      (data.targets.map (·.targetId)).Nodup) ∧
      ¬ page.Always Told (emptyLiveMetrics, none) reconnected := by
  refine ⟨?_, ?_⟩
  · intro data hmem
    simp only [reconnected, List.mem_cons, WsKnownEvent.stateFull.injEq, reduceCtorEq,
      List.not_mem_nil, or_false, false_or] at hmem
    subst hmem
    exact List.nodup_singleton _
  · intro h
    have htold := Machine.always_head ((h.2 _ rfl).2 _ rfl)
    have hingest := (htold.reset _ rfl trivial).ingest
    revert hingest
    decide

end LiveMetrics

end RestreamPlus
