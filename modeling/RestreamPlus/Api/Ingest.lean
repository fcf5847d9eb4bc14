import RestreamPlus.Api.InternalRtmp
import RestreamPlus.Fanout.RunExclusion
import RestreamPlus.Fanout.SupervisorFrame

/-!
# The ingest server and the run (`app/main.py`, `app/api/internal_rtmp.py`)

One process after another: at boot the lifespan reads the ingest key once and
makes the URL the workers will read. `on_publish` reads the settings row each
time it is called, awaits that read, and then notifies the supervisor. The
supervisor counts no publishers: a publish that begins matters in ARMED only, and
any publish that ends is the last one.

nginx outlives the process, so a publisher stays connected across a boot.

* `workers_read_stream` — the workers read what OBS publishes, provided that a
  run becomes LIVE only through the key that was current at boot;
* `live_iff_publishing` — LIVE means that somebody publishes, provided that a
  START completes with nobody connected and only a lone publisher ends in LIVE.
-/

namespace RestreamPlus

open Interleaving

namespace Ingest

/-- `f"rtmp://127.0.0.1:1935/live/{ingest_key}"`. -/
def loopbackUrl (key : Text) : Text := "rtmp://127.0.0.1:1935/live/".toList ++ key

/-- The supervisor, the settings and the publishers of the ingest server. -/
structure System : Type where
  supervisor : Supervisor.Config
  settings : SettingsRow
  /-- the names `on_publish` has found right, the supervisor not being notified yet -/
  matched : List Text
  /-- the publishers that were accepted and are connected, by the name they use -/
  publishers : List Text
  /-- the name that was accepted when the run last became LIVE -/
  liveName : Option Text

/-- What happens next. -/
inductive Event : Type where
  /-- the process starts -/
  | boot (registry : CredentialRegistry) (keys : Option DerivedKeys)
  | rotateIngestKey (r : IngestKeyRotation)
  /-- `on_publish` reads the settings row -/
  | onPublish (name : Text)
  /-- … and is resumed: it notifies the supervisor and answers 200 -/
  | publishBegan (i : ℕ)
  /-- a connected publisher ends: `on_publish_done` -/
  | onPublishDone (i : ℕ)
  /-- any other step of the supervisor -/
  | supervise (l : Supervisor.Label)

/-- The notifications come from the webhooks only. -/
def IsNotification : Supervisor.Label → Prop
  | .external .notifyObsPublishBegan | .external .notifyObsPublishEnded => True
  | _ => False

instance (l : Supervisor.Label) : Decidable (IsNotification l) := by
  unfold IsNotification
  split <;> infer_instance

namespace System

/-- The attributes of the supervisor. -/
def shared (s : System) : Supervisor := s.supervisor.shared

/-- Code of the supervisor that takes no lock runs. -/
def react (s : System) (e : Supervisor.Env) : System :=
  { s with supervisor := { s.supervisor with shared := s.shared.react e } }

/-- The lifespan: interrupted sessions are recovered and the ingest key is read. -/
def boot (s : System) (registry : CredentialRegistry) (keys : Option DerivedKeys) : System :=
  { s with
    supervisor := Supervisor.boot (loopbackUrl s.settings.ingestKeyCurrent) registry keys
      s.shared.db.recoverInterruptedSessions
    matched := []
    liveName := none }

/-- `key_material.state`, as far as `on_publish` tells. -/
def keyMaterialState (s : System) : InternalRtmp.KeyMaterialState :=
  if s.shared.keyMaterial.isSome then .ready else .locked

/-- One event. -/
def step (s : System) : Event → Option System
  | .boot registry keys => some (s.boot registry keys)
  | .rotateIngestKey r => some { s with settings := s.settings.rotateIngestKey r }
  | .onPublish name =>
    if InternalRtmp.onPublish .loopback s.keyMaterialState s.settings name = .ok then
      some { s with matched := s.matched ++ [name] }
    else some s
  | .publishBegan i =>
    match s.matched[i]? with
    | none => none
    | some name =>
      some { s.react .notifyObsPublishBegan with
        matched := s.matched.eraseIdx i
        publishers := s.publishers ++ [name]
        liveName := if s.shared.runState = .armed then some name else s.liveName }
  | .onPublishDone i =>
    if i < s.publishers.length then
      some { s.react .notifyObsPublishEnded with publishers := s.publishers.eraseIdx i }
    else none
  | .supervise l =>
    if IsNotification l then none
    else (Supervisor.monitor.step s.supervisor l).map fun c => { s with supervisor := c }

/-- The ingest server and the run as a machine. -/
def machine : Machine System Event := ⟨step⟩

/-- The first boot, with nobody connected. -/
def start (settings : SettingsRow) (registry : CredentialRegistry) (keys : Option DerivedKeys)
    (db : Database) : System where
  supervisor := Supervisor.boot (loopbackUrl settings.ingestKeyCurrent) registry keys
    db.recoverInterruptedSessions
  settings := settings
  matched := []
  publishers := []
  liveName := none

end System

/-! ## What an event does -/

theorem react_began (s : Supervisor) :
    s.react .notifyObsPublishBegan =
      { s with runState := if s.runState = .armed then .live else s.runState } := by
  rw [Supervisor.react]
  split
  · rename_i h
    simp [Supervisor.setRunState, RunState.transition, h]
  · rfl

theorem react_ended (s : Supervisor) :
    s.react .notifyObsPublishEnded =
      { s with runState := if s.runState = .live then .armed else s.runState } := by
  rw [Supervisor.react]
  split
  · rename_i h
    simp [Supervisor.setRunState, RunState.transition, h]
  · rfl

theorem step_publishBegan {s s' : System} {i : ℕ} (h : s.step (.publishBegan i) = some s') :
    ∃ name, s.matched[i]? = some name ∧
      s'.shared = { s.shared with
        runState := if s.shared.runState = .armed then .live else s.shared.runState } ∧
      s'.publishers = s.publishers ++ [name] ∧
      s'.liveName = if s.shared.runState = .armed then some name else s.liveName := by
  rw [System.step] at h
  rcases hm : s.matched[i]? with _ | name <;> rw [hm] at h
  · cases h
  · obtain rfl := Option.some.inj h
    exact ⟨name, rfl, react_began s.shared, rfl, rfl⟩

theorem step_onPublishDone {s s' : System} {i : ℕ} (h : s.step (.onPublishDone i) = some s') :
    i < s.publishers.length ∧
      s'.shared = { s.shared with
        runState := if s.shared.runState = .live then .armed else s.shared.runState } ∧
      s'.publishers = s.publishers.eraseIdx i ∧ s'.liveName = s.liveName := by
  rw [System.step] at h
  split at h
  · rename_i hi
    obtain rfl := Option.some.inj h
    exact ⟨hi, react_ended s.shared, rfl, rfl⟩
  · cases h

theorem step_onPublish {s s' : System} {name : Text} (h : s.step (.onPublish name) = some s') :
    ∃ names, s' = { s with matched := names } := by
  rw [System.step] at h
  split at h
  · exact ⟨_, (Option.some.inj h).symm⟩
  · exact ⟨s.matched, (Option.some.inj h).symm⟩

theorem step_supervise {s s' : System} {l : Supervisor.Label} (h : s.step (.supervise l) = some s') :
    ∃ c, Supervisor.monitor.step s.supervisor l = some c ∧ ¬ IsNotification l ∧
      s' = { s with supervisor := c } := by
  rw [System.step] at h
  split at h
  · cases h
  · rename_i hl
    obtain ⟨c, hc, rfl⟩ := Option.map_eq_some_iff.mp h
    exact ⟨c, hc, hl, rfl⟩

/-- Without a notification the run does not become LIVE, and a new worker reads
the loopback URL of the supervisor. -/
theorem supervise_spec {c c' : Supervisor.Config} {l : Supervisor.Label}
    (hs : Supervisor.monitor.step c l = some c') (hl : ¬ IsNotification l) :
    c'.shared.ingestLoopbackUrl = c.shared.ingestLoopbackUrl ∧
      (c'.shared.runState = .live → c.shared.runState = .live) ∧
      ∀ w spec, c'.shared.workers.get? w = some spec →
        c.shared.workers.get? w = some spec ∨ spec.inputUrl = c.shared.ingestLoopbackUrl := by
  rcases Supervisor.follows_step hs with hf | ⟨e, rfl, heq⟩
  · exact ⟨hf.ingestLoopbackUrl, hf.live, hf.workers⟩
  · rw [heq]
    cases e with
    | notifyObsPublishBegan => exact absurd trivial hl
    | notifyObsPublishEnded => exact absurd trivial hl
    | resetTargetWorker w => exact ⟨rfl, fun h => h, fun _ _ hw => .inl hw⟩
    | commit db => exact ⟨rfl, fun h => h, fun _ _ hw => .inl hw⟩
    | setKeys keys => exact ⟨rfl, fun h => h, fun _ _ hw => .inl hw⟩
    | setSuperTg b => exact ⟨rfl, fun h => h, fun _ _ hw => .inl hw⟩

/-! ## The workers read what OBS publishes -/

/-- A LIVE run was made LIVE by a stream, and every worker reads that stream. -/
def WorkersReadStream (s : System) : Prop :=
  s.shared.runState = .live → ∃ name, s.liveName = some name ∧
    ∀ w spec, s.shared.workers.get? w = some spec → spec.inputUrl = loopbackUrl name

/-- The run becomes LIVE through the key that the boot read. -/
def LiveThroughBootKey (s : System) : Event → Prop
  | .publishBegan i => s.shared.runState = .armed →
      ∀ name ∈ s.matched[i]?, s.shared.ingestLoopbackUrl = loopbackUrl name
  | _ => True

instance (s : System) (e : Event) : Decidable (LiveThroughBootKey s e) := by
  unfold LiveThroughBootKey
  split <;> infer_instance

/-- Workers read the URL of the boot, and so does whoever made the run LIVE. -/
structure ReadsBootUrl (s : System) : Prop where
  workers : ∀ w spec, s.shared.workers.get? w = some spec →
    spec.inputUrl = s.shared.ingestLoopbackUrl
  live : s.shared.runState = .live → ∃ name, s.liveName = some name ∧
    s.shared.ingestLoopbackUrl = loopbackUrl name

/-- A process that has just booted. -/
theorem readsBootUrl_boot (s : System) (registry : CredentialRegistry) (keys : Option DerivedKeys) :
    ReadsBootUrl (s.boot registry keys) := by
  refine ⟨fun w spec hw => ?_, fun h => ?_⟩
  · cases hw
  · cases h

theorem readsBootUrl_start (settings : SettingsRow) (registry : CredentialRegistry)
    (keys : Option DerivedKeys) (db : Database) :
    ReadsBootUrl (System.start settings registry keys db) := by
  refine ⟨fun w spec hw => ?_, fun h => ?_⟩
  · cases hw
  · cases h

theorem ReadsBootUrl.step {s s' : System} {e : Event} (h : ReadsBootUrl s)
    (hok : LiveThroughBootKey s e) (hs : s.step e = some s') : ReadsBootUrl s' := by
  cases e with
  | boot registry keys =>
    obtain rfl := Option.some.inj hs
    exact readsBootUrl_boot s registry keys
  | rotateIngestKey r =>
    obtain rfl := Option.some.inj hs
    exact ⟨h.workers, h.live⟩
  | onPublish name =>
    obtain ⟨names, rfl⟩ := step_onPublish hs
    exact ⟨h.workers, h.live⟩
  | publishBegan i =>
    obtain ⟨name, hname, hshared, -, hlast⟩ := step_publishBegan hs
    refine ⟨?_, ?_⟩ <;> rw [hshared]
    · exact h.workers
    · rw [hlast]
      by_cases harmed : s.shared.runState = .armed
      · simpa [harmed] using hok harmed name hname
      · simpa [harmed] using h.live
  | onPublishDone i =>
    obtain ⟨-, hshared, -, hlast⟩ := step_onPublishDone hs
    refine ⟨?_, ?_⟩ <;> rw [hshared]
    · exact h.workers
    · rw [hlast]
      by_cases hlive : s.shared.runState = .live
      · simp [hlive]
      · simp [hlive]
  | supervise l =>
    obtain ⟨c, hc, hl, rfl⟩ := step_supervise hs
    obtain ⟨hurl, hlive, hworkers⟩ := supervise_spec hc hl
    refine ⟨fun w spec hw => ?_, fun hnow => ?_⟩
    · rcases hworkers w spec hw with hold | hnew
      · exact (h.workers w spec hold).trans hurl.symm
      · exact hnew.trans hurl.symm
    · obtain ⟨name, hname, heq⟩ := h.live (hlive hnow)
      exact ⟨name, hname, hurl.trans heq⟩

theorem ReadsBootUrl.workersReadStream {s : System} (h : ReadsBootUrl s) : WorkersReadStream s := by
  intro hlive
  obtain ⟨name, hname, heq⟩ := h.live hlive
  exact ⟨name, hname, fun w spec hw => (h.workers w spec hw).trans heq⟩

/-- **Workers read the stream OBS is publishing**, over every sequence of boots,
rotations, runs and webhooks in which a run becomes LIVE only through the key
that the running process read at its boot. -/
theorem workers_read_stream (settings : SettingsRow) (registry : CredentialRegistry)
    (keys : Option DerivedKeys) (db : Database) (events : List Event)
    (h : System.machine.Meets LiveThroughBootKey (System.start settings registry keys db) events) :
    System.machine.Always WorkersReadStream (System.start settings registry keys db) events := by
  refine Machine.always_of_inv (I := ReadsBootUrl) ?_ ?_ (readsBootUrl_start _ _ _ _) h
  · intro s e s' hi hok hs
    exact hi.step hok hs
  · intro s hi
    exact hi.workersReadStream

/-! ## LIVE means that OBS is publishing -/

/-- In ARMED and LIVE the state tells whether somebody publishes. -/
def LiveIffPublishing (s : System) : Prop :=
  s.shared.runState = .armed ∨ s.shared.runState = .live →
    (s.shared.runState = .live ↔ s.publishers ≠ [])

instance (s : System) : Decidable (LiveIffPublishing s) :=
  inferInstanceAs (Decidable (_ → _))

/-- Between two operations of the supervisor, no webhook being answered. -/
def Quiescent (s : System) : Prop :=
  s.supervisor.owner = none ∧ s.supervisor.queue = [] ∧ s.matched = []

/-- A START completes with nobody connected, and in LIVE only a lone publisher ends. -/
def CountsPublishers (s : System) : Event → Prop
  | .supervise l => ∀ c ∈ Supervisor.monitor.step s.supervisor l,
      s.shared.runState ≠ .armed → c.shared.runState = .armed → s.publishers = []
  | .onPublishDone _ => s.shared.runState = .live → s.publishers.length = 1
  | _ => True

instance (s : System) (e : Event) : Decidable (CountsPublishers s e) := by
  unfold CountsPublishers
  split <;> infer_instance

theorem LiveIffPublishing.step {s s' : System} {e : Event} (h : LiveIffPublishing s)
    (hok : CountsPublishers s e) (hs : s.step e = some s') : LiveIffPublishing s' := by
  cases e with
  | boot registry keys =>
    -- a fresh process is OFFLINE, whoever is connected
    obtain rfl := Option.some.inj hs
    rintro (hst | hst) <;> cases hst
  | rotateIngestKey r =>
    obtain rfl := Option.some.inj hs
    exact h
  | onPublish name =>
    obtain ⟨names, rfl⟩ := step_onPublish hs
    exact h
  | publishBegan i =>
    obtain ⟨name, -, hshared, hpub, -⟩ := step_publishBegan hs
    rw [LiveIffPublishing, hshared, hpub]
    by_cases harmed : s.shared.runState = .armed
    · simp [harmed]
    · simp [harmed]
  | onPublishDone i =>
    obtain ⟨hi, hshared, hpub, -⟩ := step_onPublishDone hs
    rw [LiveIffPublishing, hshared, hpub]
    by_cases hlive : s.shared.runState = .live
    · -- the lone publisher is the one that ends
      have hlen : s.publishers.length = 1 := hok hlive
      have hnone : s.publishers.eraseIdx i = [] := by
        apply List.eq_nil_of_length_eq_zero
        rw [List.length_eraseIdx_of_lt hi, hlen]
      simp [hlive, hnone]
    · -- in ARMED nobody is connected who could end
      rw [if_neg hlive]
      rintro (harmed | hlive')
      · have hnone : s.publishers = [] := by
          by_contra hsome
          exact hlive ((h (.inl harmed)).mpr hsome)
        rw [hnone] at hi
        cases hi
      · exact absurd hlive' hlive
  | supervise l =>
    obtain ⟨c, hc, hl, rfl⟩ := step_supervise hs
    obtain ⟨-, hlive, -⟩ := supervise_spec hc hl
    rintro (harmed | hnow)
    · have hnone : s.publishers = [] := by
        by_cases hold : s.shared.runState = .armed
        · by_contra hsome
          rw [(h (.inl hold)).mpr hsome] at hold
          cases hold
        · exact hok c hc hold harmed
      simp [System.shared, show c.shared.runState = .armed from harmed, hnone]
    · have hsome := (h (.inr (hlive hnow))).mp (hlive hnow)
      exact ⟨fun _ => hsome, fun _ => hnow⟩

/-- It is regained by no other step. -/
theorem countsPublishers_of_step {s s' : System} {e : Event} (h' : LiveIffPublishing s')
    (hs : s.step e = some s') : CountsPublishers s e := by
  cases e with
  | supervise l =>
    obtain ⟨c, hc, -, rfl⟩ := step_supervise hs
    intro c' hc' _ harmed
    obtain rfl : c = c' := Option.some.inj (hc.symm.trans hc')
    by_contra hsome
    have hlive := (h' (.inl harmed)).mpr hsome
    rw [System.shared, harmed] at hlive
    cases hlive
  | onPublishDone i =>
    obtain ⟨hi, hshared, hpub, -⟩ := step_onPublishDone hs
    intro hlive
    rw [LiveIffPublishing, hshared, hpub] at h'
    have hnone : s.publishers.eraseIdx i = [] := by
      by_contra hsome
      simpa [hlive] using (h' (.inl (if_pos hlive))).mpr hsome
    have hlen := congrArg List.length hnone
    rw [List.length_eraseIdx_of_lt hi, List.length_nil] at hlen
    omega
  | boot registry keys => trivial
  | rotateIngestKey r => trivial
  | onPublish name => trivial
  | publishBegan i => trivial

/-- **LIVE means that OBS is publishing**, in every state of exactly those runs in
which each START completes with nobody connected and each publisher that ends in
LIVE is the last one. -/
theorem live_iff_publishing (settings : SettingsRow) (registry : CredentialRegistry)
    (keys : Option DerivedKeys) (db : Database) (events : List Event)
    (hrun : (System.machine.run (System.start settings registry keys db) events).isSome) :
    System.machine.Always LiveIffPublishing (System.start settings registry keys db) events ↔
      System.machine.Meets CountsPublishers (System.start settings registry keys db) events := by
  refine Machine.always_iff_meets_of_run (I := LiveIffPublishing) ?_ (fun s hi => hi) ?_ ?_ hrun
  · intro s e s' hi hok hs
    exact hi.step hok hs
  · intro s e s' _ hno hs h'
    exact hno (countsPublishers_of_step h' hs)
  · rintro (hst | hst) <;> cases hst

/-! ## Runs that break them -/

section Runs

/-- The ingest key is `a`, one enabled target has a stream key, and the key
material is READY. -/
def firstBoot : System :=
  System.start (SettingsRow.seed ['a']) .empty
    (some (deriveKeys "passphrase".toList [1])) Supervisor.leakDb

/-- START with one worker to spawn. -/
def startEvents : List Event :=
  [.supervise (.call .startRun), .supervise (.start 0), .supervise (.resume 0 .ok),
    .supervise (.resume 0 .ok), .supervise (.resume 0 .ok), .supervise (.resume 0 .ok),
    .supervise (.resume 0 .ok), .supervise (.resume 0 .ok)]

/-- The key is rotated, and OBS publishes under this one. -/
def publishAfterRotation (name : Text) : List Event :=
  [.rotateIngestKey ⟨['b'], 1060, 1000⟩, .onPublish name, .publishBegan 0]

/-- OBS publishes under the new key, as the operator is told to: the run is LIVE
and the worker reads the old one. -/
theorem live_reads_other_stream :
    ∃ s, System.machine.run firstBoot (startEvents ++ publishAfterRotation ['b']) = some s ∧
      ¬ WorkersReadStream s := by
  refine ⟨_, rfl, fun h => ?_⟩
  obtain ⟨name, hname, hworkers⟩ := h rfl
  obtain rfl : ['b'] = name := Option.some.inj hname
  have hurl := hworkers ⟨7, .primary⟩ _ rfl
  revert hurl
  decide

/-- Under the old key the worker reads what OBS publishes. -/
theorem workers_read_stream_old_key :
    System.machine.Always WorkersReadStream firstBoot
      (startEvents ++ publishAfterRotation ['a']) :=
  workers_read_stream _ _ _ _ _ (by decide +kernel)

/-- OBS publishes before START: the run stays ARMED. -/
theorem armed_while_publishing :
    ∃ s, System.machine.run firstBoot ([.onPublish ['a'], .publishBegan 0] ++ startEvents) = some s ∧
      Quiescent s ∧ s.shared.runState = .armed ∧ ¬ LiveIffPublishing s := by
  refine ⟨_, rfl, ⟨rfl, rfl, rfl⟩, rfl, ?_⟩
  decide +kernel

/-- OBS publishes after START and ends. -/
theorem live_iff_publishing_in_turn :
    System.machine.Always LiveIffPublishing firstBoot
      (startEvents ++ [.onPublish ['a'], .publishBegan 0, .onPublishDone 0]) :=
  (live_iff_publishing _ _ _ _ _ (by decide +kernel)).mpr (by decide +kernel)

end Runs

end Ingest

end RestreamPlus
