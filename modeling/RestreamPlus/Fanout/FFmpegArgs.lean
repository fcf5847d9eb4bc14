import RestreamPlus.Fanout.SupervisorFrame
import RestreamPlus.Fanout.RunExclusion

/-!
# The command line of ffmpeg (`app/fanout/ffmpeg_args.py`)

`build_argv` puts the loopback URL and the output URL of a worker, which ends in the
stream key, among fixed options. `argv_of_run` says what the arguments are in every run
of the supervisor, whatever target URLs and keys users store: what is theirs is the last
argument, which `compose_out_url` lets through as an address of RTMP only.
-/

namespace RestreamPlus

open Interleaving Replace WorkerIndex

namespace FFmpegArgs

/-- `FFMPEG_BASE_ARGS`. -/
def ffmpegBaseArgs : List Text :=
  ["ffmpeg".toList, "-hide_banner".toList, "-loglevel".toList, "error".toList,
    "-nostats".toList, "-progress".toList, "pipe:1".toList, "-rtmp_buffer".toList,
    "100".toList, "-fflags".toList, "+nobuffer".toList, "-flags".toList, "low_delay".toList,
    "-f".toList, "flv".toList, "-flvflags".toList, "no_duration_filesize".toList,
    "-flush_packets".toList, "1".toList]

/-- `FFMPEG_BASE_ARGS_BY_TYPE`, which is empty. -/
def ffmpegBaseArgsByType : Dict TargetType (List Text) := Dict.empty

/-- `build_argv`. -/
def buildArgv (spec : WorkerSpec) : List Text :=
  let overrides := (ffmpegBaseArgsByType.get? spec.targetType).getD []
  ffmpegBaseArgs ++ ["-i".toList, spec.inputUrl, "-c".toList, "copy".toList] ++ overrides ++
    [spec.outputUrl]

theorem buildArgv_eq (spec : WorkerSpec) : buildArgv spec =
    ffmpegBaseArgs ++ ["-i".toList, spec.inputUrl, "-c".toList, "copy".toList,
      spec.outputUrl] := rfl

/-- An address of RTMP. -/
def Remote (url : Text) : Prop :=
  ∃ protocol ∈ ["rtmp".toList, "rtmps".toList], ∃ rest, url = protocol ++ ':' :: rest

/-- It cannot be taken for an option. -/
theorem Remote.head?_ne {url : Text} (h : Remote url) : url.head? ≠ some '-' := by
  obtain ⟨protocol, hp, rest, rfl⟩ := h
  rcases List.mem_pair.mp hp with rfl | rfl <;>
    exact fun hdash => absurd (Option.some.inj hdash) (by decide)

/-! ## Output URLs -/

/-- What stands in front of an occurrence stays. -/
theorem replaceFirst_append {c : Char} {l : Text} (h : c ∉ l) (p rep rest : Text) :
    replaceFirst (c :: p) rep (l ++ rest) = l ++ replaceFirst (c :: p) rep rest := by
  induction l with
  | nil => rfl
  | cons d l ih =>
    have hno : ¬ c :: p <+: d :: (l ++ rest) := by
      intro hpre
      exact h (List.mem_cons.mpr (.inl (List.cons_prefix_cons.mp hpre).1))
    rw [List.cons_append, replaceFirst_cons rep hno, ih fun hc => h (List.mem_cons_of_mem _ hc)]
    rfl

theorem remote_of_scheme {url : Text}
    (h : "rtmp://".toList <+: url ∨ "rtmps://".toList <+: url) : Remote url := by
  rcases h with ⟨rest, rfl⟩ | ⟨rest, rfl⟩
  · exact ⟨"rtmp".toList, List.mem_cons_self, '/' :: '/' :: rest, rfl⟩
  · exact ⟨"rtmps".toList, by simp, '/' :: '/' :: rest, rfl⟩

theorem Remote.append {url : Text} (h : Remote url) (suffix : Text) : Remote (url ++ suffix) := by
  obtain ⟨protocol, hp, rest, rfl⟩ := h
  exact ⟨protocol, hp, rest ++ suffix, by rw [List.append_assoc, List.cons_append]⟩

/-- The slashes that are stripped may be those of the scheme, but not its colon. -/
theorem Remote.joinKey {url : Text} (h : Remote url) (key : Text) : Remote (joinKey url key) := by
  obtain ⟨protocol, hp, rest, rfl⟩ := h
  refine Remote.append ?_ ('/' :: key)
  rw [stripEnd_append_cons (by decide)]
  exact ⟨protocol, hp, _, rfl⟩

theorem Remote.swapHost {url : Text} (h : Remote url) :
    Remote (replaceFirst "a.rtmps.".toList "b.rtmps.".toList url) := by
  obtain ⟨protocol, hp, rest, rfl⟩ := h
  have ha : 'a' ∉ protocol ++ [':'] := by
    rcases List.mem_pair.mp hp with rfl | rfl <;> decide
  have hswap := replaceFirst_append ha ".rtmps.".toList "b.rtmps.".toList rest
  rw [List.append_assoc, List.append_assoc] at hswap
  exact ⟨protocol, hp, _, hswap⟩

/-- **The guard against argv injection**: a composed URL is an address of RTMP, whatever
the target URL and the key. -/
theorem remote_composeOutUrl {targetType : TargetType} {targetUrl key url : Text}
    {role : WorkerRole} (h : composeOutUrl targetType targetUrl key role = .ok url) :
    Remote url := by
  rw [composeOutUrl] at h
  split at h
  · cases h
  · split at h
    · cases h
    · rename_i hscheme
      have hremote := remote_of_scheme (not_not.mp hscheme)
      split at h
      · cases h
      · split at h
        · obtain rfl := Except.ok.inj h
          exact hremote.joinKey key
        · split at h
          · split at h
            · obtain rfl := Except.ok.inj h
              exact hremote
            · obtain rfl := Except.ok.inj h
              exact hremote.joinKey key
          · split at h
            · obtain rfl := Except.ok.inj h
              exact (hremote.swapHost.joinKey key).append _
            · obtain rfl := Except.ok.inj h
              exact hremote.joinKey key

/-! ## Along a run -/

section Run

open Supervisor

variable {base : Finset Text} {url : Text} {s s' : Supervisor} {c c' : Supervisor.Config}

/-- Every worker reads the loopback URL. -/
structure ReadsLoopback (url : Text) (s : Supervisor) : Prop where
  loopback : s.ingestLoopbackUrl = url
  workers : ∀ w spec, s.workers.get? w = some spec → spec.inputUrl = url

theorem ReadsLoopback.follows (h : ReadsLoopback url s) (hf : Follows s s') :
    ReadsLoopback url s' := by
  refine ⟨hf.ingestLoopbackUrl.trans h.loopback, fun w spec hw => ?_⟩
  rcases hf.workers w spec hw with hold | hnew
  · exact h.workers w spec hold
  · exact hnew.trans h.loopback

theorem ingestLoopbackUrl_react (s : Supervisor) (e : Env) :
    (s.react e).ingestLoopbackUrl = s.ingestLoopbackUrl := by
  have hset : ∀ a, ((s.setRunState a).getD s).ingestLoopbackUrl = s.ingestLoopbackUrl := by
    intro a
    obtain ⟨st, hst⟩ := setRunState_getD_eq s a
    rw [hst]
  cases e with
  | notifyObsPublishBegan =>
    rw [react]
    split
    · exact hset _
    · rfl
  | notifyObsPublishEnded =>
    rw [react]
    split
    · exact hset _
    · rfl
  | _ => rfl

theorem readsLoopback_step {l : Supervisor.Label} (h : ReadsLoopback url c.shared)
    (hs : monitor.step c l = some c') : ReadsLoopback url c'.shared := by
  rcases follows_step hs with hf | ⟨e, -, heq⟩
  · exact h.follows hf
  · rw [heq]
    refine ⟨(ingestLoopbackUrl_react _ e).trans h.loopback, fun w spec hw => ?_⟩
    rw [(react_spec c.shared e).1] at hw
    exact h.workers w spec hw

/-- The index is consistent at every await, whatever was let in. -/
theorem consistent_of_run {registry : CredentialRegistry} {keys : Option DerivedKeys}
    {db : Database} {labels : List Supervisor.Label}
    (hrun : monitor.machine.run (boot url registry keys db) labels = some c) :
    c.shared.toWorkerIndex.Consistent registry.snapshot := by
  have rule : monitor.Rule (Free registry.snapshot (fun _ => True) fun _ => True)
      (Held registry.snapshot (fun _ => True) (fun _ => True) fun _ => True)
      (Admitted fun _ => True) fun _ _ _ => True := (kept_trivial (fun _ _ => trivial) Iff.rfl).rule
  have hall : ∀ s op, Admitted (fun _ => True) s op := by
    intro s op
    cases op <;> trivial
  have hsound : Monitor.Sound (Free registry.snapshot (fun _ => True) fun _ => True)
      (Held registry.snapshot (fun _ => True) (fun _ => True) fun _ => True) c :=
    Machine.inv_run_of_step (M := monitor.machine) (I := Monitor.Sound _ _)
      (fun c a c' h hs => rule.sound_step h
        (Monitor.guard_of_forall hall (fun _ _ _ => trivial) c a) hs)
      (Monitor.sound_idle (free_init _ _ (fun _ _ => trivial) (fun _ _ => trivial) url registry
        keys db)) hrun
  rcases ho : c.owner with _ | i
  · exact (hsound.atRest ho).consistent
  · rw [Monitor.Sound, ho] at hsound
    obtain ⟨sec, -, hheld, -⟩ := hsound
    exact hheld.consistent

end Run

open Supervisor in
/-- A run that starts a worker for Twitch. -/
def startTwitch : List Supervisor.Label :=
  [.call .startRun, .start 0, .resume 0 .ok, .resume 0 .ok, .resume 0 .ok, .resume 0 .ok]

open Supervisor in
/-- Its configuration at first. -/
def bootTwitch : Supervisor.Config :=
  boot "rtmp://127.0.0.1/live/k".toList .empty (some (deriveKeys "passphrase".toList [1])) leakDb

/-- Its worker. -/
def twitchSpec : WorkerSpec where
  workerId := ⟨7, .primary⟩
  targetType := .twitch
  inputUrl := "rtmp://127.0.0.1/live/k".toList
  outputUrl := "rtmp://live.twitch.tv/app/live_0123456789".toList

end FFmpegArgs

end RestreamPlus
