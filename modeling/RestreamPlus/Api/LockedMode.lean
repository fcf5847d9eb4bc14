import RestreamPlus.Api.Unlock

/-!
# Locked mode (`app/api/middleware.py`, `app/main.py`)

`LockedModeMiddleware` stands before the router and looks at the path in the URL of a request
and at the state of the key material. As long as nobody has unlocked the process, only the
endpoints that have to answer then are reached, whatever path is asked for; every other request
is told that the service is locked or being unlocked. Connections of `/ws` do not pass it.

The URL is put together by the framework from the `Host` header and the path that the router
sees; it is a parameter here.

`locked_mode` is about whole runs of unlock attempts and restarts: the gate opens with the first
derivation that is carried through and never closes again in that process.
-/

namespace RestreamPlus.LockedMode

open Interleaving Api

/-! ## The middleware -/

/-- `DEFAULT_ALLOWLIST`. -/
def defaultAllowlist : List Text :=
  ["/api/unlock".toList, "/livez".toList, "/readyz".toList, "/healthz".toList,
    "/internal/rtmp/".toList]

/-- `STATIC_PATH_PREFIXES`. -/
def staticPathPrefixes : List Text := ["/assets/".toList, "/static/".toList]

/-- `_is_static_root`. -/
def isStaticRoot (path : Text) : Bool := path = "/".toList || path = "/index.html".toList

/-- One entry of the loop in `_is_allowlisted`. -/
def allows (path entry : Text) : Bool :=
  path = Replace.stripEnd '/' entry ||
    (if ['/'].isSuffixOf entry then entry.isPrefixOf path else (entry ++ ['/']).isPrefixOf path)

/-- `_is_allowlisted`. -/
def isAllowlisted (path : Text) (allowlist : List Text) : Bool := allowlist.any (allows path)

/-- The paths that are let through in every state. -/
def bypasses (path : Text) : Bool :=
  isStaticRoot path || isAllowlisted path defaultAllowlist ||
    staticPathPrefixes.any (·.isPrefixOf path)

/-- A 503, with its detail and `Retry-After`. -/
structure Unavailable : Type where
  detail : String
  retryAfter : Option ℕ
  deriving DecidableEq

/-- `RETRY_AFTER_LOCKED_SECONDS`. -/
def retryAfterLockedSeconds : ℕ := 2

def serviceLocked : Unavailable := ⟨"service_locked", none⟩

def serviceUnlocking : Unavailable := ⟨"service_unlocking", some retryAfterLockedSeconds⟩

/-- `LockedModeMiddleware.dispatch`, up to `call_next`. -/
def dispatch (state : KeyMaterialState) (path : Text) : Except Unavailable Unit :=
  if bypasses path then .ok ()
  else match state with
    | .ready => .ok ()
    | .unlocking => .error serviceUnlocking
    | .locked => .error serviceLocked

/-- `require_unlocked_keys`. -/
def requireUnlockedKeys (state : KeyMaterialState) (keys : Option DerivedKeys) :
    Except Unavailable DerivedKeys :=
  match state, keys with
  | .unlocking, _ => .error serviceUnlocking
  | .ready, some keys => .ok keys
  -- `require_ready` raises
  | .ready, none | .locked, _ => .error serviceLocked

/-! ## The routes -/

/-- What answers a request. -/
inductive Endpoint : Type where
  | login | me | logout | logoutAll | changePassword | reprompt
  | unlock
  | listTargets | createTarget | getTarget | updateTarget | deleteTarget
  | setCredential | revealCredential | clearCredential | resetTargetWorker
  | runState | startRun | stopRun
  | getSettings | updateSettings | rotateIngestKey | revealIngestKey
  | listTokens | createToken | revokeToken
  | runHistory
  | onPublish | onPublishDone
  | rotatePassphrase | listHttpSessions | revokeHttpSession
  | about
  | livez | readyz | healthz
  /-- the schema and the pages that come with the framework -/
  | docs
  | spaFallback
  deriving DecidableEq

/-- What is asked for in a request to an endpoint: its route, up to the first parameter. -/
def routes : List (Text × Endpoint) :=
  [("/api/auth/login".toList, .login), ("/api/auth/me".toList, .me),
    ("/api/auth/logout".toList, .logout), ("/api/auth/logout-all".toList, .logoutAll),
    ("/api/auth/change-password".toList, .changePassword), ("/api/auth/reprompt".toList, .reprompt),
    ("/api/unlock".toList, .unlock),
    ("/api/targets".toList, .listTargets), ("/api/targets".toList, .createTarget),
    ("/api/targets/".toList, .getTarget), ("/api/targets/".toList, .updateTarget),
    ("/api/targets/".toList, .deleteTarget), ("/api/targets/".toList, .setCredential),
    ("/api/targets/".toList, .revealCredential), ("/api/targets/".toList, .clearCredential),
    ("/api/targets/".toList, .resetTargetWorker),
    ("/api/run/state".toList, .runState), ("/api/run/start".toList, .startRun),
    ("/api/run/stop".toList, .stopRun),
    ("/api/settings".toList, .getSettings), ("/api/settings".toList, .updateSettings),
    ("/api/settings/rotate-ingest-key".toList, .rotateIngestKey),
    ("/api/settings/reveal-ingest-key".toList, .revealIngestKey),
    ("/api/security/tokens".toList, .listTokens), ("/api/security/tokens".toList, .createToken),
    ("/api/security/tokens/".toList, .revokeToken),
    ("/api/sessions".toList, .runHistory),
    ("/internal/rtmp/publish".toList, .onPublish),
    ("/internal/rtmp/publish_done".toList, .onPublishDone),
    ("/api/security/rotate-passphrase".toList, .rotatePassphrase),
    ("/api/security/sessions".toList, .listHttpSessions),
    ("/api/security/sessions/".toList, .revokeHttpSession),
    ("/api/about".toList, .about),
    ("/livez".toList, .livez), ("/readyz".toList, .readyz), ("/healthz".toList, .healthz),
    ("/docs".toList, .docs), ("/openapi.json".toList, .docs), ("/redoc".toList, .docs),
    ("/".toList, .spaFallback)]

/-- The endpoints that answer in locked mode: the way out of it, the probes, the webhooks
of the media server, and the page. -/
def opened : List Endpoint :=
  [.unlock, .livez, .readyz, .healthz, .onPublish, .onPublishDone, .spaFallback]

/-- A request over HTTP: its `Host` header, and the path for the router. -/
structure Request : Type where
  host : Text
  path : Text

/-- The router of the framework: what it chooses has a route that fits the path. -/
structure Router : Type where
  route : Text → Option Endpoint
  fits : ∀ path e, route path = some e → ∃ literal, (literal, e) ∈ routes ∧ literal <+: path

/-- What becomes of a request. -/
inductive Answer : Type where
  | unavailable (u : Unavailable)
  /-- no route fits -/
  | notFound
  | reached (e : Endpoint)
  deriving DecidableEq

/-- What the router does with a request. -/
def Router.answer (r : Router) (path : Text) : Answer :=
  match r.route path with
  | none => .notFound
  | some e => .reached e

/-- A request, through the middleware to the router; `urlPath` is `request.url.path`. -/
def serve (urlPath : Request → Text) (r : Router) (state : KeyMaterialState) (q : Request) :
    Answer :=
  match dispatch state (urlPath q) with
  | .error u => .unavailable u
  | .ok () => r.answer q.path

example : dispatch .locked "/livez/x".toList = .ok () := by decide
example : dispatch .locked "/livezx".toList = .error serviceLocked := by decide

/-! ## What a path lets through -/

variable {urlPath : Request → Text} {r : Router} {q : Request} {path literal entry : Text}
  {e : Endpoint}

/-- A literal without the characters that a URL is taken apart at. -/
def Plain (literal : Text) : Prop := ∀ c ∈ literal, c ∉ ['\t', '\n', '\r', '?', '#']

instance : DecidablePred Plain := fun literal => List.decidableBAll _ literal

/-- A name or an address in dotted decimals, with a port or without. A header such as
`x/livez?`, which puts a path of its own into the URL, is none. -/
def HostLike (host : Text) : Prop := ∀ c ∈ host, c.isAlphanum ∨ c ∈ ['.', '-', '_', ':']

instance : DecidablePred HostLike := fun host => List.decidableBAll _ host

/-- What is relied on of the framework: behind such a host, the path in the URL begins as the
path for the router does, up to a character that a URL is taken apart at. -/
def KeepsPath (urlPath : Request → Text) : Prop :=
  ∀ q literal, HostLike q.host → Plain ('/' :: literal) → '/' :: literal <+: q.path →
    '/' :: literal <+: urlPath q

/-- What the paths begin with that are let through, but for the root. -/
def openPrefixes : List Text :=
  "/index.html".toList :: defaultAllowlist.map (Replace.stripEnd '/') ++ staticPathPrefixes

theorem stripEnd_isPrefix (entry : Text) : Replace.stripEnd '/' entry <+: entry := by
  rw [Replace.stripEnd, ← List.reverse_suffix, List.reverse_reverse]
  exact List.dropWhile_suffix _

theorem prefix_of_allows (h : allows path entry = true) :
    Replace.stripEnd '/' entry <+: path := by
  rw [allows, Bool.or_eq_true] at h
  rcases h with h | h
  · rw [of_decide_eq_true h]
  · refine (stripEnd_isPrefix entry).trans ?_
    split at h
    · exact List.isPrefixOf_iff_prefix.mp h
    · exact (List.prefix_append entry ['/']).trans (List.isPrefixOf_iff_prefix.mp h)

theorem prefix_of_bypasses (h : bypasses path = true) :
    path = "/".toList ∨ ∃ p ∈ openPrefixes, p <+: path := by
  rw [bypasses, isStaticRoot, Bool.or_eq_true, Bool.or_eq_true, Bool.or_eq_true] at h
  rcases h with ((h | h) | h) | h
  · exact .inl (of_decide_eq_true h)
  · refine .inr ⟨_, List.mem_cons_self, ?_⟩
    rw [of_decide_eq_true h]
  · obtain ⟨entry, hentry, hallows⟩ := List.any_eq_true.mp h
    exact .inr ⟨_, List.mem_cons_of_mem _ (List.mem_append_left _ (List.mem_map_of_mem hentry)),
      prefix_of_allows hallows⟩
  · obtain ⟨p, hp, hstart⟩ := List.any_eq_true.mp h
    exact .inr ⟨p, List.mem_cons_of_mem _ (List.mem_append_right _ hp),
      List.isPrefixOf_iff_prefix.mp hstart⟩

/-- No path begins with this and with what is let through. -/
def Shut (literal : Text) : Prop :=
  ¬ literal <+: "/".toList ∧ ∀ p ∈ openPrefixes, ¬ literal <+: p ∧ ¬ p <+: literal

instance : DecidablePred Shut := fun _ => inferInstanceAs (Decidable (_ ∧ ∀ _ ∈ _, _))

theorem not_bypasses_of_shut (h : Shut literal) (hstart : literal <+: path) :
    bypasses path = false := by
  rw [← Bool.not_eq_true]
  intro hpath
  rcases prefix_of_bypasses hpath with rfl | ⟨p, hp, hpre⟩
  · exact h.1 hstart
  · rcases List.prefix_or_prefix_of_prefix hstart hpre with hle | hle
    · exact (h.2 p hp).1 hle
    · exact (h.2 p hp).2 hle

theorem shut_routes : ∀ route ∈ routes, route.2 ∉ opened → Shut route.1 := by decide +kernel

theorem plain_routes : ∀ route ∈ routes, route.1.head? = some '/' ∧ Plain route.1 := by
  decide +kernel

/-- **No path gets past the middleware to another endpoint.** -/
theorem not_bypasses_of_route (hurl : KeepsPath urlPath) (hhost : HostLike q.host)
    (hroute : r.route q.path = some e) (he : e ∉ opened) : bypasses (urlPath q) = false := by
  obtain ⟨literal, hmem, hstart⟩ := r.fits q.path e hroute
  obtain ⟨hslash, hplain⟩ := plain_routes _ hmem
  obtain ⟨rest, rfl⟩ := List.head?_eq_some_iff.mp hslash
  exact not_bypasses_of_shut (shut_routes _ hmem he) (hurl q rest hhost hplain hstart)

/-! ## The state of the gate -/

/-- Some derivation was carried through since the process started. -/
def unlockedBy (unlocked : Bool) : UnlockDesk.Label → Bool
  | .derived _ .done => true
  | .restart env => env.isSome
  | _ => unlocked

/-- The process of the last of these labels is unlocked. -/
def unlocked (labels : List UnlockDesk.Label) : Bool := labels.foldl unlockedBy false

/-- Attempt `i` has the passphrase in another thread. -/
def Derives (c : UnlockDesk) (i : ℕ) : Prop :=
  ∃ a : UnlockAttempt, c.attempts[i]? = some a ∧ a.phase = .deriving

/-- **The key material and the lock around it.** -/
structure Latched (c : UnlockDesk) (unlocked : Bool) : Prop where
  ready : c.state = .ready ↔ unlocked = true
  keys : unlocked = true → c.keys.isSome = true
  unlocking : c.state = .unlocking ↔ c.owner ≠ none
  held : ∀ i, Derives c i → c.owner = some i

variable {normalize : Text → Text} {c c' : UnlockDesk} {u : Bool}

theorem latched_boot (kdfSalt : Bytes) (db : Database) (now : ℚ) :
    Latched (UnlockDesk.boot kdfSalt db now) false where
  ready := iff_of_false (by rintro ⟨⟩) Bool.false_ne_true
  keys := by rintro ⟨⟩
  unlocking := iff_of_false (by rintro ⟨⟩) fun h => h rfl
  held := by rintro i ⟨a, ⟨⟩, -⟩

theorem latched_restart (c : UnlockDesk) (env : Option Text) :
    Latched (c.restart env) env.isSome := by
  cases env with
  | none => exact latched_boot _ _ _
  | some passphrase =>
    exact ⟨iff_of_true rfl rfl, fun _ => rfl, iff_of_false (by rintro ⟨⟩) fun h => h rfl,
      by rintro i ⟨a, ⟨⟩, -⟩⟩

/-- The key material is as it was, and so is the lock. -/
theorem Latched.congr (h : Latched c u) (hstate : c'.state = c.state) (hkeys : c'.keys = c.keys)
    (howner : c'.owner = c.owner) (hheld : ∀ i, Derives c' i → Derives c i) : Latched c' u where
  ready := by rw [hstate, h.ready]
  keys := by
    rw [hkeys]
    exact h.keys
  unlocking := by rw [hstate, howner, h.unlocking]
  held i hi := by
    rw [howner]
    exact h.held i (hheld i hi)

/-- A new attempt. -/
theorem derives_add {passphrase ip : Text} {phase : UnlockPhase} {i : ℕ}
    (h : Derives (c.add passphrase ip phase) i) :
    Derives c i ∨ i = c.attempts.length ∧ phase = .deriving := by
  obtain ⟨a, ha, hphase⟩ := h
  rw [UnlockDesk.add, List.getElem?_append] at ha
  split at ha
  · exact .inl ⟨a, ha, hphase⟩
  · have hlt : i - c.attempts.length < 1 := by
      simpa using (List.getElem?_eq_some_iff.mp ha).1
    have hi : i = c.attempts.length := by omega
    subst hi
    rw [Nat.sub_self] at ha
    obtain rfl := Option.some.inj ha
    exact .inr ⟨rfl, hphase⟩

/-- An attempt that moved on. -/
theorem derives_moveTo {i j : ℕ} {a : UnlockAttempt} {phase : UnlockPhase}
    (h : Derives (c.moveTo i a phase) j) :
    Derives c j ∧ j ≠ i ∨ j = i ∧ phase = .deriving := by
  obtain ⟨b, hb, hphase⟩ := h
  rw [UnlockDesk.moveTo, List.getElem?_set] at hb
  split at hb
  · rename_i hij
    split at hb
    · obtain rfl := Option.some.inj hb
      exact .inr ⟨hij.symm, hphase⟩
    · cases hb
  · rename_i hij
    exact .inl ⟨⟨b, hb, hphase⟩, Ne.symm hij⟩

/-- Without an owner nobody derives. -/
theorem Latched.not_derives (h : Latched c u) (howner : c.owner = none) (i : ℕ) :
    ¬ Derives c i := by
  intro hi
  have howner' := h.held i hi
  rw [howner] at howner'
  cases howner'

/-- An attempt begins to derive. -/
theorem Latched.begin (h : Latched c u) (hready : c.state ≠ .ready) {i : ℕ}
    (hstate : c'.state = .unlocking) (hkeys : c'.keys = c.keys) (howner : c'.owner = some i)
    (hheld : ∀ j, Derives c' j → j = i) : Latched c' u where
  ready := iff_of_false (by rw [hstate]; rintro ⟨⟩) fun hu => hready (h.ready.mpr hu)
  keys := by
    rw [hkeys]
    exact h.keys
  unlocking := iff_of_true hstate (by rw [howner]; exact Option.some_ne_none i)
  held j hj := by rw [howner, hheld j hj]

theorem Latched.add (h : Latched c u) (passphrase ip : Text) {phase : UnlockPhase}
    (hphase : phase ≠ .deriving) : Latched (c.add passphrase ip phase) u := by
  refine h.congr rfl rfl rfl fun i hi => ?_
  rcases derives_add hi with hi | ⟨-, hnew⟩
  · exact hi
  · exact absurd hnew hphase

theorem Latched.unlock (h : Latched c u) (passphrase ip : Text) :
    Latched (c.unlock normalize passphrase ip) u := by
  rw [UnlockDesk.unlock]
  dsimp only
  have hlimiter : ∀ limiter, Latched { c with limiter := limiter } u :=
    fun limiter => h.congr rfl rfl rfl fun i hi => hi
  split
  · exact (hlimiter _).add passphrase ip (by rintro ⟨⟩)
  · split
    · exact (hlimiter _).add passphrase ip (by rintro ⟨⟩)
    · rename_i hready
      split
      · rename_i hfree
        refine (hlimiter _).begin (i := c.attempts.length) hready rfl rfl rfl fun j hj => ?_
        rcases derives_add (c := { c with limiter := _ }) hj with hj | ⟨hj, -⟩
        · exact absurd hj (h.not_derives hfree.1 j)
        · exact hj
      · have hne : UnlockPhase.queued ≠ .deriving := by rintro ⟨⟩
        have hqueued := (hlimiter (c.limiter.check normalize c.now ip UnlockDesk.sentinel).1).add
          passphrase ip hne
        exact hqueued.congr rfl rfl rfl fun i hi => hi

theorem Latched.grant (h : Latched c u) (howner : c.owner = none) (i : ℕ) (a : UnlockAttempt) :
    Latched (c.grant i a) u := by
  rw [UnlockDesk.grant]
  split
  · refine h.congr rfl rfl rfl fun j hj => ?_
    rcases derives_moveTo hj with ⟨hj, -⟩ | ⟨-, ⟨⟩⟩
    exact hj
  · rename_i hready
    refine h.begin hready rfl rfl rfl fun j hj => ?_
    rcases derives_moveTo hj with ⟨hj, -⟩ | ⟨hj, -⟩
    · exact absurd hj (h.not_derives howner j)
    · exact hj

theorem Latched.derived (h : Latched c u) {i : ℕ} {a : UnlockAttempt} (out : Derivation)
    (ha : c.attempts[i]? = some a) (hphase : a.phase = .deriving) :
    Latched (c.derived normalize i a out) (unlockedBy u (.derived i out)) := by
  have howner := h.held i ⟨a, ha, hphase⟩
  have hstate : c.state = .unlocking :=
    h.unlocking.mpr (by rw [howner]; exact Option.some_ne_none i)
  have hnobody : ∀ answer j, ¬ Derives (c.moveTo i a (.answered answer)) j := by
    intro answer j hj
    rcases derives_moveTo hj with ⟨hj, hne⟩ | ⟨-, ⟨⟩⟩
    have hsame := h.held j hj
    rw [howner] at hsame
    exact hne (Option.some.inj hsame).symm
  cases out with
  | done =>
    exact ⟨iff_of_true rfl rfl, fun _ => rfl, iff_of_false (by rintro ⟨⟩) fun h => h rfl,
      fun j hj => absurd hj (hnobody .ready j)⟩
  | raised =>
    -- the process was not ready, or nobody would derive
    have hlocked : u ≠ true := by
      intro hu
      have hready := h.ready.mpr hu
      rw [hstate] at hready
      cases hready
    exact ⟨iff_of_false (by rintro ⟨⟩) hlocked, h.keys, iff_of_false (by rintro ⟨⟩) fun h => h rfl,
      fun j hj => absurd hj (hnobody .unlockFailed j)⟩

/-- **One step.** -/
theorem Latched.step {l : UnlockDesk.Label} (h : Latched c u)
    (hs : c.step normalize l = some c') : Latched c' (unlockedBy u l) := by
  cases l with
  | clock now =>
    rw [UnlockDesk.step] at hs
    split at hs <;> cases hs
    exact h.congr rfl rfl rfl fun _ hi => hi
  | unlock passphrase ip =>
    rw [UnlockDesk.step] at hs
    split at hs <;> cases hs
    exact h.unlock passphrase ip
  | grant =>
    rw [UnlockDesk.step] at hs
    split at hs
    · rename_i i rest howner hqueue
      have hrest : Latched { c with queue := rest } u := h.congr rfl rfl rfl fun _ hi => hi
      split at hs <;> cases hs
      exact hrest.grant howner i _
    · cases hs
  | derived i out =>
    obtain ⟨a, ha, hphase, rfl⟩ := UnlockDesk.step_derived hs
    exact h.derived out ha hphase
  | setCredential id body =>
    rw [UnlockDesk.step] at hs
    split at hs <;> cases hs
    rw [UnlockDesk.setCredential]
    split
    · exact h.congr rfl rfl rfl fun _ hi => hi
    · exact h
  | commit j =>
    rw [UnlockDesk.step] at hs
    rcases hj : c.writes[j]? with _ | ⟨id, row⟩ <;> simp only [hj] at hs <;> cases hs
    exact h.congr rfl rfl rfl fun _ hi => hi
  | restart env =>
    obtain ⟨-, rfl⟩ := UnlockDesk.step_restart hs
    exact latched_restart c env

/-- A run. -/
theorem Latched.run {labels : List UnlockDesk.Label} (h : Latched c u)
    (hr : (UnlockDesk.machine normalize).run c labels = some c') :
    Latched c' (labels.foldl unlockedBy u) := by
  induction labels generalizing c u with
  | nil =>
    obtain rfl := Option.some.inj hr
    exact h
  | cons l labels ih =>
    obtain ⟨c₁, hs, hr⟩ := Option.bind_eq_some_iff.mp hr
    exact ih (h.step hs) hr

/-! ## The gate over a run -/

/-- What is answered while the process is locked. -/
def lockedAnswer (c : UnlockDesk) : Unavailable :=
  if c.owner = none then serviceLocked else serviceUnlocking

theorem dispatch_ready (path : Text) : dispatch .ready path = .ok () := by
  rw [dispatch]
  split <;> rfl

theorem state_of_not_ready (h : Latched c u) (hready : c.state ≠ .ready) :
    c.owner = none ∧ c.state = .locked ∨ c.owner ≠ none ∧ c.state = .unlocking := by
  by_cases howner : c.owner = none
  · rcases hstate : c.state with _ | _ | _
    · exact .inl ⟨howner, rfl⟩
    · exact absurd howner (h.unlocking.mp hstate)
    · exact absurd hstate hready
  · exact .inr ⟨howner, h.unlocking.mpr howner⟩

theorem requireUnlockedKeys_of_not_ready (h : Latched c u) (hready : c.state ≠ .ready) :
    requireUnlockedKeys c.state c.keys = .error (lockedAnswer c) := by
  rcases state_of_not_ready h hready with ⟨howner, hstate⟩ | ⟨howner, hstate⟩
  · rw [hstate, lockedAnswer, if_pos howner]
    rfl
  · rw [hstate, lockedAnswer, if_neg howner]
    rfl

theorem serve_of_not_ready (h : Latched c u) (hready : c.state ≠ .ready) :
    serve urlPath r c.state q =
      if bypasses (urlPath q) then r.answer q.path else .unavailable (lockedAnswer c) := by
  rw [serve, dispatch.eq_def]
  by_cases hbypasses : bypasses (urlPath q) = true
  · rw [if_pos hbypasses, if_pos hbypasses]
  · rw [if_neg hbypasses, if_neg hbypasses]
    rcases state_of_not_ready h hready with ⟨howner, hstate⟩ | ⟨howner, hstate⟩
    · rw [hstate, lockedAnswer, if_pos howner]
    · rw [hstate, lockedAnswer, if_neg howner]

/-- **Locked mode**, after any unlock attempts and restarts: an unlocked process serves every
request and has the keys for it; a locked one lets a request to a host through to the open
endpoints at most, and keeps no other one waiting. -/
theorem locked_mode (urlPath : Request → Text) (normalize : Text → Text) (r : Router)
    (kdfSalt : Bytes) (db : Database) (now : ℚ) (labels : List UnlockDesk.Label) (c : UnlockDesk)
    (hr : (UnlockDesk.machine normalize).run (.boot kdfSalt db now) labels = some c)
    (q : Request) :
    (unlocked labels = true → serve urlPath r c.state q = r.answer q.path ∧
      ∃ keys, requireUnlockedKeys c.state c.keys = .ok keys) ∧
    (unlocked labels = false →
      serve urlPath r c.state q =
        (if bypasses (urlPath q) then r.answer q.path else .unavailable (lockedAnswer c)) ∧
      (KeepsPath urlPath → HostLike q.host →
        ∀ e, serve urlPath r c.state q = .reached e → e ∈ opened) ∧
      requireUnlockedKeys c.state c.keys = .error (lockedAnswer c)) := by
  have h := (latched_boot kdfSalt db now).run hr
  constructor
  · intro hu
    have hready := h.ready.mpr hu
    obtain ⟨keys, hkeys⟩ := Option.isSome_iff_exists.mp (h.keys hu)
    refine ⟨?_, keys, by rw [hready, hkeys]; rfl⟩
    rw [serve, hready, dispatch_ready]
  · intro hu
    have hready : c.state ≠ .ready := fun hready => by
      rw [unlocked, h.ready.mp hready] at hu
      cases hu
    have hserve : serve urlPath r c.state q =
        if bypasses (urlPath q) then r.answer q.path else .unavailable (lockedAnswer c) :=
      serve_of_not_ready h hready
    refine ⟨hserve, fun hurl hhost e he => ?_, requireUnlockedKeys_of_not_ready h hready⟩
    by_contra hopened
    rw [hserve] at he
    split at he
    · rename_i hbypasses
      rw [Router.answer] at he
      split at he
      · cases he
      · rename_i e' hroute
        cases he
        rw [not_bypasses_of_route hurl hhost hroute hopened] at hbypasses
        cases hbypasses
    · cases he

/-- Two of the routes. -/
def stateRoute (path : Text) : Option Endpoint :=
  if path = "/api/run/state".toList then some .runState
  else if path = "/api/unlock".toList then some .unlock
  else none

theorem stateRoute_fits (path : Text) (e : Endpoint) (h : stateRoute path = some e) :
    ∃ literal, (literal, e) ∈ routes ∧ literal <+: path := by
  refine ⟨path, ?_, List.prefix_rfl⟩
  rw [stateRoute] at h
  split at h
  · rename_i hpath
    obtain rfl := Option.some.inj h
    rw [hpath]
    decide +kernel
  · split at h
    · rename_i hpath
      obtain rfl := Option.some.inj h
      rw [hpath]
      decide +kernel
    · cases h

/-- A router that knows only these. -/
def stateRouter : Router := ⟨stateRoute, stateRoute_fits⟩

/-- One attempt that is carried through. -/
def oneAttempt : List UnlockDesk.Label := [.unlock "open".toList "::1".toList, .derived 0 .done]

/-- The path in a URL of the host and the path, as the standard library takes it apart. -/
def pathOfUrl (q : Request) : Text :=
  (((q.host ++ q.path).filter fun c => c ∉ ['\t', '\n', '\r']).dropWhile
    fun c => c ∉ ['/', '?', '#']).takeWhile fun c => c ∉ ['?', '#']

example : pathOfUrl ⟨"x/livez?".toList, "/api/run/state".toList⟩ = "/livez".toList :=
  by decide +kernel

theorem HostLike.not_mem {host : Text} (h : HostLike host) :
    ∀ c ∈ host, c ∉ ['\t', '\n', '\r', '/', '?', '#'] := by
  intro c hc hmem
  simp only [List.mem_cons, List.not_mem_nil, or_false] at hmem
  rcases hmem with rfl | rfl | rfl | rfl | rfl | rfl <;> exact absurd (h _ hc) (by decide)

theorem keepsPath_pathOfUrl : KeepsPath pathOfUrl := by
  rintro ⟨host, path⟩ literal hhost hplain ⟨rest, rfl⟩
  have hkept : ∀ l : Text, (∀ c ∈ l, c ∉ ['\t', '\n', '\r']) →
      l.filter (fun c => c ∉ ['\t', '\n', '\r']) = l := fun l hl =>
    List.filter_eq_self.mpr fun c hc => decide_eq_true (hl c hc)
  have hhostKept := hkept host fun c hc hmem =>
    hhost.not_mem c hc (List.mem_append_left ['/', '?', '#'] hmem)
  have hpathKept := hkept ('/' :: literal) fun c hc hmem =>
    hplain c hc (List.mem_append_left ['?', '#'] hmem)
  have hhostGone : ∀ c ∈ host, decide (c ∉ ['/', '?', '#']) = true := fun c hc =>
    decide_eq_true fun hmem =>
      hhost.not_mem c hc (List.mem_append_right ['\t', '\n', '\r'] hmem)
  have hpathTaken : ∀ c ∈ '/' :: literal, decide (c ∉ ['?', '#']) = true := fun c hc =>
    decide_eq_true fun hmem => hplain c hc (List.mem_append_right ['\t', '\n', '\r'] hmem)
  rw [pathOfUrl, List.filter_append, List.filter_append, hhostKept, hpathKept,
    List.dropWhile_append_of_pos hhostGone, List.cons_append, List.dropWhile_cons_of_neg (by decide),
    ← List.cons_append, List.takeWhile_append_of_pos hpathTaken]
  exact List.prefix_append _ _

/-- A request for the state of the run. -/
def stateRequest : Request := ⟨"localhost:8000".toList, "/api/run/state".toList⟩

/-- It is reached after one attempt, and not before. -/
theorem locked_mode_oneAttempt :
    (∃ c, (UnlockDesk.machine id).run (.boot [] Database.empty 0) oneAttempt = some c ∧
      serve pathOfUrl stateRouter c.state stateRequest = .reached .runState) ∧
    serve pathOfUrl stateRouter .locked stateRequest ≠ .reached .runState := by
  obtain ⟨c, hc⟩ : ∃ c, (UnlockDesk.machine id).run (.boot [] Database.empty 0) oneAttempt =
      some c := Option.isSome_iff_exists.mp (by decide +kernel)
  have hserve := (locked_mode pathOfUrl id stateRouter [] Database.empty 0 oneAttempt c hc
    stateRequest).1 rfl
  have hlocked := (locked_mode pathOfUrl id stateRouter [] Database.empty 0 [] _ rfl
    stateRequest).2 rfl
  refine ⟨⟨c, hc, hserve.1.trans (by decide +kernel)⟩, fun hreached => ?_⟩
  have hopened := hlocked.2.1 keepsPath_pathOfUrl (by decide) .runState hreached
  exact absurd hopened (by decide)

end RestreamPlus.LockedMode
