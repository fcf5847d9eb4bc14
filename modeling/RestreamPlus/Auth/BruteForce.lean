import RestreamPlus.Auth.RateLimit
import RestreamPlus.Lib.Machine

/-!
# How many guesses the login lets through (`app/auth/sessions.py`)

`login` checks the limiter, reads the user, verifies the password in another
thread and records the failure when it has its verdict. Between the check and
the verdict other logins pass the same check, and no one counts those that are
under way (`six_guesses`).

`guesses_bounded` says that this is the only way: no window has more than
`failure_limit` failed verifications of a username or from an address when a
login passes the check only while the failures in the bucket and the logins that
are under way together leave room for it.
-/

namespace RestreamPlus

open Interleaving SlidingWindow

/-- Where a login that has passed the check is suspended. -/
inductive LoginPhase : Type where
  /-- `get_by_username` -/
  | reading
  /-- `verify_password`, against the user's hash or the dummy hash -/
  | verifying
  /-- the session row is inserted -/
  | creating
  /-- `touch_last_login` -/
  | touching
  /-- returned or raised, or sleeping until the floor is reached -/
  | finished
  deriving DecidableEq

/-- A call of `login` that has passed the check. -/
structure Login : Type where
  ip : Text
  /-- in normal form -/
  username : Text
  phase : LoginPhase
  deriving DecidableEq

/-- The login has passed the check and has no verdict yet. -/
def Login.underWay (l : Login) : Bool := l.phase = .reading || l.phase = .verifying

/-- What an awaited call did. -/
inductive LoginAwait : Type where
  | ok
  /-- the user is unknown or the password is wrong -/
  | invalid
  | raised
  deriving DecidableEq

/-- A verification that failed. -/
structure FailedVerification : Type where
  time : ℚ
  ip : Text
  username : Text
  deriving DecidableEq

/-- The limiter, the clock, the logins, and a record of the failures. -/
structure LoginDesk : Type where
  limiter : LoginRateLimiter
  now : ℚ
  logins : List Login
  /-- every failed verification, oldest first -/
  failed : List FailedVerification

namespace LoginDesk

/-- Before the first login. -/
def init (limiter : LoginRateLimiter) (now : ℚ) : LoginDesk :=
  ⟨{ limiter with byIp := ∅, byUsername := ∅ }, now, [], []⟩

/-- What happens next. -/
inductive Label : Type where
  | clock (now : ℚ)
  /-- `login`, up to its first await -/
  | login (username ip : Text)
  /-- login `i` goes on -/
  | resume (i : ℕ) (out : LoginAwait)

variable (normalize : Text → Text)

/-- `login` up to its first await: a denied attempt raises at once. -/
def login (c : LoginDesk) (username ip : Text) : LoginDesk :=
  let username := normalize username
  let (limiter, decision) := c.limiter.check normalize c.now ip username
  { c with
    limiter := limiter
    logins := if decision.allowed then c.logins ++ [⟨ip, username, .reading⟩] else c.logins }

/-- Login `i` is suspended elsewhere. -/
def moveTo (c : LoginDesk) (i : ℕ) (l : Login) (phase : LoginPhase) : LoginDesk :=
  { c with logins := c.logins.set i { l with phase := phase } }

/-- The verdict is negative: the failure is recorded in the same stretch. -/
def reject (c : LoginDesk) (i : ℕ) (l : Login) : LoginDesk :=
  { c.moveTo i l .finished with
    limiter := c.limiter.recordFailure normalize c.now l.ip l.username
    failed := c.failed ++ [⟨c.now, l.ip, l.username⟩] }

/-- Login `i` goes on. -/
def resume (c : LoginDesk) (i : ℕ) (l : Login) : LoginAwait → Option LoginDesk
  | .ok =>
    match l.phase with
    | .reading => some (c.moveTo i l .verifying)
    | .verifying => some (c.moveTo i l .creating)
    | .creating => some (c.moveTo i l .touching)
    | .touching => some (c.moveTo i l .finished)
    | .finished => none
  | .invalid => if l.phase = .verifying then some (c.reject normalize i l) else none
  | .raised => if l.phase = .finished then none else some (c.moveTo i l .finished)

def step (c : LoginDesk) : Label → Option LoginDesk
  | .clock now => if c.now ≤ now then some { c with now := now } else none
  | .login username ip => some (c.login normalize username ip)
  | .resume i out =>
    match c.logins[i]? with
    | none => none
    | some l => c.resume normalize i l out

/-- The logins of a process. -/
def machine : Machine LoginDesk Label := ⟨step normalize⟩

/-! ## The bound and its condition -/

/-- The key of a bucket. -/
def bucketKey (ip username : Text) : BucketKind → Text :=
  LoginRateLimiter.keyOf ip (normalize username)

/-- The instants of the failures under a key. -/
def failures (c : LoginDesk) (kind : BucketKind) (key : Text) : List ℚ :=
  (c.failed.filter fun f => bucketKey normalize f.ip f.username kind = key).map
    FailedVerification.time

/-- The logins under way under a key. -/
def pending (c : LoginDesk) (kind : BucketKind) (key : Text) : ℕ :=
  c.logins.countP fun l => l.underWay && bucketKey normalize l.ip l.username kind = key

/-- The failed verifications of a username, or from an address, in a window. -/
def failedWithin (c : LoginDesk) (kind : BucketKind) (key : Text) (a : ℚ) : ℕ :=
  c.failed.countP fun f => LoginRateLimiter.keyOf f.ip f.username kind = key &&
    (a ≤ f.time && f.time < a + c.limiter.window)

/-- No half-open window has more failed verifications than the limit. -/
def Bounded (c : LoginDesk) : Prop :=
  ∀ kind key a, c.failedWithin kind key a ≤ c.limiter.limit

/-- A login that passes the check fits in beside those that are under way. -/
def Fits (c : LoginDesk) : Label → Prop
  | .login username ip =>
    (c.limiter.check normalize c.now ip (normalize username)).2.allowed = true →
      ∀ kind ∈ [BucketKind.ip, .username],
        let key := bucketKey normalize ip (normalize username) kind
        (c.limiter.prune (c.limiter.bucket kind key) c.now).length + c.pending normalize kind key <
          c.limiter.limit
  | _ => True

instance (c : LoginDesk) (l : Label) : Decidable (c.Fits normalize l) := by
  cases l <;> unfold Fits <;> infer_instance

/-- What holds between the steps. -/
structure Limited (c : LoginDesk) : Prop where
  sorted : ∀ kind key, (c.limiter.bucket kind key).Pairwise (· ≤ ·)
  past : ∀ kind key, ∀ t ∈ c.limiter.bucket kind key, t ≤ c.now
  /-- a bucket has the failures of the last window -/
  counted : ∀ kind key, recent c.limiter.window (c.limiter.bucket kind key) c.now =
    recent c.limiter.window (c.failures normalize kind key) c.now
  safe : ∀ kind key, Safe c.limiter.window c.limiter.limit
    ⟨c.now, c.failures normalize kind key, c.pending normalize kind key⟩

section Step

variable {normalize} {c c' : LoginDesk} {i : ℕ}

theorem Limited.bounded (h : Limited normalize c) : c.Bounded := by
  intro kind key a
  -- the failures of a username are among those of its bucket
  refine Nat.le_trans ?_ ((h.safe kind (LoginRateLimiter.keyOf key (normalize key) kind)).bounded a)
  rw [failedWithin, within, failures, ← List.countP_eq_length_filter, List.countP_map,
    List.countP_filter]
  refine List.countP_mono_left fun f _ hf => ?_
  simp only [Bool.and_eq_true, decide_eq_true_eq] at hf
  obtain ⟨rfl, hlo, hhi⟩ := hf
  have hkey : bucketKey normalize f.ip f.username kind =
      LoginRateLimiter.keyOf (LoginRateLimiter.keyOf f.ip f.username kind)
        (normalize (LoginRateLimiter.keyOf f.ip f.username kind)) kind := by
    cases kind <;> rfl
  simp [hkey, hlo, hhi]

/-- The prefix that a check drops is outside the last window. -/
theorem Limited.prune_eq (h : Limited normalize c) (kind : BucketKind) (key : Text) :
    c.limiter.prune (c.limiter.bucket kind key) c.now =
      recent c.limiter.window (c.failures normalize kind key) c.now := by
  rw [LoginRateLimiter.prune, prune_eq_filter (h.sorted kind key)]
  exact h.counted kind key

/-- A step that only takes prefixes off the buckets, those being out of the
window, and leaves the record of failures alone. -/
theorem Limited.keep (h : Limited normalize c) {limiter : LoginRateLimiter} {logins : List Login}
    (hl : limiter = c.limiter ∨ ∃ ip username, limiter =
      c.limiter.touch ip username fun bucket => c.limiter.prune bucket c.now)
    (hsafe : ∀ kind key, Safe c.limiter.window c.limiter.limit ⟨c.now, c.failures normalize kind key,
      LoginDesk.pending normalize { c with limiter := limiter, logins := logins } kind key⟩) :
    Limited normalize { c with limiter := limiter, logins := logins } := by
  rcases hl with rfl | ⟨ip, username, rfl⟩
  · exact ⟨h.sorted, h.past, h.counted, hsafe⟩
  have hbucket : ∀ kind key,
      (c.limiter.touch ip username fun bucket => c.limiter.prune bucket c.now).bucket kind key =
          c.limiter.bucket kind key ∨
        (c.limiter.touch ip username fun bucket => c.limiter.prune bucket c.now).bucket kind key =
          c.limiter.prune (c.limiter.bucket kind key) c.now := by
    intro kind key
    rw [LoginRateLimiter.bucket_touch]
    split
    · exact .inr rfl
    · exact .inl rfl
  refine ⟨fun kind key => ?_, fun kind key t ht => ?_, fun kind key => ?_, hsafe⟩
  · rcases hbucket kind key with heq | heq
    · exact heq ▸ h.sorted kind key
    · exact heq ▸ pairwise_prune (h.sorted kind key) _
  · rcases hbucket kind key with heq | heq
    · exact h.past kind key t (heq ▸ ht)
    · exact h.past kind key t (mem_of_mem_prune (heq ▸ ht))
  · show recent c.limiter.window _ c.now = recent c.limiter.window (c.failures normalize kind key) c.now
    rcases hbucket kind key with heq | heq
    · rw [heq]
      exact h.counted kind key
    · rw [heq, h.prune_eq, recent, recent, List.filter_filter]
      simp

/-- **Time passes.** -/
theorem limited_clock (h : Limited normalize c) {now : ℚ} (hle : c.now ≤ now) :
    Limited normalize { c with now := now } := by
  refine ⟨h.sorted, fun kind key t ht => (h.past kind key t ht).trans hle, fun kind key => ?_,
    fun kind key => (h.safe kind key).tick hle⟩
  -- the later window is a part of the earlier one
  have hpart : ∀ l : List ℚ, recent c.limiter.window l now =
      recent c.limiter.window (recent c.limiter.window l c.now) now := by
    intro l
    simp only [recent, List.filter_filter]
    refine List.filter_congr fun t _ => ?_
    have himp : now - c.limiter.window < t → c.now - c.limiter.window < t :=
      (sub_le_sub_right hle _).trans_lt
    simpa using himp
  show recent c.limiter.window (c.limiter.bucket kind key) now =
    recent c.limiter.window (c.failures normalize kind key) now
  rw [hpart, h.counted, ← hpart]

/-- **A login checks the limiter.** -/
theorem limited_login (h : Limited normalize c) {username ip : Text}
    (hg : c.Fits normalize (.login username ip)) : Limited normalize (c.login normalize username ip) := by
  have hfst := LoginRateLimiter.fst_check normalize c.limiter c.now ip (normalize username)
  rw [Fits] at hg
  rw [login]
  generalize c.limiter.check normalize c.now ip (normalize username) = checked at hfst hg ⊢
  obtain ⟨limiter, ⟨allowed, retry⟩⟩ := checked
  refine h.keep (.inr ⟨_, _, hfst⟩) fun kind key => ?_
  cases allowed
  · exact h.safe kind key
  · by_cases hkey : bucketKey normalize ip (normalize username) kind = key
    · -- the check let it pass, and the condition says that there is room
      have hroom := hg rfl kind (by cases kind <;> simp)
      dsimp only at hroom
      rw [hkey, h.prune_eq] at hroom
      have hsafe := (h.safe kind key).begin hroom
      simpa [pending, Login.underWay, hkey] using hsafe
    · simpa [pending, Login.underWay, hkey] using h.safe kind key

/-- The logins under way under a key after one of them moved. -/
theorem pending_set (normalize : Text → Text) {l : Login} (hi : c.logins[i]? = some l) (phase : LoginPhase)
    (kind : BucketKind) (key : Text) (limiter : LoginRateLimiter) (failed : List FailedVerification) :
    LoginDesk.pending normalize
        ⟨limiter, c.now, c.logins.set i { l with phase := phase }, failed⟩ kind key +
          (if l.underWay && bucketKey normalize l.ip l.username kind = key then 1 else 0) =
      c.pending normalize kind key +
        if ({ l with phase := phase } : Login).underWay &&
          bucketKey normalize l.ip l.username kind = key then 1 else 0 := by
  obtain ⟨hlt, hget⟩ := List.getElem?_eq_some_iff.mp hi
  have hpos : (if l.underWay && bucketKey normalize l.ip l.username kind = key then 1 else 0) ≤
      c.pending normalize kind key := by
    split
    · rename_i hl
      exact List.countP_pos_iff.mpr ⟨l, List.mem_of_getElem? hi, hl⟩
    · exact Nat.zero_le _
  rw [pending, List.countP_set hlt, hget]
  rw [pending] at hpos ⊢
  dsimp only at hpos ⊢
  omega

/-- **A login is suspended elsewhere**, and no later one is counted again. -/
theorem limited_moveTo (h : Limited normalize c) {l : Login} (hi : c.logins[i]? = some l)
    {phase : LoginPhase} (hp : ({ l with phase := phase } : Login).underWay = true → l.underWay = true) :
    Limited normalize (c.moveTo i l phase) := by
  refine h.keep (.inl rfl) fun kind key => ?_
  refine (h.safe kind key).succeed ?_
  have hset := pending_set normalize hi phase kind key c.limiter c.failed
  change LoginDesk.pending normalize ⟨c.limiter, c.now, c.logins.set i { l with phase := phase }, c.failed⟩
    kind key ≤ c.pending normalize kind key
  have hle : (if ({ l with phase := phase } : Login).underWay &&
      bucketKey normalize l.ip l.username kind = key then 1 else 0) ≤
      if l.underWay && bucketKey normalize l.ip l.username kind = key then 1 else 0 := by
    split
    · rename_i hc
      rw [Bool.and_eq_true] at hc
      rw [if_pos (by rw [hp hc.1, hc.2]; rfl)]
    · exact Nat.zero_le _
  omega

/-- **A verification fails**: what was under way is now recorded. -/
theorem limited_reject (h : Limited normalize c) {l : Login} (hi : c.logins[i]? = some l)
    (hl : l.phase = .verifying) : Limited normalize (c.reject normalize i l) := by
  have hbucket : ∀ kind key, (c.reject normalize i l).limiter.bucket kind key =
      if key = bucketKey normalize l.ip l.username kind then
        c.limiter.prune (c.limiter.bucket kind key) c.now ++ [c.now]
      else c.limiter.bucket kind key :=
    LoginRateLimiter.bucket_recordFailure normalize c.limiter c.now l.ip l.username
  have hfailures : ∀ kind key, (c.reject normalize i l).failures normalize kind key =
      if key = bucketKey normalize l.ip l.username kind then c.failures normalize kind key ++ [c.now]
      else c.failures normalize kind key := by
    intro kind key
    simp only [reject, failures, List.filter_append, List.map_append]
    by_cases hkey : key = bucketKey normalize l.ip l.username kind
    · simp [hkey]
    · simp [hkey, Ne.symm hkey]
  have hpending := fun kind key => pending_set normalize hi .finished kind key
    (c.reject normalize i l).limiter (c.reject normalize i l).failed
  have hunder : l.underWay = true := by simp [Login.underWay, hl]
  have hended : ({ l with phase := .finished } : Login).underWay = false := rfl
  refine ⟨fun kind key => ?_, fun kind key t ht => ?_, fun kind key => ?_, fun kind key => ?_⟩
  · rw [hbucket]
    split
    · refine List.pairwise_append.mpr ⟨pairwise_prune (h.sorted kind key) _,
        List.pairwise_singleton _ _, fun t ht u hu => ?_⟩
      rw [List.mem_singleton.mp hu]
      exact h.past kind key t (mem_of_mem_prune ht)
    · exact h.sorted kind key
  · rw [hbucket] at ht
    split at ht
    · rcases List.mem_append.mp ht with ht | ht
      · exact h.past kind key t (mem_of_mem_prune ht)
      · exact (List.mem_singleton.mp ht).le
    · exact h.past kind key t ht
  · rw [hbucket, hfailures]
    show recent c.limiter.window _ c.now = recent c.limiter.window _ c.now
    split
    · have hpruned := h.prune_eq kind key
      rw [recent, recent, List.filter_append, List.filter_append, hpruned, recent, List.filter_filter]
      simp
    · exact h.counted kind key
  · have hset := hpending kind key
    rw [hfailures]
    have hsafe := h.safe kind key
    by_cases hkey : key = bucketKey normalize l.ip l.username kind
    · rw [if_pos hkey]
      subst hkey
      refine hsafe.fail ?_
      simp only [hunder, hended, decide_true, Bool.and_self, Bool.false_and, if_true,
        Bool.false_eq_true, if_false, Nat.add_zero] at hset
      exact hset.le
    · rw [if_neg hkey]
      refine hsafe.succeed ?_
      simp only [Ne.symm hkey, decide_false, Bool.and_false] at hset
      exact hset.le

/-- **Every step** keeps the failures within the limit. -/
theorem limited_step (h : Limited normalize c) {l : Label} (hg : c.Fits normalize l)
    (hs : (machine normalize).step c l = some c') : Limited normalize c' := by
  change c.step normalize l = some c' at hs
  cases l with
  | clock now =>
    rw [step] at hs
    split at hs
    · rename_i hle
      obtain rfl := Option.some.inj hs
      exact limited_clock h hle
    · cases hs
  | login username ip =>
    obtain rfl := Option.some.inj hs
    exact limited_login h hg
  | resume i out =>
    rw [step] at hs
    split at hs
    · cases hs
    · rename_i l hi
      cases out with
      | ok =>
        rw [resume] at hs
        split at hs
        · rename_i hp
          obtain rfl := Option.some.inj hs
          exact limited_moveTo h hi fun _ => by simp [Login.underWay, hp]
        · obtain rfl := Option.some.inj hs
          exact limited_moveTo h hi nofun
        · obtain rfl := Option.some.inj hs
          exact limited_moveTo h hi nofun
        · obtain rfl := Option.some.inj hs
          exact limited_moveTo h hi nofun
        · cases hs
      | invalid =>
        rw [resume] at hs
        split at hs
        · rename_i hp
          obtain rfl := Option.some.inj hs
          exact limited_reject h hi hp
        · cases hs
      | raised =>
        rw [resume] at hs
        split at hs
        · cases hs
        · obtain rfl := Option.some.inj hs
          exact limited_moveTo h hi nofun

end Step

/-- **The brute-force bound**, for every interleaving in which a login passes the
check only while it fits in beside those that are under way. -/
theorem guesses_bounded (normalize : Text → Text) (limiter : LoginRateLimiter) (now : ℚ)
    (labels : List Label) (h : (machine normalize).Meets (Fits normalize) (init limiter now) labels) :
    (machine normalize).Always Bounded (init limiter now) labels := by
  refine Machine.always_of_inv (I := Limited normalize) (fun _ _ _ hi hg hs => limited_step hi hg hs)
    (fun _ hi => hi.bounded) ⟨fun kind key => ?_, fun kind key t ht => ?_, fun kind key => ?_,
      fun kind key => safe_init _ _ _⟩ h
  · cases kind <;> exact List.Pairwise.nil
  · cases kind <;> cases ht
  · cases kind <;> rfl

/-! ## Six guesses -/

section Guesses

/-- A login for the administrator from some address. -/
def guess (ip : Char) : Label := .login ['a', 'd', 'm', 'i', 'n'] [ip]

/-- Login `i` reads the user and finds the password wrong. -/
def wrong (i : ℕ) : List Label := [.resume i .ok, .resume i .invalid]

/-- Six logins pass the check before the first of them has its verdict. -/
def atOnce : List Label :=
  ['1', '2', '3', '4', '5', '6'].map guess ++ (List.range 6).flatMap wrong

/-- **Six failed verifications of one username within 15 minutes**, where the
limit is five. -/
theorem six_guesses :
    ∃ c, (machine id).run (init .default 0) atOnce = some c ∧ ¬ c.Bounded := by
  refine ⟨_, rfl, fun h => ?_⟩
  exact absurd (h .username ['a', 'd', 'm', 'i', 'n'] 0) (by decide +kernel)

/-- One after the other, the sixth is denied. -/
theorem guesses_bounded_in_turn :
    (machine id).Always Bounded (init .default 0)
      (((List.range 5).flatMap fun i => guess '1' :: wrong i) ++ [guess '2', .clock 900, guess '3'] ++
        wrong 5) :=
  guesses_bounded id .default 0 _ (by decide +kernel)

end Guesses

end LoginDesk

end RestreamPlus
