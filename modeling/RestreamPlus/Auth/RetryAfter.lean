import RestreamPlus.Auth.RateLimit
import RestreamPlus.Lib.Machine

/-!
# When to retry (`app/auth/rate_limit.py`)

A denied check says after how many seconds to come back: when the oldest failure of a
full bucket leaves the window. That makes room if the bucket holds no more failures
than the limit. It may hold more: an attempt that was admitted before the bucket was
full records its failure all the same.

`retry_sound_iff` says when the answer can be relied on.
-/

namespace RestreamPlus

open Interleaving SlidingWindow

namespace LoginRateLimiter

/-- A limiter and the instant of its last call. -/
structure Clocked : Type where
  limiter : LoginRateLimiter
  now : ℚ

/-- A call, at an instant. -/
inductive Call : Type where
  | check (now : ℚ) (ip username : Text)
  | recordFailure (now : ℚ) (ip username : Text)

section Calls

variable (normalize : Text → Text)

def Clocked.step (c : Clocked) : Call → Option Clocked
  | .check now ip username =>
    if c.now ≤ now then some ⟨(c.limiter.check normalize now ip username).1, now⟩ else none
  | .recordFailure now ip username =>
    if c.now ≤ now then some ⟨c.limiter.recordFailure normalize now ip username, now⟩ else none

/-- The calls one after the other; the clock does not go back. -/
def calls : Machine Clocked Call := ⟨Clocked.step normalize⟩

/-- A new limiter. -/
def Clocked.init (limiter : LoginRateLimiter) (now : ℚ) : Clocked :=
  ⟨{ limiter with byIp := ∅, byUsername := ∅ }, now⟩

/-- A failure under another address and another username, or no failure. -/
def Unrelated (ip username : Text) : Call → Prop
  | .check _ _ _ => True
  | .recordFailure _ ip' username' => ip' ≠ ip ∧ normalize username' ≠ normalize username

/-- **Retry-After is sound** for a check at this instant: if it is denied, then a check
under the same keys is allowed that many seconds later or at any time after, whatever was
called in between that records no failure under them. -/
def RetrySound (c : Clocked) (now : ℚ) (ip username : Text) : Prop :=
  ∀ r, (c.limiter.check normalize now ip username).2 = ⟨false, r⟩ →
    ∀ later c', (calls normalize).run ⟨(c.limiter.check normalize now ip username).1, now⟩ later =
        some c' →
      (∀ call ∈ later, Unrelated normalize ip username call) →
        ∀ t, c'.now ≤ t → now + r ≤ t →
          (c'.limiter.check normalize t ip username).2.allowed = true

/-- The failures that a check counts. -/
def counted (l : LoginRateLimiter) (now : ℚ) (ip username : Text) (kind : BucketKind) : List ℚ :=
  l.prune (l.bucket kind (keyOf ip (normalize username) kind)) now

/-- Seconds until a full bucket has room. -/
def roomIn (l : LoginRateLimiter) (bucket : List ℚ) (now : ℚ) : ℚ :=
  (bucket.drop (bucket.length - l.limit)).headD now + l.window - now

/-- Every full bucket has room when, in whole seconds and one at least, the oldest failure
of some full bucket has left the window. -/
def Covered (l : LoginRateLimiter) (now : ℚ) (ip username : Text) : Prop :=
  ∀ kind, l.limit ≤ (l.counted normalize now ip username kind).length →
    ∃ kind', l.limit ≤ (l.counted normalize now ip username kind').length ∧
      ⌈l.roomIn (l.counted normalize now ip username kind) now⌉ ≤
        max 1 ⌈l.oldestExpiry (l.counted normalize now ip username kind') now⌉

end Calls

section Decision

variable {normalize : Text → Text} {l : LoginRateLimiter} {now : ℚ} {ip username : Text}

theorem forall_kind {P : BucketKind → Prop} : (∀ kind, P kind) ↔ P .ip ∧ P .username :=
  ⟨fun h => ⟨h .ip, h .username⟩, fun h kind => by cases kind; exacts [h.1, h.2]⟩

theorem exists_kind {P : BucketKind → Prop} : (∃ kind, P kind) ↔ P .ip ∨ P .username := by
  refine ⟨?_, fun h => h.elim (fun h => ⟨_, h⟩) fun h => ⟨_, h⟩⟩
  rintro ⟨kind, h⟩
  cases kind
  · exact .inl h
  · exact .inr h

/-- What a check says of its two buckets. -/
def verdict (l : LoginRateLimiter) (a b : List ℚ) (now : ℚ) : RateLimitDecision :=
  if a.length < l.limit ∧ b.length < l.limit then ⟨true, 0⟩
  else if b.length < l.limit then ⟨false, max 1 ⌈l.oldestExpiry a now⌉⟩
  else if a.length < l.limit then ⟨false, max 1 ⌈l.oldestExpiry b now⌉⟩
  else ⟨false, max 1 ⌈max (l.oldestExpiry a now) (l.oldestExpiry b now)⌉⟩

theorem snd_check : (l.check normalize now ip username).2 =
    l.verdict (l.counted normalize now ip username .ip)
      (l.counted normalize now ip username .username) now := by
  have hlimit : ∀ f, (l.touch ip (normalize username) f).limit = l.limit := fun _ => rfl
  have hexpiry : ∀ f bucket, (l.touch ip (normalize username) f).oldestExpiry bucket now =
      l.oldestExpiry bucket now := fun _ _ => rfl
  rw [check, verdict, counted, counted, keyOf, keyOf]
  dsimp only
  rw [hlimit]
  generalize l.prune (l.bucket .ip ip) now = a
  generalize l.prune (l.bucket .username (normalize username)) now = b
  simp only [← not_le]
  by_cases hip : l.limit ≤ a.length
  · by_cases huser : l.limit ≤ b.length
    · simp [hip, huser, hexpiry]
    · simp [hip, huser, hexpiry]
  · by_cases huser : l.limit ≤ b.length
    · simp [hip, huser, hexpiry]
    · simp [hip, huser]

/-- **A check is allowed** when neither bucket is full. -/
theorem allowed_check : (l.check normalize now ip username).2.allowed = true ↔
    ∀ kind, (l.counted normalize now ip username kind).length < l.limit := by
  rw [forall_kind, snd_check, verdict]
  split
  · rename_i h
    exact iff_of_true rfl h
  · rename_i h
    refine iff_of_false ?_ h
    split
    · nofun
    · split <;> nofun

/-- **A denied check** names the latest expiry of a full bucket, and one second at least. -/
theorem le_retry {r : ℤ} (h : (l.check normalize now ip username).2 = ⟨false, r⟩) (m : ℤ) :
    m ≤ r ↔ ∃ kind, l.limit ≤ (l.counted normalize now ip username kind).length ∧
      m ≤ max 1 ⌈l.oldestExpiry (l.counted normalize now ip username kind) now⌉ := by
  rw [snd_check, verdict] at h
  rw [exists_kind]
  generalize l.counted normalize now ip username .ip = a at h ⊢
  generalize l.counted normalize now ip username .username = b at h ⊢
  split at h
  · cases h
  · rename_i hsome
    split at h
    · rename_i hb
      cases h
      have ha : l.limit ≤ a.length := not_lt.mp fun ha => hsome ⟨ha, hb⟩
      rw [and_iff_right ha]
      exact ⟨.inl, fun h => h.resolve_right fun h => not_le_of_gt hb h.1⟩
    · rename_i hb
      rw [and_iff_right (not_lt.mp hb)]
      split at h
      · rename_i ha
        cases h
        exact ⟨.inr, fun h => h.resolve_left fun h => not_le_of_gt ha h.1⟩
      · rename_i ha
        cases h
        rw [and_iff_right (not_lt.mp ha), Int.ceil_mono.map_max, sup_sup_distrib_left, le_max_iff]

/-- **A full bucket has room** when its last failure but `limit - 1` has left the window. -/
theorem length_prune_lt_iff {bucket : List ℚ} (hsorted : bucket.Pairwise (· ≤ ·))
    (hfull : l.limit ≤ bucket.length) (t : ℚ) :
    (l.prune bucket t).length < l.limit ↔ l.roomIn bucket now ≤ t - now := by
  have hpos := l.limit_pos
  have hsplit : bucket = bucket.take (bucket.length - l.limit) ++
      bucket.drop (bucket.length - l.limit) := (List.take_append_drop _ _).symm
  have hlen : (bucket.drop (bucket.length - l.limit)).length = l.limit := by
    rw [List.length_drop]
    omega
  rw [roomIn, prune]
  rcases hback : bucket.drop (bucket.length - l.limit) with _ | ⟨p, rest⟩
  · rw [hback] at hlen
    exact absurd hlen (by rw [List.length_nil]; omega)
  · rw [hback] at hlen hsplit
    rw [hsplit] at hsorted
    have hiff := length_prune_le_iff hsorted (t - l.window)
    rw [← hsplit] at hiff
    rw [← hlen, List.length_cons, Nat.lt_succ_iff, hiff, List.headD_cons]
    constructor <;> intro h <;> linarith

end Decision

/-! ## The buckets along a run -/

section Runs

variable {normalize : Text → Text} {c c' : Clocked}

/-- What holds between the calls. -/
structure Ordered (c : Clocked) : Prop where
  sorted : ∀ kind key, (c.limiter.bucket kind key).Pairwise (· ≤ ·)
  past : ∀ kind key, ∀ t ∈ c.limiter.bucket kind key, t ≤ c.now

theorem ordered_init (limiter : LoginRateLimiter) (now : ℚ) : Ordered (.init limiter now) :=
  ⟨fun kind key => by cases kind <;> exact List.Pairwise.nil,
    fun kind key t ht => by cases kind <;> cases ht⟩

/-- **A call** is made in time, keeps the limits, and prunes a bucket, adds a failure to
it, or leaves it alone. -/
theorem call_cases {call : Call} (h : (calls normalize).step c call = some c') :
    c.now ≤ c'.now ∧ c'.limiter.limit = c.limiter.limit ∧
      c'.limiter.window = c.limiter.window ∧ ∀ kind key,
        c'.limiter.bucket kind key = c.limiter.bucket kind key ∨
        c'.limiter.bucket kind key = c.limiter.prune (c.limiter.bucket kind key) c'.now ∨
        c'.limiter.bucket kind key =
          c.limiter.prune (c.limiter.bucket kind key) c'.now ++ [c'.now] ∧
          ∃ ip username, call = .recordFailure c'.now ip username ∧
            key = keyOf ip (normalize username) kind := by
  change c.step normalize call = some c' at h
  cases call with
  | check now ip username =>
    rw [Clocked.step] at h
    split at h
    · rename_i hle
      obtain rfl := Option.some.inj h
      rw [fst_check]
      refine ⟨hle, rfl, rfl, fun kind key => ?_⟩
      dsimp only
      rw [bucket_touch]
      split
      · exact .inr (.inl rfl)
      · exact .inl rfl
    · cases h
  | recordFailure now ip username =>
    rw [Clocked.step] at h
    split at h
    · rename_i hle
      obtain rfl := Option.some.inj h
      refine ⟨hle, rfl, rfl, fun kind key => ?_⟩
      dsimp only
      rw [bucket_recordFailure]
      split
      · rename_i hkey
        exact .inr (.inr ⟨rfl, ip, username, rfl, hkey⟩)
      · exact .inl rfl
    · cases h

theorem ordered_call {call : Call} (hc : Ordered c) (h : (calls normalize).step c call = some c') :
    Ordered c' := by
  obtain ⟨hle, -, -, hbucket⟩ := call_cases h
  refine ⟨fun kind key => ?_, fun kind key t ht => ?_⟩
  · rcases hbucket kind key with heq | heq | ⟨heq, -⟩ <;> rw [heq]
    · exact hc.sorted kind key
    · exact pairwise_prune (hc.sorted kind key) _
    · refine List.pairwise_append.mpr ⟨pairwise_prune (hc.sorted kind key) _,
        List.pairwise_singleton _ _, fun t ht u hu => ?_⟩
      rw [List.mem_singleton.mp hu]
      exact (hc.past kind key t (mem_of_mem_prune ht)).trans hle
  · rcases hbucket kind key with heq | heq | ⟨heq, -⟩ <;> rw [heq] at ht
    · exact (hc.past kind key t ht).trans hle
    · exact (hc.past kind key t (mem_of_mem_prune ht)).trans hle
    · rcases List.mem_append.mp ht with ht | ht
      · exact (hc.past kind key t (mem_of_mem_prune ht)).trans hle
      · exact (List.mem_singleton.mp ht).le

theorem ordered_run {labels : List Call} (hc : Ordered c)
    (h : (calls normalize).run c labels = some c') : Ordered c' :=
  Machine.inv_run_of_step (fun _ _ _ hc hs => ordered_call hc hs) hc h

/-- **Unrelated calls** only prune the two buckets, and no later check sees that. -/
theorem prune_of_unrelated {ip username : Text} {later : List Call}
    (h : (calls normalize).run c later = some c')
    (hother : ∀ call ∈ later, Unrelated normalize ip username call) :
    c.now ≤ c'.now ∧ c'.limiter.limit = c.limiter.limit ∧ ∀ kind t, c'.now ≤ t →
      c'.limiter.counted normalize t ip username kind =
        c.limiter.counted normalize t ip username kind := by
  induction later generalizing c with
  | nil =>
    obtain rfl := Option.some.inj h
    exact ⟨le_rfl, rfl, fun _ _ _ => rfl⟩
  | cons call later ih =>
    obtain ⟨c₁, hs, hr⟩ := Machine.run_cons_eq_some h
    obtain ⟨hle, hlimit, hlater⟩ :=
      ih hr fun call hcall => hother call (List.mem_cons_of_mem _ hcall)
    obtain ⟨hle₁, hlimit₁, hwindow, hbucket⟩ := call_cases hs
    refine ⟨hle₁.trans hle, hlimit.trans hlimit₁, fun kind t ht => (hlater kind t ht).trans ?_⟩
    have ht₁ : c₁.now - c.limiter.window ≤ t - c.limiter.window :=
      sub_le_sub_right (hle.trans ht) _
    rw [counted, counted, prune, prune, hwindow]
    rcases hbucket kind (keyOf ip (normalize username) kind) with
      heq | heq | ⟨-, ip', name', rfl, hkey⟩
    · rw [heq]
    · rw [heq]
      exact prune_prune ht₁ _
    · -- a failure under one of the two keys
      have hno := hother _ List.mem_cons_self
      cases kind with
      | ip => exact absurd hkey.symm hno.1
      | username => exact absurd hkey.symm hno.2

/-- A check leaves what it counted. -/
theorem counted_check {l : LoginRateLimiter} {now t : ℚ} (ip username : Text)
    (kind : BucketKind) :
    (l.check normalize now ip username).1.counted normalize t ip username kind =
      l.prune (l.counted normalize now ip username kind) t := by
  rw [fst_check, counted, bucket_touch, if_pos rfl]
  rfl

section Checks

variable {now : ℚ} {ip username : Text}

theorem limit_check : (c.limiter.check normalize now ip username).1.limit = c.limiter.limit := by
  rw [fst_check]
  rfl

/-- A check of a full bucket is denied, with one second at least. -/
theorem exists_retry {kind : BucketKind}
    (hfull : c.limiter.limit ≤ (c.limiter.counted normalize now ip username kind).length) :
    ∃ r, (c.limiter.check normalize now ip username).2 = ⟨false, r⟩ ∧ 1 ≤ r := by
  rcases hcheck : (c.limiter.check normalize now ip username).2 with ⟨_ | _, r⟩
  · exact ⟨r, rfl, (le_retry hcheck 1).mpr ⟨kind, hfull, le_max_left _ _⟩⟩
  · have hallowed := congrArg RateLimitDecision.allowed hcheck
    have hroom := (allowed_check (l := c.limiter)).mp hallowed
    exact absurd (hroom kind) (not_lt_of_ge hfull)

theorem Ordered.sorted_counted (h : Ordered c) (kind : BucketKind) :
    (c.limiter.counted normalize now ip username kind).Pairwise (· ≤ ·) :=
  pairwise_prune (h.sorted _ _) _

/-- The instant that was named, and nothing called in between. -/
theorem Ordered.covered (hordered : Ordered c) (hsound : RetrySound normalize c now ip username) :
    c.limiter.Covered normalize now ip username := by
  intro kind hfull
  obtain ⟨r, hcheck, hr⟩ := exists_retry hfull
  have hr' : (1 : ℚ) ≤ r := by exact_mod_cast hr
  have hnow : now ≤ now + r := by linarith
  have hallowed := hsound r hcheck [] _ rfl (fun _ h => absurd h List.not_mem_nil) (now + r) hnow
    le_rfl
  have hroom := allowed_check.mp hallowed kind
  rw [counted_check ip username, limit_check,
    length_prune_lt_iff (hordered.sorted_counted kind) hfull, add_sub_cancel_left,
    ← Int.ceil_le] at hroom
  exact (le_retry hcheck _).mp hroom

/-- Every full bucket has room from then on, and nothing is added to it. -/
theorem Ordered.retrySound (hordered : Ordered c)
    (hcovered : c.limiter.Covered normalize now ip username) :
    RetrySound normalize c now ip username := by
  intro r hcheck later c' hlater hother t ht htr
  obtain ⟨hle, hlimit, hcounted⟩ := prune_of_unrelated hlater hother
  rw [allowed_check]
  intro kind
  rw [hcounted kind t ht, counted_check ip username, hlimit, limit_check]
  by_cases hfull : c.limiter.limit ≤ (c.limiter.counted normalize now ip username kind).length
  · have hroom := Int.ceil_le.mp ((le_retry hcheck _).mpr (hcovered kind hfull))
    rw [length_prune_lt_iff (hordered.sorted_counted kind) hfull]
    exact hroom.trans (by linarith)
  · exact (List.dropWhile_sublist _).length_le.trans_lt (not_le.mp hfull)

end Checks

/-- **When Retry-After is sound**: exactly when every full bucket has room by then. -/
theorem retry_sound_iff (normalize : Text → Text) (limiter : LoginRateLimiter) (start : ℚ)
    (labels : List Call) (c : Clocked)
    (hrun : (calls normalize).run (.init limiter start) labels = some c) (now : ℚ)
    (ip username : Text) :
    RetrySound normalize c now ip username ↔ c.limiter.Covered normalize now ip username := by
  have hordered : Ordered c := ordered_run (ordered_init limiter start) hrun
  exact ⟨hordered.covered, hordered.retrySound⟩

/-- A bucket that holds no more than the limit has room when its oldest failure leaves. -/
theorem covered_of_le {l : LoginRateLimiter} {now : ℚ} {ip username : Text}
    (h : ∀ kind, (l.counted normalize now ip username kind).length ≤ l.limit) :
    l.Covered normalize now ip username := by
  intro kind hfull
  refine ⟨kind, hfull, le_trans (le_of_eq ?_) (le_max_right _ _)⟩
  rw [roomIn, Nat.sub_eq_zero_of_le (h kind), List.drop_zero]
  rfl

/-- Five failures, one second after the other. -/
def fiveFailures : List Call := [1, 2, 3, 4, 5].map fun t => .recordFailure t ['1'] ['a']

/-- The fifth failure fills the buckets. The check is denied, and what it answers holds. -/
theorem retry_sound_iff_fiveFailures : ∃ c, (calls id).run (.init .default 0) fiveFailures = some c ∧
    (c.limiter.check id 5 ['1'] ['a']).2 = ⟨false, 896⟩ ∧ RetrySound id c 5 ['1'] ['a'] := by
  refine ⟨_, rfl, by decide +kernel, ?_⟩
  refine (retry_sound_iff id .default 0 fiveFailures _ rfl 5 _ _).mpr (covered_of_le ?_)
  rintro (_ | _) <;> decide +kernel

/-- Six attempts are admitted, and then fail one second after the other. -/
def sixAttempts : List Call :=
  List.replicate 6 (.check 0 ['1'] ['a']) ++
    [1, 2, 3, 4, 5, 6].map fun t => .recordFailure t ['1'] ['a']

/-- **Denied again**: after the 895 seconds the answer names, five failures are left. -/
theorem retry_too_early : ∃ c, (calls id).run (.init .default 0) sixAttempts = some c ∧
    ¬ RetrySound id c 6 ['1'] ['a'] := by
  refine ⟨_, rfl, fun h => ?_⟩
  have hallowed := h 895 (by decide +kernel) [] _ rfl (fun _ h => absurd h List.not_mem_nil) 901
    (by decide +kernel) (by decide +kernel)
  exact absurd hallowed (by decide +kernel)

end Runs

end LoginRateLimiter

end RestreamPlus
