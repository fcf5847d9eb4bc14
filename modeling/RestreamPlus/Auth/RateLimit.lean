import Mathlib.Data.Rat.Floor
import RestreamPlus.Domain.Target
import RestreamPlus.Lib.Dict
import RestreamPlus.Lib.SlidingWindow

/-!
# The login rate limiter (`app/auth/rate_limit.py`)

Two families of buckets, one per client address and one per username, each the
instants of the failures under its key, oldest first. A username is normalised
before it is used as a key; what the normal form is does not matter here.
-/

namespace RestreamPlus

/-- The two families of buckets. -/
inductive BucketKind : Type where
  | ip
  | username
  deriving DecidableEq

/-- `RateLimitDecision`. -/
structure RateLimitDecision : Type where
  allowed : Bool
  retryAfterSeconds : ℤ
  deriving DecidableEq

/-- `LoginRateLimiter`; its constructor refuses other limits and windows. -/
structure LoginRateLimiter : Type where
  limit : ℕ
  window : ℚ
  limit_pos : 1 ≤ limit
  window_pos : 0 < window
  byIp : Dict Text (List ℚ)
  byUsername : Dict Text (List ℚ)

namespace LoginRateLimiter

theorem quarterHour_pos : (0 : ℚ) < 15 * 60 := by norm_num

/-- `LoginRateLimiter()`: five failures in 15 minutes. -/
def default : LoginRateLimiter := ⟨5, 15 * 60, by decide, quarterHour_pos, ∅, ∅⟩

/-- The bucket under a key, empty if there is none. -/
def bucket (l : LoginRateLimiter) : BucketKind → Text → List ℚ
  | .ip, key => (l.byIp.get? key).getD []
  | .username, key => (l.byUsername.get? key).getD []

/-- `_prune`. -/
def prune (l : LoginRateLimiter) (bucket : List ℚ) (now : ℚ) : List ℚ :=
  SlidingWindow.prune (now - l.window) bucket

/-- `_oldest_expiry` of a bucket that is not empty. -/
def oldestExpiry (l : LoginRateLimiter) (bucket : List ℚ) (now : ℚ) : ℚ :=
  bucket.headD now + l.window - now

/-- The bucket of each family under its key is changed. -/
def touch (l : LoginRateLimiter) (ip username : Text) (f : List ℚ → List ℚ) : LoginRateLimiter :=
  { l with
    byIp := l.byIp.insert ip (f (l.bucket .ip ip))
    byUsername := l.byUsername.insert username (f (l.bucket .username username)) }

/-- `check`. -/
def check (normalize : Text → Text) (l : LoginRateLimiter) (now : ℚ) (ip username : Text) :
    LoginRateLimiter × RateLimitDecision :=
  let usernameKey := normalize username
  let ipBucket := l.prune (l.bucket .ip ip) now
  let unameBucket := l.prune (l.bucket .username usernameKey) now
  let l := l.touch ip usernameKey fun bucket => l.prune bucket now
  let ipFull := decide (l.limit ≤ ipBucket.length)
  let unameFull := decide (l.limit ≤ unameBucket.length)
  if !ipFull && !unameFull then (l, ⟨true, 0⟩)
  else
    let seconds := match ipFull, unameFull with
      | true, true => max (l.oldestExpiry ipBucket now) (l.oldestExpiry unameBucket now)
      | true, false => l.oldestExpiry ipBucket now
      | false, _ => l.oldestExpiry unameBucket now
    (l, ⟨false, max 1 ⌈seconds⌉⟩)

/-- `record_failure`. -/
def recordFailure (normalize : Text → Text) (l : LoginRateLimiter) (now : ℚ) (ip username : Text) :
    LoginRateLimiter :=
  l.touch ip (normalize username) fun bucket => l.prune bucket now ++ [now]

/-! ## What the operations do to a bucket -/

/-- The key of each family. -/
def keyOf (ip username : Text) : BucketKind → Text
  | .ip => ip
  | .username => username

theorem bucket_touch (l : LoginRateLimiter) (ip username : Text) (f : List ℚ → List ℚ)
    (kind : BucketKind) (key : Text) :
    (l.touch ip username f).bucket kind key =
      if key = keyOf ip username kind then f (l.bucket kind key) else l.bucket kind key := by
  cases kind with
  | ip =>
    by_cases h : key = ip
    · subst h
      simp [touch, bucket, keyOf]
    · simp [touch, bucket, keyOf, Dict.get?_insert_ne, h]
  | username =>
    by_cases h : key = username
    · subst h
      simp [touch, bucket, keyOf]
    · simp [touch, bucket, keyOf, Dict.get?_insert_ne, h]

theorem bucket_recordFailure (normalize : Text → Text) (l : LoginRateLimiter) (now : ℚ)
    (ip username : Text) (kind : BucketKind) (key : Text) :
    (l.recordFailure normalize now ip username).bucket kind key =
      if key = keyOf ip (normalize username) kind then l.prune (l.bucket kind key) now ++ [now]
      else l.bucket kind key :=
  bucket_touch l ip (normalize username) _ kind key

/-- A check prunes and adds nothing. -/
theorem fst_check (normalize : Text → Text) (l : LoginRateLimiter) (now : ℚ) (ip username : Text) :
    (l.check normalize now ip username).1 =
      l.touch ip (normalize username) fun bucket => l.prune bucket now := by
  rw [check]
  dsimp only
  split <;> rfl

end LoginRateLimiter

end RestreamPlus
