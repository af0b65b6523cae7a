import Mathlib.Tactic

/-!
# The rate limiter of the ingest route

`rate_limit.rs`, with exact rational numbers for its `f64`s.
-/

namespace Errex.Model.RateLimit

/-- `std::time::Instant`, in nanoseconds since some moment before the daemon's start. -/
structure Instant where
  nanos : Nat
  deriving DecidableEq

def Instant.secondsSince (now earlier : Instant) : ℚ := ((now.nanos - earlier.nanos : Nat) : ℚ) / 1000000000

structure TokenBucket where
  tokens : ℚ
  lastRefill : Instant
  deriving DecidableEq

def TokenBucket.new (capacity : ℚ) (now : Instant) : TokenBucket := ⟨capacity, now⟩

def TokenBucket.tryAcquire (bucket : TokenBucket) (capacity refillPerSec : ℚ) (now : Instant) :
    Bool × TokenBucket :=
  let elapsed := now.secondsSince bucket.lastRefill
  let bucket := if 0 < elapsed then ⟨min (bucket.tokens + elapsed * refillPerSec) capacity, now⟩ else bucket
  if 1 ≤ bucket.tokens then (true, { bucket with tokens := bucket.tokens - 1 }) else (false, bucket)

structure RateLimiter where
  buckets : String → Option TokenBucket
  capacity : ℚ
  refillPerSec : ℚ

namespace RateLimiter

def new (perMin burst : UInt32) : RateLimiter where
  buckets _ := none
  capacity := (max burst 1).toNat
  refillPerSec := perMin.toNat / 60

def enabled (limiter : RateLimiter) : Bool := decide (0 < limiter.refillPerSec)

def check (limiter : RateLimiter) (project : String) (now : Instant) : Bool × RateLimiter :=
  if !limiter.enabled then (true, limiter)
  else
    let bucket := (limiter.buckets project).getD (.new limiter.capacity now)
    let (granted, bucket) := bucket.tryAcquire limiter.capacity limiter.refillPerSec now
    (granted, { limiter with buckets := Function.update limiter.buckets project (some bucket) })

end RateLimiter

end Errex.Model.RateLimit
