import TesserasDht.Code.Basic

/-!
# The rate limiter

`src/transport/rate_limit.rs`. An `f64` is read as the rational number it stands for, and an
`Instant` is a number of nanoseconds.
-/

namespace TesserasDht

inductive IpAddr
  | v4 (a b c d : UInt8)
  | v6 (ip : Ipv6Addr)
deriving DecidableEq, Repr

def SocketAddr.ip : SocketAddr → IpAddr
  | .v4 a b c d _ => .v4 a b c d
  | .v6 ip _ _ _ => .v6 ip

structure TokenBucket where
  tokens : ℚ
  lastRefill : Nat
  lastUsed : Nat

structure RateLimiter where
  buckets : IpAddr → Option TokenBucket
  ratePerSecond : UInt32
  burst : UInt32

namespace RateLimiter

def new (ratePerSecond burst : UInt32) : RateLimiter :=
  { buckets := fun _ => none, ratePerSecond, burst }

def check (now : Nat) (ip : IpAddr) (l : RateLimiter) : Bool × RateLimiter :=
  let rate : ℚ := l.ratePerSecond.toNat
  let burst : ℚ := l.burst.toNat
  let bucket := (l.buckets ip).getD ⟨burst, now, now⟩
  let elapsed : ℚ := (now - bucket.lastRefill : Nat) / 10 ^ 9
  let tokens := min (bucket.tokens + elapsed * rate) burst
  if 1 ≤ tokens then
    (true, { l with buckets := Function.update l.buckets ip (some ⟨tokens - 1, now, now⟩) })
  else
    (false, { l with buckets := Function.update l.buckets ip (some ⟨tokens, now, now⟩) })

def cleanup (now maxIdle : Nat) (l : RateLimiter) : RateLimiter :=
  { l with buckets := fun ip => (l.buckets ip).filter fun bucket => now - bucket.lastUsed < maxIdle }

end RateLimiter

end TesserasDht
