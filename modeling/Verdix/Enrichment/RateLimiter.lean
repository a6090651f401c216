import Mathlib.Algebra.Order.Ring.Rat

/-!
# The rate limiter of the VirusTotal client

`RateLimiter` in exact arithmetic: times and tokens are rational numbers, and `asyncio.sleep` wakes
when it is due.  `acquire` holds the lock while it sleeps, so the calls are served one after the
other in the order in which they come.
-/

namespace Verdix

/-- The arguments of `__init__`. -/
structure RateLimiterConfig where
  rate : ℕ
  period : ℚ

/-- Their defaults: 4 requests per minute. -/
def RateLimiterConfig.freeTier : RateLimiterConfig := ⟨4, 60⟩

structure RateLimiter where
  tokens : ℚ
  lastRefill : ℚ

namespace RateLimiter

variable (cfg : RateLimiterConfig)

/-- The state `__init__` leaves at `now`. -/
def init (now : ℚ) : RateLimiter := ⟨cfg.rate, now⟩

/-- The refill at the top of the loop. -/
def refill (now : ℚ) (rl : RateLimiter) : RateLimiter where
  tokens := min cfg.rate (rl.tokens + (now - rl.lastRefill) * (cfg.rate / cfg.period))
  lastRefill := now

/-- The loop of `acquire`, entered at `now`: when it returns. -/
def acquireLoop : ℕ → ℚ → RateLimiter → Option (ℚ × RateLimiter)
  | 0, _, _ => none
  | fuel + 1, now, rl =>
    let rl := rl.refill cfg now
    if 1 ≤ rl.tokens then
      some (now, { rl with tokens := rl.tokens - 1 })
    else
      let deficit := 1 - rl.tokens
      let wait := deficit * (cfg.period / cfg.rate)
      acquireLoop fuel (now + wait) rl

/-- `acquire`, called at the times of a list: when the calls return.  `free` is the time from which
the lock is free. -/
def acquireAll (fuel : ℕ) : ℚ → RateLimiter → List ℚ → Option (List ℚ)
  | _, _, [] => some []
  | free, rl, call :: calls => do
    let (granted, rl) ← rl.acquireLoop cfg fuel (max call free)
    let rest ← acquireAll fuel granted rl calls
    return granted :: rest

end RateLimiter

end Verdix
