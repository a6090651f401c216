import Verdix.Enrichment.RateLimiter
import Verdix.Lib.TokenBucket

/-!
# What the rate limiter lets through

The loop of `acquire` is over after one sleep (`acquireLoop_eq`), so the limiter is a token bucket
that starts full.  `acquire_windows_iff`: it keeps its limit in every window of length `period`
exactly when the limit is one, or the calls keep it by themselves.
-/

open TokenBucket SlidingWindow

namespace Verdix.RateLimiter

variable {cfg : RateLimiterConfig} {now t₀ : ℚ} {calls : List ℚ}

/-- The limiter as a bucket. -/
def toBucket (rl : RateLimiter) : Bucket ℚ := ⟨rl.tokens, rl.lastRefill⟩

theorem tokens_refill (rl : RateLimiter) :
    (rl.refill cfg now).tokens = fill cfg.rate cfg.period rl.toBucket now := rfl

/-- After the sleep there is exactly one token. -/
theorem tokens_after_sleep (rl : RateLimiter) (hrate : 1 ≤ cfg.rate) (hperiod : 0 < cfg.period)
    (wait : ℚ) (hwait : wait = (1 - rl.tokens) * (cfg.period / cfg.rate)) :
    (rl.refill cfg (rl.lastRefill + wait)).tokens = 1 := by
  have hrate' : (0 : ℚ) < cfg.rate := by exact_mod_cast hrate
  have hgain : rl.tokens + (rl.lastRefill + wait - rl.lastRefill) * (cfg.rate / cfg.period) = 1 := by
    rw [hwait]
    field_simp
    ring
  have hone : (1 : ℚ) ≤ cfg.rate := by exact_mod_cast hrate
  unfold refill
  dsimp only
  rw [hgain, min_eq_right hone]

/-- Two rounds of the loop are enough, and they take a token as a bucket does. -/
theorem acquireLoop_eq (rl : RateLimiter) (now : ℚ) (hrate : 1 ≤ cfg.rate)
    (hperiod : 0 < cfg.period) (fuel : ℕ) :
    ∃ rl', rl.acquireLoop cfg (fuel + 2) now =
        some ((take cfg.rate cfg.period rl.toBucket now).1, rl') ∧
      rl'.toBucket = (take cfg.rate cfg.period rl.toBucket now).2 := by
  rw [acquireLoop, take, ← tokens_refill]
  dsimp only
  split
  · exact ⟨_, rfl, rfl⟩
  · rename_i hlow
    have hone := tokens_after_sleep (rl.refill cfg now) hrate hperiod _ rfl
    rw [acquireLoop]
    dsimp only
    have hlast : (rl.refill cfg now).lastRefill = now := rfl
    rw [hlast] at hone
    rw [hone, if_pos le_rfl]
    exact ⟨_, rfl, by rw [toBucket, sub_self]; rfl⟩

/-- The calls of a list return as a bucket serves them. -/
theorem acquireAll_eq (rl : RateLimiter) (hrate : 1 ≤ cfg.rate) (hperiod : 0 < cfg.period)
    (fuel : ℕ) :
    acquireAll cfg (fuel + 2) rl.lastRefill rl calls =
      some (serve cfg.rate cfg.period rl.toBucket calls) := by
  induction calls generalizing rl with
  | nil => rfl
  | cons call calls ih =>
    obtain ⟨rl', hloop, hbucket⟩ :=
      acquireLoop_eq rl (max call rl.lastRefill) hrate hperiod fuel
    have hlast : rl'.lastRefill =
        (take cfg.rate cfg.period rl.toBucket (max call rl.lastRefill)).1 := by
      rw [← take_last, ← hbucket]
      rfl
    have hrest := ih rl'
    rw [acquireAll, hloop]
    simp only [Option.bind_eq_bind, Option.bind_some, ← hlast, hrest, serve]
    rw [hbucket, hlast]
    rfl

/-- The calls all return, and no half-open window of length `period` has more than `rate` returns,
exactly when `rate` is one or no such window has more than `rate` calls. -/
theorem acquire_windows_iff (hrate : 1 ≤ cfg.rate) (hperiod : 0 < cfg.period)
    (hcalls : (t₀ :: calls).Pairwise (· ≤ ·)) (fuel : ℕ) :
    ∃ returns, acquireAll cfg (fuel + 2) t₀ (init cfg t₀) calls = some returns ∧
      returns.length = calls.length ∧
      ((∀ w, inWindow cfg.period returns w ≤ cfg.rate) ↔
        cfg.rate = 1 ∨ ∀ w, inWindow cfg.period calls w ≤ cfg.rate) := by
  refine ⟨_, acquireAll_eq (init cfg t₀) hrate hperiod fuel, length_serve, ?_⟩
  rw [forall_inWindow_le_iff (serve_pairwise hrate hperiod _ _),
    forall_inWindow_le_iff (List.pairwise_cons.mp hcalls).2]
  exact serve_spaced_iff hrate hperiod hcalls

/-- A call every 20 seconds. -/
theorem acquire_windows_steady :
    ∃ returns, acquireAll .freeTier 2 0 (init .freeTier 0) [0, 20, 40, 60, 80] = some returns ∧
      returns.length = 5 ∧
      ((∀ w, inWindow 60 returns w ≤ 4) ↔
        4 = 1 ∨ ∀ w : ℚ, inWindow 60 [0, 20, 40, 60, 80] w ≤ 4) :=
  acquire_windows_iff (show 1 ≤ RateLimiterConfig.freeTier.rate by decide)
    (show 0 < RateLimiterConfig.freeTier.period by decide +kernel)
    (show ([0, 0, 20, 40, 60, 80] : List ℚ).Pairwise (· ≤ ·) by decide +kernel) 0

/-- Four calls take the tokens of the full bucket, and fifteen seconds later there is one more. -/
theorem five_in_a_minute :
    ∃ returns, acquireAll .freeTier 2 0 (init .freeTier 0) [0, 0, 0, 0, 0] = some returns ∧
      inWindow 60 returns 0 = 5 :=
  ⟨[0, 0, 0, 0, 15], by decide +kernel, by decide +kernel⟩

end Verdix.RateLimiter
