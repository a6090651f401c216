import Verdix.Lib.TransitionSystem
import Mathlib.Algebra.Order.Ring.Rat

/-!
# The circuit breaker

`AsyncCircuitBreaker`.  Its lock is held while the state is read or written and never across an
`await`, so a `call` takes two steps that nothing interrupts: it enters (`_check_reset`, the test of
the state, and the start of `func`), and its `func` ends (`_on_success` or `_on_failure`).  Any
number of other calls may take theirs in between: `Calls` is the system of them all.

The clock is `time.monotonic()` in seconds, read where the source reads it.
-/

namespace Verdix

/-- `_State`. -/
inductive CircuitState
  | closed
  | open_
  | halfOpen
  deriving DecidableEq

/-- The arguments of `__init__`. -/
structure BreakerConfig where
  failMax : ℕ
  resetTimeout : ℚ

structure AsyncCircuitBreaker where
  state : CircuitState
  failures : ℕ
  openedAt : ℚ

/-- The exception of a refused call. -/
structure CircuitBreakerOpen where
  message : String

namespace AsyncCircuitBreaker

variable (cfg : BreakerConfig) (now : ℚ) (cb : AsyncCircuitBreaker)

/-- The state `__init__` leaves. -/
def init : AsyncCircuitBreaker := ⟨.closed, 0, 0⟩

/-- `_check_reset`. -/
def checkReset : AsyncCircuitBreaker :=
  if cb.state = .open_ ∧ cfg.resetTimeout ≤ now - cb.openedAt then { cb with state := .halfOpen }
  else cb

/-- The first locked part of `call`. -/
def enter : Except CircuitBreakerOpen AsyncCircuitBreaker :=
  let cb := cb.checkReset cfg now
  if cb.state = .open_ then
    .error ⟨"Circuit breaker open (failures=" ++ toString cb.failures ++ ")"⟩
  else
    .ok cb

/-- `_on_success`. -/
def onSuccess : AsyncCircuitBreaker := { cb with failures := 0, state := .closed }

/-- `_on_failure`. -/
def onFailure : AsyncCircuitBreaker :=
  let failures := cb.failures + 1
  if cfg.failMax ≤ failures ∨ cb.state = .halfOpen then ⟨.open_, failures, now⟩
  else { cb with failures := failures }

/-! ### A call alone -/

/-- How a `call` ends: refused, or with what `func` raised or returned. -/
inductive CallResult (ε α : Type)
  | refused (e : CircuitBreakerOpen)
  | raised (e : ε)
  | returned (a : α)

/-- `call` with no other call in between; `func` ends at `ended`. -/
def call {ε α : Type} (ended : ℚ) (func : Except ε α) : CallResult ε α × AsyncCircuitBreaker :=
  match cb.enter cfg now with
  | .error e => (.refused e, cb)
  | .ok cb =>
    match func with
    | .ok a => (.returned a, cb.onSuccess)
    | .error e => (.raised e, cb.onFailure cfg ended)

/-! ### Calls that overlap -/

/-- How `func` ends.  Cancellation is no `Exception`, so neither update is made for it. -/
inductive Outcome
  | success
  | failure
  | cancelled
  deriving DecidableEq

/-- The second locked part of `call`. -/
def settle : Outcome → AsyncCircuitBreaker
  | .success => cb.onSuccess
  | .failure => cb.onFailure cfg now
  | .cancelled => cb

/-- A call whose `func` has started and not ended; it is a probe when the breaker was half open as
it was let in. -/
structure RunningCall where
  id : ℕ
  probe : Bool
  deriving DecidableEq

/-- The breaker, the last reading of the clock and the calls under way. -/
structure Calls where
  breaker : AsyncCircuitBreaker
  now : ℚ
  running : List RunningCall

/-- The steps of the calls, each with its reading of the clock. -/
inductive Act
  | call (i : ℕ) (t : ℚ)
  | finish (i : ℕ) (t : ℚ) (o : Outcome)

namespace Calls

def init (t : ℚ) : Calls := ⟨.init, t, []⟩

/-- The call numbered `i` is under way. -/
def IsRunning (s : Calls) (i : ℕ) : Prop := ∃ c ∈ s.running, c.id = i

instance (s : Calls) (i : ℕ) : Decidable (s.IsRunning i) :=
  inferInstanceAs (Decidable (∃ c ∈ s.running, c.id = i))

/-- A probe is under way. -/
def Probing (s : Calls) : Prop := ∃ c ∈ s.running, c.probe = true

instance (s : Calls) : Decidable s.Probing :=
  inferInstanceAs (Decidable (∃ c ∈ s.running, c.probe = true))

def step (cfg : BreakerConfig) (s : Calls) : Act → Option Calls
  | .call i t =>
    if s.now ≤ t ∧ ¬ s.IsRunning i then
      match s.breaker.enter cfg t with
      | .error _ => some { s with now := t }
      | .ok cb => some ⟨cb, t, s.running ++ [⟨i, cb.state = .halfOpen⟩]⟩
    else
      none
  | .finish i t o =>
    if s.now ≤ t ∧ s.IsRunning i then
      some ⟨s.breaker.settle cfg t o, t, s.running.filter fun c => c.id ≠ i⟩
    else
      none

end Calls

end AsyncCircuitBreaker

end Verdix
