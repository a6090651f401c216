import Verdix.Lib.Python
import Verdix.Lib.TransitionSystem
import Mathlib.Algebra.Order.Ring.Rat
import Mathlib.Logic.Function.Basic

/-!
# Login and its lockout

`post_login` with `_client_ip`, and the functions of `auth.py` that it calls.  The handler does not
await anything, so a call is one step; the clock goes on while it runs, and is read where the source
reads it.
-/

namespace Verdix

/-- `_LOCKOUT_SECONDS`. -/
def lockoutSeconds : ℚ := 60

/-- `_MAX_FAILURES`. -/
def maxFailures : ℕ := 5

/-- A value of `_lockout`. -/
structure LockoutEntry where
  failures : ℕ
  lockedUntil : ℚ

/-- `_lockout`. -/
abbrev Lockout : Type := String → Option LockoutEntry

namespace Login

/-- The clock during a call, in seconds since the epoch. -/
structure Clock where
  /-- In `check_lockout`. -/
  check : ℚ
  /-- When `verify_password` runs. -/
  verify : ℚ
  /-- In `record_failure`, compared with the end of a lock. -/
  expiry : ℚ
  /-- In `record_failure`, where a lock starts. -/
  lock : ℚ
  /-- At the end of the call, for `remaining`. -/
  answer : ℚ
  check_nonneg : 0 ≤ check
  check_le_verify : check ≤ verify
  verify_le_expiry : verify ≤ expiry
  expiry_le_lock : expiry ≤ lock
  lock_le_answer : lock ≤ answer

/-- What the handler reads of a request. -/
structure Request where
  /-- The header `X-Forwarded-For`. -/
  forwarded : Option String
  /-- `request.client.host`. -/
  client : Option String
  password : String
  clock : Clock

/-- `_client_ip`. -/
def clientIp (request : Request) : String :=
  match request.forwarded with
  | some forwarded =>
    if forwarded ≠ "" then PyStr.strip ((PyStr.split ',' forwarded).headD "")
    else request.client.getD "unknown"
  | none => request.client.getD "unknown"

/-- `verify_password`, with the value of `VX_ADMIN_PASSWORD`. -/
def verifyPassword (expected password : String) : Bool :=
  if expected = "" then false else password == expected

/-- `check_lockout`. -/
def checkLockout (lockout : Lockout) (ip : String) (now : ℚ) : Option ℚ :=
  match lockout ip with
  | none => none
  | some entry =>
    if entry.lockedUntil ≠ 0 ∧ now < entry.lockedUntil then some entry.lockedUntil else none

/-- The first `if` of `record_failure`: a lock that is over is forgotten. -/
def expire (entry : LockoutEntry) (now : ℚ) : LockoutEntry :=
  if entry.lockedUntil ≠ 0 ∧ entry.lockedUntil < now then ⟨0, 0⟩ else entry

/-- What `record_failure` does to an entry, and the `locked_until` that it returns. -/
def record (entry : LockoutEntry) (clock : Clock) : LockoutEntry × Option ℚ :=
  let entry := expire entry clock.expiry
  let failures := entry.failures + 1
  if maxFailures ≤ failures then
    let lockedUntil := clock.lock + lockoutSeconds
    (⟨failures, lockedUntil⟩, some lockedUntil)
  else
    (⟨failures, entry.lockedUntil⟩, none)

/-- `record_failure`. -/
def recordFailure (lockout : Lockout) (ip : String) (clock : Clock) : (ℕ × Option ℚ) × Lockout :=
  let (entry, lockedUntil) := record ((lockout ip).getD ⟨0, 0⟩) clock
  ((entry.failures, lockedUntil), Function.update lockout ip (some entry))

/-- `clear_failures`. -/
def clearFailures (lockout : Lockout) (ip : String) : Lockout := Function.update lockout ip none

/-- What `post_login` returns. -/
inductive Response
  /-- `login.html` with `locked`. -/
  | locked (statusCode : ℕ) (remaining : ℕ)
  /-- `login.html` with `error`. -/
  | error (statusCode : ℕ) (error : String)
  /-- The redirect, with the user that the session now has. -/
  | redirect (statusCode : ℕ) (url user : String)
  deriving DecidableEq

/-- `max(0, int(locked_until - time.time()))`. -/
def remaining (lockedUntil now : ℚ) : ℕ := (lockedUntil - now).floor.toNat

/-- The effects of a call of `post_login`. -/
structure Outcome where
  /-- The result of `verify_password`, if it is called. -/
  checked : Option Bool
  /-- Until when the call locks its key out, if it does. -/
  locks : Option ℚ
  response : Response
  lockout : Lockout

/-- `post_login`. -/
def postLogin (expected : String) (lockout : Lockout) (request : Request) : Outcome :=
  let ip := clientIp request
  match checkLockout lockout ip request.clock.check with
  | some lockedUntil =>
    ⟨none, none, .locked 429 (remaining lockedUntil request.clock.answer), lockout⟩
  | none =>
    if verifyPassword expected request.password then
      ⟨some true, none, .redirect 303 "/queue" "admin", clearFailures lockout ip⟩
    else
      match recordFailure lockout ip request.clock with
      | ((_, some lockedUntil), lockout) =>
        ⟨some false, some lockedUntil,
          .locked 429 (remaining lockedUntil request.clock.answer), lockout⟩
      | ((_, none), lockout) => ⟨some false, none, .error 401 "incorrect_password", lockout⟩

end Login

/-- The process: the dictionary, and the time when the last call ended. -/
structure Login where
  lockout : Lockout
  now : ℚ

namespace Login

/-- Nobody has tried yet. -/
def init : Login := ⟨fun _ => none, 0⟩

/-- A call starts when the one before it has ended. -/
def step (expected : String) (s : Login) (request : Request) : Option Login :=
  if s.now ≤ request.clock.check then
    some ⟨(postLogin expected s.lockout request).lockout, request.clock.answer⟩
  else
    none

end Login

end Verdix
