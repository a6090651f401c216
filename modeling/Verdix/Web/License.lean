import Verdix.Lib.TransitionSystem

/-!
# The license gate

`check_license_accepted`, which every request goes through, and `post_license`.  A step of the model
is the work of one call between two `await`s; the flag that the process keeps is written by whichever
call resumes.
-/

namespace Verdix

namespace License

/-- How a read of `eula_accepted` ends. -/
inductive Read
  | value (val : Option String)
  | raised
  deriving DecidableEq

/-- `val == "true"`, and `False` in the handler of an exception. -/
def Read.accepted : Read → Bool
  | value val => val = some "true"
  | raised => false

/-- A call of `check_license_accepted`. -/
inductive Check
  /-- In `get_config`. -/
  | reading
  /-- The read has ended and the call has not resumed. -/
  | resuming (read : Read)
  | returned (accepted : Bool)
  deriving DecidableEq

/-- A call of `post_license`. -/
inductive Handler
  /-- In `set_config("eula_accepted", "true")`. -/
  | accepting
  /-- In `set_config("eula_accepted_at", ..)`. -/
  | stamping
  /-- In `ensure_install_id`. -/
  | identifying
  | done (statusCode : ℕ)
  deriving DecidableEq

inductive Act
  | check
  /-- The store answers the read of call `i`. -/
  | fetch (i : ℕ)
  /-- The read of call `i` fails. -/
  | fail (i : ℕ)
  | resume (i : ℕ)
  | post (accepted : String)
  /-- The call that handler `j` waits for returns. -/
  | proceed (j : ℕ)
  /-- It raises, without effect. -/
  | raise (j : ℕ)

end License

structure License where
  /-- `_license_accepted`. -/
  licenseAccepted : Option Bool
  /-- The stored value of `eula_accepted`. -/
  eulaAccepted : Option String
  checks : List License.Check
  handlers : List License.Handler

namespace License

/-- A process that starts on a store. -/
def init (eulaAccepted : Option String) : License := ⟨none, eulaAccepted, [], []⟩

/-- The call that handler `j` waits for has returned. -/
def proceed (s : License) (j : ℕ) : Handler → Option License
  | .accepting =>
    some { s with eulaAccepted := some "true", handlers := s.handlers.set j .stamping }
  | .stamping => some { s with handlers := s.handlers.set j .identifying }
  | .identifying =>
    -- `mark_license_accepted`
    some { s with licenseAccepted := some true, handlers := s.handlers.set j (.done 303) }
  | .done _ => none

def step (s : License) : Act → Option License
  | .check =>
    match s.licenseAccepted with
    | some accepted => some { s with checks := s.checks ++ [.returned accepted] }
    | none => some { s with checks := s.checks ++ [.reading] }
  | .fetch i =>
    match s.checks[i]? with
    | some .reading =>
      some { s with checks := s.checks.set i (.resuming (.value s.eulaAccepted)) }
    | _ => none
  | .fail i =>
    match s.checks[i]? with
    | some .reading => some { s with checks := s.checks.set i (.resuming .raised) }
    | _ => none
  | .resume i =>
    match s.checks[i]? with
    | some (.resuming read) =>
      some { s with
        licenseAccepted := some read.accepted
        checks := s.checks.set i (.returned read.accepted) }
    | _ => none
  | .post accepted =>
    some { s with
      handlers := s.handlers ++ [if accepted = "true" then .accepting else .done 200] }
  | .proceed j => s.handlers[j]?.bind (proceed s j)
  | .raise j =>
    match s.handlers[j]? with
    | none | some (.done _) => none
    | _ => some { s with handlers := s.handlers.set j (.done 500) }

end License

end Verdix
