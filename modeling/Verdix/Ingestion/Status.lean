import Verdix.Lib.Datetime

/-!
# Ingestion health

`IngestionStatus`: green while reads succeed or fail only now and then, red after five failures in
a row.
-/

namespace Verdix

/-- The `state` of the status. -/
inductive Health
  | green
  | red
  deriving DecidableEq

structure IngestionStatus where
  state : Health
  consecutiveFailures : ℕ
  lastError : Option String
  lastSuccessAt : Option Datetime
  stateChangedAt : Option Datetime
  blockedReason : Option String

namespace IngestionStatus

def redThreshold : ℕ := 5

/-- A new status. -/
def init : IngestionStatus := ⟨.green, 0, none, none, none, none⟩

/-- `record_success`; the flag says that the state went back to green. -/
def recordSuccess (status : IngestionStatus) (now : Datetime) : IngestionStatus × Bool :=
  let transitioned : Bool := status.state = .red
  ({ status with
      consecutiveFailures := 0
      lastSuccessAt := some now
      lastError := none
      state := if transitioned then .green else status.state
      stateChangedAt := if transitioned then some now else status.stateChangedAt }, transitioned)

/-- `record_failure`; the flag says that the state went to red. -/
def recordFailure (status : IngestionStatus) (now : Datetime) (error : String) :
    IngestionStatus × Bool :=
  let failures := status.consecutiveFailures + 1
  let transitioned : Bool := redThreshold ≤ failures ∧ status.state ≠ .red
  ({ status with
      consecutiveFailures := failures
      lastError := some error
      state := if transitioned then .red else status.state
      stateChangedAt := if transitioned then some now else status.stateChangedAt }, transitioned)

end IngestionStatus

end Verdix
