import Verdix.Ingestion.Status

/-!
# What the endpoints say about ingestion

The answers of `/health`, `/api/health` and `/api/queue-depth`, as far as they come from the
`IngestionStatus` that the pipeline shares with the application.
-/

namespace Verdix.Web

/-- `a or b` for texts: the first one that is there and not empty. -/
def firstText : List (Option String) → String → String
  | [], default => default
  | some s :: rest, default => if s ≠ "" then s else firstText rest default
  | none :: rest, default => firstText rest default

/-- The answer of `/health`. -/
structure Liveness where
  statusCode : ℕ
  status : String
  reason : Option String
  deriving DecidableEq

/-- `liveness`. -/
def liveness (status : IngestionStatus) : Liveness :=
  if status.state ≠ .red then ⟨200, "ok", none⟩
  else ⟨503, "red",
    some (firstText [status.blockedReason, status.lastError] "ingestion pipeline is red")⟩

/-- An item of the health check. -/
structure CheckItem where
  name : String
  status : String
  detail : String
  deriving DecidableEq

/-- `_check_ingestion`. -/
def checkIngestion (status : IngestionStatus) : CheckItem :=
  if status.state = .red then
    let reason := firstText [status.blockedReason, status.lastError] "unknown error"
    let since := match status.stateChangedAt with
      | some t => t.isoformat
      | none => "unknown"
    ⟨"Ingestion pipeline", "error", "Red since " ++ since ++ " — " ++ reason⟩
  else ⟨"Ingestion pipeline", "ok", "Green — reading eve.json normally"⟩

/-- The `ingestion` member of the answer of `/api/queue-depth`. -/
def queueDepthIngestion (status : IngestionStatus) : String × Option String :=
  if status.state = .red then
    ("red", some (firstText [status.blockedReason, status.lastError] "ingestion pipeline is red"))
  else ("green", none)

/-- None of the three reports ingestion as green. -/
def ReportsRed (status : IngestionStatus) : Prop :=
  (liveness status).statusCode = 503 ∧ (checkIngestion status).status = "error" ∧
    (queueDepthIngestion status).1 = "red"

/-- All three go by the state. -/
theorem reportsRed_iff {status : IngestionStatus} : ReportsRed status ↔ status.state = .red := by
  unfold ReportsRed liveness checkIngestion queueDepthIngestion
  by_cases h : status.state = .red
  · simp [h]
  · simp [h]

end Verdix.Web
