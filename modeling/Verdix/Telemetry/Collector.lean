import Mathlib.Data.List.Sort
import Verdix.Db.DispositionStore

/-!
# The metrics of a feedback submission

`collect_metrics`: counts over the alerts, the current verdicts and the dispositions.  The quotient
that is rounded to three digits is a parameter.
-/

namespace Verdix.Telemetry

/-- `SubmissionMetrics`, with its defaults. -/
structure SubmissionMetrics where
  alertsProcessedTotal : ℕ := 0
  verdictsLikelyFp : ℕ := 0
  verdictsSuspicious : ℕ := 0
  verdictsLikelyTp : ℕ := 0
  agreementRate : Option ℚ := none
  latencyP95Ms : Option ℤ := none

/-- The current verdicts. -/
def currentVerdicts (db : Db) : List Verdict := db.verdicts.rows.filter Verdict.isCurrent

/-- `dist.get(category, 0)`. -/
def dist (db : Db) (category : String) : ℕ :=
  (currentVerdicts db).countP fun v => v.verdictCategory = category

/-- `SELECT latency_ms … WHERE is_current = 1 AND latency_ms > 0 ORDER BY latency_ms`. -/
def latencies (db : Db) : List ℤ :=
  (((currentVerdicts db).map Verdict.latencyMs).filter (0 < ·)).insertionSort (· ≤ ·)

/-- `max(0, int(n * 0.95) - 1)`. -/
def p95Idx (n : ℕ) : ℕ := 19 * n / 20 - 1

/-- `latencies[min(idx, len(latencies) - 1)]`, if there are any. -/
def p95Ms (latencies : List ℤ) : Option ℤ :=
  latencies[min (p95Idx latencies.length) (latencies.length - 1)]?

/-- `collect_metrics`; without `store` a statement has raised.  `rate a b` is `round(a / b, 3)`. -/
def collectMetrics (rate : ℕ → ℕ → ℚ) (store : Option (Db × Dispositions)) : SubmissionMetrics :=
  match store with
  | none => {}
  | some (db, dispositions) =>
    let accepted := dispositions.rows.countP fun d => d.dispositionAction = "accept"
    let total := dispositions.rows.length
    { alertsProcessedTotal := db.alerts.rows.countP fun a => a.status = .analyzed
      verdictsLikelyFp := dist db "likely_fp"
      verdictsSuspicious := dist db "suspicious_investigate"
      verdictsLikelyTp := dist db "likely_tp"
      agreementRate := if 0 < total then some (rate accepted total) else none
      latencyP95Ms := p95Ms (latencies db) }

end Verdix.Telemetry
