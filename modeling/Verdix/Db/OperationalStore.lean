import Verdix.Db.Models

/-!
# The operational store

`SQLiteOperationalStore` on the verdicts table and the alert columns it links.  Every function is
one transaction.
-/

namespace Verdix.OperationalStore

/-- `record_verdict`; a second row with its primary key is refused. -/
def recordVerdict (db : Db) (verdict : Verdict) : Except PyError Db :=
  match db.verdicts.insert? verdict with
  | some verdicts => .ok { db with verdicts := verdicts }
  | none => .error .integrityError

/-- `mark_previous_verdicts_superseded`. -/
def markPreviousVerdictsSuperseded (db : Db) (alertId : String) : Db :=
  { db with
    verdicts := db.verdicts.update (fun v => v.alertId = alertId && v.isCurrent)
      (fun v => { v with isCurrent := false }) fun _ => rfl }

/-- `get_verdict`. -/
def getVerdict (db : Db) (verdictId : String) : Option Verdict := db.verdicts.find? verdictId

/-- `get_current_verdict_for_alert`. -/
def getCurrentVerdictForAlert (db : Db) (alertId : String) : Option Verdict :=
  db.verdicts.rows.find? fun v => v.alertId = alertId && v.isCurrent

/-- `link_verdict_to_alert`. -/
def linkVerdictToAlert (db : Db) (alertId verdictId : String) : Db :=
  { db with
    alerts := db.alerts.update (fun a => a.alertId = alertId)
      (fun a => { a with verdictId := some verdictId, status := .analyzed, autoAnalyzed := true })
      fun _ => rfl }

end Verdix.OperationalStore
