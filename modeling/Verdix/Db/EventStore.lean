import Verdix.Db.Models
import Verdix.Lib.Like

/-!
# The event store

`SQLiteEventStore` on the alerts table.  Every function is one transaction; the clock is read where
the source calls `datetime.now(UTC)` and comes in as `now`.
-/

namespace Verdix.EventStore

/-! ### Inserting alerts -/

/-- The row `insert_alert` writes for an EVE alert, stamped with the clock.  Its texts are taken as
ones that UTF-8 can encode: another one makes the insert raise, which every insert may do. -/
def alertRow (alertId : String) (now : Datetime) (alert : Json) (status : Status) :
    Except PyError Alert := do
  let alertFields ← alert.getD "alert" (.obj [])
  let signatureId ← alertFields.get "signature_id" >>= SqlValue.bind .none
  let srcIp ← alert.get "src_ip" >>= SqlValue.bind .none
  -- EVE says `dest_ip`, the column is `dst_ip`
  let dstIp ← alert.get "dest_ip" >>= SqlValue.bind .none
  return {
    alertId := alertId
    sensorId := 1
    signatureId := signatureId
    srcIp := srcIp
    dstIp := dstIp
    ingestTimestamp := now
    status := status
    autoAnalyzed := false
    verdictId := none }

/-- Commit the row of `insert_alert`; a second row with its primary key is refused. -/
def insertRow (db : Db) (row : Alert) : Except PyError Db :=
  match db.alerts.insert? row with
  | some alerts => .ok { db with alerts := alerts }
  | none => .error .integrityError

/-! ### Queries -/

/-- `get_alert`. -/
def getAlert (db : Db) (alertId : String) : Option Alert := db.alerts.find? alertId

/-- `ingest_timestamp ASC`. -/
def byIngest (a b : Alert) : Prop := a.ingestTimestamp.isoformat ≤ b.ingestTimestamp.isoformat

instance : DecidableRel byIngest := fun a b =>
  inferInstanceAs (Decidable (a.ingestTimestamp.isoformat ≤ b.ingestTimestamp.isoformat))

instance : Std.Total byIngest :=
  ⟨fun a b => le_total a.ingestTimestamp.isoformat b.ingestTimestamp.isoformat⟩

instance : IsTrans Alert byIngest := ⟨fun _ _ _ hab hbc => le_trans hab hbc⟩

/-- `query_alerts`, with every filter that is given. -/
def queryAlerts (db : Db) (order : ScanOrder Alert) (since until_ : Option Datetime)
    (status : Option Status) (sensorId : Option ℤ) (limit offset : ℕ) : List Alert :=
  db.alerts.select order
    (fun a =>
      (since.all fun t => t.isoformat ≤ a.ingestTimestamp.isoformat) &&
      (until_.all fun t => a.ingestTimestamp.isoformat ≤ t.isoformat) &&
      (status.all fun s => a.status = s) &&
      (sensorId.all fun n => a.sensorId = n))
    byIngest limit offset

/-- The reset instant `count_analyzed_today` counts from. -/
def resetTime (now : Datetime) (resetHour : Fin 24) : Datetime := now.replaceHour resetHour

/-- `count_analyzed_today`. -/
def countAnalyzedToday (db : Db) (now : Datetime) (resetHour : Fin 24) (sensorId : ℤ) : ℕ :=
  db.alerts.rows.countP fun a =>
    a.sensorId = sensorId && a.status ≠ .deferred &&
      (resetTime now resetHour).isoformat ≤ a.ingestTimestamp.isoformat

/-- `count_alerts_by_status`: one entry for each status that occurs. -/
def countAlertsByStatus (db : Db) (since : Option Datetime) : List (Status × ℕ) :=
  let statuses := (db.alerts.rows.filter fun a =>
    since.all fun t => t.isoformat ≤ a.ingestTimestamp.isoformat).map Alert.status
  statuses.dedup.map fun s => (s, statuses.count s)

/-- `update_alert_status`. -/
def updateAlertStatus (db : Db) (alertId : String) (status : Status) : Db :=
  { db with
    alerts := db.alerts.update (fun a => a.alertId = alertId)
      (fun a => { a with status := status }) fun _ => rfl }

/-! ### Deduplication -/

/-- The rows of `alerts JOIN verdicts ON verdicts.verdict_id = alerts.verdict_id`. -/
def joinVerdicts (db : Db) (order : ScanOrder Alert) : List (Alert × Verdict) :=
  (order.visit db.alerts.rows).flatMap fun a =>
    (db.verdicts.rows.filter fun v => some v.verdictId = a.verdictId).map fun v => (a, v)

/-- The pattern that an inherited verdict's `llm_inputs` matches. -/
def inheritedPattern : String := "%\"inherited_from\"%"

/-- `window_hours`. -/
def windowHours : ℕ := 1

/-- `find_recent_verdict_for_group` for a candidate ingested at `candidate`. -/
def findRecentVerdictForGroup (db : Db) (order : ScanOrder Alert)
    (signatureId srcIp dstIp : SqlValue) (candidate : Datetime) :
    Except PyError (Option String) :=
  if signatureId = .null ∨ srcIp = .null ∨ dstIp = .null then .ok none
  else
    match candidate.sub? (windowHours * usPerHour) with
    | none => .error .overflowError
    | some since =>
      let eligible := (joinVerdicts db order).filter fun (a, v) =>
        a.signatureId = signatureId && a.srcIp = srcIp && a.dstIp = dstIp &&
          a.status = .analyzed && a.verdictId.isSome &&
          since.isoformat ≤ a.ingestTimestamp.isoformat &&
          a.ingestTimestamp.isoformat ≤ candidate.isoformat &&
          !Like.like inheritedPattern.toList v.llmInputs.toList
      .ok ((eligible.insertionSort fun x y => byIngest y.1 x.1).head?.bind fun x => x.1.verdictId)

end Verdix.EventStore
