import Verdix.Db.EventStore
import Verdix.Db.OperationalStore
import Verdix.Lib.KeyGroups

/-!
# The rows of the queue page

`_query_rows_for`, which `/queue` and `/api/queue-rows` share: the alerts of the window, one row for
each group of them, newest first.
-/

namespace Verdix

/-- Python's truth value of a column. -/
def SqlValue.truthy : SqlValue → Bool
  | .null => false
  | .integer n => n ≠ 0
  | .real l => (Json.float l).truthy
  | .text s => s ≠ ""

/-- `a or b`. -/
def SqlValue.orElse (a b : SqlValue) : SqlValue := if a.truthy then a else b

namespace QueueRows

/-! ### Windows and filters -/

/-- The keys of `_WINDOW_HOURS`: `24h`, `7d` and `30d`. -/
inductive Window
  | hours24
  | days7
  | days30
  deriving DecidableEq

/-- `_WINDOW_HOURS`. -/
def windowHours : Window → ℕ
  | .hours24 => 24
  | .days7 => 168
  | .days30 => 720

/-- `_VALID_STATUS_FILTERS`. -/
inductive StatusFilter
  | all
  | analyzed
  | deferred
  | queued
  deriving DecidableEq

/-- `None if status == "all" else status`. -/
def StatusFilter.status? : StatusFilter → Option Status
  | .all => none
  | .analyzed => some .analyzed
  | .deferred => some .deferred
  | .queued => some .queued

/-- `_normalize_window_status`. -/
def normalizeWindowStatus (window status : String) : Window × StatusFilter :=
  (match window with
    | "7d" => .days7
    | "30d" => .days30
    | _ => .hours24,
  match status with
    | "analyzed" => .analyzed
    | "deferred" => .deferred
    | "queued" => .queued
    | _ => .all)

/-! ### Groups -/

/-- The columns of `alerts` that only the page reads. -/
structure AlertColumns where
  signatureMsg : SqlValue
  signatureSeverity : SqlValue
  srcPort : SqlValue
  dstPort : SqlValue
  proto : SqlValue
  appProto : SqlValue
  eventTimestamp : SqlValue
  dispositionId : SqlValue
  attackerRole : SqlValue
  victimRole : SqlValue
  deriving DecidableEq

/-- `(sig_id, src_ip, dst_ip, hour_bucket)`. -/
structure GroupKey where
  signatureId : SqlValue
  srcIp : SqlValue
  dstIp : SqlValue
  bucket : Datetime
  deriving DecidableEq

/-- The key an alert is grouped by; its `ingest_timestamp` is there and parses. -/
def groupKey (a : Alert) : GroupKey :=
  ⟨a.signatureId, a.srcIp, a.dstIp, a.ingestTimestamp.startOfHour⟩

/-- The sort key of an alert. -/
def ingestText (a : Alert) : String := a.ingestTimestamp.isoformat

/-! ### Verdicts -/

/-- `verdict_map`, the verdicts that the alerts link to. -/
def verdictMap (getVerdict : String → Option Verdict) (alerts : List Alert) :
    List (String × Verdict) :=
  alerts.foldl (fun verdicts a =>
    match a.verdictId with
    | none => verdicts
    | some vid =>
      if vid ≠ "" ∧ (verdicts.lookup vid).isNone then
        match getVerdict vid with
        | some v => verdicts ++ [(vid, v)]
        | none => verdicts
      else verdicts) []

/-- `verdict_map.get(m["verdict_id"])`. -/
def verdictOf (verdicts : List (String × Verdict)) (m : Alert) : Option Verdict :=
  m.verdictId.bind fun vid => verdicts.lookup vid

/-- `_VERDICT_LABELS`, and the category itself where it has no label. -/
def verdictLabel (category : String) : String :=
  match category with
  | "likely_tp" => "TP"
  | "suspicious_investigate" => "Investigate"
  | "likely_fp" => "FP"
  | _ => category

/-- `Counter(categories).most_common()` with the labels. -/
def verdictBreakdown (categories : List String) : List (String × ℕ) :=
  let counts := (KeyGroup.groupBy id categories).map fun g => (g.first, g.members.length)
  (counts.insertionSort fun x y => y.2 ≤ x.2).map fun (category, n) => (verdictLabel category, n)

/-- What a row says about the verdicts of its group. -/
structure GroupVerdict where
  verdictMixed : Bool
  verdictBreakdown : List (String × ℕ)
  verdict : Option Verdict
  linkId : String

/-- The verdict of the newest analyzed member, unless the members disagree. -/
def groupVerdict (verdicts : List (String × Verdict)) (rep : Alert) (members : List Alert) :
    GroupVerdict :=
  let analyzed := members.filter fun m => m.verdictId.any fun vid => vid ≠ ""
  match analyzed.argmax ingestText with
  | none => ⟨false, [], none, rep.alertId⟩
  | some verdictMember =>
    let categories := (analyzed.filterMap fun m =>
      (verdictOf verdicts m).map Verdict.verdictCategory).filter fun c => c ≠ ""
    let verdictMixed : Bool := 1 < categories.dedup.length
    ⟨verdictMixed, if verdictMixed then verdictBreakdown categories else [],
      verdictOf verdicts verdictMember, verdictMember.alertId⟩

/-! ### Rows -/

/-- `_STATUS_RANK`. -/
def statusRank : Status → ℕ
  | .analyzed => 5
  | .analyzing => 4
  | .queued => 3
  | .failed => 2
  | .deferred => 1

/-- A row of the page. -/
structure QueueRow where
  alertId : String
  count : ℕ
  signatureMsg : SqlValue
  signatureSeverity : SqlValue
  srcIp : SqlValue
  dstIp : SqlValue
  srcPort : SqlValue
  dstPort : SqlValue
  proto : SqlValue
  appProto : SqlValue
  eventTimestamp : SqlValue
  ingestTimestamp : Datetime
  status : Status
  verdictCategory : Option String
  confidenceScore : Option String
  verdictMixed : Bool
  verdictBreakdown : List (String × ℕ)
  dispositionId : SqlValue
  attackerIp : SqlValue
  victimIp : SqlValue
  deriving DecidableEq

/-- The row of a group; most of it is about the newest member, `rep`. -/
def queueRow (verdicts : List (String × Verdict)) (columns : String → AlertColumns)
    (g : KeyGroup groupKey) : QueueRow :=
  let rep := g.maxBy ingestText
  let repColumns := columns rep.alertId
  let bubbled := groupVerdict verdicts rep g.members
  let shown := if bubbled.verdictMixed then none else bubbled.verdict
  { alertId := bubbled.linkId
    count := g.members.length
    signatureMsg := repColumns.signatureMsg.orElse (.text "Unknown signature")
    signatureSeverity := repColumns.signatureSeverity
    srcIp := rep.srcIp.orElse (.text "?")
    dstIp := rep.dstIp.orElse (.text "?")
    srcPort := repColumns.srcPort
    dstPort := repColumns.dstPort
    proto := repColumns.proto
    appProto := repColumns.appProto
    eventTimestamp := repColumns.eventTimestamp
    ingestTimestamp := rep.ingestTimestamp
    status := (g.maxBy fun a => statusRank a.status).status
    verdictCategory := shown.map Verdict.verdictCategory
    confidenceScore := shown.map Verdict.confidenceScore
    verdictMixed := bubbled.verdictMixed
    verdictBreakdown := bubbled.verdictBreakdown
    dispositionId := repColumns.dispositionId
    attackerIp := repColumns.attackerRole
    victimIp := repColumns.victimRole }

/-- Newest first by `ingest_timestamp`. -/
def byNewest (x y : QueueRow) : Prop := y.ingestTimestamp.isoformat ≤ x.ingestTimestamp.isoformat

instance : DecidableRel byNewest := fun x y =>
  inferInstanceAs (Decidable (y.ingestTimestamp.isoformat ≤ x.ingestTimestamp.isoformat))

instance : Std.Total byNewest :=
  ⟨fun x y => le_total y.ingestTimestamp.isoformat x.ingestTimestamp.isoformat⟩

instance : IsTrans QueueRow byNewest := ⟨fun _ _ _ hxy hyz => le_trans hyz hxy⟩

/-- `_build_queue_rows`. -/
def buildQueueRows (getVerdict : String → Option Verdict) (columns : String → AlertColumns)
    (alerts : List Alert) : List QueueRow :=
  let verdicts := verdictMap getVerdict alerts
  ((KeyGroup.groupBy groupKey alerts).map (queueRow verdicts columns)).insertionSort byNewest

/-- The `limit` of the query. -/
def queryLimit : ℕ := 2000

/-- `query_alerts` for the alerts since `since` with the status of the filter. -/
def queriedAlerts (db : Db) (order : ScanOrder Alert) (since : Datetime) (status : StatusFilter) :
    List Alert :=
  EventStore.queryAlerts db order (some since) none status.status? none queryLimit 0

/-- `_query_rows_for`, the rows and the number of alerts in them. -/
def queryRowsFor (db : Db) (columns : String → AlertColumns) (order : ScanOrder Alert)
    (now : Datetime) (window : Window) (status : StatusFilter) :
    Except PyError (List QueueRow × ℕ) :=
  match now.sub? (usPerHour * windowHours window) with
  | none => .error .overflowError
  | some since =>
    let alerts := queriedAlerts db order since status
    .ok (buildQueueRows (OperationalStore.getVerdict db) columns alerts, alerts.length)

/-- `get_queue_rows`: the rows and their `X-Queue-Total`; `none` is the answer 401. -/
def getQueueRows (db : Db) (columns : String → AlertColumns) (order : ScanOrder Alert)
    (now : Datetime) (authenticated : Bool) (window status : String) :
    Except PyError (Option (List QueueRow × ℕ)) :=
  if authenticated then
    let (window, status) := normalizeWindowStatus window status
    (queryRowsFor db columns order now window status).map some
  else .ok none

end QueueRows

end Verdix
