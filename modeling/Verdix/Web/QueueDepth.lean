import Verdix.Db.EventStore
import Verdix.Web.Health

/-!
# The depth of the queue

`api_queue_depth`: how many alerts wait, as the queue page asks for it every fifteen seconds.  The
page's own header counts with `count_alerts_by_status`.
-/

namespace Verdix.QueueDepth

def defaultLatencyS : ℕ := 150

/-- The estimate of the time the queue is behind. -/
def timeBehind (queuedCount : ℕ) : Option String :=
  let estimatedSeconds := queuedCount * defaultLatencyS
  let hours := estimatedSeconds / 3600
  let minutes := estimatedSeconds % 3600 / 60
  if 0 < hours then
    if minutes ≠ 0 then
      some ("~" ++ toString hours ++ "h " ++ toString minutes ++ "min behind")
    else
      some ("~" ++ toString hours ++ "h behind")
  else if 0 < minutes then
    some ("~" ++ toString minutes ++ "min behind")
  else
    none

/-- The body of an answer with status 200. -/
structure Depth where
  analyzedToday : ℕ
  dailyCap : ℤ
  capHit : Bool
  queued : ℕ
  analyzing : ℕ
  deferred : ℕ
  failed : ℕ
  timeBehind : Option String
  ingestion : String × Option String

/-- The answer: 401, 500 with an error, or 200. -/
inductive Answer
  | unauthorized
  | error (text : String)
  | depth (body : Depth)

/-- `len(await store.query_alerts(status=status, limit=limit))`. -/
def queriedCount (db : Db) (order : ScanOrder Alert) (status : Status) (limit : ℕ) : ℕ :=
  (EventStore.queryAlerts db order none none (some status) none limit 0).length

/-- `api_queue_depth`; `dailyCap` is what `int` makes of `VX_TRIAGE_DAILY_CAP`, or its error. -/
def apiQueueDepth (db : Db) (order : ScanOrder Alert) (now : Datetime) (resetHour : Fin 24)
    (authenticated : Bool) (status : Option IngestionStatus) (dailyCap : Except String ℤ) :
    Answer :=
  if authenticated then
    match dailyCap with
    | .error text => .error text
    | .ok dailyCap =>
      let analyzedToday := EventStore.countAnalyzedToday db now resetHour 1
      let queuedCount := queriedCount db order .queued 1000
      .depth {
        analyzedToday := analyzedToday
        dailyCap := dailyCap
        capHit := dailyCap ≤ analyzedToday
        queued := queuedCount
        analyzing := queriedCount db order .analyzing 100
        deferred := queriedCount db order .deferred 1000
        failed := queriedCount db order .failed 100
        timeBehind := timeBehind queuedCount
        ingestion := (status.map Web.queueDepthIngestion).getD ("green", none) }
  else
    .unauthorized

/-- `status_counts.get(status, 0)`. -/
def statusCount (statusCounts : List (Status × ℕ)) (status : Status) : ℕ :=
  (statusCounts.lookup status).getD 0

end Verdix.QueueDepth
