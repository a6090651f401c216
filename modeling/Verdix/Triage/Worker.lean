import Verdix.Db.EventStore
import Verdix.Db.OperationalStore
import Verdix.Llm.OllamaClient

/-!
# The triage worker

`TriageWorker.run`: dequeue an alert, take it through `_process_alert`, repeat.  A step of the
model is the work between two `await`s, so a run may be cut off at every one of them.  Every store
call commits or fails without effect.

Role assignment, enrichment, the prompt and the model's answer decide the contents of a produced
verdict and whether an exception is raised; both are free in the model.
-/

namespace Verdix.Worker

/-! ### Dequeuing -/

/-- The first half of `_dequeue_next`: is the daily cap used up? -/
def capReached (cap : ℕ) (resetHour : Fin 24) (now : Datetime) (db : Db) : Bool :=
  cap ≤ EventStore.countAnalyzedToday db now resetHour 1

/-- The second half of `_dequeue_next`: the first queued alert. -/
def nextQueued (db : Db) (order : ScanOrder Alert) : Option Alert :=
  (EventStore.queryAlerts db order none none (some .queued) none 1 0).head?

/-- `_dequeue_next`. -/
def dequeueNext (cap : ℕ) (resetHour : Fin 24) (now : Datetime) (db : Db)
    (order : ScanOrder Alert) : Option Alert :=
  if capReached cap resetHour now db then none else nextQueued db order

/-! ### The verdict rows -/

/-- `json.dumps({"inherited_from": v})`. -/
def inheritedInputs (sourceVerdictId : String) : String :=
  Json.dumps (.obj [("inherited_from", .str sourceVerdictId)])

/-- The row written for an inherited verdict. -/
def inheritedVerdict (verdictId alertId sourceVerdictId : String) (source : Verdict)
    (now : Datetime) : Verdict where
  verdictId := verdictId
  alertId := alertId
  verdictCategory := source.verdictCategory
  confidenceScore := source.confidenceScore
  reasoning := source.reasoning
  contributingFacts := source.contributingFacts
  evidenceChain := source.evidenceChain
  modelVersion := source.modelVersion
  promptVersion := source.promptVersion
  llmInputs := inheritedInputs sourceVerdictId
  llmRawOutput := source.llmRawOutput
  latencyMs := 0
  isCurrent := true
  createdAt := now

/-- The row written for a produced verdict. -/
def producedVerdict (verdictId alertId : String) (response : LLMResponse) (evidenceChain : Json)
    (now : Datetime) : Verdict where
  verdictId := verdictId
  alertId := alertId
  verdictCategory := response.verdictCategory
  confidenceScore := response.confidenceScore
  reasoning := response.reasoning
  contributingFacts := Json.dumps (.arr (response.contributingFacts.map .str))
  evidenceChain := Json.dumps evidenceChain
  modelVersion := response.modelVersion
  promptVersion := response.promptVersion
  llmInputs := Json.dumps response.llmInputs
  llmRawOutput := Json.dumps response.rawOutput
  latencyMs := response.latencyMs
  isCurrent := true
  createdAt := now

/-! ### The worker as a state machine -/

/-- The calls of `_process_alert` that can raise. -/
inductive Call
  | updateAlertStatus
  | getCorrelatedEvents
  | updateAlertRoleAssignment
  | findRecentVerdictForGroup
  | getVerdict
  /-- Identities, enrichment, the prompt, the model and the evidence chain. -/
  | analysis
  | markPreviousVerdictsSuperseded
  | recordVerdict
  | linkVerdictToAlert
  deriving DecidableEq

/-- Where the worker is suspended; each stage names the call it waits for. -/
inductive Stage
  /-- No worker task is running. -/
  | stopped
  /-- `count_analyzed_today`, or asleep before it. -/
  | idle
  /-- `query_alerts`, the cap not being reached. -/
  | dequeuing
  /-- `update_alert_status(.., "analyzing")` -/
  | starting (alert : Alert)
  | correlating (alert : Alert)
  | assigning (alert : Alert)
  | deduping (alert : Alert)
  | sourcing (alert : Alert) (sourceVerdictId : String)
  | analysing (alert : Alert)
  /-- `mark_previous_verdicts_superseded`, with the verdict to record after it. -/
  | superseding (alert : Alert) (verdict : Verdict)
  | recording (alert : Alert) (verdict : Verdict)
  | linking (alert : Alert) (verdict : Verdict)
  /-- `update_alert_status(.., "failed")`, in the handler of what the call raised. -/
  | failing (alert : Alert) (cause : Call)
  deriving DecidableEq

/-- The alert that `_process_alert` is working on. -/
def Stage.alert? : Stage → Option Alert
  | starting a | correlating a | assigning a | deduping a | sourcing a _ | analysing a
  | superseding a _ | recording a _ | linking a _ | failing a _ => some a
  | _ => none

/-- The call inside the `try` block that the worker waits for. -/
def Stage.call? : Stage → Option Call
  | starting _ => some .updateAlertStatus
  | correlating _ => some .getCorrelatedEvents
  | assigning _ => some .updateAlertRoleAssignment
  | deduping _ => some .findRecentVerdictForGroup
  | sourcing _ _ => some .getVerdict
  | analysing _ => some .analysis
  | superseding _ _ => some .markPreviousVerdictsSuperseded
  | recording _ _ => some .recordVerdict
  | linking _ _ => some .linkVerdictToAlert
  | _ => none

/-- What the analysis of an alert comes to: the prompt, the model's answer and the evidence. -/
structure Analysis where
  prompt : String
  model : String
  promptVersion : String
  latencyMs : ℤ
  output : VerdictOutput
  evidenceChain : Json

/-- How the call the worker waits for ends. -/
inductive Act
  /-- It returns; `order` is the engine's scan order and `uuid` the next random id. -/
  | proceed (order : ScanOrder Alert) (uuid : String)
  /-- The analysis returns. -/
  | answered (uuid : String) (analysis : Analysis)
  | raises
  | cancel
  /-- The application starts the worker task. -/
  | start

/-- `proceed`, stage by stage. -/
def proceed (cap : ℕ) (resetHour : Fin 24) (now : Datetime) (db : Db) (order : ScanOrder Alert)
    (uuid : String) : Stage → Option (Db × Stage)
  | .idle => some (db, if capReached cap resetHour now db then .idle else .dequeuing)
  | .dequeuing =>
    match nextQueued db order with
    | none => some (db, .idle)
    | some a => some (db, .starting a)
  | .starting a => some (EventStore.updateAlertStatus db a.alertId .analyzing, .correlating a)
  | .correlating a => some (db, .assigning a)
  | .assigning a => some (db, .deduping a)
  | .deduping a =>
    match EventStore.findRecentVerdictForGroup db order a.signatureId a.srcIp a.dstIp
      a.ingestTimestamp with
    | .error _ => some (db, .failing a .findRecentVerdictForGroup)
    | .ok none => some (db, .analysing a)
    -- an empty id is falsy, and so no source
    | .ok (some v) => some (db, if v = "" then .analysing a else .sourcing a v)
  | .sourcing a v =>
    match OperationalStore.getVerdict db v with
    | none => some (db, .analysing a)
    | some source => some (db, .superseding a (inheritedVerdict uuid a.alertId v source now))
  | .superseding a verdict =>
    -- `created_at` is read when the row is built, after this call
    some (OperationalStore.markPreviousVerdictsSuperseded db a.alertId,
      .recording a { verdict with createdAt := now })
  | .recording a verdict =>
    match OperationalStore.recordVerdict db verdict with
    | .ok db' => some (db', .linking a verdict)
    | .error _ => some (db, .failing a .recordVerdict)
  | .linking a verdict =>
    some (OperationalStore.linkVerdictToAlert db a.alertId verdict.verdictId, .idle)
  | .failing a _ => some (EventStore.updateAlertStatus db a.alertId .failed, .idle)
  | .stopped => none
  | .analysing _ => none

/-- One step of the worker on the database at instant `now`. -/
def step (cap : ℕ) (resetHour : Fin 24) (now : Datetime) (db : Db) (stage : Stage) :
    Act → Option (Db × Stage)
  | .proceed order uuid => proceed cap resetHour now db order uuid stage
  | .answered uuid r =>
    match stage with
    | .analysing a =>
      let response := OllamaClient.complete r.model r.promptVersion r.prompt r.latencyMs r.output
      some (db, .superseding a (producedVerdict uuid a.alertId response r.evidenceChain now))
    | _ => none
  | .raises =>
    match stage with
    -- outside `_process_alert` the loop logs the error and goes on
    | .idle | .dequeuing => some (db, .idle)
    -- a failing update in the handler is swallowed
    | .failing _ _ => some (db, .idle)
    | _ => match stage.alert?, stage.call? with
      | some a, some c => some (db, .failing a c)
      | _, _ => none
  | .cancel => if stage = .stopped then none else some (db, .stopped)
  | .start => if stage = .stopped then some (db, .idle) else none

end Verdix.Worker
