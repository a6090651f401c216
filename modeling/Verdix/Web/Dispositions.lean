import Verdix.Db.DispositionStore
import Verdix.Db.OperationalStore
import Verdix.Lib.TransitionSystem

/-!
# Posting dispositions

`post_disposition` looks up the current verdict, records a disposition and links the alert to it, in
three transactions with an `await` each.  A step of the model is the work of one request between two
`await`s.
-/

namespace Verdix

namespace Posting

/-- Where a request is suspended. -/
inductive Stage
  /-- In `get_current_verdict_for_alert`. -/
  | looking
  /-- In `record_disposition`, with the row stamped but not yet committed. -/
  | recording (row : Disposition)
  /-- In `link_disposition_to_alert`. -/
  | linking (row : Disposition)
  /-- Answered. -/
  | done (statusCode : ℕ)
  deriving DecidableEq

/-- The request has its response. -/
def Stage.answered : Stage → Bool
  | .done _ => true
  | _ => false

structure Request where
  alertId : String
  action : String
  overrideReason : String
  stage : Stage
  deriving DecidableEq

inductive Act
  | tick (t : Datetime)
  /-- The worker and the pipeline write to their tables. -/
  | other (db : Db)
  | post (authenticated : Bool) (alertId action overrideReason : String)
  /-- The verdict is there; `record_disposition` draws an id and reads the clock. -/
  | lookup (i : ℕ) (dispositionId : String)
  | record (i : ℕ)
  | link (i : ℕ)

end Posting

/-- The requests, oldest first, on the database. -/
structure Posting where
  now : Datetime
  db : Db
  dispositions : Dispositions
  alerts : AlertLinks
  requests : List Posting.Request

namespace Posting

/-- Before the first request. -/
def init (now : Datetime) (db : Db) (alerts : AlertLinks) : Posting := ⟨now, db, .empty, alerts, []⟩

/-- The checks at the start of `post_disposition`. -/
def firstStage (authenticated : Bool) (action : String) : Stage :=
  if !authenticated then .done 401
  else if action ≠ "accept" ∧ action ≠ "override" then .done 400
  else .looking

/-- `override_reason.strip() or None`. -/
def reason (overrideReason : String) : Option String :=
  let stripped := PyStr.strip overrideReason
  if stripped = "" then none else some stripped

/-- Request `i` moves on to another stage. -/
def moveTo (s : Posting) (i : ℕ) (r : Request) (stage : Stage) : Posting :=
  { s with requests := s.requests.set i { r with stage := stage } }

def step (s : Posting) : Act → Option Posting
  | .tick t => if s.now ≤ t then some { s with now := t } else none
  | .other db => some { s with db := db }
  | .post authenticated alertId action overrideReason =>
    some { s with requests :=
      s.requests ++ [⟨alertId, action, overrideReason, firstStage authenticated action⟩] }
  | .lookup i dispositionId =>
    match s.requests[i]? with
    | some ⟨alertId, action, overrideReason, .looking⟩ =>
      let verdict := OperationalStore.getCurrentVerdictForAlert s.db alertId
      let row := DispositionStore.dispositionRow dispositionId s.now alertId
        (verdict.map Verdict.verdictId) action (reason overrideReason)
      some (s.moveTo i ⟨alertId, action, overrideReason, .looking⟩ (.recording row))
    | _ => none
  | .record i =>
    match s.requests[i]? with
    | some ⟨alertId, action, overrideReason, .recording row⟩ =>
      match s.dispositions.insert? row with
      | some dispositions =>
        some { s.moveTo i ⟨alertId, action, overrideReason, .recording row⟩ (.linking row) with
          dispositions := dispositions }
      | none => some (s.moveTo i ⟨alertId, action, overrideReason, .recording row⟩ (.done 500))
    | _ => none
  | .link i =>
    match s.requests[i]? with
    | some ⟨alertId, action, overrideReason, .linking row⟩ =>
      some { s.moveTo i ⟨alertId, action, overrideReason, .linking row⟩ (.done 303) with
        alerts := DispositionStore.linkDispositionToAlert s.alerts alertId row.dispositionId }
    | _ => none

/-- The dispositions an alert has been linked to, in the order of the links. -/
def linked (alertId : String) (tr : List (TransitionSystem.Move Posting Act)) : List Disposition :=
  tr.filterMap fun m => match m.act with
    | .link i =>
      match m.pre.requests[i]? with
      | some ⟨alertId', _, _, .linking row⟩ => if alertId' = alertId then some row else none
      | _ => none
    | _ => none

end Posting

end Verdix
