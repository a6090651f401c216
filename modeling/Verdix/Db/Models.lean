import Verdix.Lib.Datetime
import Verdix.Lib.Json
import Verdix.Lib.Python
import Verdix.Lib.Table

/-!
# The alerts and verdicts tables

The columns of `alerts` and `verdicts` that the modelled queries read or write.  A timestamp column
holds the `isoformat` text of a UTC datetime, so it is kept as the datetime and compared by that
text.
-/

namespace Verdix

/-- The values of `alerts.status`. -/
inductive Status
  | queued
  | deferred
  | analyzing
  | analyzed
  | failed
  deriving DecidableEq, Repr

/-- A value as the driver stores it. -/
inductive SqlValue
  | null
  | integer (n : ℤ)
  | real (literal : String)
  | text (s : String)
  deriving DecidableEq, Repr

/-- Bind a value to a statement: lists and dicts are refused, integers past 64 bits, and texts that
UTF-8 cannot encode. -/
def SqlValue.bind (sur : PyStr.Surrogates) : Json → Except PyError SqlValue
  | .null => .ok .null
  | .bool b => .ok (.integer (if b then 1 else 0))
  | .int n =>
    if -9223372036854775808 ≤ n ∧ n ≤ 9223372036854775807 then .ok (.integer n)
    else .error .overflowError
  | .float l => .ok (.real l)
  | .str s => if PyStr.encodes sur s then .ok (.text s) else .error .unicodeEncodeError
  | .arr _ => .error .interfaceError
  | .obj _ => .error .interfaceError

/-- A row of `alerts`. -/
structure Alert where
  alertId : String
  sensorId : ℤ
  signatureId : SqlValue
  srcIp : SqlValue
  dstIp : SqlValue
  ingestTimestamp : Datetime
  status : Status
  autoAnalyzed : Bool
  verdictId : Option String
  deriving DecidableEq, Repr

/-- A row of `verdicts`. -/
structure Verdict where
  verdictId : String
  alertId : String
  verdictCategory : String
  confidenceScore : String
  reasoning : String
  contributingFacts : String
  evidenceChain : String
  modelVersion : String
  promptVersion : String
  llmInputs : String
  llmRawOutput : String
  latencyMs : ℤ
  isCurrent : Bool
  createdAt : Datetime
  deriving DecidableEq, Repr

/-- The database. -/
structure Db where
  alerts : Table Alert Alert.alertId
  verdicts : Table Verdict Verdict.verdictId

/-- The database before the first alert. -/
def Db.empty : Db := ⟨Table.empty, Table.empty⟩

end Verdix
