import Mathlib.Algebra.Order.Ring.Rat
import Mathlib.Data.List.Sort

/-!
# The scores of the eval harness

`compute_metrics` on the results of one run over the corpus.  Quotients and latencies are rational
numbers.
-/

namespace Verdix.Eval

/-- `VerdictCategory`. -/
inductive VerdictCategory
  | likelyFp
  | suspiciousInvestigate
  | likelyTp
  deriving DecidableEq

namespace VerdictCategory

/-- The text of a category. -/
def value : VerdictCategory → String
  | likelyFp => "likely_fp"
  | suspiciousInvestigate => "suspicious_investigate"
  | likelyTp => "likely_tp"

/-- The categories in the order of the class. -/
def all : List VerdictCategory := [likelyFp, suspiciousInvestigate, likelyTp]

end VerdictCategory

/-- What the scores read of an `EvalResult`. -/
structure EvalResult where
  groundTruth : VerdictCategory
  predicted : VerdictCategory
  latencyMs : ℚ
  firstAttemptValid : Bool
  error : Option String

namespace EvalResult

/-- `correct`. -/
def correct (r : EvalResult) : Bool := r.groundTruth = r.predicted

/-- `false_negative`. -/
def falseNegative (r : EvalResult) : Bool :=
  r.groundTruth = .likelyTp && r.predicted = .likelyFp

end EvalResult

/-- `EvalMetrics`. -/
structure EvalMetrics where
  total : ℕ
  errors : ℕ
  verdictAccuracy : ℚ
  falseNegativeRate : ℚ
  latencyP95Ms : ℚ
  structuredOutputReliability : ℚ
  /-- For each category of the ground truth how often each one was predicted. -/
  perCategoryAccuracy : List (String × List (String × ℕ))

/-- The results without an error. -/
def scorable (results : List EvalResult) : List EvalResult :=
  results.filter fun r => r.error.isNone

/-- `sorted(r.latency_ms for r in scorable)`. -/
def latencies (results : List EvalResult) : List ℚ :=
  ((scorable results).map EvalResult.latencyMs).insertionSort (· ≤ ·)

/-- `max(0, int(n * 0.95) - 1)`. -/
def p95Idx (n : ℕ) : ℕ := 19 * n / 20 - 1

/-- `a / b`. -/
def ratio (a b : ℕ) : ℚ := (a : ℚ) / b

/-- One turn of the loop over the results. -/
def count (breakdown : VerdictCategory → VerdictCategory → ℕ) (r : EvalResult) :
    VerdictCategory → VerdictCategory → ℕ := fun groundTruth predicted =>
  if groundTruth = r.groundTruth ∧ predicted = r.predicted then breakdown groundTruth predicted + 1
  else breakdown groundTruth predicted

/-- `compute_metrics`. -/
def computeMetrics (results : List EvalResult) : EvalMetrics :=
  let scorable := scorable results
  let errors := results.length - scorable.length
  if scorable = [] then
    { total := results.length
      errors := errors
      verdictAccuracy := 0
      falseNegativeRate := 0
      latencyP95Ms := 0
      structuredOutputReliability := 0
      perCategoryAccuracy := [] }
  else
    let tpResults := scorable.filter fun r => r.groundTruth = .likelyTp
    let latencies := latencies results
    let breakdown := scorable.foldl count fun _ _ => 0
    { total := results.length
      errors := errors
      verdictAccuracy := ratio (scorable.countP EvalResult.correct) scorable.length
      falseNegativeRate :=
        if tpResults = [] then 0
        else ratio (tpResults.countP EvalResult.falseNegative) tpResults.length
      latencyP95Ms := latencies.getD (p95Idx latencies.length) 0
      structuredOutputReliability :=
        ratio (results.countP EvalResult.firstAttemptValid) results.length
      perCategoryAccuracy := VerdictCategory.all.map fun groundTruth =>
        (groundTruth.value, VerdictCategory.all.map fun predicted =>
          (predicted.value, breakdown groundTruth predicted)) }

end Verdix.Eval
