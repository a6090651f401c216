import Verdix.Eval.Scoring
import Verdix.Lib.NearestRank
import Verdix.Telemetry.Collector

/-!
# The 95th percentiles

`compute_metrics` and `collect_metrics` truncate `n * 0.95` and go back one position.  For twenty
latencies this is the nearest rank; `p95_iff` says for which latencies it is.
-/

namespace Verdix

open NearestRank

variable {α : Type*} [LinearOrder α] {xs : List α} {v : α}

/-! ### The position -/

/-- There is one latency, or their number is a multiple of twenty, or the latency at the truncated
position and the next one in the order are equal. -/
def Untruncated (xs : List α) : Prop :=
  xs.length = 1 ∨ 20 ∣ xs.length ∨
    ∃ v, below xs v < 19 * xs.length / 20 ∧ 19 * xs.length / 20 < upTo xs v

theorem isPercentile_p95_iff (hnil : xs ≠ [])
    (hv : (xs.insertionSort (· ≤ ·))[19 * xs.length / 20 - 1]? = some v) :
    IsPercentile 19 20 xs v ↔ Untruncated xs := by
  have hpos := List.length_pos_of_ne_nil hnil
  rw [isPercentile_floor_iff (by decide) (by omega) hv, Untruncated]
  have hone : 19 * xs.length < 20 ↔ xs.length = 1 := by omega
  have hdvd : 20 ∣ 19 * xs.length ↔ 20 ∣ xs.length := by omega
  rw [hone, hdvd, or_left_comm]

/-! ### The two reports -/

/-- The latencies of the results without an error. -/
def Eval.sampled (results : List Eval.EvalResult) : List ℚ :=
  (Eval.scorable results).map Eval.EvalResult.latencyMs

/-- The latencies of the current verdicts that were produced. -/
def Telemetry.sampled (db : Db) : List ℤ :=
  ((Telemetry.currentVerdicts db).map Verdict.latencyMs).filter (0 < ·)

theorem Eval.getElem?_latencyP95Ms {results : List Eval.EvalResult}
    (hnil : Eval.sampled results ≠ []) :
    ((Eval.sampled results).insertionSort (· ≤ ·))[19 * (Eval.sampled results).length / 20 - 1]? =
      some (Eval.computeMetrics results).latencyP95Ms := by
  have hpos := List.length_pos_of_ne_nil hnil
  have hscorable : Eval.scorable results ≠ [] := fun h => hnil (by rw [Eval.sampled, h]; rfl)
  obtain ⟨v, hv⟩ := exists_getElem?_insertionSort
    (show 19 * (Eval.sampled results).length / 20 - 1 < (Eval.sampled results).length by omega)
  have hlength : (Eval.latencies results).length = (Eval.sampled results).length :=
    List.length_insertionSort (· ≤ ·) _
  have hreport : (Eval.computeMetrics results).latencyP95Ms =
      (Eval.latencies results).getD (Eval.p95Idx (Eval.latencies results).length) 0 := by
    unfold Eval.computeMetrics
    simp only [if_neg hscorable]
  rw [hreport, hlength, List.getD_eq_getElem?_getD]
  show _ = some ((((Eval.sampled results).insertionSort (· ≤ ·))[
    19 * (Eval.sampled results).length / 20 - 1]?).getD 0)
  rw [hv]
  rfl

theorem Telemetry.p95Ms_latencies {db : Db} (hnil : Telemetry.sampled db ≠ []) :
    Telemetry.p95Ms (Telemetry.latencies db) =
      ((Telemetry.sampled db).insertionSort (· ≤ ·))[19 * (Telemetry.sampled db).length / 20 - 1]? := by
  have hpos := List.length_pos_of_ne_nil hnil
  have hlength : (Telemetry.latencies db).length = (Telemetry.sampled db).length :=
    List.length_insertionSort (· ≤ ·) _
  have hidx : min (Telemetry.p95Idx (Telemetry.sampled db).length)
      ((Telemetry.sampled db).length - 1) = 19 * (Telemetry.sampled db).length / 20 - 1 := by
    unfold Telemetry.p95Idx
    omega
  rw [Telemetry.p95Ms, hlength, hidx]
  rfl

/-- What is reported is the percentile by nearest rank exactly when nothing is lost by truncating. -/
theorem p95_iff (results : List Eval.EvalResult) (rate : ℕ → ℕ → ℚ) (db : Db)
    (dispositions : Dispositions) :
    (Eval.sampled results ≠ [] →
      (IsPercentile 19 20 (Eval.sampled results) (Eval.computeMetrics results).latencyP95Ms ↔
        Untruncated (Eval.sampled results))) ∧
    (Telemetry.sampled db ≠ [] →
      ((∃ v, (Telemetry.collectMetrics rate (some (db, dispositions))).latencyP95Ms = some v ∧
          IsPercentile 19 20 (Telemetry.sampled db) v) ↔ Untruncated (Telemetry.sampled db))) := by
  constructor
  · intro hnil
    exact isPercentile_p95_iff hnil (Eval.getElem?_latencyP95Ms hnil)
  · intro hnil
    have hpos := List.length_pos_of_ne_nil hnil
    obtain ⟨v, hv⟩ := exists_getElem?_insertionSort
      (show 19 * (Telemetry.sampled db).length / 20 - 1 < (Telemetry.sampled db).length by omega)
    have hreport : (Telemetry.collectMetrics rate (some (db, dispositions))).latencyP95Ms = some v :=
      (Telemetry.p95Ms_latencies hnil).trans hv
    rw [← isPercentile_p95_iff hnil hv, hreport]
    constructor
    · rintro ⟨w, hw, hpercentile⟩
      rwa [Option.some.inj hw]
    · intro hpercentile
      exact ⟨v, rfl, hpercentile⟩

/-! ### Samples -/

/-- A result with this latency. -/
def Eval.sampleResult (latencyMs : ℚ) : Eval.EvalResult where
  groundTruth := .likelyTp
  predicted := .likelyTp
  latencyMs := latencyMs
  firstAttemptValid := true
  error := none

/-- A current verdict with this latency. -/
def Telemetry.sampleVerdict (verdictId : String) (latencyMs : ℤ) : Verdict where
  verdictId := verdictId
  alertId := verdictId
  verdictCategory := "likely_tp"
  confidenceScore := "0.9"
  reasoning := "test"
  contributingFacts := "[]"
  evidenceChain := "\x7b\x7d"
  modelVersion := "test"
  promptVersion := "test"
  llmInputs := "\x7b\x7d"
  llmRawOutput := "\x7b\x7d"
  latencyMs := latencyMs
  isCurrent := true
  createdAt := .yearOne

/-- Twenty results, the slowest first. -/
def Eval.twentyResults : List Eval.EvalResult :=
  (List.range 20).map fun n => sampleResult (20 - n)

theorem Telemetry.tiedVerdicts_nodup :
    ([sampleVerdict "v1" 100, sampleVerdict "v2" 50, sampleVerdict "v3" 100].map
      Verdict.verdictId).Nodup := by decide

/-- The truncated position is that of the second of three latencies, which is as long as the third. -/
def Telemetry.tiedVerdicts : Db :=
  ⟨.empty, ⟨[sampleVerdict "v1" 100, sampleVerdict "v2" 50, sampleVerdict "v3" 100],
    tiedVerdicts_nodup⟩⟩

theorem Telemetry.twoVerdicts_nodup :
    ([sampleVerdict "v1" 100, sampleVerdict "v2" 200].map Verdict.verdictId).Nodup := by decide

/-- One of 100 ms and one of 200 ms. -/
def Telemetry.twoVerdicts : Db :=
  ⟨.empty, ⟨[sampleVerdict "v1" 100, sampleVerdict "v2" 200], twoVerdicts_nodup⟩⟩

/-- Of twenty latencies all but one are at most the one reported, and of three with a tie all are. -/
theorem p95_of_twenty :
    IsPercentile 19 20 (Eval.sampled Eval.twentyResults)
        (Eval.computeMetrics Eval.twentyResults).latencyP95Ms ∧
      ∃ v, (Telemetry.collectMetrics (fun _ _ => 1)
          (some (Telemetry.tiedVerdicts, .empty))).latencyP95Ms = some v ∧
        IsPercentile 19 20 (Telemetry.sampled Telemetry.tiedVerdicts) v := by
  have h := p95_iff Eval.twentyResults (fun _ _ => 1) Telemetry.tiedVerdicts .empty
  constructor
  · apply (h.1 (by decide +kernel)).mpr
    exact .inr (.inl (by decide +kernel))
  · apply (h.2 (by decide +kernel)).mpr
    exact .inr (.inr ⟨100, by decide +kernel, by decide +kernel⟩)

/-- Of two latencies the smaller is reported, which half of them exceed. -/
theorem p95_of_two :
    ¬ (∀ results, Eval.sampled results ≠ [] →
      IsPercentile 19 20 (Eval.sampled results) (Eval.computeMetrics results).latencyP95Ms) ∧
    ¬ ∀ rate db dispositions, Telemetry.sampled db ≠ [] →
      ∃ v, (Telemetry.collectMetrics rate (some (db, dispositions))).latencyP95Ms = some v ∧
        IsPercentile 19 20 (Telemetry.sampled db) v := by
  constructor
  · intro h
    have hcovers := (h [Eval.sampleResult 100, Eval.sampleResult 200] (by decide)).1.2
    exact absurd hcovers (by decide +kernel)
  · intro h
    obtain ⟨v, hv, hpercentile⟩ := h (fun _ _ => 1) Telemetry.twoVerdicts .empty (by decide)
    obtain rfl : 100 = v := Option.some.inj hv
    exact absurd hpercentile.1.2 (by decide +kernel)

end Verdix
