import Verdix.Db.Models

/-!
# The disposition store

`SQLiteDispositionStore` on the dispositions table, which only grows, and the column of `alerts`
that `link_disposition_to_alert` writes.
-/

namespace Verdix

/-- A row of `dispositions`. -/
structure Disposition where
  dispositionId : String
  alertId : String
  verdictId : Option String
  analystUserId : String
  dispositionAction : String
  overrideCategory : Option String
  overrideReasonFreetext : Option String
  schemaVersion : ℤ
  createdAt : Datetime
  deriving DecidableEq

/-- A row of `alerts`, as far as dispositions are concerned. -/
structure AlertLink where
  alertId : String
  dispositionId : Option String
  deriving DecidableEq

abbrev Dispositions := Table Disposition Disposition.dispositionId

abbrev AlertLinks := Table AlertLink AlertLink.alertId

namespace DispositionStore

/-- The row `record_disposition` writes for an analyst's action. -/
def dispositionRow (dispositionId : String) (now : Datetime) (alertId : String)
    (verdictId : Option String) (action : String) (overrideReason : Option String) :
    Disposition where
  dispositionId := dispositionId
  alertId := alertId
  verdictId := verdictId
  analystUserId := "admin"
  dispositionAction := action
  overrideCategory := none
  overrideReasonFreetext := overrideReason
  schemaVersion := 1
  createdAt := now

/-- `created_at DESC`. -/
def byCreated (a b : Disposition) : Prop := b.createdAt.isoformat ≤ a.createdAt.isoformat

instance : DecidableRel byCreated := fun a b =>
  inferInstanceAs (Decidable (b.createdAt.isoformat ≤ a.createdAt.isoformat))

instance : Std.Total byCreated := ⟨fun a b => le_total b.createdAt.isoformat a.createdAt.isoformat⟩

instance : IsTrans Disposition byCreated := ⟨fun _ _ _ hab hbc => le_trans hbc hab⟩

/-- `get_latest_disposition`. -/
def getLatestDisposition (dispositions : Dispositions) (order : ScanOrder Disposition)
    (alertId : String) : Option Disposition :=
  (dispositions.select order (fun d => d.alertId = alertId) byCreated 1 0).head?

/-- `link_disposition_to_alert`. -/
def linkDispositionToAlert (alerts : AlertLinks) (alertId dispositionId : String) : AlertLinks :=
  alerts.update (fun a => a.alertId = alertId)
    (fun a => { a with dispositionId := some dispositionId }) fun _ => rfl

theorem mem_linkDispositionToAlert {alerts : AlertLinks} {alertId dispositionId : String}
    {a : AlertLink} :
    a ∈ (linkDispositionToAlert alerts alertId dispositionId).rows ↔ ∃ b ∈ alerts.rows,
      (if b.alertId = alertId then { b with dispositionId := some dispositionId } else b) = a := by
  simp [linkDispositionToAlert, Table.mem_update]

/-! ### The latest disposition -/

variable {dispositions : Dispositions} {order : ScanOrder Disposition} {alertId : String}
  {d : Disposition}

theorem getLatestDisposition_eq_some (h : getLatestDisposition dispositions order alertId = some d) :
    d ∈ dispositions.rows ∧ d.alertId = alertId ∧
      ∀ d' ∈ dispositions.rows, d'.alertId = alertId → d'.createdAt ≤ d.createdAt := by
  have hmem := Table.mem_of_mem_select (List.mem_of_mem_head? (Option.mem_def.mpr h))
  refine ⟨hmem.1, by simpa using hmem.2, fun d' hd' hid => ?_⟩
  have hrel : byCreated d d' := Table.rel_of_select_head? h hd' (by simpa using hid)
  exact Datetime.isoformat_le_iff.mp hrel

theorem getLatestDisposition_eq_none (h : getLatestDisposition dispositions order alertId = none) :
    ∀ d ∈ dispositions.rows, d.alertId ≠ alertId := by
  intro d hd hid
  obtain ⟨a, ha⟩ : ∃ a,
      (dispositions.select order (fun d => d.alertId = alertId) byCreated 1 0).head? = some a :=
    Table.exists_select_head? Nat.one_pos hd (by simpa using hid)
  rw [getLatestDisposition, ha] at h
  contradiction

end DispositionStore

end Verdix
