import Verdix.Web.Equiv.QueueBadges

/-!
# The disposition that a row of the queue page shows

A row links to the newest analyzed member of its group and shows the disposition of the newest
member.  `dispositionId_iff`: the two agree in every row iff in every group these two members have the
same disposition.
-/

namespace Verdix.QueueRows

/-- The alerts with a key. -/
def groupOf (alerts : List Alert) (k : GroupKey) : List Alert :=
  alerts.filter fun a => groupKey a = k

/-- An alert that links to a verdict. -/
def isAnalyzed (a : Alert) : Bool := a.verdictId.any fun vid => vid ≠ ""

/-- The newest alert with a key, the first of them on a tie. -/
def newestMember (alerts : List Alert) (k : GroupKey) : Option Alert :=
  (groupOf alerts k).argmax ingestText

/-- The newest alert with a key that links to a verdict. -/
def newestAnalyzed (alerts : List Alert) (k : GroupKey) : Option Alert :=
  ((groupOf alerts k).filter isAnalyzed).argmax ingestText

variable {getVerdict : String → Option Verdict} {columns : String → AlertColumns}
  {alerts : List Alert}

theorem linkId_groupVerdict (verdicts : List (String × Verdict)) (rep : Alert)
    (members : List Alert) :
    (groupVerdict verdicts rep members).linkId =
      (((members.filter isAnalyzed).argmax ingestText).getD rep).alertId := by
  show (groupVerdict verdicts rep members).linkId =
    (((members.filter fun m => m.verdictId.any fun vid => vid ≠ "").argmax ingestText).getD
      rep).alertId
  unfold groupVerdict
  dsimp only
  cases (members.filter fun m => m.verdictId.any fun vid => vid ≠ "").argmax ingestText with
  | none => rfl
  | some m => rfl

/-- The newest member of a group is its representative. -/
theorem newestMember_keyOf {g : KeyGroup groupKey} (hg : g ∈ KeyGroup.groupBy groupKey alerts) :
    newestMember alerts g.keyOf = some (g.maxBy ingestText) := by
  unfold newestMember groupOf
  rw [← KeyGroup.members_groupBy hg]
  exact KeyGroup.mem_argmax_maxBy

theorem newestAnalyzed_keyOf {g : KeyGroup groupKey}
    (hg : g ∈ KeyGroup.groupBy groupKey alerts) :
    newestAnalyzed alerts g.keyOf = (g.members.filter isAnalyzed).argmax ingestText := by
  unfold newestAnalyzed groupOf
  rw [← KeyGroup.members_groupBy hg]

/-- A row links to the newest analyzed member, else to the newest one. -/
theorem alertId_queueRow {verdicts : List (String × Verdict)} {g : KeyGroup groupKey}
    (hg : g ∈ KeyGroup.groupBy groupKey alerts) :
    (queueRow verdicts columns g).alertId =
      ((newestAnalyzed alerts g.keyOf).getD (g.maxBy ingestText)).alertId := by
  rw [newestAnalyzed_keyOf hg]
  exact linkId_groupVerdict verdicts (g.maxBy ingestText) g.members

/-- Every row shows the disposition of the alert it links to iff in every group the newest member and
the newest analyzed member have the same disposition. -/
theorem dispositionId_iff (getVerdict : String → Option Verdict)
    (columns : String → AlertColumns) (alerts : List Alert) :
    (∀ row ∈ buildQueueRows getVerdict columns alerts,
        row.dispositionId = (columns row.alertId).dispositionId) ↔
      ∀ k a m, newestMember alerts k = some a → newestAnalyzed alerts k = some m →
        (columns a.alertId).dispositionId = (columns m.alertId).dispositionId := by
  set groups : List (KeyGroup groupKey) := KeyGroup.groupBy groupKey alerts with hgroups
  have hmem : ∀ row, row ∈ buildQueueRows getVerdict columns alerts ↔
      ∃ g ∈ groups, queueRow (verdictMap getVerdict alerts) columns g = row := by
    intro row
    unfold buildQueueRows
    rw [List.mem_insertionSort, List.mem_map]
  constructor
  · intro h k a m ha hm
    -- the group of the analyzed member
    have hmk := (List.mem_filter.mp (List.argmax_mem (Option.mem_def.mpr hm))).1
    obtain ⟨hm', hkey⟩ := List.mem_filter.mp hmk
    obtain ⟨g, hg, hmg⟩ : ∃ g ∈ groups, m ∈ g.members := KeyGroup.exists_mem_groupBy.mpr hm'
    obtain rfl : g.keyOf = k := (KeyGroup.key_of_mem hmg).symm.trans (of_decide_eq_true hkey)
    have hrow := h _ ((hmem _).mpr ⟨g, hg, rfl⟩)
    rw [alertId_queueRow hg, hm, Option.getD_some] at hrow
    obtain rfl := Option.some.inj (ha.symm.trans (newestMember_keyOf hg))
    exact hrow
  · intro h row hrow
    obtain ⟨g, hg, rfl⟩ := (hmem row).mp hrow
    rw [alertId_queueRow hg]
    show (columns (g.maxBy ingestText).alertId).dispositionId = _
    cases hm : newestAnalyzed alerts g.keyOf with
    | none => rfl
    | some m => exact h g.keyOf _ m (newestMember_keyOf hg) hm

/-- An alert of the sample group that still waits. -/
def pendingAlert (alertId : String) (ingestTimestamp : Datetime) : Alert :=
  { memberAlert alertId ingestTimestamp with
    status := .queued
    autoAnalyzed := false
    verdictId := none }

/-- The columns after the analyst has dispositioned the alert `a1`. -/
def dispositionedColumns (alertId : String) : AlertColumns :=
  { sampleColumns with dispositionId := if alertId = "a1" then .text "d1" else .null }

/-- The row of an analyzed alert and a newer one that waits links to the first and shows the
disposition of the second. -/
theorem disposition_of_other_member :
    ¬ ∀ row ∈ buildQueueRows (memberVerdicts "likely_fp") dispositionedColumns
        [memberAlert "a1" noon, pendingAlert "a4" pastNoon],
      row.dispositionId = (dispositionedColumns row.alertId).dispositionId := by
  decide +kernel

end Verdix.QueueRows
