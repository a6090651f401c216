import Verdix.Db.EventStore
import Verdix.Db.OperationalStore

/-!
# Specifications of the store calls

What each transaction of the two stores does to the rows, in the form the invariants use:
`insertRow` and `recordVerdict` append a row with a new key, the updates touch the rows of one
alert, and `findRecentVerdictForGroup` names a verdict that its `WHERE` clause admits.
-/

namespace Verdix

/-- The columns of an alert that no statement rewrites. -/
def Alert.facts (a : Alert) : String × ℤ × SqlValue × SqlValue × SqlValue × Datetime :=
  (a.alertId, a.sensorId, a.signatureId, a.srcIp, a.dstIp, a.ingestTimestamp)

namespace Alert

variable {a b : Alert}

theorem alertId_of_facts (h : a.facts = b.facts) : a.alertId = b.alertId := congrArg (·.1) h

theorem sensorId_of_facts (h : a.facts = b.facts) : a.sensorId = b.sensorId := congrArg (·.2.1) h

theorem ingestTimestamp_of_facts (h : a.facts = b.facts) : a.ingestTimestamp = b.ingestTimestamp :=
  congrArg (·.2.2.2.2.2) h

/-- The deduplication group of an alert. -/
theorem group_of_facts (h : a.facts = b.facts) :
    a.signatureId = b.signatureId ∧ a.srcIp = b.srcIp ∧ a.dstIp = b.dstIp :=
  ⟨congrArg (·.2.2.1) h, congrArg (·.2.2.2.1) h, congrArg (·.2.2.2.2.1) h⟩

end Alert

/-! ### The event store -/

namespace EventStore

variable {db db' : Db}

/-- A new row has the time and the status it is given, and no verdict. -/
theorem alertRow_eq_ok {alertId : String} {now : Datetime} {alert : Json} {status : Status}
    {row : Alert} (h : alertRow alertId now alert status = .ok row) :
    row.alertId = alertId ∧ row.sensorId = 1 ∧ row.ingestTimestamp = now ∧ row.status = status ∧
      row.verdictId = none := by
  simp only [alertRow, bind, Except.bind] at h
  repeat' split at h
  all_goals first | contradiction | skip
  obtain rfl := Except.ok.inj h
  exact ⟨rfl, rfl, rfl, rfl, rfl⟩

/-- `INSERT` takes a new id only, and touches nothing else. -/
theorem insertRow_eq_ok {row : Alert} (h : insertRow db row = .ok db') :
    row.alertId ∉ db.alerts.rows.map Alert.alertId ∧ db'.alerts.rows = db.alerts.rows ++ [row] ∧
      db'.verdicts = db.verdicts := by
  unfold insertRow at h
  split at h
  · rename_i alerts heq
    obtain rfl := Except.ok.inj h
    exact ⟨(Table.insert?_eq_some heq).1, (Table.insert?_eq_some heq).2, rfl⟩
  · contradiction

/-- Only the status of the named alert changes. -/
theorem mem_updateAlertStatus {alertId : String} {status : Status} {b : Alert} :
    b ∈ (updateAlertStatus db alertId status).alerts.rows ↔
      ∃ a ∈ db.alerts.rows, (if a.alertId = alertId then { a with status := status } else a) = b := by
  simp [updateAlertStatus, Table.mem_update]

/-- The count compares instants. -/
theorem countAnalyzedToday_eq (now : Datetime) (resetHour : Fin 24) (sensorId : ℤ) :
    countAnalyzedToday db now resetHour sensorId = db.alerts.rows.countP fun a =>
      a.sensorId = sensorId ∧ a.status ≠ .deferred ∧
        resetTime now resetHour ≤ a.ingestTimestamp := by
  unfold countAnalyzedToday
  congr
  funext a
  simp [Bool.decide_and, Bool.and_assoc]

/-- The verdict found belongs to an alert that meets every condition of the query. -/
theorem findRecentVerdictForGroup_eq_some {order : ScanOrder Alert}
    {signatureId srcIp dstIp : SqlValue} {candidate : Datetime} {v : String}
    (h : findRecentVerdictForGroup db order signatureId srcIp dstIp candidate = .ok (some v)) :
    ∃ a ∈ db.alerts.rows, ∃ w ∈ db.verdicts.rows, a.verdictId = some v ∧ w.verdictId = v ∧
      a.status = .analyzed ∧ a.signatureId = signatureId ∧ a.srcIp = srcIp ∧ a.dstIp = dstIp ∧
      signatureId ≠ .null ∧ srcIp ≠ .null ∧ dstIp ≠ .null ∧
      candidate.micros ≤ a.ingestTimestamp.micros + usPerHour ∧ a.ingestTimestamp ≤ candidate ∧
      Like.like inheritedPattern.toList w.llmInputs.toList = false := by
  unfold findRecentVerdictForGroup at h
  split_ifs at h with hnull
  · simp at h
  · split at h
    · contradiction
    · rename_i since hsince
      obtain ⟨⟨a, w⟩, hhead, hv⟩ := Option.bind_eq_some_iff.mp (Except.ok.inj h)
      -- the first row of the sorted join is one of the join
      have hmem := List.mem_of_mem_head? (Option.mem_def.mpr hhead)
      rw [List.mem_insertionSort, List.mem_filter] at hmem
      obtain ⟨hjoin, hcond⟩ := hmem
      simp only [joinVerdicts, List.mem_flatMap, List.mem_map, List.mem_filter] at hjoin
      obtain ⟨a', ha', w', ⟨hw', hid⟩, heq⟩ := hjoin
      obtain ⟨rfl, rfl⟩ := Prod.mk.inj heq
      simp only [Bool.and_eq_true, decide_eq_true_eq, Bool.not_eq_true', Datetime.isoformat_le_iff]
        at hcond hid
      obtain ⟨⟨⟨⟨⟨⟨⟨h1, h2⟩, h3⟩, h4⟩, _⟩, h5⟩, h6⟩, h7⟩ := hcond
      have hsub := Datetime.sub?_eq_some hsince
      have hle := Datetime.le_iff.mp h5
      simp only [windowHours, Nat.one_mul] at hsub
      refine ⟨a', ((order.visit_perm _).mem_iff).mp ha', w', hw', hv, ?_, h4, h1, h2, h3, ?_, ?_,
        ?_, by omega, h6, h7⟩
      · exact Option.some.inj (hid.trans hv)
      · exact fun h0 => hnull (.inl h0)
      · exact fun h0 => hnull (.inr (.inl h0))
      · exact fun h0 => hnull (.inr (.inr h0))

end EventStore

/-! ### The operational store -/

namespace OperationalStore

variable {db db' : Db}

/-- So does the one into the verdicts. -/
theorem recordVerdict_eq_ok {verdict : Verdict} (h : recordVerdict db verdict = .ok db') :
    verdict.verdictId ∉ db.verdicts.rows.map Verdict.verdictId ∧
      db'.verdicts.rows = db.verdicts.rows ++ [verdict] ∧ db'.alerts = db.alerts := by
  unfold recordVerdict at h
  split at h
  · rename_i verdicts heq
    obtain rfl := Except.ok.inj h
    exact ⟨(Table.insert?_eq_some heq).1, (Table.insert?_eq_some heq).2, rfl⟩
  · contradiction

theorem mem_markPreviousVerdictsSuperseded {alertId : String} {w : Verdict} :
    w ∈ (markPreviousVerdictsSuperseded db alertId).verdicts.rows ↔ ∃ v ∈ db.verdicts.rows,
      (if v.alertId = alertId ∧ v.isCurrent then { v with isCurrent := false } else v) = w := by
  simp [markPreviousVerdictsSuperseded, Table.mem_update]

theorem mem_linkVerdictToAlert {alertId verdictId : String} {b : Alert} :
    b ∈ (linkVerdictToAlert db alertId verdictId).alerts.rows ↔ ∃ a ∈ db.alerts.rows,
      (if a.alertId = alertId then
        { a with verdictId := some verdictId, status := .analyzed, autoAnalyzed := true }
      else a) = b := by
  simp [linkVerdictToAlert, Table.mem_update]

end OperationalStore

end Verdix
