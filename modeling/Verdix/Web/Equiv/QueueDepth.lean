import Mathlib.Data.List.Dedup
import Verdix.Lib.AssocList
import Verdix.Web.Equiv.QueueRows
import Verdix.Web.QueueDepth

/-!
# Whether the depth of the queue agrees with the header of the page

`agrees_iff`: the four counts of `/api/queue-depth` are the numbers that `count_alerts_by_status`
gives iff no status has more alerts than the limit of its query.
-/

namespace Verdix.QueueDepth

variable {db : Db} {order : ScanOrder Alert} {now : Datetime} {resetHour : Fin 24}
  {authenticated : Bool} {ingestion : Option IngestionStatus} {dailyCap : Except String ℤ}
  {body : Depth}

/-- How many alerts have a status. -/
def alertCount (db : Db) (status : Status) : ℕ := db.alerts.rows.countP fun a => a.status = status

/-- The counts are those of a table of counts. -/
structure Agrees (body : Depth) (statusCounts : List (Status × ℕ)) : Prop where
  queued : body.queued = statusCount statusCounts .queued
  analyzing : body.analyzing = statusCount statusCounts .analyzing
  deferred : body.deferred = statusCount statusCounts .deferred
  failed : body.failed = statusCount statusCounts .failed

/-- No status has more alerts than the limit of its query. -/
structure WithinLimits (db : Db) : Prop where
  queued : alertCount db .queued ≤ 1000
  analyzing : alertCount db .analyzing ≤ 100
  deferred : alertCount db .deferred ≤ 1000
  failed : alertCount db .failed ≤ 100

/-! ### The two ways to count -/

/-- Counting what a limited query returns. -/
theorem queriedCount_eq (db : Db) (order : ScanOrder Alert) (status : Status) (limit : ℕ) :
    queriedCount db order status limit = min limit (alertCount db status) := by
  unfold queriedCount EventStore.queryAlerts alertCount
  rw [Table.length_select]
  simp

/-- Counting with `GROUP BY`. -/
theorem statusCount_countAlertsByStatus (db : Db) (status : Status) :
    statusCount (EventStore.countAlertsByStatus db none) status = alertCount db status := by
  unfold statusCount EventStore.countAlertsByStatus alertCount
  dsimp only
  rw [AssocList.lookup_map_keys]
  have hcount : ((db.alerts.rows.filter fun a => (none : Option Datetime).all fun t =>
      t.isoformat ≤ a.ingestTimestamp.isoformat).map Alert.status).count status =
      db.alerts.rows.countP fun a => a.status = status := by
    simp only [Option.all_none, List.filter_true]
    show List.countP _ _ = _
    rw [List.countP_map]
    apply List.countP_congr
    intro a _
    simp
  split_ifs with hmem
  · exact hcount
  · rw [List.mem_dedup] at hmem
    rw [← hcount, List.count_eq_zero.mpr hmem]
    rfl

/-! ### The answer -/

theorem apiQueueDepth_eq_depth
    (h : apiQueueDepth db order now resetHour authenticated ingestion dailyCap = .depth body) :
    body.queued = min 1000 (alertCount db .queued) ∧
      body.analyzing = min 100 (alertCount db .analyzing) ∧
      body.deferred = min 1000 (alertCount db .deferred) ∧
      body.failed = min 100 (alertCount db .failed) := by
  unfold apiQueueDepth at h
  split at h
  · split at h
    · contradiction
    · obtain rfl := Answer.depth.inj h
      exact ⟨queriedCount_eq .., queriedCount_eq .., queriedCount_eq .., queriedCount_eq ..⟩
  · contradiction

/-- The answer agrees with the header iff no status has more alerts than the limit of its query. -/
theorem agrees_iff
    (h : apiQueueDepth db order now resetHour authenticated ingestion dailyCap = .depth body) :
    Agrees body (EventStore.countAlertsByStatus db none) ↔ WithinLimits db := by
  obtain ⟨hqueued, hanalyzing, hdeferred, hfailed⟩ := apiQueueDepth_eq_depth h
  constructor
  · intro hagrees
    have h1 := hagrees.queued
    have h2 := hagrees.analyzing
    have h3 := hagrees.deferred
    have h4 := hagrees.failed
    rw [statusCount_countAlertsByStatus] at h1 h2 h3 h4
    constructor
    all_goals omega
  · intro hwithin
    have h1 := hwithin.queued
    have h2 := hwithin.analyzing
    have h3 := hwithin.deferred
    have h4 := hwithin.failed
    constructor
    all_goals
      rw [statusCount_countAlertsByStatus]
      omega

/-- An authenticated request is answered when the cap is a number. -/
theorem exists_depth (db : Db) (order : ScanOrder Alert) (now : Datetime) (resetHour : Fin 24)
    (ingestion : Option IngestionStatus) (cap : ℤ) :
    ∃ body, apiQueueDepth db order now resetHour true ingestion (.ok cap) = .depth body :=
  ⟨_, rfl⟩

/-! ### Samples -/

theorem shortDb_nodup :
    ([QueueRows.numberedAlert 0, QueueRows.numberedAlert 1].map Alert.alertId).Nodup := by
  decide +kernel

/-- A queue with two alerts. -/
def shortDb : Db :=
  QueueRows.alertsDb [QueueRows.numberedAlert 0, QueueRows.numberedAlert 1] shortDb_nodup

/-- With two queued alerts the counts agree. -/
theorem agrees_few :
    ∃ body, apiQueueDepth shortDb (.rowid Alert) QueueRows.noon 0 true none (.ok 300) =
        .depth body ∧
      (Agrees body (EventStore.countAlertsByStatus shortDb none) ↔ WithinLimits shortDb) := by
  obtain ⟨body, hbody⟩ := exists_depth shortDb (.rowid Alert) QueueRows.noon 0 none 300
  exact ⟨body, hbody, agrees_iff hbody⟩

theorem alertCount_crowdedDb : alertCount QueueRows.crowdedDb .queued = 2001 := by
  unfold alertCount QueueRows.crowdedDb
  rw [QueueRows.rows_alertsDb, List.countP_map, List.countP_eq_length.mpr, List.length_finRange]
  · rfl
  · intro i _
    rfl

/-- With 2001 queued alerts the answer says 1000. -/
theorem queued_cut_off :
    ∃ body, apiQueueDepth QueueRows.crowdedDb (.rowid Alert) QueueRows.noon 0 true none (.ok 300) =
        .depth body ∧
      body.queued = 1000 ∧
      statusCount (EventStore.countAlertsByStatus QueueRows.crowdedDb none) .queued = 2001 ∧
      ¬ Agrees body (EventStore.countAlertsByStatus QueueRows.crowdedDb none) := by
  obtain ⟨body, hbody⟩ := exists_depth QueueRows.crowdedDb (.rowid Alert) QueueRows.noon 0 none 300
  have hmin := (apiQueueDepth_eq_depth hbody).1
  have hcount := statusCount_countAlertsByStatus QueueRows.crowdedDb .queued
  rw [alertCount_crowdedDb] at hmin hcount
  have hqueued : body.queued = 1000 := by omega
  refine ⟨body, hbody, hqueued, hcount, fun hagrees => ?_⟩
  have h := hagrees.queued
  omega

end Verdix.QueueDepth
