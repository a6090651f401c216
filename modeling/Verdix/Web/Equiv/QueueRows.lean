import Mathlib.Algebra.BigOperators.Group.List.Basic
import Verdix.Lib.Except
import Verdix.Web.QueueRows

/-!
# Whether the queue page shows the newest alert

`query_alerts` sorts oldest first and then cuts off at its limit, and the page sorts what is left
newest first.  `newest_first_iff`: the first row is that of the newest alert iff fewer alerts than
the limit are older.
-/

namespace Verdix.QueueRows

variable {db : Db} {columns : String → AlertColumns} {order : ScanOrder Alert}
  {now since : Datetime} {window : Window} {status : StatusFilter} {a : Alert}

/-- The alerts that match the window and the filter. -/
def matchingAlerts (db : Db) (since : Datetime) (status : StatusFilter) : List Alert :=
  db.alerts.rows.filter fun a =>
    since ≤ a.ingestTimestamp && status.status?.all fun s => a.status = s

/-- A matching alert was ingested later. -/
def superseded (db : Db) (since : Datetime) (status : StatusFilter) (a : Alert) : Bool :=
  (matchingAlerts db since status).any fun b => a.ingestTimestamp < b.ingestTimestamp

/-- No matching alert was ingested later than this one. -/
def Newest (db : Db) (since : Datetime) (status : StatusFilter) (a : Alert) : Prop :=
  a ∈ matchingAlerts db since status ∧
    ∀ b ∈ matchingAlerts db since status, b.ingestTimestamp ≤ a.ingestTimestamp

/-- How many matching alerts are older than the newest. -/
def olderCount (db : Db) (since : Datetime) (status : StatusFilter) : ℕ :=
  (matchingAlerts db since status).countP (superseded db since status)

/-- The first row is the row of a group with a newest alert in it. -/
def NewestFirst (db : Db) (columns : String → AlertColumns) (order : ScanOrder Alert)
    (since : Datetime) (status : StatusFilter) (rows : List QueueRow) : Prop :=
  let alerts := queriedAlerts db order since status
  let verdicts := verdictMap (OperationalStore.getVerdict db) alerts
  ∃ a, Newest db since status a ∧ ∃ g ∈ KeyGroup.groupBy groupKey alerts,
    a ∈ g.members ∧ rows.head? = some (queueRow verdicts columns g)

/-! ### The query -/

theorem newest_iff :
    Newest db since status a ↔
      a ∈ matchingAlerts db since status ∧ superseded db since status a = false := by
  simp [Newest, superseded]

/-- Something is newest if anything matches. -/
theorem exists_newest (hsome : matchingAlerts db since status ≠ []) :
    ∃ a, Newest db since status a := by
  obtain ⟨a, ha⟩ := Option.ne_none_iff_exists'.mp fun h =>
    hsome ((List.argmax_eq_none (f := Alert.ingestTimestamp)).mp h)
  exact ⟨a, List.argmax_mem ha, fun b hb => List.le_of_mem_argmax hb ha⟩

/-- The query selects by the same conditions. -/
theorem queriedAlerts_eq :
    queriedAlerts db order since status =
      db.alerts.select order
        (fun a => since ≤ a.ingestTimestamp && status.status?.all fun s => a.status = s)
        EventStore.byIngest queryLimit 0 := by
  unfold queriedAlerts EventStore.queryAlerts
  congr 1
  funext a
  simp

theorem mem_matchingAlerts (h : a ∈ queriedAlerts db order since status) :
    a ∈ matchingAlerts db since status := by
  rw [queriedAlerts_eq] at h
  exact List.mem_filter.mpr (Table.mem_of_mem_select h)

/-- The query reaches a newest alert iff fewer alerts than its limit are older. -/
theorem exists_newest_queried_iff (hsome : matchingAlerts db since status ≠ []) :
    (∃ a ∈ queriedAlerts db order since status, Newest db since status a) ↔
      olderCount db since status < queryLimit := by
  -- the query sorts by age, so the alerts that are not newest come first
  have hmono : ∀ a b : Alert, EventStore.byIngest a b → superseded db since status b →
      superseded db since status a := by
    intro a b hab hb
    unfold superseded at hb ⊢
    obtain ⟨c, hc, hbc⟩ := List.any_eq_true.mp hb
    have hle : a.ingestTimestamp ≤ b.ingestTimestamp := Datetime.isoformat_le_iff.mp hab
    have hlt : b.ingestTimestamp < c.ingestTimestamp := of_decide_eq_true hbc
    exact List.any_eq_true.mpr ⟨c, hc, decide_eq_true (lt_of_le_of_lt hle hlt)⟩
  have hselect : (∃ a ∈ queriedAlerts db order since status, superseded db since status a = false) ↔
      olderCount db since status < queryLimit ∧
        ∃ a ∈ matchingAlerts db since status, superseded db since status a = false := by
    rw [queriedAlerts_eq]
    exact Table.exists_mem_select_not_iff hmono
  constructor
  · rintro ⟨a, ha, hnewest⟩
    exact (hselect.mp ⟨a, ha, (newest_iff.mp hnewest).2⟩).1
  · intro hlt
    obtain ⟨b, hb⟩ := exists_newest hsome
    obtain ⟨a, ha, hnone⟩ := hselect.mpr ⟨hlt, b, newest_iff.mp hb⟩
    exact ⟨a, ha, newest_iff.mpr ⟨mem_matchingAlerts ha, hnone⟩⟩

/-! ### The rows -/

/-- The rows count every alert once. -/
theorem sum_count_buildQueueRows (getVerdict : String → Option Verdict) (alerts : List Alert) :
    ((buildQueueRows getVerdict columns alerts).map QueueRow.count).sum = alerts.length := by
  set groups := KeyGroup.groupBy groupKey alerts
  set verdicts := verdictMap getVerdict alerts
  have hsorted : (buildQueueRows getVerdict columns alerts).Perm
      (groups.map (queueRow verdicts columns)) := List.perm_insertionSort _ _
  have hcount : (groups.map (queueRow verdicts columns)).map QueueRow.count =
      groups.map fun g => g.members.length := by
    rw [List.map_map]
    exact List.map_congr_left fun g _ => rfl
  rw [(hsorted.map QueueRow.count).sum_eq, hcount, ← List.length_flatMap]
  exact (KeyGroup.groupBy_perm alerts).length_eq

theorem queryRowsFor_eq_ok (hsince : now.sub? (usPerHour * windowHours window) = some since) :
    queryRowsFor db columns order now window status =
      .ok (buildQueueRows (OperationalStore.getVerdict db) columns
        (queriedAlerts db order since status), (queriedAlerts db order since status).length) := by
  rw [queryRowsFor, hsince]

/-- The total that the page shows is the sum of the counts of its rows. -/
theorem sum_count_getQueueRows {authenticated : Bool} {windowName statusName : String}
    {rows : List QueueRow} {total : ℕ}
    (h : getQueueRows db columns order now authenticated windowName statusName =
      .ok (some (rows, total))) :
    (rows.map QueueRow.count).sum = total := by
  unfold getQueueRows at h
  split_ifs at h with hauth
  · obtain ⟨r, hr, heq⟩ := Except.map_eq_ok.mp h
    unfold queryRowsFor at hr
    split at hr
    · contradiction
    · obtain rfl := Except.ok.inj hr
      obtain ⟨rfl, rfl⟩ := Prod.mk.inj (Option.some.inj heq)
      exact sum_count_buildQueueRows _ _
  · exact absurd (Except.ok.inj h) (by simp)

/-- A newest alert that the query reaches puts a group in front. -/
theorem newestFirst_of_queried (ha : a ∈ queriedAlerts db order since status)
    (hnewest : Newest db since status a) :
    NewestFirst db columns order since status (buildQueueRows (OperationalStore.getVerdict db)
      columns (queriedAlerts db order since status)) := by
  unfold NewestFirst buildQueueRows
  set alerts := queriedAlerts db order since status
  set verdicts := verdictMap (OperationalStore.getVerdict db) alerts
  set groups := KeyGroup.groupBy groupKey alerts
  obtain ⟨g, hg, hag⟩ : ∃ g ∈ groups, a ∈ g.members := KeyGroup.exists_mem_groupBy.mpr ha
  have hrow : queueRow verdicts columns g ∈ groups.map (queueRow verdicts columns) :=
    List.mem_map_of_mem hg
  obtain ⟨row, hhead⟩ : ∃ row,
      ((groups.map (queueRow verdicts columns)).insertionSort byNewest).head? = some row := by
    have hsorted := (List.mem_insertionSort byNewest).mpr hrow
    exact Option.isSome_iff_exists.mp (List.isSome_head?.mpr (List.ne_nil_of_mem hsorted))
  -- sorting leaves the rows of the groups
  obtain ⟨g', hg', rfl⟩ : ∃ g' ∈ groups, queueRow verdicts columns g' = row := by
    have hmem := List.mem_of_mem_head? (Option.mem_def.mpr hhead)
    exact List.mem_map.mp ((List.mem_insertionSort byNewest).mp hmem)
  -- the representative of the first row is as new as `a`
  have hle : a.ingestTimestamp ≤ (g'.maxBy ingestText).ingestTimestamp := by
    have h1 : ingestText a ≤ ingestText (g.maxBy ingestText) := KeyGroup.le_maxBy hag
    have h2 : byNewest (queueRow verdicts columns g') (queueRow verdicts columns g) :=
      Table.rel_of_insertionSort_head? hhead hrow
    exact (Datetime.isoformat_le_iff.mp h1).trans (Datetime.isoformat_le_iff.mp h2)
  have hqueried : g'.maxBy ingestText ∈ alerts :=
    KeyGroup.exists_mem_groupBy.mp ⟨g', hg', KeyGroup.maxBy_mem⟩
  refine ⟨g'.maxBy ingestText, ⟨mem_matchingAlerts hqueried, fun b hb => ?_⟩, g', hg',
    KeyGroup.maxBy_mem, hhead⟩
  exact (hnewest.2 b hb).trans hle

theorem exists_queried_of_newestFirst {rows : List QueueRow}
    (h : NewestFirst db columns order since status rows) :
    ∃ a ∈ queriedAlerts db order since status, Newest db since status a := by
  obtain ⟨a, hnewest, g, hg, hag, -⟩ := h
  exact ⟨a, KeyGroup.exists_mem_groupBy.mp ⟨g, hg, hag⟩, hnewest⟩

/-- The first row of the page is that of the newest matching alert iff fewer matching alerts than
the limit of the query are older. -/
theorem newest_first_iff (hsince : now.sub? (usPerHour * windowHours window) = some since)
    (hsome : matchingAlerts db since status ≠ []) :
    (∃ rows total, queryRowsFor db columns order now window status = .ok (rows, total) ∧
        NewestFirst db columns order since status rows) ↔
      olderCount db since status < queryLimit := by
  have hreached : (∃ a ∈ queriedAlerts db order since status, Newest db since status a) ↔
      olderCount db since status < queryLimit := exists_newest_queried_iff hsome
  rw [← hreached, queryRowsFor_eq_ok hsince]
  constructor
  · rintro ⟨rows, total, -, hfirst⟩
    exact exists_queried_of_newestFirst hfirst
  · rintro ⟨a, ha, hnewest⟩
    exact ⟨_, _, rfl, newestFirst_of_queried ha hnewest⟩

/-! ### More alerts than the limit -/

/-- The columns of an alert that says nothing. -/
def sampleColumns : AlertColumns :=
  ⟨.null, .null, .null, .null, .null, .null, .null, .null, .null, .null⟩

/-- The database with these alerts and no verdicts. -/
def alertsDb (alerts : List Alert) (h : (alerts.map Alert.alertId).Nodup) : Db :=
  ⟨⟨alerts, h⟩, .empty⟩

theorem rows_alertsDb {alerts : List Alert} {h : (alerts.map Alert.alertId).Nodup} :
    (alertsDb alerts h).alerts.rows = alerts := rfl

/-- The alert with number `i`, with a signature of its own, ingested `i` microseconds after
`2026-01-01T10:00:00`. -/
def numberedAlert (i : Fin (queryLimit + 1)) : Alert where
  alertId := String.ofList (FixedWidth.pad 36 i)
  sensorId := 1
  signatureId := .integer (2000000 + i)
  srcIp := .text "203.0.113.7"
  dstIp := .text "192.168.1.10"
  ingestTimestamp := ⟨63902858400000000 + i, by
    have := i.isLt
    simp only [queryLimit, maxDays, usPerDay, usPerHour, usPerMinute, usPerSecond] at this ⊢
    omega⟩
  status := .queued
  autoAnalyzed := false
  verdictId := none

theorem numberedAlert_lt {i j : Fin (queryLimit + 1)} :
    (numberedAlert i).ingestTimestamp < (numberedAlert j).ingestTimestamp ↔ i < j := by
  rw [Datetime.lt_iff, Fin.lt_def]
  exact Nat.add_lt_add_iff_left

/-- The alerts have different ids. -/
theorem numberedAlert_injective : Function.Injective fun i => (numberedAlert i).alertId := by
  have hmono : StrictMono fun i => (numberedAlert i).alertId := by
    intro i j hij
    rw [String.lt_iff_toList_lt]
    simp only [numberedAlert, String.toList_ofList]
    refine FixedWidth.pad_lt_pad hij (j.isLt.trans ?_)
    unfold queryLimit
    norm_num
  exact hmono.injective

/-- Noon of the same day. -/
def noon : Datetime := ⟨63902865600000000, by decide⟩

/-- A day before noon. -/
def noonBefore : Datetime := ⟨63902779200000000, by decide⟩

theorem noon_sub? : noon.sub? (usPerHour * windowHours .hours24) = some noonBefore := by
  decide +kernel

/-- With two alerts the younger one comes first. -/
theorem newest_first_few :
    ∃ rows total, queryRowsFor (alertsDb [numberedAlert 0, numberedAlert 1] (by decide +kernel))
        (fun _ => sampleColumns) (.rowid Alert) noon .hours24 .queued = .ok (rows, total) ∧
      NewestFirst (alertsDb [numberedAlert 0, numberedAlert 1] (by decide +kernel))
        (fun _ => sampleColumns) (.rowid Alert) noonBefore .queued rows :=
  (newest_first_iff noon_sub? (by decide +kernel)).mpr (by decide +kernel)

/-- One alert more than the limit of the query. -/
def crowdedDb : Db :=
  alertsDb ((List.finRange (queryLimit + 1)).map numberedAlert) (by
    rw [List.map_map]
    exact (List.nodup_finRange _).map numberedAlert_injective)

theorem matchingAlerts_crowdedDb :
    matchingAlerts crowdedDb noonBefore .all =
      (List.finRange (queryLimit + 1)).map numberedAlert := by
  rw [matchingAlerts, crowdedDb, rows_alertsDb, List.filter_eq_self]
  intro a ha
  obtain ⟨i, -, rfl⟩ := List.mem_map.mp ha
  have hle : noonBefore ≤ (numberedAlert i).ingestTimestamp := by
    rw [Datetime.le_iff]
    simp only [noonBefore, numberedAlert]
    omega
  simp [hle, StatusFilter.status?]

/-- All but the last alert are older than the last one. -/
theorem queryLimit_le_olderCount : queryLimit ≤ olderCount crowdedDb noonBefore .all := by
  rw [olderCount, matchingAlerts_crowdedDb, List.finRange_succ_last, List.map_append,
    List.countP_append]
  -- each of them is older than the last alert
  have hall : (((List.finRange queryLimit).map Fin.castSucc).map numberedAlert).countP
      (superseded crowdedDb noonBefore .all) = queryLimit := by
    rw [List.countP_eq_length.mpr, List.length_map, List.length_map, List.length_finRange]
    intro a ha
    obtain ⟨i, hi, rfl⟩ := List.mem_map.mp ha
    obtain ⟨k, -, rfl⟩ := List.mem_map.mp hi
    rw [superseded, matchingAlerts_crowdedDb]
    refine List.any_eq_true.mpr ⟨numberedAlert (Fin.last queryLimit), ?_, ?_⟩
    · exact List.mem_map_of_mem (List.mem_finRange _)
    · exact decide_eq_true (numberedAlert_lt.mpr (Fin.castSucc_lt_last k))
  omega

/-- The newest alert is the one the limit cuts off. -/
theorem newest_hidden :
    matchingAlerts crowdedDb noonBefore .all ≠ [] ∧
      ∃ rows total,
        queryRowsFor crowdedDb (fun _ => sampleColumns) (.rowid Alert) noon .hours24 .all =
          .ok (rows, total) ∧
        ¬ NewestFirst crowdedDb (fun _ => sampleColumns) (.rowid Alert) noonBefore .all rows := by
  have hsome : matchingAlerts crowdedDb noonBefore .all ≠ [] := by
    rw [matchingAlerts_crowdedDb, Ne, List.map_eq_nil_iff, ← List.length_eq_zero_iff,
      List.length_finRange]
    exact Nat.succ_ne_zero _
  refine ⟨hsome, _, _, queryRowsFor_eq_ok noon_sub?, fun hfirst => ?_⟩
  have hlt := (exists_newest_queried_iff hsome).mp (exists_queried_of_newestFirst hfirst)
  have hle := queryLimit_le_olderCount
  omega

end Verdix.QueueRows
