import Verdix.Db.Equiv.Stores

/-!
# What `count_analyzed_today` counts

The count starts at `now.replace(hour=reset_hour, ..)`, which lies in the future for the hours of the
day before the reset.  `Datetime.lastReset` is the reset that is meant, the last one at or before
`now`, and `countAnalyzedToday_eq_window_iff` says when the two counts are the same: after today's
reset when no alert is stamped later than `now`, before it when no alert has come in since the last
reset.  Only alerts that are stamped in the future, at the reset still to come or later, can make up
for those that have.
-/

namespace Datetime

variable {h : Fin 24} {t : Datetime}

/-- The last time the clock showed `h`:00, in microseconds; on the first day it may lie before
year 1. -/
def lastReset (h : Fin 24) (t : Datetime) : ℤ :=
  if t.replaceHour h ≤ t then (t.replaceHour h).micros else (t.replaceHour h).micros - usPerDay

/-- It shows `h`:00, and the next time it does so is after `t`. -/
theorem lastReset_spec (h : Fin 24) (t : Datetime) :
    lastReset h t % usPerDay = h * usPerHour ∧ lastReset h t ≤ t.micros ∧
      (t.micros : ℤ) < lastReset h t + usPerDay := by
  have hh := h.isLt
  have h1 := Nat.div_add_mod t.micros 86400000000
  have h2 := Nat.mod_lt t.micros (show 0 < 86400000000 by decide)
  unfold lastReset
  split
  · rename_i hle
    rw [le_iff] at hle
    simp only [replaceHour, day, usPerDay, usPerHour, usPerMinute, usPerSecond] at hle ⊢
    omega
  · rename_i hle
    rw [le_iff] at hle
    simp only [replaceHour, day, usPerDay, usPerHour, usPerMinute, usPerSecond] at hle ⊢
    omega

end Datetime

namespace Verdix.EventStore

variable {db : Db} {now : Datetime} {resetHour : Fin 24} {sensorId : ℤ}

/-- An alert the daily count is about. -/
def Counted (sensorId : ℤ) (a : Alert) : Prop := a.sensorId = sensorId ∧ a.status ≠ .deferred

instance (sensorId : ℤ) : DecidablePred (Counted sensorId) := fun a =>
  inferInstanceAs (Decidable (a.sensorId = sensorId ∧ a.status ≠ .deferred))

/-- The alert was ingested between the last reset and `now`. -/
def InWindow (now : Datetime) (resetHour : Fin 24) (a : Alert) : Prop :=
  Datetime.lastReset resetHour now ≤ a.ingestTimestamp.micros ∧ a.ingestTimestamp ≤ now

instance (now : Datetime) (resetHour : Fin 24) : DecidablePred (InWindow now resetHour) := fun a =>
  inferInstanceAs (Decidable
    (Datetime.lastReset resetHour now ≤ a.ingestTimestamp.micros ∧ a.ingestTimestamp ≤ now))

/-- The alerts since the last reset. -/
def windowCount (db : Db) (now : Datetime) (resetHour : Fin 24) (sensorId : ℤ) : ℕ :=
  db.alerts.rows.countP fun a => Counted sensorId a ∧ InWindow now resetHour a

/-- The alerts stamped at the reset of `now`'s day or later. -/
def stampedFrom (db : Db) (reset : Datetime) (sensorId : ℤ) : ℕ :=
  db.alerts.rows.countP fun a => Counted sensorId a ∧ reset ≤ a.ingestTimestamp

/-- After today's reset the alerts counted are those of the window and those stamped later. -/
theorem countAnalyzedToday_eq_add (hpast : resetTime now resetHour ≤ now) :
    countAnalyzedToday db now resetHour sensorId = windowCount db now resetHour sensorId +
      db.alerts.rows.countP fun a => Counted sensorId a ∧ now < a.ingestTimestamp := by
  have hreset : Datetime.lastReset resetHour now = (resetTime now resetHour).micros :=
    if_pos hpast
  rw [countAnalyzedToday_eq, windowCount,
    List.countP_eq_countP_filter_add _ _ fun a => decide (a.ingestTimestamp ≤ now),
    List.countP_filter, List.countP_filter]
  congr 1
  · refine List.countP_congr fun a _ => ?_
    simp only [Counted, InWindow, hreset, Datetime.le_iff, Nat.cast_le, Bool.and_eq_true,
      decide_eq_true_eq]
    tauto
  · refine List.countP_congr fun a _ => ?_
    simp only [Bool.and_eq_true, Bool.not_eq_true', decide_eq_true_eq, decide_eq_false_iff_not,
      not_le]
    constructor
    · rintro ⟨⟨h1, h2, -⟩, hlt⟩
      exact ⟨⟨h1, h2⟩, hlt⟩
    · rintro ⟨⟨h1, h2⟩, hlt⟩
      exact ⟨⟨h1, h2, hpast.trans hlt.le⟩, hlt⟩

/-- Before today's reset the alerts counted are those stamped in the future, from the reset on. -/
theorem countAnalyzedToday_eq_stampedFrom :
    countAnalyzedToday db now resetHour sensorId =
      stampedFrom db (resetTime now resetHour) sensorId := by
  rw [countAnalyzedToday_eq, stampedFrom]
  refine List.countP_congr fun a _ => ?_
  simp only [Counted, decide_eq_true_eq, and_assoc]

theorem windowCount_eq_zero :
    windowCount db now resetHour sensorId = 0 ↔
      ∀ a ∈ db.alerts.rows, Counted sensorId a → ¬ InWindow now resetHour a := by
  simp only [windowCount, List.countP_eq_zero, decide_eq_true_eq, not_and]

theorem stampedFrom_eq_zero {reset : Datetime} :
    stampedFrom db reset sensorId = 0 ↔
      ∀ a ∈ db.alerts.rows, Counted sensorId a → a.ingestTimestamp < reset := by
  simp only [stampedFrom, List.countP_eq_zero, decide_eq_true_eq, not_and, not_le]

/-- The count is that of the alerts since the last reset exactly when today's reset is past and no
alert is stamped later than `now`; or the reset is still to come, no alert is stamped from then on and
the window is empty; or some alerts are stamped from then on, and as many lie in the window. -/
theorem countAnalyzedToday_eq_window_iff (db : Db) (now : Datetime) (resetHour : Fin 24)
    (sensorId : ℤ) :
    countAnalyzedToday db now resetHour sensorId = windowCount db now resetHour sensorId ↔
      resetTime now resetHour ≤ now ∧
          (∀ a ∈ db.alerts.rows, Counted sensorId a → a.ingestTimestamp ≤ now) ∨
        now < resetTime now resetHour ∧
          ((∀ a ∈ db.alerts.rows, Counted sensorId a →
              a.ingestTimestamp < resetTime now resetHour ∧ ¬ InWindow now resetHour a) ∨
            (∃ a ∈ db.alerts.rows, Counted sensorId a ∧
                resetTime now resetHour ≤ a.ingestTimestamp) ∧
              windowCount db now resetHour sensorId =
                stampedFrom db (resetTime now resetHour) sensorId) := by
  rcases le_or_gt (resetTime now resetHour) now with hpast | hfuture
  · rw [countAnalyzedToday_eq_add hpast, Nat.add_eq_left, List.countP_eq_zero,
      and_iff_right hpast, or_iff_left fun h => absurd hpast (not_le.mpr h.1)]
    simp only [decide_eq_true_eq, not_and, not_lt]
  · rw [countAnalyzedToday_eq_stampedFrom, and_iff_right hfuture,
      or_iff_right fun h => absurd h.1 (not_le.mpr hfuture)]
    by_cases hnone : stampedFrom db (resetTime now resetHour) sensorId = 0
    · -- nothing is counted, so nothing may lie in the window
      have hbefore := stampedFrom_eq_zero.mp hnone
      rw [hnone, eq_comm, windowCount_eq_zero, or_iff_left]
      · exact ⟨fun h a ha hc => ⟨hbefore a ha hc, h a ha hc⟩, fun h a ha hc => (h a ha hc).2⟩
      · rintro ⟨⟨a, ha, hc, hle⟩, -⟩
        exact absurd (hbefore a ha hc) (not_lt.mpr hle)
    · have hsome : ∃ a ∈ db.alerts.rows, Counted sensorId a ∧
          resetTime now resetHour ≤ a.ingestTimestamp := by
        rw [stampedFrom_eq_zero] at hnone
        push Not at hnone
        exact hnone
      rw [and_iff_right hsome, eq_comm, or_iff_right]
      intro h
      exact hnone (stampedFrom_eq_zero.mpr fun a ha hc => (h a ha hc).1)

theorem ingestedAt_lt : 63902829600000000 < maxDays * usPerDay := by decide

/-- One alert, ingested at 02:00 on New Year's Day of 2026. -/
def oneAlert : Db where
  alerts := ⟨[⟨"a", 1, .null, .null, .null, ⟨63902829600000000, ingestedAt_lt⟩, .analyzed, true,
    none⟩], List.nodup_singleton _⟩
  verdicts := .empty

/-- An hour later, with the reset at 05:00, it is not counted: the window begins in the future. -/
theorem count_before_reset :
    countAnalyzedToday oneAlert ⟨63902833200000000, by decide⟩ 5 1 = 0 ∧
      windowCount oneAlert ⟨63902833200000000, by decide⟩ 5 1 = 1 := by
  decide +kernel

end Verdix.EventStore
