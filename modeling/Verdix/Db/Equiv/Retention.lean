import Verdix.Db.EveEvents

/-!
# Which events the retention deletes

The cutoff is the text of a UTC instant and the timestamp of an event the text of a local clock with
its offset.  `text_lt_iff`: the first difference is one of the clocks, so the offset hardly counts.

`retention_iff`: the events deleted are those older than the retention exactly when, for each event
with a timestamp, the clock is on the same side of the cutoff as the instant, and no event without a
timestamp is that old.
-/

open FixedWidth

namespace Verdix

/-! ### The timestamps of EVE -/

/-- A timestamp of EVE: the reading of a clock and its offset from UTC. -/
structure EveTime where
  /-- What the clock shows, read as a UTC datetime. -/
  clock : Datetime
  /-- The fraction of the second is written, with six digits. -/
  fraction : Bool
  /-- The sign of the offset is `+`. -/
  east : Bool
  hours : ℕ
  minutes : ℕ
  /-- The offset is written with a colon. -/
  colon : Bool
  clock_whole : fraction = false → clock.micros % usPerSecond = 0
  hours_lt : hours < 24
  minutes_lt : minutes < 60

namespace EveTime

/-- `+HHMM` or `+HH:MM`. -/
def offsetText (east : Bool) (hours minutes : ℕ) (colon : Bool) : List Char :=
  (if east then '+' else '-') :: (pad 2 hours ++ ((if colon then [':'] else []) ++ pad 2 minutes))

/-- The fraction of the second, when it is written, and the offset. -/
def tailText (e : EveTime) : List Char :=
  (if e.fraction then '.' :: pad 6 (e.clock.micros % usPerDay % usPerSecond) else []) ++
    offsetText e.east e.hours e.minutes e.colon

/-- `YYYY-MM-DDTHH:MM:SS[.ffffff]+HHMM`. -/
def text (e : EveTime) : String :=
  String.ofList (dateText e.clock.day ++ 'T' :: clockText (e.clock.micros % usPerDay) e.tailText)

/-- The instant, in microseconds since the start of year 1. -/
def instant (e : EveTime) : ℤ :=
  let offset : ℤ := e.hours * usPerHour + e.minutes * usPerMinute
  if e.east then e.clock.micros - offset else e.clock.micros + offset

/-- A timestamp that sorts before the cutoff that its clock shows: its offset is less than an hour
east and has no colon, and its fraction is written as in the cutoff. -/
def SortsFirst (e : EveTime) : Prop :=
  e.east = true ∧ e.hours = 0 ∧ e.colon = false ∧
    (e.fraction = true ↔ e.clock.micros % usPerSecond ≠ 0)

instance (e : EveTime) : Decidable e.SortsFirst :=
  inferInstanceAs (Decidable (e.east = true ∧ e.hours = 0 ∧ e.colon = false ∧
    (e.fraction = true ↔ e.clock.micros % usPerSecond ≠ 0)))

/-- The text comes before that of the cutoff. -/
def Before (e : EveTime) (cutoff : ℤ) : Prop :=
  e.clock.micros < cutoff ∨ e.clock.micros = cutoff ∧ e.SortsFirst

instance (e : EveTime) (cutoff : ℤ) : Decidable (e.Before cutoff) :=
  inferInstanceAs (Decidable (e.clock.micros < cutoff ∨ e.clock.micros = cutoff ∧ e.SortsFirst))

/-! ### The order of the texts -/

theorem offsetText_lt_iff (east colon : Bool) {hours minutes : ℕ} (hh : hours < 24)
    (hm : minutes < 60) :
    offsetText east hours minutes colon < "+00:00".toList ↔
      east = true ∧ hours = 0 ∧ colon = false := by
  have hzero : "+00:00".toList = '+' :: (pad 2 0 ++ ':' :: pad 2 0) := by decide
  rw [hzero, offsetText]
  cases east with
  | false =>
    refine iff_of_false (fun h => ?_) (by simp)
    rcases List.cons_lt_cons_iff.mp h with h | ⟨h, -⟩
    · exact absurd h (by decide)
    · exact absurd h (by decide)
  | true =>
    rw [if_pos rfl, cons_lt_iff, pad_append_lt_iff (by omega) (by norm_num)]
    cases colon with
    | true =>
      -- the minutes are not before `00`
      have hminutes : ¬pad 2 minutes < pad 2 0 := by
        rcases Nat.eq_zero_or_pos minutes with rfl | hpos
        · exact lt_irrefl _
        · exact lt_asymm (pad_lt_pad hpos (by omega))
      simp [hminutes]
    | false =>
      -- a digit comes before the colon
      have hdigit : ∀ d < 10, digit d < ':' := by decide
      have hminutes : pad 2 minutes < ':' :: pad 2 0 := by
        show digit (minutes / 10 % 10) :: [digit (minutes % 10)] < _
        exact List.cons_lt_cons_iff.mpr (.inl (hdigit _ (Nat.mod_lt _ (by decide))))
      simp [hminutes]

theorem sign_lt_dot (e : EveTime) (x : List Char) :
    offsetText e.east e.hours e.minutes e.colon < '.' :: x := by
  unfold offsetText
  cases e.east
  · exact List.cons_lt_cons_iff.mpr (.inl (by decide))
  · exact List.cons_lt_cons_iff.mpr (.inl (by decide))

/-- Within one second: a fraction comes after the sign of an offset. -/
theorem tailText_lt_iff (e : EveTime) {us : ℕ} (hus : us < usPerSecond) :
    e.tailText < fractionText us ↔
      e.clock.micros % usPerDay % usPerSecond < us ∨
        e.clock.micros % usPerDay % usPerSecond = us ∧ e.SortsFirst := by
  have hmod : e.clock.micros % usPerDay % usPerSecond = e.clock.micros % usPerSecond :=
    Nat.mod_mod_of_dvd _ (by decide)
  have hus' : us < 10 ^ 6 := by simpa [usPerSecond] using hus
  have hfrac : e.clock.micros % usPerSecond < 10 ^ 6 := Nat.mod_lt _ (by decide)
  have hoffset := offsetText_lt_iff e.east e.colon e.hours_lt e.minutes_lt
  unfold tailText fractionText SortsFirst
  rw [hmod]
  cases hfraction : e.fraction with
  | true =>
    by_cases hzero : us = 0
    · rw [if_pos hzero, if_pos rfl]
      refine iff_of_false (fun h => ?_) (by grind)
      have hdot : ('+' : Char) < '.' := by decide
      exact lt_asymm h (List.cons_lt_cons_iff.mpr (.inl hdot))
    · rw [if_neg hzero, if_pos rfl, List.cons_append, cons_lt_iff,
        pad_append_lt_iff hfrac hus', hoffset]
      grind
  | false =>
    have hwhole := e.clock_whole hfraction
    rw [hwhole, if_neg (by simp), List.nil_append]
    by_cases hzero : us = 0
    · rw [if_pos hzero, hoffset]
      grind
    · rw [if_neg hzero]
      exact iff_of_true (sign_lt_dot e _) (.inl (Nat.pos_of_ne_zero hzero))

/-- The text of a timestamp comes before the cutoff when its clock does. -/
theorem text_lt_iff (e : EveTime) (cutoff : Datetime) :
    e.text < cutoff.isoformat ↔ e.Before cutoff.micros := by
  rw [String.lt_iff_toList_lt, text, Datetime.isoformat, String.toList_ofList, String.toList_ofList]
  have htime : 'T' :: timeText (cutoff.micros % usPerDay) =
      'T' :: clockText (cutoff.micros % usPerDay)
        (fractionText (cutoff.micros % usPerDay % usPerSecond)) := rfl
  rw [htime, field_append_lt_iff (by simp) (dateText_lt · (yearOf_lt cutoff.day_lt))
    (dateText_lt · (yearOf_lt e.clock.day_lt)), cons_lt_iff,
    clockText_lt_iff (Nat.mod_lt _ (by decide)) (Nat.mod_lt _ (by decide)),
    tailText_lt_iff e (Nat.mod_lt _ (by decide))]
  unfold Before Datetime.day
  rw [div_mod_lt_iff, div_mod_lt_iff]
  norm_cast

end EveTime

namespace EventStore

open EveTime

variable {realText : String → String} {stamp : EveEventRow → Option EveTime} {table : EveEvents}
  {now : Datetime} {retentionDays : ℤ}

/-! ### What the retention is meant to delete -/

/-- The instant before which events have expired. -/
def cutoffAt (now : Datetime) (retentionDays : ℤ) : ℤ := now.micros - retentionDays * usPerDay

/-- The instant of an event: that of its timestamp, else that of its ingest. -/
def bornAt (stamp : EveEventRow → Option EveTime) (row : EveEventRow) : ℤ :=
  match stamp row with
  | some e => e.instant
  | none => row.ingestTimestamp.micros

/-- The event is older than the retention. -/
def expired (stamp : EveEventRow → Option EveTime) (now : Datetime) (retentionDays : ℤ)
    (row : EveEventRow) : Bool :=
  bornAt stamp row < cutoffAt now retentionDays

/-- Each row has the text of its timestamp, or null. -/
def Stamps (stamp : EveEventRow → Option EveTime) (table : EveEvents) : Prop :=
  ∀ row ∈ table.rows, row.eventTimestamp = (stamp row).elim .null (.text ·.text)

/-- The expired events are deleted and counted, and the others kept. -/
def Retains (realText : String → String) (stamp : EveEventRow → Option EveTime) (table : EveEvents)
    (now : Datetime) (retentionDays : ℤ) : Prop :=
  ∃ table', deleteExpiredEveEvents realText table now retentionDays =
      .ok (table', table.rows.countP (expired stamp now retentionDays)) ∧
    table'.rows = table.rows.filter fun row => !expired stamp now retentionDays row

/-! ### When it does -/

/-- The clock of the event is on the side of the cutoff that its instant is on; an event without a
timestamp is not older. -/
def SameSide (stamp : EveEventRow → Option EveTime) (cutoff : ℤ) (row : EveEventRow) : Prop :=
  match stamp row with
  | some e => e.Before cutoff ↔ e.instant < cutoff
  | none => cutoff ≤ row.ingestTimestamp.micros

instance (stamp : EveEventRow → Option EveTime) (cutoff : ℤ) :
    DecidablePred (SameSide stamp cutoff) := fun row =>
  match h : stamp row with
  | some e => decidable_of_iff (e.Before cutoff ↔ e.instant < cutoff) (by rw [SameSide, h])
  | none => decidable_of_iff (cutoff ≤ row.ingestTimestamp.micros) (by rw [SameSide, h])

/-- The comparison of the texts is right for a row whose clock and instant are on one side. -/
theorem isBefore_eq_expired_iff {row : EveEventRow} {cutoff : Datetime}
    (hcutoff : (cutoff.micros : ℤ) = cutoffAt now retentionDays)
    (hrow : row.eventTimestamp = (stamp row).elim .null (.text ·.text)) :
    isBefore realText row.eventTimestamp cutoff.isoformat = expired stamp now retentionDays row ↔
      SameSide stamp (cutoffAt now retentionDays) row := by
  unfold expired bornAt SameSide
  rw [hrow, ← hcutoff]
  cases stamp row with
  | none =>
    show false = decide _ ↔ _
    rw [eq_comm, decide_eq_false_iff_not, not_lt]
  | some e =>
    show decide (e.text < cutoff.isoformat) = decide _ ↔ _
    rw [decide_eq_decide, text_lt_iff]

theorem filter_eq_filter_iff {α : Type*} {p q : α → Bool} {l : List α} :
    l.filter p = l.filter q ↔ ∀ a ∈ l, p a = q a := by
  refine ⟨fun h a ha => ?_, List.filter_congr⟩
  have hmem : a ∈ l.filter p ↔ a ∈ l.filter q := by rw [h]
  rw [List.mem_filter, List.mem_filter, and_iff_right ha, and_iff_right ha] at hmem
  exact Bool.eq_iff_iff.mpr hmem

/-- Exactly the expired events are deleted iff the cutoff is a date, no event without a timestamp has
expired, and the clock of each other event is on the same side of the cutoff as its instant. -/
theorem retention_iff (hstamp : Stamps stamp table) :
    Retains realText stamp table now retentionDays ↔
      (0 ≤ cutoffAt now retentionDays ∧ cutoffAt now retentionDays < maxDays * usPerDay) ∧
        ∀ row ∈ table.rows, SameSide stamp (cutoffAt now retentionDays) row := by
  unfold Retains deleteExpiredEveEvents
  cases hsub : now.subDays? retentionDays with
  | none =>
    unfold Datetime.subDays? at hsub
    split_ifs at hsub with hrange
    -- the cutoff is no date: the cleanup raises and deletes nothing
    refine iff_of_false ?_ fun h => hrange h.1
    rintro ⟨table', h, -⟩
    cases h
  | some cutoff =>
    have hcutoff : (cutoff.micros : ℤ) = cutoffAt now retentionDays := Datetime.subDays?_eq_some hsub
    have hlt : (cutoff.micros : ℤ) < maxDays * usPerDay := by exact_mod_cast cutoff.lt
    rw [and_iff_right ⟨by omega, by omega⟩]
    -- row by row: its text sorts before the cutoff iff it has expired
    have hrows : (∀ row ∈ table.rows, SameSide stamp (cutoffAt now retentionDays) row) ↔
        ∀ row ∈ table.rows, isBefore realText row.eventTimestamp cutoff.isoformat =
          expired stamp now retentionDays row :=
      forall₂_congr fun row hrow => (isBefore_eq_expired_iff hcutoff (hstamp row hrow)).symm
    rw [hrows]
    constructor
    · rintro ⟨table', h, hkept⟩ row hrow
      obtain ⟨rfl, -⟩ := Prod.mk.inj (Except.ok.inj h)
      exact Bool.not_inj (filter_eq_filter_iff.mp hkept row hrow)
    · intro h
      have hcount : table.rows.countP (fun row =>
            isBefore realText row.eventTimestamp cutoff.isoformat) =
          table.rows.countP (expired stamp now retentionDays) :=
        List.countP_congr fun row hrow => by rw [h row hrow]
      refine ⟨table.delete fun row => isBefore realText row.eventTimestamp cutoff.isoformat, ?_,
        filter_eq_filter_iff.mpr fun row hrow => congrArg not (h row hrow)⟩
      simp only [hcount]

/-! ### Two clocks -/

/-- `2026-01-09T00:30:00+00:00` -/
def cleanupTime : Datetime := ⟨63903515400000000, by decide⟩

/-- `2026-01-02T01:00:00.000000+0200`, an hour and a half before the cutoff of seven days. -/
def eastern : EveTime where
  clock := ⟨63902912400000000, by decide⟩
  fraction := true
  east := true
  hours := 2
  minutes := 0
  colon := false
  clock_whole h := nomatch h
  hours_lt := by decide
  minutes_lt := by decide

/-- A table with one event. -/
def eveTable (e : EveTime) : EveEvents where
  rows := [⟨"e", 1, .text "dns", .null, .text e.text, e.clock, ""⟩]
  nodup := List.nodup_singleton _

/-- The timestamps of three events: one half a day old at the cutoff, at five hours west; one that is
younger, at two hours east; and one without a timestamp. -/
def sampleStamp (row : EveEventRow) : Option EveTime :=
  if row.eventId = "western" then
    some { eastern with
      clock := ⟨63902849400000000, by decide⟩
      clock_whole := fun h => nomatch h
      east := false
      hours := 5
      hours_lt := by decide }
  else if row.eventId = "eastern" then
    some { eastern with
      clock := ⟨63902919600000000, by decide⟩
      clock_whole := fun h => nomatch h }
  else none

/-- A row with the timestamp of its event. -/
def sampleRow (eventId : String) : EveEventRow :=
  let row : EveEventRow := ⟨eventId, 1, .text "dns", .null, .null, cleanupTime, ""⟩
  { row with eventTimestamp := (sampleStamp row).elim .null (.text ·.text) }

def sampleEvents : EveEvents where
  rows := [sampleRow "western", sampleRow "eastern", sampleRow "timeless"]
  nodup := by decide

theorem stamps_sampleEvents : Stamps sampleStamp sampleEvents := by
  intro row hrow
  simp only [sampleEvents, List.mem_cons, List.not_mem_nil, or_false] at hrow
  rcases hrow with rfl | rfl | rfl <;> rfl

/-- One of the three has expired, and is deleted. -/
theorem retention_sample :
    Retains id sampleStamp sampleEvents cleanupTime 7 ∧
      sampleEvents.rows.countP (expired sampleStamp cleanupTime 7) = 1 :=
  ⟨(retention_iff stamps_sampleEvents).mpr ⟨by decide, by decide +kernel⟩, by decide +kernel⟩

/-- An event that has expired is kept, since its clock is ahead. -/
theorem eastern_kept :
    ∃ table', deleteExpiredEveEvents id (eveTable eastern) cleanupTime 7 = .ok (table', 0) ∧
      table'.rows = (eveTable eastern).rows ∧ Stamps (fun _ => some eastern) (eveTable eastern) ∧
      ∀ row ∈ (eveTable eastern).rows,
        expired (fun _ => some eastern) cleanupTime 7 row = true := by
  have hsub : cleanupTime.subDays? 7 = some ⟨63902910600000000, by decide⟩ := by decide +kernel
  have hlater : ¬eastern.text < (⟨63902910600000000, by decide⟩ : Datetime).isoformat := by
    rw [String.lt_iff_toList_lt]
    decide +kernel
  have hkept : ∀ row ∈ (eveTable eastern).rows, isBefore id row.eventTimestamp
      (⟨63902910600000000, by decide⟩ : Datetime).isoformat = false := by
    intro row hrow
    obtain rfl := List.mem_singleton.mp hrow
    exact decide_eq_false hlater
  have hcount : (eveTable eastern).rows.countP (fun row => isBefore id row.eventTimestamp
      (⟨63902910600000000, by decide⟩ : Datetime).isoformat) = 0 :=
    List.countP_eq_zero.mpr fun row hrow => by simp [hkept row hrow]
  simp only [deleteExpiredEveEvents, hsub, hcount]
  refine ⟨_, rfl, List.filter_eq_self.mpr fun row hrow => by simp [hkept row hrow], ?_, ?_⟩
  · intro row hrow
    obtain rfl := List.mem_singleton.mp hrow
    rfl
  · intro row hrow
    obtain rfl := List.mem_singleton.mp hrow
    show decide (eastern.instant < _) = true
    decide +kernel

end EventStore

end Verdix
