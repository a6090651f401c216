import Verdix.Lib.FixedWidth
import Mathlib.Data.String.Basic
import Mathlib.Order.Monotone.Basic
import Mathlib.Tactic.NormNum
import Mathlib.Tactic.IntervalCases

/-!
# Aware UTC datetimes and their ISO-8601 text

A `Datetime` is an instant of Python's `datetime` range, `0001-01-01T00:00:00` to
`9999-12-31T23:59:59.999999` UTC, as a number of microseconds.  `isoformat` is the text
`datetime.isoformat` gives it, with the fraction left out when the microseconds are zero.

`isoformat_strictMono`: the lexicographic order of these texts is the order of the instants, so a
store that compares timestamps as strings compares instants.  The proof goes field by field: the
date by `daysBeforeYear` (`yearOf_spec`) and `monthOf`, the time of day by its digits, and the
missing fraction by `'+' < '.'`.
-/

open FixedWidth

/-! ### The calendar -/

/-- Days from `0001-01-01` to January 1 of year `y`. -/
def daysBeforeYear (y : ℕ) : ℕ := (y - 1) * 365 + (y - 1) / 4 - (y - 1) / 100 + (y - 1) / 400

/-- Leap years of the proleptic Gregorian calendar. -/
def isLeap (y : ℕ) : Bool := y % 4 = 0 ∧ (y % 100 ≠ 0 ∨ y % 400 = 0)

/-- Days of the year before the month with index `i` (January is `0`). -/
def daysBeforeMonth (leap : Bool) (i : ℕ) : ℕ :=
  [0, 31, 59, 90, 120, 151, 181, 212, 243, 273, 304, 334].getD i 0 + if leap ∧ 1 < i then 1 else 0

/-- The year of day `n`, counted from `0001-01-01`: 400-, 100- and 4-year cycles, then years. -/
def yearOf (n : ℕ) : ℕ :=
  let n400 := n / 146097
  let n100 := n % 146097 / 36524
  let n4 := n % 146097 % 36524 / 1461
  let n1 := n % 146097 % 36524 % 1461 / 365
  -- the last day of a leap cycle would otherwise be counted into the next year
  if n1 = 4 ∨ n100 = 4 then n400 * 400 + n100 * 100 + n4 * 4 + n1
  else n400 * 400 + n100 * 100 + n4 * 4 + n1 + 1

/-- The month (1 to 12) of day `d` of a year. -/
def monthOf (leap : Bool) (d : ℕ) : ℕ := (List.range 12).countP fun i => daysBeforeMonth leap i ≤ d

/-- The day of the month of day `d` of a year. -/
def dayOfMonth (leap : Bool) (d : ℕ) : ℕ := d - daysBeforeMonth leap (monthOf leap d - 1) + 1

theorem daysBeforeYear_mono : Monotone daysBeforeYear :=
  monotone_nat_of_le_succ fun y => by
    unfold daysBeforeYear
    omega

/-- The days before year `p + 1`, once the leap days of `p` years are counted. -/
theorem daysBeforeYear_eq {y p : ℕ} (q r s : ℕ) (hy : y = p + 1) (hq : p / 4 = q)
    (hr : p / 100 = r) (hs : p / 400 = s) : daysBeforeYear y + r = p * 365 + q + s := by
  subst hy
  simp only [daysBeforeYear, Nat.add_sub_cancel, hq, hr, hs]
  omega

/-- Day `n` lies in year `yearOf n`. -/
theorem yearOf_spec (n : ℕ) :
    daysBeforeYear (yearOf n) ≤ n ∧ n < daysBeforeYear (yearOf n + 1) := by
  unfold yearOf
  dsimp only
  have ha := Nat.div_add_mod n 146097
  have ha' := Nat.mod_lt n (show 0 < 146097 by decide)
  generalize n / 146097 = a at *
  generalize n % 146097 = n₁ at *
  have hb := Nat.div_add_mod n₁ 36524
  have hb' := Nat.mod_lt n₁ (show 0 < 36524 by decide)
  generalize n₁ / 36524 = b at *
  generalize n₁ % 36524 = n₂ at *
  have hc := Nat.div_add_mod n₂ 1461
  have hc' := Nat.mod_lt n₂ (show 0 < 1461 by decide)
  generalize n₂ / 1461 = c at *
  generalize n₂ % 1461 = n₃ at *
  have hd := Nat.div_add_mod n₃ 365
  have hd' := Nat.mod_lt n₃ (show 0 < 365 by decide)
  generalize n₃ / 365 = d at *
  generalize n₃ % 365 = e at *
  have hb3 : b ≤ 4 ∧ (b = 4 → c = 0 ∧ d = 0) := by omega
  have hc24 : c ≤ 24 ∧ (c = 24 → d ≤ 3) := by omega
  split_ifs with h
  · rcases h with rfl | rfl
    · have hb' : b ≤ 3 := by omega
      have h0 := @daysBeforeYear_eq (a * 400 + b * 100 + c * 4 + 4)
        (a * 400 + b * 100 + c * 4 + 3) (a * 100 + b * 25 + c) (a * 4 + b) a
        (by omega) (by omega) (by omega) (by omega)
      have h1 := @daysBeforeYear_eq (a * 400 + b * 100 + c * 4 + 4 + 1)
        (a * 400 + b * 100 + c * 4 + 4) (a * 100 + b * 25 + c + 1) (a * 4 + b) a
        (by omega) (by omega) (by omega) (by omega)
      omega
    · obtain ⟨rfl, rfl⟩ := hb3.2 rfl
      have h0 := @daysBeforeYear_eq (a * 400 + 4 * 100 + 0 * 4 + 0)
        (a * 400 + 399) (a * 100 + 99) (a * 4 + 3) a (by omega) (by omega) (by omega) (by omega)
      have h1 := @daysBeforeYear_eq (a * 400 + 4 * 100 + 0 * 4 + 0 + 1) (a * 400 + 400)
        (a * 100 + 100) (a * 4 + 4) (a + 1) (by omega) (by omega) (by omega) (by omega)
      omega
  · have hb' : b ≤ 3 := by omega
    have h0 := @daysBeforeYear_eq (a * 400 + b * 100 + c * 4 + d + 1)
      (a * 400 + b * 100 + c * 4 + d) (a * 100 + b * 25 + c) (a * 4 + b) a
      (by omega) (by omega) (by omega) (by omega)
    refine ⟨by omega, ?_⟩
    -- the next year starts a new century exactly when this one is the last of its century
    by_cases hcd : c = 24 ∧ d = 3
    · obtain ⟨rfl, rfl⟩ := hcd
      have h1 := @daysBeforeYear_eq (a * 400 + b * 100 + 24 * 4 + 3 + 1 + 1)
        (a * 400 + b * 100 + 100) (a * 100 + b * 25 + 25) (a * 4 + b + 1) _
        (by omega) (by omega) (by omega) rfl
      omega
    · have h1 := @daysBeforeYear_eq (a * 400 + b * 100 + c * 4 + d + 1 + 1)
        (a * 400 + b * 100 + c * 4 + d + 1) _ (a * 4 + b) a (by omega) rfl (by omega) (by omega)
      omega

theorem yearOf_mono {n m : ℕ} (h : n ≤ m) : yearOf n ≤ yearOf m := by
  by_contra hlt
  have h1 := daysBeforeYear_mono (show yearOf m + 1 ≤ yearOf n by omega)
  have h2 := (yearOf_spec n).1
  have h3 := (yearOf_spec m).2
  omega

theorem monthOf_mono (leap : Bool) {d e : ℕ} (h : d ≤ e) : monthOf leap d ≤ monthOf leap e :=
  List.countP_mono_left fun i _ hi => by
    simp only [decide_eq_true_eq] at hi ⊢
    exact hi.trans h

theorem monthOf_le (leap : Bool) (d : ℕ) : monthOf leap d ≤ 12 :=
  List.countP_le_length.trans (by simp)

/-- No month has a three-digit day. -/
theorem dayOfMonth_lt : ∀ leap, ∀ d < 366, dayOfMonth leap d < 100 := by decide +kernel

/-- Within one month the days go up. -/
theorem dayOfMonth_lt_dayOfMonth {leap : Bool} {d e : ℕ} (h : d < e)
    (hd : daysBeforeMonth leap (monthOf leap d - 1) ≤ d)
    (hm : monthOf leap d = monthOf leap e) : dayOfMonth leap d < dayOfMonth leap e := by
  unfold dayOfMonth
  rw [← hm]
  omega

theorem daysBeforeMonth_monthOf_le :
    ∀ leap, ∀ d < 366, daysBeforeMonth leap (monthOf leap d - 1) ≤ d := by decide +kernel

/-! ### The text of a date -/

/-- The day of its year of day `n`. -/
def dayOfYear (n : ℕ) : ℕ := n - daysBeforeYear (yearOf n)

/-- `YYYY-MM-DD` for day `n`. -/
def dateText (n : ℕ) : List Char :=
  pad 4 (yearOf n) ++ '-' :: (pad 2 (monthOf (isLeap (yearOf n)) (dayOfYear n)) ++
    '-' :: pad 2 (dayOfMonth (isLeap (yearOf n)) (dayOfYear n)))

@[simp]
theorem length_dateText (n : ℕ) : (dateText n).length = 10 := by simp [dateText]

theorem dayOfYear_lt (n : ℕ) : dayOfYear n < 366 := by
  have h1 := (yearOf_spec n).2
  have h2 : daysBeforeYear (yearOf n + 1) ≤ daysBeforeYear (yearOf n) + 366 := by
    unfold daysBeforeYear
    omega
  unfold dayOfYear
  omega

/-- A later day has a later text, up to the year 9999. -/
theorem dateText_lt {n m : ℕ} (h : n < m) (hm : yearOf m < 10000) : dateText n < dateText m := by
  have hmonth : ∀ leap d, monthOf leap d < 10 ^ 2 := fun leap d =>
    lt_of_le_of_lt (monthOf_le leap d) (by norm_num)
  have hle := yearOf_mono h.le
  refine (pad_append_lt_iff (by omega) hm).mpr ?_
  rcases Nat.lt_or_eq_of_le hle with hy | hy
  · exact .inl hy
  refine .inr ⟨hy, cons_lt_iff.mpr ((pad_append_lt_iff (hmonth _ _) (hmonth _ _)).mpr ?_)⟩
  have hd : dayOfYear n < dayOfYear m := by
    have h1 := (yearOf_spec n).1
    unfold dayOfYear
    rw [← hy]
    omega
  rw [← hy]
  rcases Nat.lt_or_eq_of_le (monthOf_mono (isLeap (yearOf n)) hd.le) with hmo | hmo
  · exact .inl hmo
  refine .inr ⟨hmo, cons_lt_iff.mpr (pad_lt_pad ?_ (dayOfMonth_lt _ _ (dayOfYear_lt m)))⟩
  exact dayOfMonth_lt_dayOfMonth hd (daysBeforeMonth_monthOf_le _ _ (dayOfYear_lt n)) hmo

/-! ### The text of a time of day -/

/-- Microseconds in a second. -/
def usPerSecond : ℕ := 1000000

/-- Microseconds in a minute. -/
def usPerMinute : ℕ := 60 * usPerSecond

/-- Microseconds in an hour. -/
def usPerHour : ℕ := 60 * usPerMinute

/-- Microseconds in a day. -/
def usPerDay : ℕ := 24 * usPerHour

/-- The fraction of a second, absent when the microseconds are zero, and the UTC offset. -/
def fractionText (us : ℕ) : List Char :=
  if us = 0 then "+00:00".toList else '.' :: (pad 6 us ++ "+00:00".toList)

/-- `HH:MM:SS[.ffffff]+00:00` for the time `u` microseconds after midnight. -/
def timeText (u : ℕ) : List Char :=
  pad 2 (u / usPerHour) ++ ':' :: (pad 2 (u / usPerMinute % 60) ++
    ':' :: (pad 2 (u / usPerSecond % 60) ++ fractionText (u % usPerSecond)))

/-- `HH:MM:SS` for the time `u` microseconds after midnight, and what follows it. -/
def clockText (u : ℕ) (rest : List Char) : List Char :=
  pad 2 (u / usPerHour) ++ ':' :: (pad 2 (u / usPerMinute % 60) ++
    ':' :: (pad 2 (u / usPerSecond % 60) ++ rest))

/-- The clock compares by the seconds, then by what follows. -/
theorem clockText_lt_iff {u v : ℕ} {x y : List Char} (hu : u < usPerDay) (hv : v < usPerDay) :
    clockText u x < clockText v y ↔
      u / usPerSecond < v / usPerSecond ∨ u / usPerSecond = v / usPerSecond ∧ x < y := by
  have hour : ∀ w, w / usPerHour = w / usPerSecond / 60 / 60 := fun w => by
    rw [Nat.div_div_eq_div_mul, Nat.div_div_eq_div_mul]
    rfl
  have minute : ∀ w, w / usPerMinute = w / usPerSecond / 60 := fun w => by
    rw [Nat.div_div_eq_div_mul]
    rfl
  have hu' : u / usPerSecond < 86400 := Nat.div_lt_of_lt_mul hu
  have hv' : v / usPerSecond < 86400 := Nat.div_lt_of_lt_mul hv
  simp only [clockText, hour, minute]
  generalize u / usPerSecond = s at *
  generalize v / usPerSecond = t at *
  rw [pad_append_lt_iff (by omega) (by omega), cons_lt_iff,
    pad_append_lt_iff (by omega) (by omega), cons_lt_iff, pad_append_lt_iff (by omega) (by omega),
    div_mod_lt_iff 60, div_mod_lt_iff 60]

/-- A missing fraction sorts before every fraction, since `'+' < '.'`. -/
theorem fractionText_lt {a b : ℕ} (h : a < b) (hb : b < usPerSecond) :
    fractionText a < fractionText b := by
  have hb' : b < 10 ^ 6 := by simpa [usPerSecond] using hb
  by_cases ha : a = 0
  · subst ha
    rw [fractionText, fractionText, if_pos rfl, if_neg (by omega)]
    exact List.cons_lt_cons_iff.mpr (.inl (by decide))
  · rw [fractionText, fractionText, if_neg ha, if_neg (by omega)]
    exact cons_lt_iff.mpr ((pad_append_lt_iff (by omega) hb').mpr (.inl h))

/-- A later time of day has a later text. -/
theorem timeText_lt {u v : ℕ} (h : u < v) (hv : v < usPerDay) : timeText u < timeText v := by
  show clockText u (fractionText (u % usPerSecond)) < clockText v (fractionText (v % usPerSecond))
  rw [clockText_lt_iff (h.trans hv) hv]
  have hsplit := (div_mod_lt_iff usPerSecond (P := False)).mpr (.inl h)
  simp only [and_false, or_false] at hsplit
  exact hsplit.imp_right (And.imp_right (fractionText_lt · (Nat.mod_lt _ (by decide))))

/-! ### Datetimes -/

/-- Days from `0001-01-01` to `9999-12-31`. -/
def maxDays : ℕ := 3652059

theorem yearOf_lt {n : ℕ} (h : n < maxDays) : yearOf n < 10000 := by
  by_contra hlt
  have h1 := daysBeforeYear_mono (show 10000 ≤ yearOf n by omega)
  have h2 := (yearOf_spec n).1
  have h3 : daysBeforeYear 10000 = maxDays := by decide
  omega

/-- An aware UTC `datetime`: microseconds since `0001-01-01T00:00:00+00:00`. -/
structure Datetime where
  /-- Microseconds since the start of year 1. -/
  micros : ℕ
  /-- No datetime lies past the year 9999. -/
  lt : micros < maxDays * usPerDay
  deriving DecidableEq, Repr

namespace Datetime

theorem micros_injective : Function.Injective micros := fun a b h => by
  cases a
  cases b
  congr

instance : LinearOrder Datetime := LinearOrder.lift' micros micros_injective

theorem le_iff {a b : Datetime} : a ≤ b ↔ a.micros ≤ b.micros := .rfl

theorem lt_iff {a b : Datetime} : a < b ↔ a.micros < b.micros := .rfl

theorem yearOne_lt : 0 < maxDays * usPerDay := by decide

/-- `0001-01-01T00:00:00+00:00`. -/
def yearOne : Datetime := ⟨0, yearOne_lt⟩

/-- The UTC day the instant falls on, counted from `0001-01-01`. -/
def day (t : Datetime) : ℕ := t.micros / usPerDay

theorem day_lt (t : Datetime) : t.day < maxDays :=
  Nat.div_lt_of_lt_mul (by rw [Nat.mul_comm]; exact t.lt)

theorem day_mono {a b : Datetime} (h : a ≤ b) : a.day ≤ b.day := Nat.div_le_div_right h

/-- `t.replace(hour=h, minute=0, second=0, microsecond=0)`. -/
def replaceHour (t : Datetime) (h : Fin 24) : Datetime where
  micros := t.day * usPerDay + h * usPerHour
  lt := by
    have h1 := t.day_lt
    have h2 := h.isLt
    simp only [usPerDay, usPerHour, usPerMinute, usPerSecond]
    omega

/-- `t.replace(minute=0, second=0, microsecond=0)`. -/
def startOfHour (t : Datetime) : Datetime where
  micros := t.micros / usPerHour * usPerHour
  lt := lt_of_le_of_lt (Nat.div_mul_le_self _ _) t.lt

/-- How many times the clock has shown `h`:00 up to `t`, so that two instants have the same number
exactly when no such hour lies between them. -/
def resetCount (h : Fin 24) (t : Datetime) : ℕ := (t.micros + (24 - h) * usPerHour) / usPerDay

theorem resetCount_mono (h : Fin 24) {a b : Datetime} (hab : a ≤ b) :
    a.resetCount h ≤ b.resetCount h :=
  Nat.div_le_div_right (Nat.add_le_add_right hab _)

theorem resetCount_zero (t : Datetime) : t.resetCount 0 = t.day + 1 := by
  have h : (24 - ((0 : Fin 24) : ℕ)) * usPerHour = usPerDay := by decide
  rw [resetCount, h, Nat.add_div_right _ (by decide)]
  rfl

theorem replaceHour_zero_le (t : Datetime) : t.replaceHour 0 ≤ t := by
  have h := Nat.div_add_mod t.micros usPerDay
  rw [le_iff]
  simp only [replaceHour, day, Fin.val_zero, Nat.zero_mul, Nat.add_zero]
  rw [Nat.mul_comm]
  omega

/-- Once today's reset is past, the instants since it are those of the current period. -/
theorem replaceHour_le_iff {h : Fin 24} {t now : Datetime} (hnow : now.replaceHour h ≤ now)
    (ht : t ≤ now) : now.replaceHour h ≤ t ↔ t.resetCount h = now.resetCount h := by
  have hh := h.isLt
  rw [le_iff] at hnow ht ⊢
  simp only [replaceHour, resetCount, day, usPerDay, usPerHour, usPerMinute, usPerSecond]
    at hnow ht ⊢
  have h1 := Nat.div_add_mod now.micros 86400000000
  have h2 := Nat.mod_lt now.micros (show 0 < 86400000000 by decide)
  omega

/-- `t - timedelta`, for a span in microseconds; `none` is the `OverflowError` before year 1. -/
def sub? (t : Datetime) (us : ℕ) : Option Datetime :=
  if us ≤ t.micros then some ⟨t.micros - us, lt_of_le_of_lt (Nat.sub_le _ _) t.lt⟩ else none

theorem sub?_eq_some {t s : Datetime} {us : ℕ} (h : t.sub? us = some s) :
    s.micros + us = t.micros := by
  unfold sub? at h
  split_ifs at h with hle
  obtain rfl := Option.some.inj h
  exact Nat.sub_add_cancel hle

/-- `t - timedelta(days=days)`; `none` is the `OverflowError` outside the range of `datetime`. -/
def subDays? (t : Datetime) (days : ℤ) : Option Datetime :=
  if h : 0 ≤ t.micros - days * usPerDay ∧ t.micros - days * usPerDay < maxDays * usPerDay then
    some ⟨(t.micros - days * usPerDay).toNat, by
      have hcast : ((maxDays * usPerDay : ℕ) : ℤ) = maxDays * usPerDay := by push_cast; rfl
      omega⟩
  else none

theorem subDays?_eq_some {t s : Datetime} {days : ℤ} (h : t.subDays? days = some s) :
    (s.micros : ℤ) = t.micros - days * usPerDay := by
  unfold subDays? at h
  split_ifs at h with hrange
  obtain rfl := Option.some.inj h
  exact Int.toNat_of_nonneg hrange.1

/-- `t.isoformat()`. -/
def isoformat (t : Datetime) : String :=
  String.ofList (dateText t.day ++ 'T' :: timeText (t.micros % usPerDay))

/-- The text order of ISO timestamps is the order of time. -/
theorem isoformat_strictMono : StrictMono isoformat := by
  intro a b h
  rw [String.lt_iff_toList_lt, isoformat, isoformat, String.toList_ofList, String.toList_ofList]
  have hab : a.micros < b.micros := h
  rcases Nat.lt_or_eq_of_le (day_mono h.le) with hd | hd
  · exact append_lt_append_of_length_eq (by simp) (dateText_lt hd (yearOf_lt b.day_lt)) _ _
  · rw [hd]
    refine List.append_left_lt (cons_lt_iff.mpr (timeText_lt ?_ (Nat.mod_lt _ (by decide))))
    unfold day at hd
    have ha' := Nat.div_add_mod a.micros usPerDay
    have hb' := Nat.div_add_mod b.micros usPerDay
    rw [hd] at ha'
    omega

/-- Comparing the texts compares the instants. -/
@[simp]
theorem isoformat_le_iff {a b : Datetime} : a.isoformat ≤ b.isoformat ↔ a ≤ b :=
  isoformat_strictMono.le_iff_le

/-- A comparison of two timestamps is decided on the instants. -/
instance (a b : Datetime) : Decidable (a.isoformat ≤ b.isoformat) :=
  decidable_of_iff (a ≤ b) isoformat_le_iff.symm

example : (⟨63902858400000000, by decide⟩ : Datetime).isoformat = "2026-01-01T10:00:00+00:00" := by
  decide +kernel

end Datetime
