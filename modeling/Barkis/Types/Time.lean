import Mathlib.Tactic.Linarith
import Barkis.Lib.FixedWidth

/-!
# Go's calendar

`types/utils.go` writes a time as a sortable key: the time in UTC in the layout
`SortableTimeFormat`, with Go's `time` package. This module is the calendar of that package:
`absDate` cuts the days since the absolute zero year into 400-, 100- and 4-year cycles and years,
and `Date` adds them back up. `Barkis.Types.TimeText` writes and reads the text.

A time is the one `t.UTC().Round(0)` keeps: its seconds since the Unix epoch and its
nanoseconds. Go computes with `int64` and `uint64` seconds; the model does not wrap them, which
changes nothing from the absolute zero year, hundreds of billions of years back, to as far after
the epoch.

* `toTime_civil`: `Date` of the date and clock of a time is the time;
* `Civil.toTime_before_toTime`: `Date` keeps the order of valid dates and clocks;
* `civil_key_lt_iff`: the dates and clocks of times are ordered as the times.
-/

namespace Barkis

/-- A `time.Time` in UTC without a monotonic reading: the seconds since the Unix epoch and the
nanoseconds within the second. -/
structure Time where
  unix : Int
  nsec : Nat
  nsec_lt : nsec < 10 ^ 9
deriving DecidableEq

namespace Time

/-! ## The calendar -/

def secondsPerMinute : Nat := 60

def secondsPerHour : Nat := 60 * secondsPerMinute

def secondsPerDay : Nat := 24 * secondsPerHour

def daysPer400Years : Nat := 365 * 400 + 97

def daysPer100Years : Nat := 365 * 100 + 24

def daysPer4Years : Nat := 365 * 4 + 1

/-- The year the absolute time counts from; it is 1 mod 400. -/
def absoluteZeroYear : Int := -292277022399

/-- The year of the zero `Time`. -/
def internalYear : Int := 1

/-- `(absoluteZeroYear - internalYear) * 365.2425 * secondsPerDay`, an exact product. -/
def absoluteToInternal : Int := (absoluteZeroYear - internalYear) * 3652425 * secondsPerDay / 10000

def internalToAbsolute : Int := -absoluteToInternal

def unixToInternal : Int := (1969 * 365 + 1969 / 4 - 1969 / 100 + 1969 / 400) * secondsPerDay

def internalToUnix : Int := -unixToInternal

/-- `daysBefore[m]`: the days before month `m + 1` of a year that is not a leap year. -/
def daysBefore : List Nat :=
  [0, 31, 31 + 28, 31 + 28 + 31, 31 + 28 + 31 + 30, 31 + 28 + 31 + 30 + 31,
    31 + 28 + 31 + 30 + 31 + 30, 31 + 28 + 31 + 30 + 31 + 30 + 31,
    31 + 28 + 31 + 30 + 31 + 30 + 31 + 31, 31 + 28 + 31 + 30 + 31 + 30 + 31 + 31 + 30,
    31 + 28 + 31 + 30 + 31 + 30 + 31 + 31 + 30 + 31,
    31 + 28 + 31 + 30 + 31 + 30 + 31 + 31 + 30 + 31 + 30,
    31 + 28 + 31 + 30 + 31 + 30 + 31 + 31 + 30 + 31 + 30 + 31]

/-- `isLeap`. -/
def isLeap (year : Int) : Bool := year % 4 == 0 && (year % 100 != 0 || year % 400 == 0)

/-- `daysIn`, for a month from 1 to 12. -/
def daysIn (month : Nat) (year : Int) : Nat :=
  if month = 2 ∧ isLeap year then 29 else daysBefore.getD month 0 - daysBefore.getD (month - 1) 0

/-- `Time.abs` in UTC: the seconds since the absolute zero year. -/
def abs (t : Time) : Nat := (t.unix + (unixToInternal + internalToAbsolute)).toNat

/-- The first half of `absDate`: the year and the day of the year. The last 100-year cycle of a
400-year cycle and the last year of a 4-year cycle have a day more, so on its last day the
quotient is 4, cut back to 3. -/
def absYearDay (abs : Nat) : Int × Nat :=
  -- split into time and day
  let d := abs / secondsPerDay
  -- account for 400 year cycles
  let n := d / daysPer400Years
  let y := 400 * n
  let d := d - daysPer400Years * n
  -- cut off 100-year cycles
  let n := d / daysPer100Years
  let n := n - n / 4
  let y := y + 100 * n
  let d := d - daysPer100Years * n
  -- cut off 4-year cycles
  let n := d / daysPer4Years
  let y := y + 4 * n
  let d := d - daysPer4Years * n
  -- cut off years within a 4-year cycle
  let n := d / 365
  let n := n - n / 4
  let y := y + n
  let d := d - 365 * n
  ((y : Int) + absoluteZeroYear, d)

/-- The second half of `absDate`: the month and the day of the month of a day of the year. -/
def monthDay (year : Int) (yday : Nat) : Nat × Nat :=
  if isLeap year ∧ yday = 31 + 29 - 1 then (2, 29)
  else
    -- after the leap day, pretend it was not there
    let day := if isLeap year ∧ 31 + 29 - 1 < yday then yday - 1 else yday
    -- estimate the month as if every month had 31 days; the estimate is at most one too low
    let month := day / 31
    let stop := daysBefore.getD (month + 1) 0
    let (month, begin) :=
      if stop ≤ day then (month + 1, stop) else (month, daysBefore.getD month 0)
    (month + 1, day - begin + 1)

/-- `absDate`: the year, month, day and day of the year. -/
def absDate (abs : Nat) : Int × Nat × Nat × Nat :=
  let (year, yday) := absYearDay abs
  let (month, day) := monthDay year yday
  (year, month, day, yday)

/-- `absClock`: the hour, minute and second. -/
def absClock (abs : Nat) : Nat × Nat × Nat :=
  let sec := abs % secondsPerDay
  let hour := sec / secondsPerHour
  let sec := sec - hour * secondsPerHour
  let min := sec / secondsPerMinute
  let sec := sec - min * secondsPerMinute
  (hour, min, sec)

/-- `Time.Year`. -/
def year (t : Time) : Int := (absYearDay t.abs).1

/-- `Time.Before`. -/
def before (t u : Time) : Prop := t.unix < u.unix ∨ t.unix = u.unix ∧ t.nsec < u.nsec

instance (t u : Time) : Decidable (t.before u) := inferInstanceAs (Decidable (_ ∨ _))

/-- `norm`: `lo` moved into `[0, base)`, what it overflows carried into `hi`. -/
def norm (hi lo base : Int) : Int × Int :=
  let (hi, lo) :=
    if lo < 0 then
      let n := (-lo - 1).tdiv base + 1
      (hi - n, lo + n * base)
    else (hi, lo)
  if base ≤ lo then
    let n := lo.tdiv base
    (hi + n, lo - n * base)
  else (hi, lo)

theorem norm_snd_mem (hi lo : Int) {base : Int} (hb : 0 < base) :
    0 ≤ (norm hi lo base).2 ∧ (norm hi lo base).2 < base := by
  have hq := Int.mul_ediv_add_emod (-lo - 1) base
  have hr := Int.emod_nonneg (-lo - 1) hb.ne'
  have hr' := Int.emod_lt_of_pos (-lo - 1) hb
  have hq' := Int.mul_ediv_add_emod lo base
  have hs := Int.emod_nonneg lo hb.ne'
  have hs' := Int.emod_lt_of_pos lo hb
  unfold norm
  by_cases hlo : lo < 0
  · rw [if_pos hlo, Int.tdiv_eq_ediv_of_nonneg (by omega)]
    dsimp only
    rw [if_neg (by nlinarith)]
    constructor <;> nlinarith
  · rw [if_neg hlo]
    dsimp only
    split_ifs with hbl
    · rw [Int.tdiv_eq_ediv_of_nonneg (by omega)]
      constructor <;> nlinarith
    · omega

/-- The days from the absolute zero year to January 1 of `year`, as `Date` adds them up. -/
def daysSinceEpoch (year : Int) : Nat :=
  let y := (year - absoluteZeroYear).toNat
  -- add in days from 400-year cycles
  let n := y / 400
  let y := y - 400 * n
  let d := daysPer400Years * n
  -- add in 100-year cycles
  let n := y / 100
  let y := y - 100 * n
  let d := d + daysPer100Years * n
  -- add in 4-year cycles
  let n := y / 4
  let y := y - 4 * n
  let d := d + daysPer4Years * n
  -- add in non-leap years
  d + 365 * y

/-- `time.Date` in UTC. -/
def date (year month day hour min sec nsec : Int) : Time :=
  -- normalize month, overflowing into year
  let (year, m) := norm year (month - 1) 12
  let month := m + 1
  -- normalize nsec, sec, min, hour, overflowing into day
  let secNsec := norm sec nsec 1000000000
  have hnsec : secNsec.2.toNat < 10 ^ 9 := by
    have h := norm_snd_mem sec nsec (by decide : (0 : Int) < 1000000000)
    simp only [secNsec]
    omega
  let (min, sec) := norm min secNsec.1 60
  let (hour, min) := norm hour min 60
  let (day, hour) := norm day hour 24
  -- add in days before this month, and February 29
  let d := daysSinceEpoch year + daysBefore.getD (month - 1).toNat 0 +
    if isLeap year ∧ 3 ≤ month then 1 else 0
  -- add in days before today, and the time elapsed today
  let abs := ((d : Int) + (day - 1)) * secondsPerDay +
    (hour * secondsPerHour + min * secondsPerMinute + sec)
  ⟨abs + (absoluteToInternal + internalToUnix), secNsec.2.toNat, hnsec⟩

theorem isLeap_iff (year : Int) :
    isLeap year = true ↔ year % 4 = 0 ∧ (year % 100 ≠ 0 ∨ year % 400 = 0) := by
  simp [isLeap]

theorem daysSinceEpoch_succ {year : Int} (h : absoluteZeroYear ≤ year) :
    daysSinceEpoch (year + 1) = daysSinceEpoch year + 365 + if isLeap year then 1 else 0 := by
  have hy : (year + 1 - absoluteZeroYear).toNat = (year - absoluteZeroYear).toNat + 1 := by omega
  simp only [daysSinceEpoch, hy, daysPer400Years, daysPer100Years, daysPer4Years]
  split_ifs with hl
  · rw [isLeap_iff] at hl
    simp only [absoluteZeroYear] at *
    omega
  · rw [isLeap_iff] at hl
    simp only [absoluteZeroYear] at *
    omega

/-- The days from the absolute zero year to a year given by its cycles. -/
theorem daysSinceEpoch_cycles {n1 n2 n3 n4 : Nat} (h2 : n2 ≤ 3) (h3 : n3 ≤ 24) (h4 : n4 ≤ 3) :
    daysSinceEpoch (((400 * n1 + 100 * n2 + 4 * n3 + n4 : Nat) : Int) + absoluteZeroYear) =
      daysPer400Years * n1 + daysPer100Years * n2 + daysPer4Years * n3 + 365 * n4 := by
  simp only [daysSinceEpoch, add_sub_cancel_right, Int.toNat_natCast]
  have h400 : (400 * n1 + 100 * n2 + 4 * n3 + n4) / 400 = n1 := by omega
  have h100 : (400 * n1 + 100 * n2 + 4 * n3 + n4 - 400 * n1) / 100 = n2 := by omega
  have h4' : (400 * n1 + 100 * n2 + 4 * n3 + n4 - 400 * n1 - 100 * n2) / 4 = n3 := by omega
  rw [h400, h100, h4']
  omega

/-- The last year of a 4-year cycle is a leap year, unless it ends a century that does not end a
400-year cycle. -/
theorem isLeap_cycles {n1 n2 n3 : Nat} (h : n3 < 24 ∨ n2 = 3) (h3 : n3 ≤ 24) :
    isLeap (((400 * n1 + 100 * n2 + 4 * n3 + 3 : Nat) : Int) + absoluteZeroYear) = true := by
  rw [isLeap_iff, absoluteZeroYear]
  omega

theorem absYearDay_spec (abs : Nat) :
    absoluteZeroYear ≤ (absYearDay abs).1 ∧
      daysSinceEpoch (absYearDay abs).1 + (absYearDay abs).2 = abs / secondsPerDay ∧
      ((absYearDay abs).2 < 365 ∨
        (absYearDay abs).2 = 365 ∧ isLeap (absYearDay abs).1 = true) := by
  simp only [absYearDay]
  generalize abs / secondsPerDay = D
  simp only [daysPer400Years, daysPer100Years, daysPer4Years]
  generalize hn1 : D / 146097 = n1
  have h1 : D - 146097 * n1 < 146097 := by omega
  generalize hd1 : D - 146097 * n1 = d1 at *
  generalize hm2 : d1 / 36524 = m2
  generalize hn2 : m2 - m2 / 4 = n2
  have h2 : n2 ≤ 3 ∧ d1 - 36524 * n2 ≤ 36524 ∧ (d1 - 36524 * n2 = 36524 → n2 = 3) := by
    omega
  generalize hd2 : d1 - 36524 * n2 = d2 at *
  generalize hn3 : d2 / 1461 = n3
  have h3 : n3 ≤ 24 ∧ d2 - 1461 * n3 < 1461 ∧
      (n3 = 24 → d2 - 1461 * n3 = 1460 → d2 = 36524) := by
    omega
  generalize hd3 : d2 - 1461 * n3 = d3 at *
  generalize hm4 : d3 / 365 = m4
  generalize hn4 : m4 - m4 / 4 = n4
  have h4 : n4 ≤ 3 ∧ d3 - 365 * n4 ≤ 365 ∧
      (d3 - 365 * n4 = 365 → n4 = 3 ∧ d3 = 1460) := by
    omega
  generalize hyday : d3 - 365 * n4 = yday at *
  have hdays := @daysSinceEpoch_cycles n1 n2 n3 n4 h2.1 h3.1 h4.1
  simp only [daysPer400Years, daysPer100Years, daysPer4Years] at hdays
  have hY := Int.natCast_nonneg (400 * n1 + 100 * n2 + 4 * n3 + n4)
  refine ⟨by omega, by omega, ?_⟩
  by_cases h365 : yday = 365
  · obtain ⟨rfl, -⟩ := h4.2.2 h365
    refine .inr ⟨h365, isLeap_cycles ?_ h3.1⟩
    omega
  · exact .inl (by omega)

/-- The day of the year `absDate` finds is a day of that year. -/
theorem absYearDay_lt (abs : Nat) :
    (absYearDay abs).2 < 365 + if isLeap (absYearDay abs).1 then 1 else 0 := by
  rcases (absYearDay_spec abs).2.2 with h | ⟨h, hl⟩
  · split <;> omega
  · rw [if_pos hl]
    omega

/-- The days before a month, with February 29 from March of a leap year on. -/
def daysBeforeMonth (year : Int) (month : Nat) : Nat :=
  daysBefore.getD (month - 1) 0 + if isLeap year ∧ 3 ≤ month then 1 else 0

/-- `absDate` finds the month and day of every day of the year. -/
theorem monthDay_spec (year : Int) (yday : Nat) (h : yday < 365 + if isLeap year then 1 else 0) :
    1 ≤ (monthDay year yday).1 ∧ (monthDay year yday).1 ≤ 12 ∧
      1 ≤ (monthDay year yday).2 ∧
      (monthDay year yday).2 ≤ daysIn (monthDay year yday).1 year ∧
      daysBeforeMonth year (monthDay year yday).1 + ((monthDay year yday).2 - 1) = yday := by
  unfold monthDay daysIn daysBeforeMonth
  revert yday
  cases isLeap year <;> decide +kernel

theorem norm_of_mem {hi lo base : Int} (h0 : 0 ≤ lo) (h : lo < base) :
    norm hi lo base = (hi, lo) := by
  unfold norm
  rw [if_neg (by omega)]
  dsimp only
  rw [if_neg (by omega)]

theorem ext {t u : Time} (hunix : t.unix = u.unix) (hnsec : t.nsec = u.nsec) : t = u := by
  cases t
  cases u
  simp only at hunix hnsec
  subst hunix hnsec
  rfl

section DateOfMem

variable {year : Int} {month day hour min sec nsec : Nat} (hm : 1 ≤ month ∧ month ≤ 12)
  (hd : 1 ≤ day) (hh : hour < 24) (hmin : min < 60) (hs : sec < 60) (hn : nsec < 10 ^ 9)
include hm hd hh hmin hs hn

/-- `Date` of fields in range: the days since the absolute zero year, then the clock. -/
theorem date_of_mem :
    date year month day hour min sec nsec =
      ⟨((daysSinceEpoch year + daysBeforeMonth year month + (day - 1) : Nat) : Int) *
          secondsPerDay +
        ((hour * secondsPerHour + min * secondsPerMinute + sec : Nat) : Int) +
          (absoluteToInternal + internalToUnix), nsec, hn⟩ := by
  have e1 : norm year ((month : Int) - 1) 12 = (year, (month : Int) - 1) :=
    norm_of_mem (by omega) (by omega)
  have e2 : norm sec nsec 1000000000 = ((sec : Int), (nsec : Int)) :=
    norm_of_mem (by omega) (by omega)
  have e3 : norm min sec 60 = ((min : Int), (sec : Int)) := norm_of_mem (by omega) (by omega)
  have e4 : norm hour min 60 = ((hour : Int), (min : Int)) := norm_of_mem (by omega) (by omega)
  have e5 : norm day hour 24 = ((day : Int), (hour : Int)) := norm_of_mem (by omega) (by omega)
  have hmonth : ((month : Int) - 1 + 1) = month := by omega
  have h1 : ((month : Int) - 1).toNat = month - 1 := by omega
  have h3 : (3 ≤ (month : Int)) ↔ 3 ≤ month := by omega
  apply ext
  · simp only [date, e1, e2, e3, e4, e5, hmonth, h1, h3, daysBeforeMonth]
    push_cast [Nat.cast_sub hd]
    ring
  · simp only [date, e2, Int.toNat_natCast]

end DateOfMem

theorem absClock_spec (abs : Nat) :
    (absClock abs).1 < 24 ∧ (absClock abs).2.1 < 60 ∧ (absClock abs).2.2 < 60 ∧
      (absClock abs).1 * secondsPerHour + (absClock abs).2.1 * secondsPerMinute +
        (absClock abs).2.2 = abs % secondsPerDay := by
  simp only [absClock, secondsPerDay, secondsPerHour, secondsPerMinute]
  omega

/-- The date and clock that `Format` writes and `Parse` reads. -/
structure Civil where
  year : Int
  month : Nat
  day : Nat
  hour : Nat
  min : Nat
  sec : Nat
  nsec : Nat

/-- The date and clock of a time, as `Format` computes them. -/
def civil (t : Time) : Civil :=
  let (year, month, day, _) := absDate t.abs
  let (hour, min, sec) := absClock t.abs
  ⟨year, month, day, hour, min, sec, t.nsec⟩

/-- `Date` of a date and clock. -/
def Civil.toTime (c : Civil) : Time := date c.year c.month c.day c.hour c.min c.sec c.nsec

/-- A day of the calendar and a clock in range. -/
structure Civil.Valid (c : Civil) : Prop where
  year_ge : absoluteZeroYear ≤ c.year
  month_mem : 1 ≤ c.month ∧ c.month ≤ 12
  day_mem : 1 ≤ c.day ∧ c.day ≤ daysIn c.month c.year
  hour_lt : c.hour < 24
  min_lt : c.min < 60
  sec_lt : c.sec < 60
  nsec_lt : c.nsec < 10 ^ 9

theorem civil_eq (t : Time) :
    civil t = ⟨(absYearDay t.abs).1, (monthDay (absYearDay t.abs).1 (absYearDay t.abs).2).1,
      (monthDay (absYearDay t.abs).1 (absYearDay t.abs).2).2, (absClock t.abs).1,
      (absClock t.abs).2.1, (absClock t.abs).2.2, t.nsec⟩ := rfl

theorem civil_year (t : Time) : (civil t).year = t.year := rfl

theorem civil_valid (t : Time) : (civil t).Valid := by
  have hy := (absYearDay_spec t.abs).1
  obtain ⟨hm1, hm12, hd1, hdn, -⟩ := monthDay_spec _ _ (absYearDay_lt t.abs)
  obtain ⟨hh, hmin, hs, -⟩ := absClock_spec t.abs
  rw [civil_eq]
  exact ⟨hy, ⟨hm1, hm12⟩, ⟨hd1, hdn⟩, hh, hmin, hs, t.nsec_lt⟩

/-- The days from the absolute zero year to the day of a date. -/
def Civil.days (c : Civil) : Nat :=
  daysSinceEpoch c.year + daysBeforeMonth c.year c.month + (c.day - 1)

/-- The seconds of a clock since midnight. -/
def Civil.seconds (c : Civil) : Nat := c.hour * secondsPerHour + c.min * secondsPerMinute + c.sec

theorem Civil.toTime_eq {c : Civil} (hc : c.Valid) :
    c.toTime = ⟨(c.days : Int) * secondsPerDay + (c.seconds : Int) +
      (absoluteToInternal + internalToUnix), c.nsec, hc.nsec_lt⟩ :=
  date_of_mem hc.month_mem hc.day_mem.1 hc.hour_lt hc.min_lt hc.sec_lt hc.nsec_lt

/-- `absDate` cuts the days of the absolute time into the date: its days add back up. -/
theorem civil_days (t : Time) : (civil t).days = t.abs / secondsPerDay := by
  have hdays := (absYearDay_spec t.abs).2.1
  have hmd := (monthDay_spec _ _ (absYearDay_lt t.abs)).2.2.2.2
  simp only [civil_eq, Civil.days]
  omega

theorem civil_seconds (t : Time) : (civil t).seconds = t.abs % secondsPerDay := by
  simp only [civil_eq, Civil.seconds]
  exact (absClock_spec t.abs).2.2.2

/-- `Date` of the date and clock of a time is the time. -/
theorem toTime_civil {t : Time} (ht : 0 ≤ t.unix + (unixToInternal + internalToAbsolute)) :
    (civil t).toTime = t := by
  rw [Civil.toTime_eq (civil_valid t)]
  apply ext
  · have habs : (t.abs : Int) = t.unix + (unixToInternal + internalToAbsolute) := by
      rw [abs]
      exact Int.toNat_of_nonneg ht
    have hdm : ((t.abs / secondsPerDay : Nat) : Int) * (secondsPerDay : Nat) +
        ((t.abs % secondsPerDay : Nat) : Int) = t.abs := by
      rw [← Nat.cast_mul, ← Nat.cast_add, Nat.div_add_mod']
    have hc : absoluteToInternal + internalToUnix = -(unixToInternal + internalToAbsolute) := by
      rw [internalToUnix, internalToAbsolute]
      ring
    dsimp only
    rw [civil_days, civil_seconds, hc]
    omega
  · rfl

/-! ## Order -/

theorem before_irrefl (t : Time) : ¬t.before t := by
  rintro (h | ⟨-, h⟩) <;> exact lt_irrefl _ h

theorem before_asymm {t u : Time} (h : t.before u) : ¬u.before t := by
  unfold before at *
  omega

/-- `daysSinceEpoch` grows by at least 365 days a year. -/
theorem daysSinceEpoch_add {year : Int} (h : absoluteZeroYear ≤ year) :
    ∀ k : Nat, daysSinceEpoch year + 365 * k ≤ daysSinceEpoch (year + k)
  | 0 => by simp
  | k + 1 => by
    have ih := daysSinceEpoch_add h k
    have hs := @daysSinceEpoch_succ (year + k) (by omega)
    rw [Nat.cast_succ, ← add_assoc, hs]
    omega

theorem daysIn_le (year : Int) : ∀ month < 13, daysIn month year ≤ 31 := by
  unfold daysIn
  cases isLeap year <;> decide

/-- The days before a month and the days of the month fit in the year. -/
theorem daysBeforeMonth_add_daysIn_le_year (year : Int) : ∀ month < 13, 1 ≤ month →
    daysBeforeMonth year month + daysIn month year ≤ 365 + if isLeap year then 1 else 0 := by
  unfold daysBeforeMonth daysIn
  cases isLeap year <;> decide

/-- A later month starts after the days of an earlier one. -/
theorem daysBeforeMonth_add_daysIn_le (year : Int) :
    ∀ month < 13, ∀ month' < 13, 1 ≤ month → month < month' →
      daysBeforeMonth year month + daysIn month year ≤ daysBeforeMonth year month' := by
  unfold daysBeforeMonth daysIn
  cases isLeap year <;> decide

/-- The fields of a date and clock from the year down. -/
def Civil.key (c : Civil) : List Int := [c.year, c.month, c.day, c.hour, c.min, c.sec, c.nsec]

namespace Civil

variable {c d : Civil}

theorem seconds_lt (hc : c.Valid) : c.seconds < secondsPerDay := by
  have := hc.hour_lt
  have := hc.min_lt
  have := hc.sec_lt
  simp only [seconds, secondsPerDay, secondsPerHour, secondsPerMinute]
  omega

/-- Dates compared from the year down are ordered as their days. -/
theorem days_lt (hc : c.Valid) (hd : d.Valid) (h : c.year < d.year ∨
    c.year = d.year ∧ (c.month < d.month ∨ c.month = d.month ∧ c.day < d.day)) :
    c.days < d.days := by
  obtain ⟨hm1, hm12⟩ := hc.month_mem
  have hdm := hd.month_mem
  obtain ⟨hdc1, hdc⟩ := hc.day_mem
  have hcm := daysBeforeMonth_add_daysIn_le_year c.year c.month (by omega) hm1
  unfold days
  rcases h with hy | ⟨hy, hm | ⟨hm, hday⟩⟩
  · -- the days of `c` end with its year, and the year of `d` starts no earlier
    obtain ⟨k, hk⟩ : ∃ k : Nat, d.year = c.year + 1 + k :=
      ⟨(d.year - c.year - 1).toNat, by omega⟩
    have hge := hc.year_ge
    have h1 := daysSinceEpoch_succ hge
    have h2 := daysSinceEpoch_add (by omega : absoluteZeroYear ≤ c.year + 1) k
    rw [hk]
    omega
  · have := daysBeforeMonth_add_daysIn_le c.year c.month (by omega) d.month (by omega) hm1 hm
    rw [← hy]
    omega
  · rw [← hy, ← hm]
    omega

/-- `Date` keeps the order of dates and clocks. -/
theorem toTime_before_toTime (hc : c.Valid) (hd : d.Valid) (h : c.key < d.key) :
    c.toTime.before d.toTime := by
  rw [toTime_eq hc, toTime_eq hd, before]
  dsimp only
  have hsc := seconds_lt hc
  have hsd := seconds_lt hd
  have hday : (secondsPerDay : Int) = 86400 := rfl
  rw [hday]
  simp only [key, List.cons_lt_cons_iff, Nat.cast_lt, Nat.cast_inj, List.not_lt_nil, and_false,
    or_false] at h
  rcases h with hy | ⟨hy, hm | ⟨hm, hd' | ⟨hd', hclock⟩⟩⟩
  · have := days_lt hc hd (.inl hy)
    omega
  · have := days_lt hc hd (.inr ⟨hy, .inl hm⟩)
    omega
  · have := days_lt hc hd (.inr ⟨hy, .inr ⟨hm, hd'⟩⟩)
    omega
  · -- on the same day the clocks, then the nanoseconds, compare
    have hdays : c.days = d.days := by
      unfold days
      rw [hy, hm, hd']
    have := hc.min_lt
    have := hc.sec_lt
    have := hd.min_lt
    have := hd.sec_lt
    simp only [seconds, secondsPerHour, secondsPerMinute] at *
    omega

theorem key_injective (h : c.key = d.key) : c = d := by
  cases c
  cases d
  simp only [key, List.cons.injEq, Nat.cast_inj, and_true, Civil.mk.injEq] at h ⊢
  exact h

end Civil

theorem before_of_civil_key_lt {t u : Time}
    (ht : 0 ≤ t.unix + (unixToInternal + internalToAbsolute))
    (hu : 0 ≤ u.unix + (unixToInternal + internalToAbsolute))
    (h : (civil t).key < (civil u).key) :
    t.before u := by
  have := Civil.toTime_before_toTime (civil_valid t) (civil_valid u) h
  rwa [toTime_civil ht, toTime_civil hu] at this

/-- From the absolute zero year on, the dates and clocks of times are ordered as the times. -/
theorem civil_key_lt_iff {t u : Time} (ht : 0 ≤ t.unix + (unixToInternal + internalToAbsolute))
    (hu : 0 ≤ u.unix + (unixToInternal + internalToAbsolute)) :
    (civil t).key < (civil u).key ↔ t.before u := by
  refine ⟨before_of_civil_key_lt ht hu, fun h => ?_⟩
  rcases lt_trichotomy (civil t).key (civil u).key with hlt | heq | hgt
  · exact hlt
  · have htu : t = u := by
      rw [← toTime_civil ht, ← toTime_civil hu, Civil.key_injective heq]
    subst htu
    exact absurd h (before_irrefl t)
  · exact absurd (before_of_civil_key_lt hu ht hgt) (before_asymm h)

/-- Before the absolute zero year `abs` is 0, whose year is the absolute zero year. -/
theorem unix_add_nonneg {t : Time} (h : absoluteZeroYear < t.year) :
    0 ≤ t.unix + (unixToInternal + internalToAbsolute) := by
  by_contra hneg
  have habs : t.abs = 0 := Int.toNat_of_nonpos (by omega)
  have hy : t.year = absoluteZeroYear := by
    rw [year, habs]
    rfl
  omega

end Time

end Barkis
