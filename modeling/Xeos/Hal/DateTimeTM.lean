import Xeos.C99.Time
import Xeos.Hal.Decode

/-!
# From the clock to a `struct tm`

`XEOS_HAL_RTC_DateTimeGetTM`.  The month, the year and the time of the day are right
for every date, and so are the seconds that `mktime` counts from them.  The day of the
year starts at 1 instead of 0, and the day of the month is taken for the day of the
week.
-/

namespace Xeos.Hal.Rtc

open Lib Xeos.C99

/-- One of the functions that read a field.  There may be no date-time. -/
def dateTimeField (field : Registers → UInt8) : Option Registers → UInt8
  | none => 0
  | some time => field time

def DateTimeGetSeconds : Option Registers → UInt8 := dateTimeField (·.seconds)
def DateTimeGetMinutes : Option Registers → UInt8 := dateTimeField (·.minutes)
def DateTimeGetHours : Option Registers → UInt8 := dateTimeField (·.hours)
def DateTimeGetDayOfMonth : Option Registers → UInt8 := dateTimeField (·.dayOfMonth)
def DateTimeGetMonth : Option Registers → UInt8 := dateTimeField (·.month)
def DateTimeGetYear : Option Registers → UInt8 := dateTimeField (·.year)
def DateTimeGetCentury : Option Registers → UInt8 := dateTimeField (·.century)

/-- The variable `leap`. -/
def isLeapFullYear (fullYear : Nat) : Bool :=
  if fullYear % 4 ≠ 0 then false
  else if fullYear % 100 ≠ 0 then true
  else if fullYear % 400 ≠ 0 then false
  else true

/-- What is added to the days of January and February, for the months from March on. -/
def ydayFromMarch (dayOfMonth : Nat) : Nat → Nat
  | 3 => dayOfMonth
  | 4 => dayOfMonth + 31
  | 5 => dayOfMonth + 31 + 30
  | 6 => dayOfMonth + 31 + 30 + 31
  | 7 => dayOfMonth + 31 + 30 + 31 + 30
  | 8 => dayOfMonth + 31 + 30 + 31 + 30 + 31
  | 9 => dayOfMonth + 31 + 30 + 31 + 30 + 31 + 31
  | 10 => dayOfMonth + 31 + 30 + 31 + 30 + 31 + 31 + 30
  | 11 => dayOfMonth + 31 + 30 + 31 + 30 + 31 + 31 + 30 + 31
  | 12 => dayOfMonth + 31 + 30 + 31 + 30 + 31 + 31 + 30 + 31 + 30
  | _ => 0

def DateTimeGetTM (time : Option Registers) : Time.Tm :=
  let seconds := (DateTimeGetSeconds time).toNat
  let minutes := (DateTimeGetMinutes time).toNat
  let hours := (DateTimeGetHours time).toNat
  let weekday := (DateTimeGetDayOfMonth time).toNat
  let dayOfMonth := (DateTimeGetDayOfMonth time).toNat
  let month := (DateTimeGetMonth time).toNat
  let year := (DateTimeGetYear time).toNat
  let century := (DateTimeGetCentury time).toNat
  let century := if century = 0 then 19 else century
  let fullYear : Nat := (century * 100 + year) % 2 ^ 16
  { sec := seconds
    min := minutes
    hour := hours
    wday := weekday
    mday := dayOfMonth
    mon := if month > 0 then (month : Int) - 1 else 0
    year := if fullYear > 1900 then (fullYear : Int) - 1900 else 0
    isdst := 0
    yday :=
      if month = 1 then (dayOfMonth : Int)
      else if month = 2 then dayOfMonth + 31
      else 31 + (if isLeapFullYear fullYear then 29 else 28) + ydayFromMarch dayOfMonth month }

/-! ## What the fields should be -/

namespace DateTime

def fullYear (d : DateTime) : Nat := 100 * d.century + d.year

/-- The days since January 1. -/
def dayOfYear (d : DateTime) : Nat :=
  Calendar.daysToMonth d.fullYear (d.month - 1) + (d.dayOfMonth - 1)

/-- The seconds since 1970-01-01T00:00:00. -/
def timestamp (d : DateTime) : Nat :=
  86400 * Calendar.daysToDate d.fullYear (d.month - 1) d.dayOfMonth + 3600 * d.hours
    + 60 * d.minutes + d.seconds

end DateTime

/-- The fields of a `struct tm` agree with the date and with each other. -/
structure Consistent (d : DateTime) (t : Time.Tm) : Prop where
  yday : t.yday = d.dayOfYear
  wday : t.wday = Calendar.weekday d.fullYear (d.month - 1) d.dayOfMonth
  mon : t.mon = d.month - 1
  year : t.year = d.fullYear - 1900
  mktime : Time.mktime (some t) = some (d.timestamp : Int)

section Shows

variable {r : Registers} {d : DateTime}

theorem isLeapFullYear_eq (y : Nat) : isLeapFullYear y = decide (Calendar.IsLeap y) := by
  unfold isLeapFullYear Calendar.IsLeap
  by_cases h4 : y % 4 = 0
  · by_cases h100 : y % 100 = 0
    · by_cases h400 : y % 400 = 0
      · simp [h4, h100, h400]
      · simp [h4, h100, h400]
    · simp [h4, h100]
  · simp [h4]

/-- The months before March, and the others, count to one day more than January 1. -/
theorem yday_eq (y : Nat) {m day : Nat} (hm : 1 ≤ m ∧ m ≤ 12) :
    (if m = 1 then (day : Int)
      else if m = 2 then day + 31
      else 31 + (if isLeapFullYear y then 29 else 28) + ydayFromMarch day m)
      = Calendar.daysToMonth y (m - 1) + (day - 1) + 1 := by
  have hmonths := Calendar.daysToMonth_eq y (m := m - 1) (by omega)
  rw [hmonths, isLeapFullYear_eq]
  obtain ⟨h1, h12⟩ := hm
  by_cases hleap : Calendar.IsLeap y
  · interval_cases m <;> simp [ydayFromMarch, hleap] <;> omega
  · interval_cases m <;> simp [ydayFromMarch, hleap] <;> omega

/-- The fields that the function fills for a date from 1970 on. -/
theorem dateTimeGetTM_eq (hd : d.Valid) (hyear : 1970 ≤ d.fullYear) (hr : Shows r d) :
    DateTimeGetTM (some r) =
      { sec := d.seconds
        min := d.minutes
        hour := d.hours
        mday := d.dayOfMonth
        mon := d.month - 1
        year := d.fullYear - 1900
        wday := d.dayOfMonth
        yday := d.dayOfYear + 1
        isdst := 0 } := by
  have hsec : (DateTimeGetSeconds (some r)).toNat = d.seconds := hr.seconds
  have hmin : (DateTimeGetMinutes (some r)).toNat = d.minutes := hr.minutes
  have hhour : (DateTimeGetHours (some r)).toNat = d.hours := hr.hours
  have hmday : (DateTimeGetDayOfMonth (some r)).toNat = d.dayOfMonth := hr.dayOfMonth
  have hmonth : (DateTimeGetMonth (some r)).toNat = d.month := hr.month
  have hyy : (DateTimeGetYear (some r)).toNat = d.year := hr.year
  have hcc : (DateTimeGetCentury (some r)).toNat = d.century := hr.century
  have hyearlt := hd.year
  have hcentury := hd.century
  have hmonths := hd.month
  have hday := hd.dayOfMonth
  have hfull : (d.century * 100 + d.year) % 2 ^ 16 = d.fullYear := by
    unfold DateTime.fullYear
    omega
  have hcc0 : ¬ d.century = 0 := by
    unfold DateTime.fullYear at hyear
    omega
  have hyday := @yday_eq d.fullYear d.month d.dayOfMonth hmonths
  have hdays : (d.dayOfYear : Int)
      = Calendar.daysToMonth d.fullYear (d.month - 1) + (d.dayOfMonth - 1) := by
    unfold DateTime.dayOfYear
    omega
  simp only [DateTimeGetTM, hsec, hmin, hhour, hmday, hmonth, hyy, hcc, if_neg hcc0, hfull]
  rw [if_pos (show d.month > 0 by omega), if_pos (show d.fullYear > 1900 by omega), hyday, hdays]

/-- The seconds that `mktime` counts are right. -/
theorem mktime_dateTimeGetTM (hd : d.Valid) (hyear : 1970 ≤ d.fullYear) (hr : Shows r d) :
    Time.mktime (some (DateTimeGetTM (some r))) = some (d.timestamp : Int) := by
  have hsec := hd.seconds
  have hmin := hd.minutes
  have hhour := hd.hours
  have hday := hd.dayOfMonth
  have hlast := d.daysInMonth_le
  have hmonth := hd.month
  have hy := hd.year
  have hcentury := hd.century
  have hfull : d.fullYear < 10000 := by
    unfold DateTime.fullYear
    omega
  have htm := dateTimeGetTM_eq hd hyear hr
  generalize DateTimeGetTM (some r) = t at htm
  have hsome : (Time.mktime (some t)).isSome := by
    rw [htm]
    refine Time.mktime_isSome ?_ ?_ ?_ ?_ ?_ ?_ <;> simp only [Time.IsInt] <;> omega
  have hnormal : t.normalYear = d.fullYear ∧ t.normalMonth = (d.month - 1 : Nat) := by
    rw [htm]
    simp only [Time.Tm.normalYear, Time.Tm.normalMonth]
    omega
  have hdays : t.daysToMonth = Calendar.daysToDate d.fullYear (d.month - 1) 1 := by
    rw [Time.Tm.daysToMonth, hnormal.1, hnormal.2]
    rfl
  obtain ⟨s, hs⟩ := Option.isSome_iff_exists.mp hsome
  rw [hs, Time.of_mktime (by omega) hs, hdays, htm]
  simp only [DateTime.timestamp, Calendar.daysToDate]
  congr 1
  omega

/-- For no date is the result consistent: the day of the year is one too large. -/
theorem not_consistent_dateTimeGetTM (r : Registers) (d : DateTime) (hd : d.Valid)
    (hyear : 1970 ≤ d.fullYear) (hr : Shows r d) : ¬ Consistent d (DateTimeGetTM (some r)) := by
  intro h
  have hyday := h.yday
  rw [dateTimeGetTM_eq hd hyear hr] at hyday
  exact absurd hyday (by simp)

/-- 2013-06-15, 12:34:56, a Saturday. -/
def aSaturday : DateTime := ⟨56, 34, 12, 7, 15, 6, 13, 20⟩

theorem not_consistent_aSaturday :
    aSaturday.Valid ∧ ¬ Consistent aSaturday (DateTimeGetTM (some ⟨56, 34, 12, 7, 15, 6, 13, 20⟩)) :=
  ⟨⟨by decide, by decide, by decide, by decide, by decide, by decide, by decide, by decide⟩,
    not_consistent_dateTimeGetTM ⟨56, 34, 12, 7, 15, 6, 13, 20⟩ aSaturday
      ⟨by decide, by decide, by decide, by decide, by decide, by decide, by decide, by decide⟩
      (by decide) ⟨rfl, rfl, rfl, rfl, rfl, rfl, rfl⟩⟩

/-- June 15 is the day 165 of 2013, and the function makes it 166. -/
theorem yday_aSaturday :
    aSaturday.dayOfYear = 165 ∧
      (DateTimeGetTM (some ⟨56, 34, 12, 7, 15, 6, 13, 20⟩)).yday = 166 ∧
      ¬ Consistent aSaturday (DateTimeGetTM (some ⟨56, 34, 12, 7, 15, 6, 13, 20⟩)) :=
  ⟨by decide, by decide, fun h => absurd h.yday (by decide)⟩

end Shows

end Xeos.Hal.Rtc
