import Xeos.Lib.Calendar

/-!
# `mktime`

`mktime` of `lib/c99/time/mktime.c`, where `time_t` is a `long` of 64 bits.  A signed
operation that overflows has no result, so the function is a computation in `Option`.
-/

namespace Xeos.C99.Time

open Lib

/-- `struct tm`. -/
structure Tm where
  sec : Int
  min : Int
  hour : Int
  mday : Int
  mon : Int
  year : Int
  wday : Int
  yday : Int
  isdst : Int
deriving DecidableEq, Repr

/-- The value of an operation of type `long`. -/
def long (v : Int) : Option Int := if -2 ^ 63 ≤ v ∧ v < 2 ^ 63 then some v else none

/-- `__yearDays`. -/
def yearDays : List Nat := [0, 31, 59, 90, 120, 151, 181, 212, 243, 273, 304, 334]

/-- The days to the month, with a correction for the leap day of a year whose February
has not passed.  The `long` division truncates. -/
def countDays (month year : Int) : Option Int := do
  -- the first of two assignments, whose value is lost
  let days ← long ((← long (year - 1970)) * 365)
  let _ ← long ((← long (days + (← long (year - 1969)).tdiv 4)) + yearDays.getD month.toNat 0)
  let result ← long (days + yearDays.getD month.toNat 0)
  let year ← long (if month ≤ 1 then year - 1 else year)
  let result ← long (result + (← long (year - 1968)).tdiv 4)
  let result ← long (result - (← long (year - 1900)).tdiv 100)
  long (result + (← long (year - 1600)).tdiv 400)

/-- The seconds to the date, from the days to its month. -/
def countSeconds (t : Tm) (result : Int) : Option Int := do
  let result ← long (result + t.mday)
  let result ← long (result - 1)
  let result ← long (result * 24)
  let result ← long (result + t.hour)
  let result ← long (result * 60)
  let result ← long (result + t.min)
  let result ← long (result * 60)
  long (result + t.sec)

/-- The function is in three parts: the month is brought into its range, then the days
and then the seconds are counted. -/
def mktime : Option Tm → Option Int
  | none => some (-1)
  | some t => do
    let year ← long ((← long (t.year + t.mon.tdiv 12)) + 1900)
    let month := t.mon.tmod 12
    if month < 0 then
      let year ← long (year - 1)
      countSeconds t (← countDays (month + 12) year)
    else countSeconds t (← countDays month year)

/-- The year and the month after whole years have gone from the month to the year. -/
def Tm.normalYear (t : Tm) : Int := t.year + 1900 + t.mon / 12

def Tm.normalMonth (t : Tm) : Int := t.mon % 12

/-- The days from 1970-01-01 to the first day of the normalised month. -/
def Tm.daysToMonth (t : Tm) : Nat :=
  Calendar.daysToDate t.normalYear.toNat t.normalMonth.toNat 1

theorem long_eq_some_iff {v r : Int} :
    long v = some r ↔ v = r ∧ -2 ^ 63 ≤ v ∧ v < 2 ^ 63 := by
  unfold long
  split
  · exact ⟨fun h => ⟨Option.some.inj h, ‹_›⟩, fun h => congrArg some h.1⟩
  · exact ⟨nofun, fun h => absurd h.2 ‹_›⟩

/-- The truncating division and its remainder, after the correction of a negative
remainder, are the ones that round down. -/
theorem normalise (m : Int) :
    (m.tmod 12 < 0 → m.tdiv 12 - 1 = m / 12 ∧ m.tmod 12 + 12 = m % 12) ∧
    (¬ m.tmod 12 < 0 → m.tdiv 12 = m / 12 ∧ m.tmod 12 = m % 12) := by
  rcases Int.le_total 0 m with hpos | hneg
  · rw [Int.tdiv_eq_ediv_of_nonneg hpos, Int.tmod_eq_emod_of_nonneg hpos]
    omega
  · obtain ⟨k, rfl⟩ : ∃ k, m = -k := ⟨-m, by omega⟩
    rw [Int.neg_tdiv, Int.neg_tmod, Int.tdiv_eq_ediv_of_nonneg (by omega),
      Int.tmod_eq_emod_of_nonneg (by omega)]
    omega

/-- The days that the formula counts to the first day of the month. -/
theorem daysToDate_eq {y m : Nat} (hy : 1970 ≤ y) (hm : m < 12) :
    (Calendar.daysToDate y m 1 : Int)
      = ((y : Int) - 1970) * 365 + yearDays.getD m 0
        + ((if m ≤ 1 then (y : Int) - 1 else y) - 1968) / 4
        - ((if m ≤ 1 then (y : Int) - 1 else y) - 1900) / 100
        + ((if m ≤ 1 then (y : Int) - 1 else y) - 1600) / 400 := by
  have hyears := Calendar.daysToYear_eq (y - 1970)
  have hmonths := Calendar.daysToMonth_eq y hm
  rw [Calendar.daysToDate, hmonths, yearDays]
  by_cases hfeb : m ≤ 1
  · rw [if_pos hfeb, if_neg (by omega)]
    omega
  · rw [if_neg hfeb]
    by_cases hleap : Calendar.IsLeap y
    · rw [if_pos ⟨by omega, hleap⟩]
      unfold Calendar.IsLeap at hleap
      omega
    · rw [if_neg (fun h => hleap h.2)]
      unfold Calendar.IsLeap at hleap
      omega

/-- A computation with an operation that does not overflow goes on with its value. -/
theorem long_bind_eq_some_iff {v : Int} {f : Int → Option Int} {r : Int} :
    (long v >>= f) = some r ↔ f v = some r ∧ -2 ^ 63 ≤ v ∧ v < 2 ^ 63 := by
  unfold long
  split
  · exact ⟨fun h => ⟨h, ‹_›⟩, fun h => h.1⟩
  · exact ⟨nofun, fun h => absurd h.2 ‹_›⟩

theorem of_countDays {m y : Nat} {d : Int} (hy : 1970 ≤ y) (hm : m < 12)
    (h : countDays m y = some d) : d = Calendar.daysToDate y m 1 := by
  have hdays := daysToDate_eq hy hm
  have hge : 1969 ≤ (if m ≤ 1 then (y : Int) - 1 else y) := by
    split
    · omega
    · omega
  have hcast : (if (m : Int) ≤ 1 then (y : Int) - 1 else y) = if m ≤ 1 then (y : Int) - 1 else y :=
    if_congr (by omega) rfl rfl
  simp only [countDays, long_bind_eq_some_iff, long_eq_some_iff, Int.toNat_natCast, hcast] at h
  generalize (if m ≤ 1 then (y : Int) - 1 else y) = y' at h hdays hge
  rw [Int.tdiv_eq_ediv_of_nonneg (show 0 ≤ y' - 1968 by omega),
    Int.tdiv_eq_ediv_of_nonneg (show 0 ≤ y' - 1900 by omega),
    Int.tdiv_eq_ediv_of_nonneg (show 0 ≤ y' - 1600 by omega)] at h
  omega

theorem of_countSeconds {t : Tm} {d r : Int} (h : countSeconds t d = some r) :
    r = 86400 * (d + t.mday - 1) + 3600 * t.hour + 60 * t.min + t.sec := by
  simp only [countSeconds, long_bind_eq_some_iff, long_eq_some_iff] at h
  omega

/-- What `mktime` returns when it does not overflow. -/
theorem of_mktime {t : Tm} {r : Int} (hyear : 1970 ≤ t.normalYear) (hr : mktime (some t) = some r) :
    r = 86400 * (t.daysToMonth + t.mday - 1) + 3600 * t.hour + 60 * t.min + t.sec := by
  have hcount : ∀ {month year : Int}, month = t.normalMonth → year = t.normalYear →
      (countDays month year >>= countSeconds t) = some r →
      r = 86400 * (t.daysToMonth + t.mday - 1) + 3600 * t.hour + 60 * t.min + t.sec := by
    intro month year hmonth hyear' hsome
    obtain ⟨d, hd, hseconds⟩ := Option.bind_eq_some_iff.mp hsome
    have hm : 0 ≤ t.normalMonth ∧ t.normalMonth < 12 := by
      unfold Tm.normalMonth
      omega
    rw [hmonth, hyear', ← Int.toNat_of_nonneg hm.1,
      ← Int.toNat_of_nonneg (show 0 ≤ t.normalYear by omega)] at hd
    rw [of_countSeconds hseconds, of_countDays (by omega) (by omega) hd]
    rfl
  have hnorm := normalise t.mon
  unfold mktime at hr
  simp only [long_bind_eq_some_iff] at hr
  by_cases hneg : t.mon.tmod 12 < 0
  · rw [if_pos hneg, long_bind_eq_some_iff] at hr
    have hround := hnorm.1 hneg
    refine hcount ?_ ?_ hr.1.1.1
    · exact hround.2
    · unfold Tm.normalYear
      omega
  · rw [if_neg hneg] at hr
    have hround := hnorm.2 hneg
    refine hcount ?_ ?_ hr.1.1
    · exact hround.2
    · unfold Tm.normalYear
      omega

/-- Where no operation overflows, `mktime` counts the seconds from 1970. -/
theorem mktime_eq (t : Tm) (hyear : 1970 ≤ t.normalYear) (h : (mktime (some t)).isSome) :
    mktime (some t)
      = some (86400 * (t.daysToMonth + t.mday - 1) + 3600 * t.hour + 60 * t.min + t.sec) := by
  obtain ⟨r, hr⟩ := Option.isSome_iff_exists.mp h
  rw [hr, of_mktime hyear hr]

/-- Noon on the leap day of 2000, given as the 29th of the month -11 of 2001. -/
def noonOnLeapDay : Tm := ⟨0, 0, 12, 29, -11, 101, 2, 59, 0⟩

theorem mktime_eq_noonOnLeapDay :
    1970 ≤ noonOnLeapDay.normalYear ∧ (mktime (some noonOnLeapDay)).isSome ∧
      mktime (some noonOnLeapDay) = some (86400 * (noonOnLeapDay.daysToMonth + 29 - 1) + 3600 * 12
        + 60 * 0 + 0) :=
  ⟨by decide, by decide, mktime_eq noonOnLeapDay (by decide) (by decide)⟩

/-! ## Fields of type `int` -/

theorem isSome_long {v : Int} (h : -2 ^ 63 ≤ v ∧ v < 2 ^ 63) : (long v).isSome := by
  rw [long, if_pos h]
  rfl

theorem isSome_long_bind {v : Int} {f : Int → Option Int} (h : -2 ^ 63 ≤ v ∧ v < 2 ^ 63)
    (hf : (f v).isSome) : (long v >>= f).isSome := by
  rw [long, if_pos h]
  exact hf

/-- A quotient is no larger than the dividend. -/
theorem tdiv_range {a b n : Int} (h : -b ≤ a ∧ a ≤ b) :
    -b ≤ a.tdiv n ∧ a.tdiv n ≤ b := by
  have habs : (a.tdiv n).natAbs = a.natAbs / n.natAbs := Int.natAbs_tdiv a n
  have hle := Nat.div_le_self a.natAbs n.natAbs
  omega

/-- The value of an `int`. -/
def IsInt (v : Int) : Prop := -2 ^ 31 ≤ v ∧ v < 2 ^ 31

theorem yearDays_le (m : Nat) : yearDays.getD m 0 ≤ 334 := by
  rcases Nat.lt_or_ge m 12 with hlt | hge
  · revert m
    decide
  · rw [List.getD_eq_getElem?_getD, List.getElem?_eq_none hge]
    decide

theorem countDays_isSome {month year : Int} (h : -2 ^ 33 ≤ year ∧ year ≤ 2 ^ 33) :
    ∃ d, countDays month year = some d ∧ -2 ^ 44 ≤ d ∧ d ≤ 2 ^ 44 := by
  have hdays := yearDays_le month.toNat
  obtain ⟨y, hy⟩ : ∃ y, (if month ≤ 1 then year - 1 else year) = y := ⟨_, rfl⟩
  have hrange : -2 ^ 34 ≤ y ∧ y ≤ 2 ^ 34 := by
    rw [← hy]
    split
    · omega
    · omega
  have hlost := tdiv_range (a := year - 1969) (b := 2 ^ 34) (n := 4) (by omega)
  have hfour := tdiv_range (a := y - 1968) (b := 2 ^ 35) (n := 4) (by omega)
  have hcentury := tdiv_range (a := y - 1900) (b := 2 ^ 35) (n := 100) (by omega)
  have hquad := tdiv_range (a := y - 1600) (b := 2 ^ 35) (n := 400) (by omega)
  have hsome : (countDays month year).isSome := by
    unfold countDays
    rw [hy]
    iterate 12 refine isSome_long_bind (by omega) ?_
    exact isSome_long (by omega)
  obtain ⟨d, hd⟩ := Option.isSome_iff_exists.mp hsome
  refine ⟨d, hd, ?_⟩
  simp only [countDays, hy, long_bind_eq_some_iff, long_eq_some_iff] at hd
  omega

theorem countSeconds_isSome {t : Tm} {d : Int} (hd : -2 ^ 44 ≤ d ∧ d ≤ 2 ^ 44)
    (hmday : IsInt t.mday) (hhour : IsInt t.hour) (hmin : IsInt t.min) (hsec : IsInt t.sec) :
    (countSeconds t d).isSome := by
  unfold IsInt at *
  unfold countSeconds
  iterate 7 refine isSome_long_bind (by omega) ?_
  exact isSome_long (by omega)

/-- No operation overflows when the fields are of type `int`. -/
theorem mktime_isSome {t : Tm} (hyear : IsInt t.year) (hmon : IsInt t.mon) (hmday : IsInt t.mday)
    (hhour : IsInt t.hour) (hmin : IsInt t.min) (hsec : IsInt t.sec) : (mktime (some t)).isSome := by
  have hcount : ∀ {month year : Int}, -2 ^ 33 ≤ year ∧ year ≤ 2 ^ 33 →
      (countDays month year >>= countSeconds t).isSome := by
    intro month year h
    obtain ⟨d, hd, hrange⟩ := @countDays_isSome month year h
    rw [hd]
    exact countSeconds_isSome hrange hmday hhour hmin hsec
  have hdiv := tdiv_range (a := t.mon) (b := 2 ^ 31) (n := 12)
    (by unfold IsInt at hmon; omega)
  unfold IsInt at hyear
  unfold mktime
  refine isSome_long_bind (by omega) (isSome_long_bind (by omega) ?_)
  by_cases hneg : t.mon.tmod 12 < 0
  · rw [if_pos hneg]
    exact isSome_long_bind (by omega) (hcount (by omega))
  · rw [if_neg hneg]
    exact hcount (by omega)

end Xeos.C99.Time
