import Mathlib.Tactic.IntervalCases

/-!
# The Gregorian calendar

Days are counted year by year and month by month from the first day of 1970.  Months
are numbered from 0.  `daysToYear_eq` is the closed form of the count: one leap day
for every fourth year, less the centuries, with every fourth century back.
-/

namespace Lib.Calendar

def IsLeap (y : Nat) : Prop := y % 4 = 0 ∧ (y % 100 ≠ 0 ∨ y % 400 = 0)

instance (y : Nat) : Decidable (IsLeap y) :=
  inferInstanceAs (Decidable (y % 4 = 0 ∧ (y % 100 ≠ 0 ∨ y % 400 = 0)))

def yearLength (y : Nat) : Nat := if IsLeap y then 366 else 365

def monthLength (y : Nat) : Nat → Nat
  | 1 => if IsLeap y then 29 else 28
  | 3 | 5 | 8 | 10 => 30
  | _ => 31

/-- The days of the `n` years from 1970 on. -/
def daysToYear : Nat → Nat
  | 0 => 0
  | n + 1 => daysToYear n + yearLength (1970 + n)

/-- The days of the first `m` months of the year. -/
def daysToMonth (y : Nat) : Nat → Nat
  | 0 => 0
  | m + 1 => daysToMonth y m + monthLength y m

/-- The days from 1970-01-01 to the day `d` of the month `m` of the year `y`. -/
def daysToDate (y m d : Nat) : Nat := daysToYear (y - 1970) + daysToMonth y m + (d - 1)

/-- The day of the week, where 0 is Sunday.  The first day of 1970 was a Thursday. -/
def weekday (y m d : Nat) : Nat := (daysToDate y m d + 4) % 7

theorem twelve_months (y : Nat) : daysToMonth y 12 = yearLength y := by
  simp only [daysToMonth, monthLength, yearLength]
  split
  · rfl
  · rfl

theorem daysToYear_eq (n : Nat) :
    daysToYear n + (n + 69) / 100 = 365 * n + (n + 1) / 4 + (n + 369) / 400 := by
  induction n with
  | zero => rfl
  | succ n ih =>
    rw [daysToYear, yearLength]
    by_cases hleap : IsLeap (1970 + n)
    · rw [if_pos hleap]
      unfold IsLeap at hleap
      omega
    · rw [if_neg hleap]
      unfold IsLeap at hleap
      omega

/-- In the months after February the leap day has passed. -/
theorem daysToMonth_eq (y : Nat) {m : Nat} (hm : m < 12) :
    daysToMonth y m = [0, 31, 59, 90, 120, 151, 181, 212, 243, 273, 304, 334].getD m 0
      + if 2 ≤ m ∧ IsLeap y then 1 else 0 := by
  by_cases hleap : IsLeap y
  · interval_cases m <;> simp [daysToMonth, monthLength, hleap]
  · interval_cases m <;> simp [daysToMonth, monthLength, hleap]

end Lib.Calendar
