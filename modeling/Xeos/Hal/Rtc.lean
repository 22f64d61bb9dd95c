import Xeos.Lib.Loop

/-!
# Reading the real time clock

`XEOS_HAL_RTC_DateTimeGetSystemTime` over an arbitrary CMOS.  Every register
read is one step of time: `Cmos.registers t` is what the eight clock registers
hold at the read number `t`, and `Cmos.updating t` is the update bit that the
read number `t` of status register A finds.  The eight registers may therefore
change between any two reads.

The routine has two loops without a bound, the wait for the update bit and the
second read, so it is a `Lib.runFor` machine over the phases of the routine.
-/

namespace Xeos.Hal.Rtc

open Lib

/-- The contents of the eight clock registers, in the order the routine reads
them.  The same record serves as `struct __XEOS_HAL_RTC_DateTime`. -/
structure Registers where
  seconds : UInt8
  minutes : UInt8
  hours : UInt8
  weekday : UInt8
  dayOfMonth : UInt8
  month : UInt8
  year : UInt8
  century : UInt8
deriving DecidableEq, Repr

/-- The CMOS as the port reads see it, with `t` the number of the read. -/
structure Cmos where
  /-- The eight clock registers. -/
  registers : Nat → Registers
  /-- Bit 7 of status register A. -/
  updating : Nat → Bool
  /-- Status register B, which the clock does not change. -/
  statusB : UInt8

/-- One pass over the eight registers.  The read number `t` is the first of
eight reads. -/
def readRegisters (cmos : Cmos) (t : Nat) : Registers where
  seconds := (cmos.registers t).seconds
  minutes := (cmos.registers (t + 1)).minutes
  hours := (cmos.registers (t + 2)).hours
  weekday := (cmos.registers (t + 3)).weekday
  dayOfMonth := (cmos.registers (t + 4)).dayOfMonth
  month := (cmos.registers (t + 5)).month
  year := (cmos.registers (t + 6)).year
  century := (cmos.registers (t + 7)).century

/-- The condition of the `do ... while` loop: the second pass differs from the
first one in every register. -/
def allDiffer (r0 r1 : Registers) : Bool :=
  r0.seconds != r1.seconds && r0.minutes != r1.minutes && r0.hours != r1.hours &&
    r0.weekday != r1.weekday && r0.dayOfMonth != r1.dayOfMonth && r0.month != r1.month &&
    r0.year != r1.year && r0.century != r1.century

/-- One byte from BCD to binary. -/
def fromBcd (v : UInt8) : UInt8 := (v &&& 0x0F) + (v / 16) * 10

/-- The conversion of the BCD branch.  The hours keep their PM bit. -/
def convertBcd (r : Registers) : Registers where
  seconds := fromBcd r.seconds
  minutes := fromBcd r.minutes
  weekday := fromBcd r.weekday
  dayOfMonth := fromBcd r.dayOfMonth
  month := fromBcd r.month
  year := fromBcd r.year
  century := fromBcd r.century
  hours := ((r.hours &&& 0x0F) + ((r.hours &&& 0x70) / 16) * 10) ||| (r.hours &&& 0x80)

/-- The conversions that follow the two passes. -/
def decode (statusB : UInt8) (r : Registers) : Registers :=
  let r := if statusB &&& 0x04 = 0 then convertBcd r else r
  if statusB &&& 0x02 = 0 ∧ r.hours &&& 0x80 ≠ 0 then
    { r with hours := ((r.hours &&& 0x7F) + 12) % 24 }
  else r

/-- The phases of the routine.  The number is that of the next read. -/
inductive Phase where
  /-- `while( XEOS_HAL_RTC_UpdateInProgress() == true );` -/
  | wait (t : Nat)
  /-- The `do ... while` loop; `first` holds the array elements `[ 0 ]`. -/
  | compare (first : Registers) (t : Nat)

/-- What the routine ends with. -/
structure SystemTime where
  /-- The array elements `[ 0 ]`, which are the values that are decoded. -/
  registers : Registers
  /-- The contents of `__dateTime`. -/
  dateTime : Registers
  /-- The number of reads the call made. -/
  reads : Nat
deriving DecidableEq, Repr

/-- One round of one of the two loops. -/
def step (cmos : Cmos) : Phase → Phase ⊕ SystemTime
  | .wait t =>
    if cmos.updating t then
      .inl (.wait (t + 1))
    else
      .inl (.compare (readRegisters cmos (t + 1)) (t + 9))
  | .compare first t =>
    if allDiffer first (readRegisters cmos t) then
      .inl (.compare first (t + 8))
    else
      .inr ⟨first, decode cmos.statusB first, t + 9⟩

/-- `XEOS_HAL_RTC_DateTimeGetSystemTime` returns, with the result `r`. -/
def DateTimeGetSystemTime (cmos : Cmos) (r : SystemTime) : Prop :=
  Returns (step cmos) (.wait 0) r

/-! ## What a call that returns has read -/

/-- The comparison loop never replaces the values of the first pass, so it
returns them whatever the second passes read. -/
theorem registers_of_returns_compare {cmos : Cmos} {first : Registers} {t : Nat} {r : SystemTime}
    (h : Returns (step cmos) (.compare first t) r) : r.registers = first ∧ t ≤ r.reads := by
  obtain ⟨fuel, hfuel⟩ := h
  induction fuel generalizing t with
  | zero => simp [runFor] at hfuel
  | succ fuel ih =>
    rw [runFor] at hfuel
    by_cases hd : allDiffer first (readRegisters cmos t) = true
    · simp only [step, hd, if_true] at hfuel
      obtain ⟨hreg, hle⟩ := ih hfuel
      exact ⟨hreg, by omega⟩
    · simp only [step, hd] at hfuel
      have hr := Option.some.inj hfuel
      rw [← hr]
      exact ⟨rfl, by simp⟩

/-- The decoded values are those of the pass that starts right after the first
poll that finds no update in progress. -/
theorem registers_of_returns_wait {cmos : Cmos} {t : Nat} {r : SystemTime}
    (h : Returns (step cmos) (.wait t) r) :
    ∃ k, t ≤ k ∧ (∀ i, t ≤ i → i < k → cmos.updating i = true) ∧ cmos.updating k = false ∧
      r.registers = readRegisters cmos (k + 1) ∧ k + 9 ≤ r.reads := by
  obtain ⟨fuel, hfuel⟩ := h
  induction fuel generalizing t with
  | zero => simp [runFor] at hfuel
  | succ fuel ih =>
    rw [runFor] at hfuel
    cases hu : cmos.updating t with
    | true =>
      simp only [step, hu, if_true] at hfuel
      obtain ⟨k, htk, hbusy, hidle, hreg, hreads⟩ := ih hfuel
      refine ⟨k, by omega, ?_, hidle, hreg, hreads⟩
      intro i hi hik
      rcases Nat.eq_or_lt_of_le hi with rfl | hlt
      · exact hu
      · exact hbusy i hlt hik
    | false =>
      simp only [step, hu, Bool.false_eq_true, if_false] at hfuel
      obtain ⟨hreg, hreads⟩ := registers_of_returns_compare ⟨fuel, hfuel⟩
      exact ⟨t, Nat.le_refl t, fun i h1 h2 => absurd h2 (by omega), hu, hreg, hreads⟩

end Xeos.Hal.Rtc
