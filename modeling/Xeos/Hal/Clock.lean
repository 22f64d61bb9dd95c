import Mathlib.Order.Monotone.Defs
import Mathlib.Order.Nat
import Xeos.Hal.Rtc

/-!
# The clock behind the CMOS

`Xeos.Hal.Rtc` reads an arbitrary CMOS.  Here the registers show a clock: a
sequence of date-times, each one second after the one before, that may advance
between any two reads.  The result of a call should be one date-time that the
clock showed during the call, and not a mixture of two.

The routine keeps the values of its first pass whatever the second pass reads,
so the result is a snapshot only when no update falls into the first pass in a
way that matters.  `PassStable` is that condition on the clock, and
`snapshot_of_passStable` and `passStable_of_snapshot` relate the two.
-/

namespace Xeos.Hal.Rtc

/-! ## Date-times -/

/-- A date-time in binary.  The year is `100 * century + year`. -/
structure DateTime where
  seconds : Nat
  minutes : Nat
  hours : Nat
  weekday : Nat
  dayOfMonth : Nat
  month : Nat
  year : Nat
  century : Nat
deriving DecidableEq, Repr

namespace DateTime

/-- The Gregorian leap year rule. -/
def leapYear (d : DateTime) : Bool :=
  (d.year % 4 == 0 && d.year != 0) || (d.year == 0 && d.century % 4 == 0)

def daysInMonth (d : DateTime) : Nat :=
  match d.month with
  | 2 => if d.leapYear then 29 else 28
  | 4 | 6 | 9 | 11 => 30
  | _ => 31

/-- The date-time exists in the calendar. -/
structure Valid (d : DateTime) : Prop where
  seconds : d.seconds < 60
  minutes : d.minutes < 60
  hours : d.hours < 24
  weekday : 1 ≤ d.weekday ∧ d.weekday ≤ 7
  dayOfMonth : 1 ≤ d.dayOfMonth ∧ d.dayOfMonth ≤ d.daysInMonth
  month : 1 ≤ d.month ∧ d.month ≤ 12
  year : d.year < 100
  century : d.century < 100

/-- The first day of the next month. -/
def nextMonth (d : DateTime) : DateTime :=
  if d.month < 12 then { d with dayOfMonth := 1, month := d.month + 1 }
  else if d.year < 99 then { d with dayOfMonth := 1, month := 1, year := d.year + 1 }
  else { d with dayOfMonth := 1, month := 1, year := 0, century := (d.century + 1) % 100 }

def nextDay (d : DateTime) : DateTime :=
  let d := { d with weekday := d.weekday % 7 + 1 }
  if d.dayOfMonth < d.daysInMonth then { d with dayOfMonth := d.dayOfMonth + 1 }
  else d.nextMonth

/-- One second later. -/
def tick (d : DateTime) : DateTime :=
  if d.seconds < 59 then { d with seconds := d.seconds + 1 }
  else if d.minutes < 59 then { d with seconds := 0, minutes := d.minutes + 1 }
  else if d.hours < 23 then { d with seconds := 0, minutes := 0, hours := d.hours + 1 }
  else { d with seconds := 0, minutes := 0, hours := 0 }.nextDay

theorem one_le_daysInMonth (d : DateTime) : 1 ≤ d.daysInMonth := by
  unfold daysInMonth
  split
  · split <;> omega
  · omega
  · omega
  · omega
  · omega
  · omega

theorem daysInMonth_le (d : DateTime) : d.daysInMonth ≤ 31 := by
  unfold daysInMonth
  split
  · split <;> omega
  · omega
  · omega
  · omega
  · omega
  · omega

theorem Valid.nextMonth {d : DateTime} (h : d.Valid) : d.nextMonth.Valid := by
  have hm := h.month
  unfold DateTime.nextMonth
  split
  · exact ⟨h.seconds, h.minutes, h.hours, h.weekday, ⟨Nat.le_refl 1, one_le_daysInMonth _⟩,
      by simp only; omega, h.year, h.century⟩
  · split
    · exact ⟨h.seconds, h.minutes, h.hours, h.weekday, ⟨Nat.le_refl 1, one_le_daysInMonth _⟩,
        by simp only; omega, by simp only; omega, h.century⟩
    · exact ⟨h.seconds, h.minutes, h.hours, h.weekday, ⟨Nat.le_refl 1, one_le_daysInMonth _⟩,
        by simp only; omega, by simp only; omega, Nat.mod_lt _ (by omega)⟩

theorem Valid.nextDay {d : DateTime} (h : d.Valid) : d.nextDay.Valid := by
  have hd := h.dayOfMonth
  have hw : 1 ≤ d.weekday % 7 + 1 ∧ d.weekday % 7 + 1 ≤ 7 := by omega
  unfold DateTime.nextDay
  simp only
  split
  · next hlt =>
    exact ⟨h.seconds, h.minutes, h.hours, hw, ⟨by simp only; omega, hlt⟩,
      h.month, h.year, h.century⟩
  · apply Valid.nextMonth
    exact ⟨h.seconds, h.minutes, h.hours, hw, hd, h.month, h.year, h.century⟩

/-- The calendar has a next second. -/
theorem Valid.tick {d : DateTime} (h : d.Valid) : d.tick.Valid := by
  unfold DateTime.tick
  split
  · exact ⟨by simp only; omega, h.minutes, h.hours, h.weekday, h.dayOfMonth, h.month, h.year,
      h.century⟩
  · split
    · exact ⟨by simp only; omega, by simp only; omega, h.hours, h.weekday, h.dayOfMonth, h.month,
        h.year, h.century⟩
    · split
      · exact ⟨by simp only; omega, by simp only; omega, by simp only; omega, h.weekday,
          h.dayOfMonth, h.month, h.year, h.century⟩
      · apply Valid.nextDay
        exact ⟨by simp only; omega, by simp only; omega, by simp only; omega, h.weekday,
          h.dayOfMonth, h.month, h.year, h.century⟩

theorem nextMonth_seconds (d : DateTime) : d.nextMonth.seconds = d.seconds := by
  unfold nextMonth
  split
  · rfl
  · split <;> rfl

theorem nextDay_seconds (d : DateTime) : d.nextDay.seconds = d.seconds := by
  unfold nextDay
  simp only
  split
  · rfl
  · exact nextMonth_seconds _

theorem tick_seconds {d : DateTime} (h : d.Valid) : d.tick.seconds = (d.seconds + 1) % 60 := by
  have hs := h.seconds
  unfold tick
  split
  · simp only
    omega
  · split
    · simp only
      omega
    · split
      · simp only
        omega
      · rw [nextDay_seconds]
        simp only
        omega

/-! ## The register contents of a date-time -/

/-- A register holds its value in binary, or as two decimal digits. -/
def encodeField (statusB : UInt8) (v : Nat) : UInt8 :=
  if statusB &&& 0x04 = 0 then UInt8.ofNat (v / 10 * 16 + v % 10) else UInt8.ofNat v

/-- In 12 hour mode the hours run from 1 to 12 and bit 7 says PM. -/
def encodeHours (statusB : UInt8) (hours : Nat) : UInt8 :=
  if statusB &&& 0x02 = 0 then
    encodeField statusB (if hours % 12 = 0 then 12 else hours % 12) |||
      (if 12 ≤ hours then 0x80 else 0)
  else encodeField statusB hours

/-- What the eight registers hold at a date-time, in the format that status
register B selects. -/
def encode (statusB : UInt8) (d : DateTime) : Registers where
  seconds := encodeField statusB d.seconds
  minutes := encodeField statusB d.minutes
  hours := encodeHours statusB d.hours
  weekday := encodeField statusB d.weekday
  dayOfMonth := encodeField statusB d.dayOfMonth
  month := encodeField statusB d.month
  year := encodeField statusB d.year
  century := encodeField statusB d.century

theorem encodeField_inj (statusB : UInt8) {v w : Nat} (hv : v < 100) (hw : w < 100)
    (h : encodeField statusB v = encodeField statusB w) : v = w := by
  unfold encodeField at h
  split at h
  · have h' := congrArg UInt8.toNat h
    rw [UInt8.toNat_ofNat', UInt8.toNat_ofNat'] at h'
    omega
  · have h' := congrArg UInt8.toNat h
    rw [UInt8.toNat_ofNat', UInt8.toNat_ofNat'] at h'
    omega

end DateTime

/-! ## The clock -/

/-- A clock that starts at some date-time and advances by whole seconds.  `now t`
counts the updates that precede the read number `t`. -/
structure Clock where
  start : DateTime
  valid : start.Valid
  now : Nat → Nat
  mono : Monotone now
  updating : Nat → Bool
  statusB : UInt8

namespace Clock

/-- The sequence of the date-times of the clock. -/
def times (clock : Clock) : Nat → DateTime
  | 0 => clock.start
  | n + 1 => (times clock n).tick

/-- What the registers hold at the read number `t`. -/
def shown (clock : Clock) (t : Nat) : Registers :=
  (clock.times (clock.now t)).encode clock.statusB

/-- The CMOS of the clock. -/
def cmos (clock : Clock) : Cmos where
  registers := clock.shown
  updating := clock.updating
  statusB := clock.statusB

theorem times_valid (clock : Clock) (n : Nat) : (clock.times n).Valid := by
  induction n with
  | zero => exact clock.valid
  | succ n ih => exact ih.tick

theorem times_seconds (clock : Clock) (n : Nat) :
    (clock.times n).seconds = (clock.start.seconds + n) % 60 := by
  induction n with
  | zero =>
    have hs := clock.valid.seconds
    simp only [times]
    omega
  | succ n ih =>
    rw [times, DateTime.tick_seconds (clock.times_valid n), ih]
    omega

/-- Within a minute the seconds register tells two date-times apart. -/
theorem times_eq_of_seconds (clock : Clock) {m n : Nat} (hmn : m < n + 60) (hnm : n < m + 60)
    (h : ((clock.times m).encode clock.statusB).seconds
      = ((clock.times n).encode clock.statusB).seconds) : m = n := by
  have hm := (clock.times_valid m).seconds
  have hn := (clock.times_valid n).seconds
  have hsec : (clock.times m).seconds = (clock.times n).seconds :=
    DateTime.encodeField_inj clock.statusB (by omega) (by omega) h
  rw [times_seconds, times_seconds] at hsec
  omega

/-- No update during the first pass changes a register that the pass has not
yet read.  The pass starts after the first poll that finds no update in
progress, and reads the eight registers in the order of the record. -/
structure PassStable (clock : Clock) (k : Nat) : Prop where
  minutes : (clock.shown (k + 2)).minutes = (clock.shown (k + 1)).minutes
  hours : (clock.shown (k + 3)).hours = (clock.shown (k + 1)).hours
  weekday : (clock.shown (k + 4)).weekday = (clock.shown (k + 1)).weekday
  dayOfMonth : (clock.shown (k + 5)).dayOfMonth = (clock.shown (k + 1)).dayOfMonth
  month : (clock.shown (k + 6)).month = (clock.shown (k + 1)).month
  year : (clock.shown (k + 7)).year = (clock.shown (k + 1)).year
  century : (clock.shown (k + 8)).century = (clock.shown (k + 1)).century

/-- `k` is the first poll that finds no update in progress. -/
def FirstIdle (clock : Clock) (k : Nat) : Prop :=
  clock.updating k = false ∧ ∀ i, i < k → clock.updating i = true

theorem FirstIdle.unique {clock : Clock} {j k : Nat} (hj : clock.FirstIdle j)
    (hk : clock.FirstIdle k) : j = k := by
  rcases Nat.lt_trichotomy j k with hlt | heq | hgt
  · have hbusy := hk.2 j hlt
    rw [hj.1] at hbusy
    exact absurd hbusy Bool.false_ne_true
  · exact heq
  · have hbusy := hj.2 k hgt
    rw [hk.1] at hbusy
    exact absurd hbusy Bool.false_ne_true

theorem passStable_iff (clock : Clock) (k : Nat) :
    clock.PassStable k ↔ readRegisters clock.cmos (k + 1) = clock.shown (k + 1) := by
  constructor
  · intro h
    simp only [readRegisters, cmos, h.minutes, h.hours, h.weekday, h.dayOfMonth, h.month, h.year,
      h.century]
  · intro h
    exact ⟨(congrArg Registers.minutes h :), (congrArg Registers.hours h :),
      (congrArg Registers.weekday h :), (congrArg Registers.dayOfMonth h :),
      (congrArg Registers.month h :), (congrArg Registers.year h :),
      (congrArg Registers.century h :)⟩

/-- The decoded register values are those of one date-time that the clock showed
during the call. -/
def Snapshot (clock : Clock) (r : SystemTime) : Prop :=
  ∃ t, t ≤ r.reads ∧ r.registers = clock.shown t

theorem snapshot_of_passStable {clock : Clock} {k : Nat} {r : SystemTime}
    (hreg : r.registers = readRegisters clock.cmos (k + 1)) (hreads : k + 9 ≤ r.reads)
    (h : clock.PassStable k) : clock.Snapshot r := by
  rw [(clock.passStable_iff k).mp h] at hreg
  exact ⟨k + 1, by omega, hreg⟩

/-- In a call of less than a minute the seconds of the result name the date-time
of the first read, so a snapshot is the content of that moment. -/
theorem passStable_of_snapshot {clock : Clock} {k : Nat} {r : SystemTime}
    (hreg : r.registers = readRegisters clock.cmos (k + 1)) (hreads : k + 9 ≤ r.reads)
    (hminute : clock.now r.reads < clock.now 0 + 60) (h : clock.Snapshot r) :
    clock.PassStable k := by
  obtain ⟨t, ht, hshown⟩ := h
  rw [hreg] at hshown
  have hsec : (clock.shown (k + 1)).seconds = (clock.shown t).seconds :=
    (congrArg Registers.seconds hshown :)
  have hlow : ∀ i, clock.now 0 ≤ clock.now i := fun i => clock.mono (Nat.zero_le i)
  have hup : ∀ i, i ≤ r.reads → clock.now i ≤ clock.now r.reads := fun i hi => clock.mono hi
  have hk0 := hlow (k + 1)
  have hk1 := hup (k + 1) (by omega)
  have ht0 := hlow t
  have ht1 := hup t ht
  have hnow : clock.now (k + 1) = clock.now t :=
    clock.times_eq_of_seconds (by omega) (by omega) hsec
  have hsame : clock.shown t = clock.shown (k + 1) := by
    rw [shown, shown, hnow]
  rw [hsame] at hshown
  exact (clock.passStable_iff k).mpr hshown

/-- When the first pass is stable a call returns a snapshot.  A call of less than
a minute returns a snapshot only then. -/
theorem snapshot_iff (clock : Clock) (k : Nat) (r : SystemTime) (hk : clock.FirstIdle k)
    (h : DateTimeGetSystemTime clock.cmos r) :
    (clock.PassStable k → clock.Snapshot r) ∧
      (clock.now r.reads < clock.now 0 + 60 → (clock.Snapshot r ↔ clock.PassStable k)) := by
  obtain ⟨j, _, hbusy, hidle, hreg, hreads⟩ := registers_of_returns_wait h
  have hj : clock.FirstIdle j := ⟨hidle, fun i hi => hbusy i (Nat.zero_le i) hi⟩
  rw [hj.unique hk] at hreg hreads
  refine ⟨snapshot_of_passStable hreg hreads, ?_⟩
  intro hminute
  exact ⟨passStable_of_snapshot hreg hreads hminute, snapshot_of_passStable hreg hreads⟩

/-! ## A torn read -/

/-- The last second of January, with the first update between the read of the
day and the read of the month. -/
def endOfJanuary : Clock where
  start := ⟨59, 59, 23, 5, 31, 1, 15, 20⟩
  valid := by constructor <;> decide
  now t := if t ≤ 5 then 0 else 1
  mono := by
    intro s t hst
    show (if s ≤ 5 then 0 else 1) ≤ (if t ≤ 5 then 0 else 1)
    split
    · exact Nat.zero_le _
    · rw [if_neg (by omega)]
  updating _ := false
  statusB := 0x06

/-- What the call decodes there, the 31st of February. -/
def endOfFebruary : Registers := ⟨59, 59, 23, 5, 31, 2, 15, 20⟩

private theorem endOfJanuary_returns :
    DateTimeGetSystemTime endOfJanuary.cmos ⟨endOfFebruary, endOfFebruary, 18⟩ :=
  ⟨2, by decide⟩

private theorem endOfJanuary_idle : endOfJanuary.FirstIdle 0 :=
  ⟨rfl, fun i hi => absurd hi (Nat.not_lt_zero i)⟩

theorem snapshot_iff_endOfJanuary :
    (endOfJanuary.PassStable 0 → endOfJanuary.Snapshot ⟨endOfFebruary, endOfFebruary, 18⟩) ∧
      (endOfJanuary.now 18 < endOfJanuary.now 0 + 60 →
        (endOfJanuary.Snapshot ⟨endOfFebruary, endOfFebruary, 18⟩ ↔ endOfJanuary.PassStable 0)) :=
  snapshot_iff endOfJanuary 0 _ endOfJanuary_idle endOfJanuary_returns

theorem daysInMonth_february {d : DateTime} (h : d.month = 2) : d.daysInMonth ≤ 29 := by
  unfold DateTime.daysInMonth
  rw [h]
  simp only
  split <;> omega

/-- The call returns there, and no date-time at all has the decoded registers. -/
theorem torn_endOfJanuary :
    DateTimeGetSystemTime endOfJanuary.cmos ⟨endOfFebruary, endOfFebruary, 18⟩ ∧
      (∀ d : DateTime, d.Valid → endOfFebruary ≠ d.encode endOfJanuary.statusB) ∧
      ¬ endOfJanuary.Snapshot ⟨endOfFebruary, endOfFebruary, 18⟩ := by
  have hnone : ∀ d : DateTime, d.Valid → endOfFebruary ≠ d.encode endOfJanuary.statusB := by
    intro d hd h
    have hday := hd.dayOfMonth
    have hmonth := hd.month
    have hle := d.daysInMonth_le
    have hd31 : 31 = d.dayOfMonth :=
      DateTime.encodeField_inj endOfJanuary.statusB (by omega) (by omega)
        (congrArg Registers.dayOfMonth h)
    have hm2 : 2 = d.month :=
      DateTime.encodeField_inj endOfJanuary.statusB (by omega) (by omega)
        (congrArg Registers.month h)
    have hfeb := daysInMonth_february hm2.symm
    omega
  refine ⟨endOfJanuary_returns, hnone, ?_⟩
  intro h
  obtain ⟨t, _, ht⟩ := h
  exact hnone _ (endOfJanuary.times_valid _) ht

end Clock

end Xeos.Hal.Rtc
