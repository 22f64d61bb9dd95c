import Xeos.Hal.Clock

/-!
# Decoding the clock registers

`DateTime.encode` is the hardware's side of the clock: what the registers hold
at a date-time in each of the four formats.  `decode` is the conversion of
`XEOS_HAL_RTC_DateTimeGetSystemTime`.  Every field but the hours comes back.

A 12 hour clock counts 12, 1, ..., 11, and `decode` adds 12 to the hours of
every register with the PM bit.  Both hours that the clock writes as 12 are
off by twelve, and no other hour is.
-/

namespace Xeos.Hal.Rtc

open Lib DateTime

/-! ## One byte -/

theorem toNat_and_low (v : UInt8) : (v &&& 0x0F).toNat = v.toNat % 16 := by
  rw [UInt8.toNat_and]
  exact Nat.and_two_pow_sub_one_eq_mod v.toNat 4

theorem toNat_fromBcd (v : UInt8) :
    (fromBcd v).toNat = (v.toNat % 16 + v.toNat / 16 * 10) % 256 := by
  rw [fromBcd, UInt8.toNat_add, UInt8.toNat_mul, UInt8.toNat_div, toNat_and_low]
  simp

/-- Two decimal digits come back from BCD. -/
theorem fromBcd_encode {v : Nat} (hv : v < 100) :
    (fromBcd (UInt8.ofNat (v / 10 * 16 + v % 10))).toNat = v := by
  rw [toNat_fromBcd, UInt8.toNat_ofNat', Nat.mod_eq_of_lt (by omega)]
  omega

/-- The conversion that `decode` applies to every register but the hours. -/
def decodeField (statusB v : UInt8) : UInt8 :=
  if statusB &&& 0x04 = 0 then fromBcd v else v

theorem decodeField_encodeField (statusB : UInt8) {v : Nat} (hv : v < 100) :
    (decodeField statusB (encodeField statusB v)).toNat = v := by
  unfold decodeField encodeField
  split
  · exact fromBcd_encode hv
  · rw [UInt8.toNat_ofNat']
    omega

/-! ## The hours -/

/-- The hours register without its BCD packing. -/
def unpackHours (statusB v : UInt8) : UInt8 :=
  if statusB &&& 0x04 = 0 then ((v &&& 0x0F) + ((v &&& 0x70) / 16) * 10) ||| (v &&& 0x80) else v

/-- The conversion that `decode` applies to the hours register. -/
def decodeHours (statusB v : UInt8) : UInt8 :=
  if statusB &&& 0x02 = 0 ∧ unpackHours statusB v &&& 0x80 ≠ 0 then
    ((unpackHours statusB v &&& 0x7F) + 12) % 24
  else unpackHours statusB v

/-- Of each hour of the day, packed or not, with the PM bit or without. -/
theorem unpackHours_encodeField (statusB : UInt8) (pm : Bool) {h : Nat} (hh : h < 24) :
    unpackHours statusB (encodeField statusB h ||| if pm then 0x80 else 0)
      = UInt8.ofNat h ||| if pm then 0x80 else 0 := by
  unfold unpackHours encodeField
  split
  · revert pm h
    decide
  · rfl

/-- A 24 hour clock never sets bit 7 of the hours. -/
theorem decodeHours_of_24 (statusB : UInt8) {h : Nat} (hh : h < 24)
    (hb : statusB &&& 0x02 ≠ 0) : (decodeHours statusB (encodeHours statusB h)).toNat = h := by
  have hun := unpackHours_encodeField statusB false hh
  simp only [Bool.false_eq_true, if_false, UInt8.or_zero] at hun
  rw [decodeHours, if_neg (fun hc => hb hc.1), encodeHours, if_neg hb, hun, UInt8.toNat_ofNat']
  omega

/-- What a 12 hour clock's register decodes to. -/
theorem decodeHours_of_12 (statusB : UInt8) {h : Nat} (hh : h < 24)
    (hb : statusB &&& 0x02 = 0) :
    (decodeHours statusB (encodeHours statusB h)).toNat
      = if h % 12 = 0 then 12 - h else h := by
  have hun : unpackHours statusB (encodeHours statusB h)
      = UInt8.ofNat (if h % 12 = 0 then 12 else h % 12) ||| if 12 ≤ h then 0x80 else 0 := by
    have hlt : (if h % 12 = 0 then 12 else h % 12) < 24 := by
      split <;> omega
    have h' := unpackHours_encodeField statusB (decide (12 ≤ h)) hlt
    simpa only [decide_eq_true_eq, encodeHours, if_pos hb] using h'
  rw [decodeHours, hun]
  simp only [hb, true_and]
  -- the format no longer matters: twenty-four cases
  clear hun hb
  revert h
  decide

/-- The hours come back from a 24 hour clock, and from a 12 hour clock when it
does not write them as 12. -/
theorem decodeHours_encodeHours_iff (statusB : UInt8) {h : Nat} (hh : h < 24) :
    (decodeHours statusB (encodeHours statusB h)).toNat = h
      ↔ (statusB &&& 0x02 = 0 → h % 12 ≠ 0) := by
  by_cases hb : statusB &&& 0x02 = 0
  · rw [decodeHours_of_12 statusB hh hb]
    constructor
    · intro heq _ h0
      rw [if_pos h0] at heq
      omega
    · intro hne
      rw [if_neg (hne hb)]
  · rw [decodeHours_of_24 statusB hh hb]
    exact ⟨fun _ h0 => absurd h0 hb, fun _ => rfl⟩

/-! ## All registers -/

/-- `decode` field by field. -/
theorem decode_eq (statusB : UInt8) (r : Registers) :
    decode statusB r =
      { seconds := decodeField statusB r.seconds
        minutes := decodeField statusB r.minutes
        hours := decodeHours statusB r.hours
        weekday := decodeField statusB r.weekday
        dayOfMonth := decodeField statusB r.dayOfMonth
        month := decodeField statusB r.month
        year := decodeField statusB r.year
        century := decodeField statusB r.century } := by
  unfold decode decodeHours decodeField unpackHours
  by_cases hbcd : statusB &&& 0x04 = 0
  · simp only [hbcd, if_true, convertBcd]
    split <;> rfl
  · simp only [hbcd, if_false]
    split <;> rfl

/-- The seven fields of a `struct __XEOS_HAL_RTC_DateTime` are those of a
date-time. -/
structure Shows (r : Registers) (d : DateTime) : Prop where
  seconds : r.seconds.toNat = d.seconds
  minutes : r.minutes.toNat = d.minutes
  hours : r.hours.toNat = d.hours
  dayOfMonth : r.dayOfMonth.toNat = d.dayOfMonth
  month : r.month.toNat = d.month
  year : r.year.toNat = d.year
  century : r.century.toNat = d.century

theorem shows_decode_encode_iff (statusB : UInt8) {d : DateTime} (hd : d.Valid) :
    Shows (decode statusB (d.encode statusB)) d
      ↔ (statusB &&& 0x02 = 0 → d.hours % 12 ≠ 0) := by
  have hday := hd.dayOfMonth
  have hlast := d.daysInMonth_le
  have hfield : ∀ {v : Nat}, v < 100 →
      (decodeField statusB (encodeField statusB v)).toNat = v :=
    decodeField_encodeField statusB
  rw [← decodeHours_encodeHours_iff statusB hd.hours, decode_eq]
  constructor
  · intro h
    exact h.hours
  · intro h
    exact ⟨hfield (by have := hd.seconds; omega), hfield (by have := hd.minutes; omega), h,
      hfield (by omega), hfield (by have := hd.month; omega), hfield hd.year, hfield hd.century⟩

/-! ## A clock that does not change -/

/-- The registers hold one date-time, in the format of status register B. -/
def Holds (cmos : Cmos) (d : DateTime) : Prop :=
  ∀ t, cmos.registers t = d.encode cmos.statusB

theorem readRegisters_of_holds {cmos : Cmos} {d : DateTime} (h : Holds cmos d) (t : Nat) :
    readRegisters cmos t = d.encode cmos.statusB := by
  simp only [readRegisters, h t, h (t + 1), h (t + 2), h (t + 3), h (t + 4), h (t + 5), h (t + 6),
    h (t + 7)]

theorem allDiffer_self (r : Registers) : allDiffer r r = false := by
  simp [allDiffer]

/-- The routine decodes the registers it read. -/
theorem dateTime_of_returns {cmos : Cmos} {p : Phase} {r : SystemTime}
    (h : Returns (step cmos) p r) : r.dateTime = decode cmos.statusB r.registers := by
  obtain ⟨fuel, hfuel⟩ := h
  induction fuel generalizing p with
  | zero => simp [runFor] at hfuel
  | succ fuel ih =>
    rw [runFor] at hfuel
    cases hs : step cmos p with
    | inl p' =>
      rw [hs] at hfuel
      exact ih hfuel
    | inr r' =>
      rw [hs] at hfuel
      rw [← Option.some.inj hfuel]
      cases p with
      | wait t =>
        simp only [step] at hs
        split at hs <;> cases hs
      | compare first t =>
        simp only [step] at hs
        split at hs
        · cases hs
        · rw [← Sum.inr.inj hs]

/-- Without an update the second pass reads what the first one did. -/
theorem returns_of_idle {cmos : Cmos} {d : DateTime} (h : Holds cmos d) {t : Nat}
    (ht : cmos.updating t = false) : ∃ r, Returns (step cmos) (.wait t) r := by
  have hfirst : step cmos (.wait t) = .inl (.compare (d.encode cmos.statusB) (t + 9)) := by
    simp [step, ht, readRegisters_of_holds h]
  have hsecond : step cmos (.compare (d.encode cmos.statusB) (t + 9)) =
      .inr ⟨d.encode cmos.statusB, decode cmos.statusB (d.encode cmos.statusB), t + 9 + 9⟩ := by
    simp [step, readRegisters_of_holds h, allDiffer_self]
  exact ⟨_, (Returns.done hsecond).next hfirst⟩

/-- A call returns once a poll finds no update in progress. -/
theorem exists_returns_of_holds {cmos : Cmos} {d : DateTime} (h : Holds cmos d) {k : Nat}
    (hk : cmos.updating k = false) : ∃ r, DateTimeGetSystemTime cmos r := by
  suffices key : ∀ n t, t + n = k → ∃ r, Returns (step cmos) (.wait t) r from
    key k 0 (Nat.zero_add k)
  intro n
  induction n with
  | zero =>
    intro t ht
    have htk : t = k := ht
    exact returns_of_idle h (htk ▸ hk)
  | succ n ih =>
    intro t ht
    cases hu : cmos.updating t with
    | true =>
      obtain ⟨r, hr⟩ := ih (t + 1) (by omega)
      exact ⟨r, hr.next (by simp [step, hu])⟩
    | false => exact returns_of_idle h hu

/-- A call on a clock that stands still returns as soon as no update is in
progress, and returns the date-time of the clock except at the two hours that a
12 hour clock writes as 12. -/
theorem systemTime_shows_iff (cmos : Cmos) (d : DateTime) (hd : d.Valid) (h : Holds cmos d) :
    ((∃ k, cmos.updating k = false) → ∃ r, DateTimeGetSystemTime cmos r) ∧
      ∀ r, DateTimeGetSystemTime cmos r →
        (Shows r.dateTime d ↔ (cmos.statusB &&& 0x02 = 0 → d.hours % 12 ≠ 0)) := by
  refine ⟨fun ⟨k, hk⟩ => exists_returns_of_holds h hk, ?_⟩
  intro r hr
  obtain ⟨k, _, _, _, hreg, _⟩ := registers_of_returns_wait hr
  rw [dateTime_of_returns hr, hreg, readRegisters_of_holds h]
  exact shows_decode_encode_iff cmos.statusB hd

/-! ## Half past midnight -/

/-- The first of March, half an hour after midnight. -/
def halfPastMidnight : DateTime := ⟨0, 30, 0, 7, 1, 3, 15, 20⟩

/-- A clock in BCD and 12 hour format, the reset state of status register B. -/
def resetClock : Cmos where
  registers _ := halfPastMidnight.encode 0
  updating _ := false
  statusB := 0

theorem halfPastMidnight_valid : halfPastMidnight.Valid := by
  constructor <;> decide

theorem systemTime_shows_iff_reset :
    ((∃ k, resetClock.updating k = false) → ∃ r, DateTimeGetSystemTime resetClock r) ∧
      ∀ r, DateTimeGetSystemTime resetClock r →
        (Shows r.dateTime halfPastMidnight ↔
          (resetClock.statusB &&& 0x02 = 0 → halfPastMidnight.hours % 12 ≠ 0)) :=
  systemTime_shows_iff resetClock halfPastMidnight halfPastMidnight_valid (fun _ => rfl)

/-- The call returns half past noon. -/
theorem noon_at_midnight :
    halfPastMidnight.Valid ∧ Holds resetClock halfPastMidnight ∧
      ∃ r, DateTimeGetSystemTime resetClock r ∧ r.dateTime.hours = 12 ∧
        ¬ Shows r.dateTime halfPastMidnight := by
  refine ⟨halfPastMidnight_valid, fun _ => rfl, ?_⟩
  have hret : DateTimeGetSystemTime resetClock
      ⟨halfPastMidnight.encode 0, ⟨0, 30, 12, 7, 1, 3, 15, 20⟩, 18⟩ := ⟨2, by decide⟩
  refine ⟨_, hret, rfl, ?_⟩
  intro h
  exact absurd h.hours (by decide)

end Xeos.Hal.Rtc
