import Xeos.Hal.Idt
import Xeos.Lib.Memory

/-!
# The interrupt descriptor table in memory

The gates as the processor reads them, with the functions of `hal/idt` on their bytes.  A
reference to a gate is an address, and the handler of a gate is found from the distance of the
address to the start of the table.

`Represents` relates the bytes to the table of `Idt`, and every function keeps it.  So what a
gate holds after any calls is a matter of the fields that were last set.
-/

namespace Xeos.Hal.Idt

open Lib

/-- `XEOS_HAL_IDT_ISREntryType`. -/
inductive ISREntryType where
  | unknown | task32 | interrupt16 | trap16 | interrupt32 | trap32
deriving DecidableEq, Repr

def ISREntryType.code : ISREntryType → UInt8
  | .unknown => 0x00
  | .task32 => 0x05
  | .interrupt16 => 0x06
  | .trap16 => 0x07
  | .interrupt32 => 0x0E
  | .trap32 => 0x0F

/-- `XEOS_HAL_IDT_ISREntryPrivilegeLevel`. -/
inductive PrivilegeLevel where
  | ring0 | ring1 | ring2 | ring3
deriving DecidableEq, Repr

def PrivilegeLevel.code : PrivilegeLevel → UInt8
  | .ring0 => 0x00
  | .ring1 => 0x01
  | .ring2 => 0x02
  | .ring3 => 0x03

/-- Where the linker puts `__XEOS_HAL_IDT_ISREntries` and the stubs. -/
structure Table where
  /-- `__LP64__`. -/
  lp64 : Bool
  base : Nat
  /-- The address of `__XEOS_HAL_IDT_ISR_n`. -/
  stub : UInt8 → Nat
  notNull : base ≠ 0
  fits : base + 256 * (if lp64 then 16 else 8) ≤ 2 ^ (if lp64 then 64 else 32)
  stub_lt : ∀ n, stub n < 2 ^ (if lp64 then 64 else 32)

/-- The memory with the table, and `__XEOS_HAL_IDT_ISRHandlers`. -/
structure Machine (H : Type) where
  memory : Memory
  handlers : Nat → Option H

variable {H : Type}

namespace Table

variable (t : Table)

/-! ## The code -/

/-- `sizeof( __XEOS_HAL_IDT_ISREntry )`. -/
def size : Nat := if t.lp64 then 16 else 8

/-- The bits of an `uintptr_t`. -/
def bits : Nat := if t.lp64 then 64 else 32

/-- `XEOS_HAL_IDT_GetISREntry`. -/
def GetISREntry (isr : UInt8) : Nat := t.base + isr.toNat * t.size

/-- `XEOS_HAL_IDT_ISREntryGetIndex`. -/
def ISREntryGetIndex (entry : Nat) : Int :=
  if entry = 0 then -1
  else
    let isr := Int32.ofNat ((entry + 2 ^ t.bits - t.base) % 2 ^ t.bits / t.size)
    if 256 ≤ isr.toInt then -1 else isr.toInt

/-- `entry->flags &= mask`. -/
def andFlags (entry : Nat) (mask : UInt8) (m : Memory) : Memory :=
  m.set (entry + 5) (m (entry + 5) &&& mask)

/-- `entry->flags |= bits`. -/
def orFlags (entry : Nat) (bits : UInt8) (m : Memory) : Memory :=
  m.set (entry + 5) (m (entry + 5) ||| bits)

/-- `XEOS_HAL_IDT_ISREntrySetSelector`. -/
def ISREntrySetSelector (entry : Nat) (selector : UInt16) (s : Machine H) : Machine H :=
  if entry = 0 then s else { s with memory := s.memory.store (entry + 2) 2 selector.toNat }

/-- `XEOS_HAL_IDT_ISREntrySetType`. -/
def ISREntrySetType (entry : Nat) (type : ISREntryType) (s : Machine H) : Machine H :=
  if entry = 0 then s
  else
    let flags := type.code &&& 0x0F
    { s with memory := orFlags entry flags (andFlags entry 0xF0 s.memory) }

/-- `XEOS_HAL_IDT_ISREntrySetPrivilegeLevel`. -/
def ISREntrySetPrivilegeLevel (entry : Nat) (level : PrivilegeLevel) (s : Machine H) :
    Machine H :=
  if entry = 0 then s
  else
    let flags := (level.code <<< (5 : UInt8)) &&& 0x60
    { s with memory := orFlags entry flags (andFlags entry 0x9F s.memory) }

/-- `XEOS_HAL_IDT_ISREntrySetPresent`. -/
def ISREntrySetPresent (entry : Nat) (present : Bool) (s : Machine H) : Machine H :=
  if entry = 0 then s
  else if present then { s with memory := orFlags entry 0x80 s.memory }
  else { s with memory := andFlags entry 0x7F s.memory }

/-- `XEOS_HAL_IDT_ISREntrySetHandler`. -/
def ISREntrySetHandler (entry : Nat) (handler : Option H) (s : Machine H) : Machine H :=
  if entry = 0 then s
  else
    let isr := t.ISREntryGetIndex entry
    if 0 ≤ isr ∧ isr < 256 then
      { s with handlers := Function.update s.handlers isr.toNat handler }
    else s

/-- `XEOS_HAL_IDT_ISREntryGetHandler`. -/
def ISREntryGetHandler (entry : Nat) (s : Machine H) : Option H :=
  if entry = 0 then none
  else
    let isr := t.ISREntryGetIndex entry
    if isr < 0 ∨ 256 ≤ isr then none else s.handlers isr.toNat

/-- `XEOS_HAL_IDT_SetISREntry`. -/
def SetISREntry (isr : UInt8) (selector : UInt16) (type : ISREntryType) (level : PrivilegeLevel)
    (present : Bool) (handler : Option H) (s : Machine H) : Machine H :=
  let isrEntry := t.GetISREntry isr
  if isrEntry ≠ 0 then
    let s := ISREntrySetSelector isrEntry selector s
    let s := ISREntrySetType isrEntry type s
    let s := ISREntrySetPrivilegeLevel isrEntry level s
    let s := ISREntrySetPresent isrEntry present s
    t.ISREntrySetHandler isrEntry handler s
  else s

/-- `__XEOS_HAL_IDT_INIT_ISR`. -/
def initISR (i : UInt8) (s : Machine H) : Machine H :=
  let entry := t.GetISREntry i
  let isr := t.stub i
  let m := s.memory.store entry 2 (isr &&& 0x0000FFFF)
  let m := m.store (entry + 6) 2 (isr >>> 16 &&& 0x0000FFFF)
  { s with memory := if t.lp64 then m.store (entry + 8) 4 (isr >>> 32 &&& 0xFFFFFFFF) else m }

/-- `XEOS_HAL_IDT_Init`, but for the pointer to the table and its installation. -/
def Init (s : Machine H) : Machine H :=
  let s := { s with memory := s.memory.fill t.base (t.size * 256) 0 }
  let s := { s with handlers := fun i => if i < 256 then none else s.handlers i }
  let s := forLoop (fun i => t.initISR (UInt8.ofNat i)) 256 s
  forLoop (fun i s =>
    let isrEntry := t.GetISREntry (UInt8.ofNat i)
    let s := ISREntrySetSelector isrEntry 0x08 s
    let s := ISREntrySetType isrEntry .interrupt32 s
    let s := ISREntrySetPrivilegeLevel isrEntry .ring3 s
    let s := ISREntrySetPresent isrEntry true s
    t.ISREntrySetHandler isrEntry none s) 256 s

/-- The call of `__XEOS_HAL_IDT_HandleISR`: a handler with its argument. -/
def HandleISR (isr : UInt8) (s : Machine H) : Option (H × UInt8) :=
  let entry := t.GetISREntry isr
  if entry = 0 then none
  else (t.ISREntryGetHandler entry s).map fun handler => (handler, isr)

/-! ## What the processor reads -/

def selectorOf (n : UInt8) (s : Machine H) : Nat := s.memory.load (t.GetISREntry n + 2) 2

def flagsOf (n : UInt8) (s : Machine H) : UInt8 := s.memory (t.GetISREntry n + 5)

def offsetOf (n : UInt8) (s : Machine H) : Nat :=
  s.memory.load (t.GetISREntry n) 2 + 2 ^ 16 * s.memory.load (t.GetISREntry n + 6) 2
    + if t.lp64 then 2 ^ 32 * s.memory.load (t.GetISREntry n + 8) 4 else 0

/-- The bytes `__reserved_0` and `__reserved_1`. -/
def reservedOf (n : UInt8) (s : Machine H) : Nat × Nat :=
  (s.memory.load (t.GetISREntry n + 4) 1,
    if t.lp64 then s.memory.load (t.GetISREntry n + 12) 4 else 0)

/-- The bytes and the handlers are those of the table `T`. -/
structure Represents (s : Machine H) (T : Tables H) : Prop where
  base : ∀ n k, (T.entries n).base = some k → t.offsetOf n s = t.stub k
  selector : ∀ n, t.selectorOf n s = (T.entries n).selector.toNat
  flags : ∀ n, t.flagsOf n s = (T.entries n).flags
  reserved : ∀ n, t.reservedOf n s = (0, 0)
  handlers : ∀ n, s.handlers n.toNat = T.handlers n

/-! ## Addresses -/

section Address

variable {t} {n k : UInt8}

theorem eight_le_size : 8 ≤ t.size := by
  unfold size
  split <;> omega

theorem size_of_lp64 (h : t.lp64 = true) : t.size = 16 := if_pos h

theorem end_le (n : UInt8) : t.GetISREntry n + t.size ≤ t.base + 256 * t.size := by
  have hn : (n.toNat + 1) * t.size ≤ 256 * t.size := Nat.mul_le_mul_right _ n.toNat_lt
  rw [Nat.add_mul, Nat.one_mul] at hn
  unfold GetISREntry
  omega

theorem GetISREntry_ne_zero (n : UInt8) : t.GetISREntry n ≠ 0 := by
  have hbase := t.notNull
  unfold GetISREntry
  omega

theorem apart (h : n ≠ k) :
    t.GetISREntry n + t.size ≤ t.GetISREntry k ∨ t.GetISREntry k + t.size ≤ t.GetISREntry n := by
  have hne : n.toNat ≠ k.toNat := fun heq => h (UInt8.toNat_inj.mp heq)
  unfold GetISREntry
  rcases Nat.lt_or_gt_of_ne hne with hlt | hgt
  · have hmul := Nat.mul_le_mul_right t.size (Nat.succ_le_of_lt hlt)
    rw [Nat.succ_mul] at hmul
    omega
  · have hmul := Nat.mul_le_mul_right t.size (Nat.succ_le_of_lt hgt)
    rw [Nat.succ_mul] at hmul
    omega

/-- The index is found again from the address. -/
theorem ISREntryGetIndex_entry (n : UInt8) : t.ISREntryGetIndex (t.GetISREntry n) = n.toNat := by
  have hn := n.toNat_lt
  have hfits : t.base + 256 * t.size ≤ 2 ^ t.bits := t.fits
  have hend := t.end_le n
  have hsize : 8 ≤ t.size := eight_le_size
  have hdistance : (t.GetISREntry n + 2 ^ t.bits - t.base) % 2 ^ t.bits = n.toNat * t.size := by
    unfold GetISREntry at hend ⊢
    rw [show t.base + n.toNat * t.size + 2 ^ t.bits - t.base
      = n.toNat * t.size + 2 ^ t.bits by omega, Nat.add_mod_right, Nat.mod_eq_of_lt (by omega)]
  have hint : (Int32.ofNat n.toNat).toInt = n.toNat :=
    Int32.toInt_ofNat_of_lt (by omega)
  simp only [ISREntryGetIndex, GetISREntry_ne_zero, if_false, hdistance,
    Nat.mul_div_cancel _ (show 0 < t.size by omega), hint]
  rw [if_neg (by omega)]

end Address

/-! ## The functions on one gate -/

section Gate

variable {t} {s : Machine H} {T : Tables H}

/-- A change of the selector and the flags of one gate. -/
theorem Represents.modifyEntry (h : t.Represents s T) {n : UInt8} {f : ISREntry → ISREntry}
    {m : Memory}
    (hframe : ∀ b, b < t.GetISREntry n + 2 ∨ b = t.GetISREntry n + 4 ∨ t.GetISREntry n + 6 ≤ b →
      m b = s.memory b)
    (hbase : (f (T.entries n)).base = (T.entries n).base)
    (hselector : m.load (t.GetISREntry n + 2) 2 = (f (T.entries n)).selector.toNat)
    (hflags : m (t.GetISREntry n + 5) = (f (T.entries n)).flags) :
    t.Represents { s with memory := m } (Idt.modifyEntry f (some n) T) := by
  have hsize : 8 ≤ t.size := eight_le_size
  have hsame : ∀ k d w, (d + w ≤ 2 ∨ d = 4 ∧ w = 1 ∨ 6 ≤ d) → d + w ≤ t.size →
      m.load (t.GetISREntry k + d) w = s.memory.load (t.GetISREntry k + d) w := by
    intro k d w hd hw
    refine Memory.load_congr fun i hi => hframe _ ?_
    by_cases hk : k = n
    · subst hk
      omega
    · have hapart := t.apart hk
      omega
  have hother : ∀ k, k ≠ n → ∀ d w, d + w ≤ t.size →
      m.load (t.GetISREntry k + d) w = s.memory.load (t.GetISREntry k + d) w := by
    intro k hk d w hw
    have hapart := t.apart hk
    exact Memory.load_congr fun i hi => hframe _ (by omega)
  have hoffset : ∀ k, t.offsetOf k { s with memory := m } = t.offsetOf k s := by
    intro k
    have hlow : m.load (t.GetISREntry k) 2 = s.memory.load (t.GetISREntry k) 2 :=
      hsame k 0 2 (by omega) (by omega)
    simp only [offsetOf, hlow, hsame k 6 2 (by omega) (by omega)]
    cases hlp : t.lp64 with
    | false => rfl
    | true =>
      have hsixteen := size_of_lp64 hlp
      rw [hsame k 8 4 (by omega) (by omega)]
  refine ⟨fun k j hj => ?_, fun k => ?_, fun k => ?_, fun k => ?_, h.handlers⟩
  · rw [hoffset]
    refine h.base k j ?_
    by_cases hk : k = n
    · subst hk
      simpa only [Idt.modifyEntry, Function.update_self, hbase] using hj
    · simpa only [Idt.modifyEntry, Function.update_of_ne hk] using hj
  · by_cases hk : k = n
    · subst hk
      simpa only [Idt.modifyEntry, Function.update_self, selectorOf] using hselector
    · have hk' := h.selector k
      simp only [Idt.modifyEntry, Function.update_of_ne hk, selectorOf] at hk' ⊢
      rw [hother k hk 2 2 (by omega), hk']
  · by_cases hk : k = n
    · subst hk
      simpa only [Idt.modifyEntry, Function.update_self, flagsOf] using hflags
    · have hk' := h.flags k
      have hapart := t.apart hk
      simp only [Idt.modifyEntry, Function.update_of_ne hk, flagsOf] at hk' ⊢
      rw [hframe _ (by omega), hk']
  · have hk' := h.reserved k
    simp only [reservedOf] at hk' ⊢
    rw [hsame k 4 1 (by omega) (by omega)]
    cases hlp : t.lp64 with
    | false => simpa [hlp] using hk'
    | true =>
      have hsixteen := size_of_lp64 hlp
      rw [hsame k 12 4 (by omega) (by omega)]
      simpa [hlp] using hk'

theorem Represents.setSelector (h : t.Represents s T) (n : UInt8) (selector : UInt16) :
    t.Represents (ISREntrySetSelector (t.GetISREntry n) selector s)
      (Idt.ISREntrySetSelector (some n) selector T) := by
  rw [ISREntrySetSelector, if_neg (GetISREntry_ne_zero n)]
  refine h.modifyEntry (fun b hb => Memory.store_of_not_mem _ _ (by omega)) rfl ?_ ?_
  · rw [Memory.load_store]
    exact Nat.mod_eq_of_lt selector.toNat_lt
  · rw [Memory.store_of_not_mem _ _ (by omega)]
    exact h.flags n

/-- A change of the flags. -/
theorem Represents.setFlags (h : t.Represents s T) (n : UInt8) (g : UInt8 → UInt8) :
    t.Represents
      { s with memory := s.memory.set (t.GetISREntry n + 5) (g (s.memory (t.GetISREntry n + 5))) }
      (Idt.modifyEntry (fun e => { e with flags := g e.flags }) (some n) T) := by
  refine h.modifyEntry (fun b hb => Memory.set_of_ne _ _ (by omega)) rfl ?_ ?_
  · rw [Memory.load_set_of_not_mem _ _ (by omega)]
    exact h.selector n
  · rw [Memory.set_same]
    exact congrArg g (h.flags n)

theorem orFlags_andFlags (entry : Nat) (mask bits : UInt8) (m : Memory) :
    orFlags entry bits (andFlags entry mask m)
      = m.set (entry + 5) ((m (entry + 5) &&& mask) ||| bits) := by
  funext b
  unfold orFlags andFlags
  rw [Memory.set_same]
  by_cases hb : b = entry + 5
  · rw [hb, Memory.set_same, Memory.set_same]
  · rw [Memory.set_of_ne _ _ hb, Memory.set_of_ne _ _ hb, Memory.set_of_ne _ _ hb]

theorem Represents.setType (h : t.Represents s T) (n : UInt8) (type : ISREntryType) :
    t.Represents (ISREntrySetType (t.GetISREntry n) type s)
      (Idt.ISREntrySetType (some n) type.code T) := by
  simp only [ISREntrySetType, GetISREntry_ne_zero, if_false, orFlags_andFlags]
  exact h.setFlags n fun f => (f &&& 0xF0) ||| (type.code &&& 0x0F)

theorem Represents.setPrivilegeLevel (h : t.Represents s T) (n : UInt8) (level : PrivilegeLevel) :
    t.Represents (ISREntrySetPrivilegeLevel (t.GetISREntry n) level s)
      (Idt.ISREntrySetPrivilegeLevel (some n) level.code T) := by
  simp only [ISREntrySetPrivilegeLevel, GetISREntry_ne_zero, if_false, orFlags_andFlags]
  exact h.setFlags n fun f => (f &&& 0x9F) ||| ((level.code <<< (5 : UInt8)) &&& 0x60)

theorem Represents.setPresent (h : t.Represents s T) (n : UInt8) (present : Bool) :
    t.Represents (ISREntrySetPresent (t.GetISREntry n) present s)
      (Idt.ISREntrySetPresent (some n) present T) := by
  simp only [ISREntrySetPresent, GetISREntry_ne_zero, if_false]
  cases present with
  | false => exact h.setFlags n fun f => f &&& 0x7F
  | true => exact h.setFlags n fun f => f ||| 0x80

theorem Represents.setHandler (h : t.Represents s T) (n : UInt8) (handler : Option H) :
    t.Represents (t.ISREntrySetHandler (t.GetISREntry n) handler s)
      (Idt.ISREntrySetHandler (some n) handler T) := by
  have hn := n.toNat_lt
  simp only [ISREntrySetHandler, GetISREntry_ne_zero, if_false, ISREntryGetIndex_entry,
    Idt.ISREntrySetHandler_some]
  rw [if_pos (by omega), Int.toNat_natCast]
  refine ⟨h.base, h.selector, h.flags, h.reserved, fun k => ?_⟩
  by_cases hk : k = n
  · simp only [hk, Function.update_self]
  · have hne : k.toNat ≠ n.toNat := fun heq => hk (UInt8.toNat_inj.mp heq)
    simp only [Function.update_of_ne hne, Function.update_of_ne hk]
    exact h.handlers k

theorem Represents.setISREntry (h : t.Represents s T) (n : UInt8) (selector : UInt16)
    (type : ISREntryType) (level : PrivilegeLevel) (present : Bool) (handler : Option H) :
    t.Represents (t.SetISREntry n selector type level present handler s)
      (Idt.SetISREntry n selector type.code level.code present handler T) := by
  simp only [SetISREntry, ne_eq, GetISREntry_ne_zero, not_false_eq_true, if_true]
  exact ((((h.setSelector n selector).setType n type).setPrivilegeLevel n level).setPresent n
    present).setHandler n handler

theorem Represents.handleISR (h : t.Represents s T) (n : UInt8) :
    t.HandleISR n s = (Idt.HandleISR n T).map fun handler => (handler, n) := by
  have hn := n.toNat_lt
  simp only [HandleISR, ISREntryGetHandler, GetISREntry_ne_zero, if_false, ISREntryGetIndex_entry,
    Idt.HandleISR_eq]
  rw [if_neg (by omega), Int.toNat_natCast, h.handlers]

end Gate

/-! ## The initialization -/

section Init

variable {t} {s : Machine H} {T : Tables H}

theorem mask_eq_mod (v n : Nat) : v &&& (2 ^ n - 1) = v % 2 ^ n := Nat.and_two_pow_sub_one_eq_mod v n

/-- The parts of the address of the stub make up the offset. -/
theorem offsetOf_initISR (n : UInt8) (s : Machine H) :
    t.offsetOf n (t.initISR n s) = t.stub n := by
  have hstub := t.stub_lt n
  have hlow : t.stub n &&& 0x0000FFFF = t.stub n % 2 ^ 16 := mask_eq_mod _ 16
  have hmiddle : t.stub n >>> 16 &&& 0x0000FFFF = t.stub n / 2 ^ 16 % 2 ^ 16 := by
    rw [Nat.shiftRight_eq_div_pow]
    exact mask_eq_mod _ 16
  have hhigh : t.stub n >>> 32 &&& 0xFFFFFFFF = t.stub n / 2 ^ 32 % 2 ^ 32 := by
    rw [Nat.shiftRight_eq_div_pow]
    exact mask_eq_mod _ 32
  simp only [offsetOf, initISR, hlow, hmiddle, hhigh]
  cases hlp : t.lp64 with
  | false =>
    simp only [hlp, Bool.false_eq_true, if_false] at hstub ⊢
    rw [Memory.load_store_of_disjoint _ _ (by omega), Memory.load_store, Memory.load_store]
    omega
  | true =>
    simp only [hlp, if_true] at hstub ⊢
    rw [Memory.load_store_of_disjoint _ _ (by omega), Memory.load_store_of_disjoint _ _ (by omega),
      Memory.load_store, Memory.load_store_of_disjoint _ _ (by omega), Memory.load_store,
      Memory.load_store]
    omega

/-- The base of one gate is written over its own bytes. -/
theorem initISR_frame (n : UInt8) (s : Machine H) {b : Nat}
    (hb : b < t.GetISREntry n ∨ t.GetISREntry n + 2 ≤ b ∧ b < t.GetISREntry n + 6 ∨
      t.GetISREntry n + 12 ≤ b ∨ t.GetISREntry n + t.size ≤ b) :
    (t.initISR n s).memory b = s.memory b := by
  have hsize : 8 ≤ t.size := eight_le_size
  simp only [initISR]
  cases hlp : t.lp64 with
  | false =>
    rw [if_neg Bool.false_ne_true, Memory.store_of_not_mem _ _ (by omega),
      Memory.store_of_not_mem _ _ (by omega)]
  | true =>
    have hsixteen := size_of_lp64 hlp
    rw [if_pos rfl, Memory.store_of_not_mem _ _ (by omega), Memory.store_of_not_mem _ _ (by omega),
      Memory.store_of_not_mem _ _ (by omega)]

theorem Represents.initISR (h : t.Represents s T) (n : UInt8) :
    t.Represents (t.initISR n s) (Idt.initISR n T) := by
  have hsize : 8 ≤ t.size := eight_le_size
  have hload : ∀ k d w, (k = n → 2 ≤ d ∧ d + w ≤ 6 ∨ 12 ≤ d) → d + w ≤ t.size →
      (t.initISR n s).memory.load (t.GetISREntry k + d) w
        = s.memory.load (t.GetISREntry k + d) w := by
    intro k d w hd hw
    refine Memory.load_congr fun i hi => initISR_frame n s ?_
    by_cases hk : k = n
    · have hin := hd hk
      subst hk
      omega
    · have hapart := t.apart hk
      omega
  refine ⟨fun k j hj => ?_, fun k => ?_, fun k => ?_, fun k => ?_, h.handlers⟩
  · by_cases hk : k = n
    · subst hk
      simp only [Idt.initISR, Idt.modifyEntry, Function.update_self, Option.some.injEq] at hj
      rw [offsetOf_initISR, hj]
    · simp only [Idt.initISR, Idt.modifyEntry, Function.update_of_ne hk] at hj
      have hlow : (t.initISR n s).memory.load (t.GetISREntry k) 2
          = s.memory.load (t.GetISREntry k) 2 := hload k 0 2 (fun heq => absurd heq hk) (by omega)
      rw [← h.base k j hj]
      simp only [offsetOf, hlow, hload k 6 2 (fun heq => absurd heq hk) (by omega)]
      cases hlp : t.lp64 with
      | false => rfl
      | true =>
        have hsixteen := size_of_lp64 hlp
        rw [hload k 8 4 (fun heq => absurd heq hk) (by omega)]
  · have hentry : ((Idt.initISR n T).entries k).selector = (T.entries k).selector := by
      by_cases hk : k = n
      · subst hk
        simp only [Idt.initISR, Idt.modifyEntry, Function.update_self]
      · simp only [Idt.initISR, Idt.modifyEntry, Function.update_of_ne hk]
    rw [hentry, ← h.selector k]
    exact hload k 2 2 (fun _ => .inl (by omega)) (by omega)
  · have hentry : ((Idt.initISR n T).entries k).flags = (T.entries k).flags := by
      by_cases hk : k = n
      · subst hk
        simp only [Idt.initISR, Idt.modifyEntry, Function.update_self]
      · simp only [Idt.initISR, Idt.modifyEntry, Function.update_of_ne hk]
    rw [hentry, ← h.flags k]
    refine initISR_frame n s ?_
    by_cases hk : k = n
    · subst hk
      omega
    · have hapart := t.apart hk
      omega
  · rw [← h.reserved k]
    simp only [reservedOf]
    rw [hload k 4 1 (fun _ => .inl (by omega)) (by omega)]
    cases hlp : t.lp64 with
    | false => rfl
    | true =>
      have hsixteen := size_of_lp64 hlp
      rw [hload k 12 4 (fun _ => .inr (by omega)) (by omega)]

/-- The cleared tables. -/
theorem represents_clear (s : Machine H) :
    t.Represents
      ⟨s.memory.fill t.base (t.size * 256) 0, fun i => if i < 256 then none else s.handlers i⟩
      ⟨fun _ => ⟨none, 0, 0⟩, fun _ => none⟩ := by
  have hsize : 8 ≤ t.size := eight_le_size
  have hbyte : ∀ n d, d < t.size →
      s.memory.fill t.base (t.size * 256) 0 (t.GetISREntry n + d) = 0 := by
    intro n d hd
    have hend := t.end_le n
    exact Memory.fill_of_mem _ _ ⟨by unfold GetISREntry; omega, by omega⟩
  have hload : ∀ n d w, d + w ≤ t.size →
      (s.memory.fill t.base (t.size * 256) 0).load (t.GetISREntry n + d) w = 0 := by
    intro n d w hd
    refine Memory.load_eq_zero _ fun i hi => ?_
    rw [Nat.add_assoc]
    exact hbyte n (d + i) (by omega)
  refine ⟨fun n k hk => (Option.some_ne_none _ hk.symm).elim, fun n => hload n 2 2 (by omega), fun n => hbyte n 5 (by omega),
    fun n => ?_, fun n => if_pos n.toNat_lt⟩
  simp only [reservedOf, hload n 4 1 (by omega)]
  cases hlp : t.lp64 with
  | false => rfl
  | true =>
    have hsixteen := size_of_lp64 hlp
    rw [if_pos rfl, hload n 12 4 (by omega)]

theorem represents_init (s : Machine H) (T : Tables H) :
    t.Represents (t.Init s) (Idt.Init T) := by
  simp only [Table.Init, Idt.Init]
  refine forLoop_rel 256 t.Represents ?_ fun k s T h => ?_
  · exact forLoop_rel 256 t.Represents (represents_clear s) fun k s T h => h.initISR _
  · exact ((((h.setSelector _ 0x08).setType _ .interrupt32).setPrivilegeLevel _ .ring3).setPresent _
      true).setHandler _ none

end Init

end Table

/-! ## What the processor sees after any calls -/

/-- The fields of a gate, with its handler. -/
structure Gate (H : Type) where
  selector : UInt16
  type : ISREntryType
  level : PrivilegeLevel
  present : Bool
  handler : Option H

/-- The fields that `Init` sets. -/
def Gate.initial : Gate H := ⟨0x08, .interrupt32, .ring3, true, none⟩

/-- The byte of the flags. -/
def flagsByte (type : ISREntryType) (level : PrivilegeLevel) (present : Bool) : UInt8 :=
  type.code ||| level.code <<< (5 : UInt8) ||| if present then 0x80 else 0

def Gate.flags (g : Gate H) : UInt8 := flagsByte g.type g.level g.present

/-- A call on the table.  The setters of one field get the gate from `GetISREntry`. -/
inductive Call (H : Type) where
  | setISREntry (isr : UInt8) (selector : UInt16) (type : ISREntryType) (level : PrivilegeLevel)
      (present : Bool) (handler : Option H)
  | setSelector (isr : UInt8) (selector : UInt16)
  | setType (isr : UInt8) (type : ISREntryType)
  | setPrivilegeLevel (isr : UInt8) (level : PrivilegeLevel)
  | setPresent (isr : UInt8) (present : Bool)
  | setHandler (isr : UInt8) (handler : Option H)

namespace Call

/-- The vector of the call. -/
def isr : Call H → UInt8
  | .setISREntry isr .. => isr
  | .setSelector isr _ => isr
  | .setType isr _ => isr
  | .setPrivilegeLevel isr _ => isr
  | .setPresent isr _ => isr
  | .setHandler isr _ => isr

def exec (t : Table) : Call H → Machine H → Machine H
  | .setISREntry isr selector type level present handler =>
    t.SetISREntry isr selector type level present handler
  | .setSelector isr selector => Table.ISREntrySetSelector (t.GetISREntry isr) selector
  | .setType isr type => Table.ISREntrySetType (t.GetISREntry isr) type
  | .setPrivilegeLevel isr level => Table.ISREntrySetPrivilegeLevel (t.GetISREntry isr) level
  | .setPresent isr present => Table.ISREntrySetPresent (t.GetISREntry isr) present
  | .setHandler isr handler => t.ISREntrySetHandler (t.GetISREntry isr) handler

/-- The call on the table of `Idt`. -/
def execTables : Call H → Tables H → Tables H
  | .setISREntry isr selector type level present handler =>
    SetISREntry isr selector type.code level.code present handler
  | .setSelector isr selector => ISREntrySetSelector (some isr) selector
  | .setType isr type => ISREntrySetType (some isr) type.code
  | .setPrivilegeLevel isr level => ISREntrySetPrivilegeLevel (some isr) level.code
  | .setPresent isr present => ISREntrySetPresent (some isr) present
  | .setHandler isr handler => ISREntrySetHandler (some isr) handler

/-- The fields that the call sets. -/
def set : Call H → Gate H → Gate H
  | .setISREntry _ selector type level present handler, _ =>
    ⟨selector, type, level, present, handler⟩
  | .setSelector _ selector, g => { g with selector := selector }
  | .setType _ type, g => { g with type := type }
  | .setPrivilegeLevel _ level, g => { g with level := level }
  | .setPresent _ present, g => { g with present := present }
  | .setHandler _ handler, g => { g with handler := handler }

end Call

/-- The calls in their order. -/
def run (t : Table) (calls : List (Call H)) (s : Machine H) : Machine H :=
  calls.foldl (fun s call => call.exec t s) s

/-- What was last set for the vector `n`, since `Init`. -/
def lastSet (calls : List (Call H)) (n : UInt8) : Gate H :=
  calls.foldl (fun g call => if call.isr = n then call.set g else g) Gate.initial

/-- Every gate leads to its own stub and has the fields of `gates`. -/
structure Tables.Holds (T : Tables H) (gates : UInt8 → Gate H) : Prop where
  entry : ∀ n, T.entries n = ⟨some n, (gates n).selector, (gates n).flags⟩
  handler : ∀ n, T.handlers n = (gates n).handler

section Holds

variable {T : Tables H} {gates : UInt8 → Gate H}

theorem flagsByte_setType (old type : ISREntryType) (level : PrivilegeLevel) (present : Bool) :
    (flagsByte old level present &&& 0xF0) ||| (type.code &&& 0x0F)
      = flagsByte type level present := by
  cases old <;> cases level <;> cases present <;> cases type <;> decide

theorem flagsByte_setPrivilegeLevel (type : ISREntryType) (old level : PrivilegeLevel)
    (present : Bool) :
    (flagsByte type old present &&& 0x9F) ||| ((level.code <<< (5 : UInt8)) &&& 0x60)
      = flagsByte type level present := by
  cases type <;> cases old <;> cases present <;> cases level <;> decide

theorem flagsByte_setPresent (type : ISREntryType) (level : PrivilegeLevel) (old present : Bool) :
    (if present then flagsByte type level old ||| 0x80 else flagsByte type level old &&& 0x7F)
      = flagsByte type level present := by
  cases type <;> cases level <;> cases old <;> cases present <;> decide

theorem Tables.Holds.modifyEntry (h : T.Holds gates) {n : UInt8} {f : ISREntry → ISREntry}
    {g : Gate H} (hg : f ⟨some n, (gates n).selector, (gates n).flags⟩ = ⟨some n, g.selector, g.flags⟩)
    (hhandler : g.handler = (gates n).handler) :
    (Idt.modifyEntry f (some n) T).Holds (Function.update gates n g) := by
  refine ⟨fun k => ?_, fun k => ?_⟩
  · by_cases hk : k = n
    · subst hk
      simp only [Idt.modifyEntry, Function.update_self, h.entry, hg]
    · simp only [Idt.modifyEntry, Function.update_of_ne hk, h.entry]
  · by_cases hk : k = n
    · subst hk
      simp only [Idt.modifyEntry, Function.update_self, h.handler, hhandler]
    · simp only [Idt.modifyEntry, Function.update_of_ne hk, h.handler]

theorem Tables.Holds.setSelector (h : T.Holds gates) (n : UInt8) (selector : UInt16) :
    (ISREntrySetSelector (some n) selector T).Holds
      (Function.update gates n { gates n with selector := selector }) :=
  h.modifyEntry rfl rfl

theorem Tables.Holds.setType (h : T.Holds gates) (n : UInt8) (type : ISREntryType) :
    (ISREntrySetType (some n) type.code T).Holds
      (Function.update gates n { gates n with type := type }) :=
  h.modifyEntry (congrArg (ISREntry.mk _ _) (flagsByte_setType _ _ _ _)) rfl

theorem Tables.Holds.setPrivilegeLevel (h : T.Holds gates) (n : UInt8) (level : PrivilegeLevel) :
    (ISREntrySetPrivilegeLevel (some n) level.code T).Holds
      (Function.update gates n { gates n with level := level }) :=
  h.modifyEntry (congrArg (ISREntry.mk _ _) (flagsByte_setPrivilegeLevel _ _ _ _)) rfl

theorem Tables.Holds.setPresent (h : T.Holds gates) (n : UInt8) (present : Bool) :
    (ISREntrySetPresent (some n) present T).Holds
      (Function.update gates n { gates n with present := present }) :=
  h.modifyEntry (congrArg (ISREntry.mk _ _) (flagsByte_setPresent _ _ _ _)) rfl

theorem Tables.Holds.setHandler (h : T.Holds gates) (n : UInt8) (handler : Option H) :
    (ISREntrySetHandler (some n) handler T).Holds
      (Function.update gates n { gates n with handler := handler }) := by
  rw [ISREntrySetHandler_some]
  refine ⟨fun k => ?_, fun k => ?_⟩
  · by_cases hk : k = n
    · subst hk
      simp only [Function.update_self, h.entry, Gate.flags]
    · simp only [Function.update_of_ne hk, h.entry]
  · by_cases hk : k = n
    · subst hk
      simp only [Function.update_self]
    · simp only [Function.update_of_ne hk, h.handler]

/-- One call sets the fields of its own vector. -/
theorem Tables.Holds.exec (h : T.Holds gates) (call : Call H) :
    (call.execTables T).Holds (Function.update gates call.isr (call.set (gates call.isr))) := by
  cases call with
  | setISREntry isr selector type level present handler =>
    have hall := ((((h.setSelector isr selector).setType isr type).setPrivilegeLevel isr
      level).setPresent isr present).setHandler isr handler
    simp only [Function.update_idem, Function.update_self] at hall
    exact hall
  | setSelector isr selector => exact h.setSelector isr selector
  | setType isr type => exact h.setType isr type
  | setPrivilegeLevel isr level => exact h.setPrivilegeLevel isr level
  | setPresent isr present => exact h.setPresent isr present
  | setHandler isr handler => exact h.setHandler isr handler

theorem lt_succ_ofNat {k : Nat} {n : UInt8} (h : n = UInt8.ofNat k) : n.toNat < k + 1 := by
  rw [h, UInt8.toNat_ofNat']
  exact Nat.lt_succ_of_le (Nat.mod_le _ _)

/-- A round of a loop over the vectors adds its own vector to the earlier ones. -/
theorem update_ofNat {α : Type} (a b : UInt8 → α) (k : Nat) :
    Function.update (fun n : UInt8 => if n.toNat < k then a n else b n) (UInt8.ofNat k)
        (a (UInt8.ofNat k))
      = fun n => if n.toNat < k + 1 then a n else b n := by
  funext n
  by_cases hk : n = UInt8.ofNat k
  · rw [if_pos (lt_succ_ofNat hk), hk, Function.update_self]
  · rw [Function.update_of_ne hk]
    by_cases hlt : n.toNat < k
    · rw [if_pos hlt, if_pos (by omega)]
    · rw [if_neg hlt, if_neg fun hn => hlt ((eq_ofNat_of_lt_succ hn).resolve_left hk)]

/-- The gates after the first loop of `Init`. -/
theorem holds_initISR :
    (forLoop (fun i => initISR (UInt8.ofNat i)) 256
      (⟨fun _ => ⟨none, 0, 0⟩, fun _ => none⟩ : Tables H)).Holds
      fun _ => ⟨0, .unknown, .ring0, false, none⟩ := by
  have hloop := forLoop_inv (fun i => initISR (UInt8.ofNat i)) 256
    (⟨fun _ => ⟨none, 0, 0⟩, fun _ => none⟩ : Tables H)
    (fun k (u : Tables H) => u.handlers = (fun _ => none) ∧
      u.entries = fun n => if n.toNat < k then ⟨some n, 0, 0⟩ else ⟨none, 0, 0⟩)
    ⟨rfl, by simp only [Nat.not_lt_zero, if_false]⟩
    (fun k u _ hu => by
      refine ⟨(modifyEntry_handlers _ _ _).trans hu.1, ?_⟩
      have hvalue : { u.entries (UInt8.ofNat k) with base := some (UInt8.ofNat k) }
          = (⟨some (UInt8.ofNat k), 0, 0⟩ : ISREntry) := by
        simp only [hu.2]
        split <;> rfl
      calc (initISR (UInt8.ofNat k) u).entries
          = Function.update u.entries (UInt8.ofNat k) ⟨some (UInt8.ofNat k), 0, 0⟩ :=
            congrArg (Function.update u.entries (UInt8.ofNat k)) hvalue
        _ = _ := by
            rw [hu.2]
            exact update_ofNat (fun n => (⟨some n, 0, 0⟩ : ISREntry)) (fun _ => ⟨none, 0, 0⟩) k)
  refine ⟨fun n => ?_, fun n => congrFun hloop.1 n⟩
  have hflags : flagsByte .unknown .ring0 false = 0 := by decide
  rw [hloop.2, Gate.flags, hflags]
  exact if_pos n.toNat_lt

/-- The gates after `Init`. -/
theorem holds_init (T : Tables H) : (Idt.Init T).Holds fun _ => Gate.initial := by
  rw [Init_eq]
  have hloop := forLoop_inv
    (fun i => SetISREntry (UInt8.ofNat i) 0x08 0x0E 3 true (none : Option H)) 256
    (forLoop (fun i => initISR (UInt8.ofNat i)) 256 ⟨fun _ => ⟨none, 0, 0⟩, fun _ => none⟩)
    (fun k (u : Tables H) => u.Holds fun n =>
      if n.toNat < k then Gate.initial else ⟨0, .unknown, .ring0, false, none⟩)
    (by simpa only [Nat.not_lt_zero, if_false] using holds_initISR)
    (fun k u _ hu => by
      have hround := hu.exec (.setISREntry (UInt8.ofNat k) 0x08 .interrupt32 .ring3 true none)
      rw [← update_ofNat (fun _ => Gate.initial)]
      exact hround)
  have hgates : (fun n : UInt8 => if n.toNat < 256 then Gate.initial
      else (⟨0, .unknown, .ring0, false, none⟩ : Gate H)) = fun _ => Gate.initial :=
    funext fun n => if_pos n.toNat_lt
  rw [hgates] at hloop
  exact hloop

end Holds

/-- One call keeps the bytes in step with the table. -/
theorem Table.Represents.exec {t : Table} {s : Machine H} {T : Tables H} (h : t.Represents s T)
    (call : Call H) : t.Represents (call.exec t s) (call.execTables T) := by
  cases call with
  | setISREntry isr selector type level present handler =>
    exact h.setISREntry isr selector type level present handler
  | setSelector isr selector => exact h.setSelector isr selector
  | setType isr type => exact h.setType isr type
  | setPrivilegeLevel isr level => exact h.setPrivilegeLevel isr level
  | setPresent isr present => exact h.setPresent isr present
  | setHandler isr handler => exact h.setHandler isr handler

/-- The gate of the vector `n` has the fields of `g`, and the address and the reserved bytes that
`Init` gave it. -/
structure Table.Shows (t : Table) (s : Machine H) (n : UInt8) (g : Gate H) : Prop where
  type : t.flagsOf n s &&& 0x0F = g.type.code
  level : (t.flagsOf n s >>> 5) &&& 3 = g.level.code
  present : t.flagsOf n s &&& 0x80 ≠ 0 ↔ g.present = true
  storageSegment : t.flagsOf n s &&& 0x10 = 0
  selector : t.selectorOf n s = g.selector.toNat
  offset : t.offsetOf n s = t.stub n
  reserved : t.reservedOf n s = (0, 0)
  handler : t.HandleISR n s = g.handler.map fun handler => (handler, n)

/-- The flags are read back from their byte. -/
theorem flagsByte_fields (type : ISREntryType) (level : PrivilegeLevel) (present : Bool) :
    flagsByte type level present &&& 0x0F = type.code ∧
      (flagsByte type level present >>> 5) &&& 3 = level.code ∧
      (flagsByte type level present &&& 0x80 ≠ 0 ↔ present = true) ∧
      flagsByte type level present &&& 0x10 = 0 := by
  cases type <;> cases level <;> cases present <;> decide

theorem Table.Represents.shows {t : Table} {s : Machine H} {T : Tables H} {gates : UInt8 → Gate H}
    (h : t.Represents s T) (hT : T.Holds gates) (n : UInt8) : t.Shows s n (gates n) := by
  have hflags : t.flagsOf n s = flagsByte (gates n).type (gates n).level (gates n).present := by
    rw [h.flags, hT.entry]
    rfl
  have hfields := flagsByte_fields (gates n).type (gates n).level (gates n).present
  rw [← hflags] at hfields
  refine ⟨hfields.1, hfields.2.1, hfields.2.2.1, hfields.2.2.2, ?_, ?_, h.reserved n, ?_⟩
  · rw [h.selector, hT.entry]
  · exact h.base n n (by rw [hT.entry])
  · rw [h.handleISR, HandleISR_eq, hT.handler]

/-- The calls of a run set the fields that were last set, for every vector. -/
theorem run_holds (t : Table) (calls : List (Call H)) {s : Machine H} {T : Tables H}
    {gates : UInt8 → Gate H} (h : t.Represents s T) (hT : T.Holds gates) :
    ∃ T' : Tables H, t.Represents (run t calls s) T' ∧ T'.Holds fun n =>
      calls.foldl (fun g call => if call.isr = n then call.set g else g) (gates n) := by
  induction calls generalizing s T gates with
  | nil => exact ⟨T, h, hT⟩
  | cons call calls ih =>
    have hrest := ih (h.exec call) (hT.exec call)
    have hgates : ∀ n, Function.update gates call.isr (call.set (gates call.isr)) n
        = if call.isr = n then call.set (gates n) else gates n := by
      intro n
      by_cases hn : call.isr = n
      · rw [if_pos hn, ← hn, Function.update_self]
      · rw [if_neg hn, Function.update_of_ne (Ne.symm hn)]
    simp only [hgates] at hrest
    exact hrest

/-! ## The other vectors -/

/-- The bytes and the handler of the vector `n` are the same. -/
structure Table.SameGate (t : Table) (n : UInt8) (s s' : Machine H) : Prop where
  bytes : ∀ d, d < t.size → s'.memory (t.GetISREntry n + d) = s.memory (t.GetISREntry n + d)
  handler : s'.handlers n.toNat = s.handlers n.toNat

theorem Table.SameGate.trans {t : Table} {n : UInt8} {s s' s'' : Machine H}
    (h : t.SameGate n s s') (h' : t.SameGate n s' s'') : t.SameGate n s s'' :=
  ⟨fun d hd => (h'.bytes d hd).trans (h.bytes d hd), h'.handler.trans h.handler⟩

section Other

variable {t : Table} {n k : UInt8}

/-- The setters of a field of the gate `k` write between its first two bytes and its seventh. -/
theorem sameGate_of_frame (hk : n ≠ k) {s : Machine H} {m : Memory}
    (hframe : ∀ b, b < t.GetISREntry k + 2 ∨ t.GetISREntry k + 6 ≤ b → m b = s.memory b) :
    t.SameGate n s { s with memory := m } := by
  have hsize : 8 ≤ t.size := Table.eight_le_size
  have hapart := t.apart hk
  exact ⟨fun d hd => hframe _ (by omega), rfl⟩

theorem setSelector_sameGate (hk : n ≠ k) (selector : UInt16) (s : Machine H) :
    t.SameGate n s (Table.ISREntrySetSelector (t.GetISREntry k) selector s) := by
  rw [Table.ISREntrySetSelector, if_neg (Table.GetISREntry_ne_zero k)]
  exact sameGate_of_frame hk fun b hb => Memory.store_of_not_mem _ _ (by omega)

theorem setType_sameGate (hk : n ≠ k) (type : ISREntryType) (s : Machine H) :
    t.SameGate n s (Table.ISREntrySetType (t.GetISREntry k) type s) := by
  simp only [Table.ISREntrySetType, Table.GetISREntry_ne_zero, if_false, Table.orFlags_andFlags]
  exact sameGate_of_frame hk fun b hb => Memory.set_of_ne _ _ (by omega)

theorem setPrivilegeLevel_sameGate (hk : n ≠ k) (level : PrivilegeLevel) (s : Machine H) :
    t.SameGate n s (Table.ISREntrySetPrivilegeLevel (t.GetISREntry k) level s) := by
  simp only [Table.ISREntrySetPrivilegeLevel, Table.GetISREntry_ne_zero, if_false,
    Table.orFlags_andFlags]
  exact sameGate_of_frame hk fun b hb => Memory.set_of_ne _ _ (by omega)

theorem setPresent_sameGate (hk : n ≠ k) (present : Bool) (s : Machine H) :
    t.SameGate n s (Table.ISREntrySetPresent (t.GetISREntry k) present s) := by
  simp only [Table.ISREntrySetPresent, Table.GetISREntry_ne_zero, if_false]
  cases present with
  | false => exact sameGate_of_frame hk fun b hb => Memory.set_of_ne _ _ (by omega)
  | true => exact sameGate_of_frame hk fun b hb => Memory.set_of_ne _ _ (by omega)

theorem setHandler_sameGate (hk : n ≠ k) (handler : Option H) (s : Machine H) :
    t.SameGate n s (t.ISREntrySetHandler (t.GetISREntry k) handler s) := by
  have hlt := k.toNat_lt
  have hne : n.toNat ≠ k.toNat := fun heq => hk (UInt8.toNat_inj.mp heq)
  simp only [Table.ISREntrySetHandler, Table.GetISREntry_ne_zero, if_false,
    Table.ISREntryGetIndex_entry]
  rw [if_pos (by omega), Int.toNat_natCast]
  exact ⟨fun d _ => rfl, Function.update_of_ne hne _ _⟩

theorem setISREntry_sameGate (hk : n ≠ k) (selector : UInt16) (type : ISREntryType)
    (level : PrivilegeLevel) (present : Bool) (handler : Option H) (s : Machine H) :
    t.SameGate n s (t.SetISREntry k selector type level present handler s) := by
  simp only [Table.SetISREntry, ne_eq, Table.GetISREntry_ne_zero, not_false_eq_true, if_true]
  exact ((((setSelector_sameGate hk selector s).trans (setType_sameGate hk type _)).trans
    (setPrivilegeLevel_sameGate hk level _)).trans (setPresent_sameGate hk present _)).trans
    (setHandler_sameGate hk handler _)

theorem Call.exec_sameGate (call : Call H) (s : Machine H) (hn : n ≠ call.isr) :
    t.SameGate n s (call.exec t s) := by
  cases call with
  | setISREntry isr selector type level present handler =>
    exact setISREntry_sameGate hn selector type level present handler s
  | setSelector isr selector => exact setSelector_sameGate hn selector s
  | setType isr type => exact setType_sameGate hn type s
  | setPrivilegeLevel isr level => exact setPrivilegeLevel_sameGate hn level s
  | setPresent isr present => exact setPresent_sameGate hn present s
  | setHandler isr handler => exact setHandler_sameGate hn handler s

end Other

/-- After `Init` and any calls, every gate holds what was last set for its vector, and the next call
leaves the other vectors alone.  The index of every gate is its vector. -/
theorem run_shows_lastSet (t : Table) (s₀ : Machine H) (calls : List (Call H)) :
    (∀ n, t.Shows (run t calls (t.Init s₀)) n (lastSet calls n)) ∧
      (∀ (call : Call H) (n : UInt8), call.isr = n ∨
        t.SameGate n (run t calls (t.Init s₀)) (call.exec t (run t calls (t.Init s₀)))) ∧
      ∀ n, t.ISREntryGetIndex (t.GetISREntry n) = n.toNat := by
  refine ⟨fun n => ?_, fun call n => ?_, Table.ISREntryGetIndex_entry⟩
  · have hinit := Table.represents_init (t := t) s₀ (Tables.mk (fun _ => ⟨none, 0, 0⟩) fun _ => none)
    have hrun := run_holds t calls hinit (holds_init _)
    rcases hrun with ⟨T', hrepresents, hholds⟩
    exact hrepresents.shows hholds n
  · by_cases hn : call.isr = n
    · exact .inl hn
    · exact .inr (call.exec_sameGate _ (Ne.symm hn))

end Xeos.Hal.Idt
