import Xeos.Lib.Bits
import Xeos.System.AtomicAddOrder

/-!
# Atomic operations on bits

`System_Atomic_TestAndSet` and `System_Atomic_TestAndClear`.  The bits are numbered from the
top of each byte, so the address in bits of the one that a call is about is
`8 * p + (n ^ 7)`, and the instruction takes the aligned word that holds it.

On x86-64 the address in bits has 64 bits, so that the top three bits of the pointer are
lost.  On i386 they are kept in `ECX`, above what the caller left there.
-/

namespace Xeos.System.Atomic

open Lib Lib.Smp Lib.Interleave

/-- A call: `TestAndSet`, or `TestAndClear`, of the bit `n`. -/
structure BitTest where
  set : Bool
  n : BitVec 32

namespace BitTest

def routine (call : BitTest) : Routine := if call.set then .TestAndSet else .TestAndClear

/-- The states in which the routines start.  The registers hold numbers. -/
def Enter (arch : Arch) (p : Nat) (call : BitTest) (l : Cpu Routine) : Prop :=
  match arch with
  | .x86_64 => ∃ c z d, d % 2 ^ 32 = call.n.toNat ∧
    l = arch.call call.routine (.word d) (.word p) z c
  | .i386 => ∃ c z v, c.regs.cx = .word v ∧
    l = arch.call call.routine (.word call.n.toNat) (.word p) z c

/-- Whether a routine returned `true`, in `AL`. -/
def result (c : Cpu Routine) : Option Bool := some (Program.low 8 c.regs.ax != some 0)

def machine (arch : Arch) (p : Nat) : Machine (Cpu Routine) Memory BitTest Bool :=
  arch.program.machine (Enter arch p) result

/-- Set or clear the bit `k` of the byte at `a`, and return what it was. -/
def effectAt (call : BitTest) (a k : Nat) (m : Memory) : Memory × Bool :=
  (m.setBit a k call.set, m.bit a k)

/-- What a call should do. -/
def effect (call : BitTest) (p : Nat) : Memory → Memory × Bool :=
  call.effectAt (p + call.n.toNat / 8) (7 - call.n.toNat % 8)

end BitTest

/-- An address in bits, rounded down to a word of four bytes, and the bit in the word. -/
theorem aligned_bit (b : Nat) :
    b / 32 * 4 + b % 32 / 8 = b / 8 ∧ b % 32 % 8 = b % 8 := by omega

/-- The bit of the numbered bit. -/
theorem xor_seven (n : Nat) : n ^^^ 7 = n / 8 * 8 + (7 - n % 8) := xor_low_mask n 3

/-- A call may change the byte of its bit. -/
theorem exists_effectAt_ne (call : BitTest) (a : Nat) {k : Nat} (hk : k < 8) :
    ∃ m, (call.effectAt a k m).1 a ≠ m a := by
  have hset : ∀ k < 8, (0 : UInt8) ||| UInt8.ofNat (2 ^ k) ≠ 0 := by decide
  have hclear : ∀ k < 8, (0xFF : UInt8) &&& UInt8.ofNat (2 ^ 8 - (2 ^ k + 1)) ≠ 0xFF := by decide
  refine ⟨fun _ => if call.set then 0 else 0xFF, ?_⟩
  unfold BitTest.effectAt Memory.setBit
  simp only [Memory.set_same]
  cases call.set with
  | true => exact hset k hk
  | false => exact hclear k hk

/-- Calls with the same effect are about the same byte. -/
theorem effectAt_injective {call : BitTest} {a a' k : Nat} (hk : k < 8)
    (h : call.effectAt a k = call.effectAt a' k) : a = a' := by
  obtain ⟨m, hm⟩ := exists_effectAt_ne call a hk
  by_contra hne
  rw [h] at hm
  exact hm (Memory.set_of_ne m _ hne)

/-! ## x86-64 -/

namespace X86_64

/-- A state of the routines. -/
def inBit (call : BitTest) (k : Nat) (r : Regs Routine) (s : Int → Val Routine) (zf cf : Bool) :
    Cpu Routine :=
  ⟨some (call.routine, k), { r with sp := .slot 0 }, withCells s [(0, .loc none)], zf, cf⟩

section

variable {p d : Nat} {call : BitTest} {r : Regs Routine} {s : Int → Val Routine} {zf cf : Bool}
variable {l : Cpu Routine} {m : Memory}

/-- Up to the test of the pointer. -/
theorem silent_test_bit : X86_64.program.silent 2
      (inBit call 0 { r with si := .word p, di := .word d } s zf cf)
    = some (inBit call 2 { r with ax := .word 0, si := .word p, di := .word d } s
      (p % 2 ^ 64 == 0) (decide (p % 2 ^ 64 < 0))) := by
  obtain ⟨set, n⟩ := call
  cases set <;> rfl

/-- What the shift and the addition leave in `RSI`. -/
theorem shifted_address (p e : Nat) :
    ((p % 2 ^ 64 * 2 ^ 3 % 2 ^ 64 + 0 % 2 ^ 64 / 2 ^ (64 - 3)) % 2 ^ 64 + e % 2 ^ 64) % 2 ^ 64
      % 2 ^ 64 = (8 * p + e) % 2 ^ 64 := by
  omega

/-- From there to the locked instruction. -/
theorem silent_address : ∃ x y zf' cf', X86_64.program.silent 8
      (inBit call 2 { r with ax := .word 0, si := .word p, di := .word d } s false cf)
    = some (inBit call 10 { r with ax := .word 0, si := .word y, di := .word x } s zf' cf') ∧
      x = (8 * p + (d % 2 ^ 32 ^^^ 7)) % 2 ^ 64 % 32 ∧
      y = (8 * p + (d % 2 ^ 32 ^^^ 7)) % 2 ^ 64 / 32 * 4 := by
  have hx : ∀ b, b &&& 31 % 2 ^ 64 % 2 ^ 64 = b % 32 :=
    fun b => Nat.and_two_pow_sub_one_eq_mod b 5
  have hy : ∀ b < 2 ^ 64, (b ^^^ b % 32 % 2 ^ 64) % 2 ^ 64 / 2 ^ 3
      + 0 % 2 ^ 64 % 2 ^ 3 * 2 ^ (64 - 3) = b / 32 * 4 := by
    intro b hb
    rw [show b % 32 % 2 ^ 64 = b % 2 ^ 5 by omega, xor_mod_two_pow]
    omega
  have hlt : (8 * p + (d % 2 ^ 32 ^^^ 7)) % 2 ^ 64 < 2 ^ 64 := Nat.mod_lt _ (by decide)
  obtain ⟨set, n⟩ := call
  cases set with
  | false =>
    refine ⟨_, _, _, _, rfl, ?_, ?_⟩
    · exact (hx _).trans (congrArg (· % 32) (shifted_address p _))
    · rw [shifted_address p, hx]
      exact hy _ hlt
  | true =>
    refine ⟨_, _, _, _, rfl, ?_, ?_⟩
    · exact (hx _).trans (congrArg (· % 32) (shifted_address p _))
    · rw [shifted_address p, hx]
      exact hy _ hlt

/-- The locked instruction. -/
theorem step_bit {x y : Nat} (hx : x < 32) (hy : y < 2 ^ 64) :
    X86_64.program.step
      (inBit call 10 { r with ax := .word 0, si := .word y, di := .word x } s zf cf) m
    = some (inBit call 11 { r with ax := .word 0, si := .word y, di := .word x } s zf
        (m.bit (y + x / 8) (x % 8)), m.setBit (y + x / 8) (x % 8) call.set) := by
  have hstep : X86_64.program.step
        (inBit call 10 { r with ax := .word 0, si := .word y, di := .word x } s zf cf) m
      = X86_64.program.execLocked
        (inBit call 11 { r with ax := .word 0, si := .word y, di := .word x } s zf cf) m
        (.bitTest call.set 32 (.mem .si 0) .di) := by
    obtain ⟨set, n⟩ := call
    cases set <;> rfl
  have hbase : X86_64.program.address (inBit call 11
      { r with ax := .word 0, si := .word y, di := .word x } s zf cf) .si 0 = some y :=
    congrArg some (Nat.mod_eq_of_lt hy)
  have hsrc : Program.low 32 ((inBit call 11
      { r with ax := .word 0, si := .word y, di := .word x } s zf cf).regs.get .di) = some x :=
    congrArg some (Nat.mod_eq_of_lt (by omega))
  rw [hstep, Program.execLocked_bitTest _ call.set hbase hsrc hx]
  rfl

/-- The carry is the result. -/
theorem returning_of_bit :
    Machine.Returning (BitTest.machine .x86_64 p) cf (inBit call 11 { r with ax := .word 0 } s zf cf)
    := by
  have hback : ∃ l', X86_64.program.silent 3 (inBit call 11 { r with ax := .word 0 } s zf cf)
      = some l' ∧ l'.pc = none ∧ BitTest.result l' = some cf := by
    obtain ⟨set, n⟩ := call
    cases set <;> cases cf <;> exact ⟨_, rfl, rfl, rfl⟩
  obtain ⟨l', hback, hpc, hresult⟩ := hback
  exact Program.reaches_of_silent rfl hback (.here ((Program.result_machine hpc).trans hresult))

/-- A call with a pointer takes effect at the address without its top three bits. -/
theorem acts_bit (hp : p % 2 ^ 64 ≠ 0) (hd : d % 2 ^ 32 = call.n.toNat) :
    Machine.Acts (BitTest.machine .x86_64 p)
      (call.effectAt ((p + call.n.toNat / 8) % 2 ^ 61) (7 - call.n.toNat % 8))
      (inBit call 0 { r with si := .word p, di := .word d } s zf cf) := by
  have hzf : (p % 2 ^ 64 == 0) = false := beq_eq_false_iff_ne.mpr hp
  have htest := @silent_test_bit p d call r s zf cf
  rw [hzf] at htest
  obtain ⟨x, y, zf', cf', haddress, hx, hy⟩ := @silent_address p d call r s
    (decide (p % 2 ^ 64 < 0))
  rw [hd, xor_seven] at hx hy
  refine Program.reaches_of_silent rfl htest (Program.reaches_of_silent rfl haddress (.here ?_))
  intro m
  have hbyte : y + x / 8 = (p + call.n.toNat / 8) % 2 ^ 61 := by omega
  have hbit : x % 8 = 7 - call.n.toNat % 8 := by omega
  have hstep := @step_bit call { r with di := .word x } s zf' cf' m x y (by omega) (by omega)
  rw [hbyte, hbit] at hstep
  exact ⟨_, hstep, returning_of_bit (r := { r with si := .word y, di := .word x })⟩

/-- A call with a null pointer does nothing. -/
theorem reaches_end_bit (hp : p % 2 ^ 64 = 0) :
    Machine.Reaches (BitTest.machine .x86_64 p)
      (fun l => ∀ m, (BitTest.machine .x86_64 p).step l m = none)
      (inBit call 0 { r with si := .word p, di := .word d } s zf cf) := by
  have hzf : (p % 2 ^ 64 == 0) = true := beq_iff_eq.mpr hp
  have htest := @silent_test_bit p d call r s zf cf
  rw [hzf] at htest
  have hback : ∃ l', X86_64.program.silent 2 (inBit call 2
        { r with ax := .word 0, si := .word p, di := .word d } s true (decide (p % 2 ^ 64 < 0)))
      = some l' ∧ l'.pc = none := by
    obtain ⟨set, n⟩ := call
    cases set <;> exact ⟨_, rfl, rfl⟩
  obtain ⟨l', hback, hpc⟩ := hback
  refine Program.reaches_of_silent rfl htest (Program.reaches_of_silent rfl hback (.here ?_))
  intro m
  exact Program.step_of_pc_none _ hpc m

end

end X86_64

/-! ## i386 -/

namespace I386

/-- A state of the routines. -/
def inBit (call : BitTest) (p k : Nat) (r : Regs Routine) (s : Int → Val Routine) (zf cf : Bool) :
    Cpu Routine :=
  ⟨some (call.routine, k), { r with sp := .slot 0 },
    withCells s [(0, .loc none), (4, .word call.n.toNat), (8, .word p)], zf, cf⟩

section

variable {p v : Nat} {call : BitTest} {r : Regs Routine} {s : Int → Val Routine} {zf cf : Bool}
variable {l : Cpu Routine} {m : Memory}

/-- Up to the test of the pointer. -/
theorem silent_test_bit : I386.program.silent 2 (inBit call p 0 r s zf cf)
    = some (inBit call p 2 { r with dx := .word p } s (p % 2 ^ 32 == 0)
      (decide (p % 2 ^ 32 < 0))) := by
  obtain ⟨set, n⟩ := call
  cases set <;> rfl

/-- The sum of the address in bits and the number, with its carry.  `ECX` has the top bits
of the pointer below what the caller left there. -/
theorem silent_bit_sum : ∃ d w zf' cf', I386.program.silent 6
      (inBit call p 2 { r with cx := .word v, dx := .word p } s false cf)
    = some (inBit call p 8 { r with
        ax := .word (call.n.toNat % 2 ^ 32 ^^^ 7)
        cx := .word w
        dx := .word d } s zf' cf') ∧
      d = (8 * p + (call.n.toNat % 2 ^ 32 ^^^ 7)) % 2 ^ 32 ∧ w % 8 = p % 2 ^ 32 / 2 ^ 29 ∧
      (cf'.toNat = 1 ↔ 2 ^ 32 ≤ 8 * p % 2 ^ 32 + (call.n.toNat % 2 ^ 32 ^^^ 7)) := by
  have hd : ∀ e, ((p % 2 ^ 32 * 2 ^ 3 % 2 ^ 32 + 0 % 2 ^ 32 / 2 ^ (32 - 3)) % 2 ^ 32
      + e % 2 ^ 32) % 2 ^ 32 = (8 * p + e) % 2 ^ 32 := by
    intro e
    omega
  have hw : ((v % 2 ^ 32 * 2 ^ 3 % 2 ^ 32 + p % 2 ^ 32 / 2 ^ (32 - 3)) % 8)
      = p % 2 ^ 32 / 2 ^ 29 := by
    omega
  have hcarry : ∀ e < 2 ^ 32, (decide (2 ^ 32 ≤ (p % 2 ^ 32 * 2 ^ 3 % 2 ^ 32
      + 0 % 2 ^ 32 / 2 ^ (32 - 3)) % 2 ^ 32 + e % 2 ^ 32)).toNat = 1
      ↔ 2 ^ 32 ≤ 8 * p % 2 ^ 32 + e := by
    intro e he
    rw [Bool.toNat_eq_one, decide_eq_true_iff]
    omega
  have hlt : call.n.toNat % 2 ^ 32 ^^^ 7 < 2 ^ 32 :=
    Nat.xor_lt_two_pow (Nat.mod_lt _ (by decide)) (by decide)
  obtain ⟨set, n⟩ := call
  cases set with
  | false => exact ⟨_, _, _, _, rfl, hd _, hw, hcarry _ hlt⟩
  | true => exact ⟨_, _, _, _, rfl, hd _, hw, hcarry _ hlt⟩

/-- From there to the locked instruction. -/
theorem silent_bit_word {d w e : Nat} : ∃ x y w' zf' cf', I386.program.silent 5
      (inBit call p 8 { r with ax := .word e, cx := .word w, dx := .word d } s zf cf)
    = some (inBit call p 13 { r with ax := .word x, cx := .word w', dx := .word y } s zf' cf') ∧
      x = d % 2 ^ 32 % 32 ∧
      y = d % 2 ^ 32 / 32 * 4 + (w + cf.toNat) % 8 * 2 ^ 29 := by
  have hx : ∀ b, b &&& 31 % 2 ^ 32 % 2 ^ 32 = b % 32 :=
    fun b => Nat.and_two_pow_sub_one_eq_mod b 5
  have hy : ∀ b < 2 ^ 32, (b ^^^ (b &&& 31 % 2 ^ 32 % 2 ^ 32) % 2 ^ 32) % 2 ^ 32 / 2 ^ 3
      + (w % 2 ^ 32 + 0 % 2 ^ 32 % 2 ^ 32 + cf.toNat) % 2 ^ 32 % 2 ^ 32 % 2 ^ 3 * 2 ^ (32 - 3)
      = b / 32 * 4 + (w + cf.toNat) % 8 * 2 ^ 29 := by
    intro b hb
    rw [hx, show b % 32 % 2 ^ 32 = b % 2 ^ 5 by omega, xor_mod_two_pow]
    omega
  have hlt : d % 2 ^ 32 < 2 ^ 32 := Nat.mod_lt _ (by decide)
  obtain ⟨set, n⟩ := call
  cases set with
  | false => exact ⟨_, _, _, _, _, rfl, hx _, hy _ hlt⟩
  | true => exact ⟨_, _, _, _, _, rfl, hx _, hy _ hlt⟩

/-- The locked instruction. -/
theorem step_bit {x y : Nat} (hx : x < 32) (hy : y < 2 ^ 32) :
    I386.program.step (inBit call p 13 { r with ax := .word x, dx := .word y } s zf cf) m
    = some (inBit call p 14 { r with ax := .word x, dx := .word y } s zf
        (m.bit (y + x / 8) (x % 8)), m.setBit (y + x / 8) (x % 8) call.set) := by
  have hstep : I386.program.step (inBit call p 13 { r with ax := .word x, dx := .word y } s zf cf) m
      = I386.program.execLocked
        (inBit call p 14 { r with ax := .word x, dx := .word y } s zf cf) m
        (.bitTest call.set 32 (.mem .dx 0) .ax) := by
    obtain ⟨set, n⟩ := call
    cases set <;> rfl
  have hbase : I386.program.address
      (inBit call p 14 { r with ax := .word x, dx := .word y } s zf cf) .dx 0 = some y :=
    congrArg some (Nat.mod_eq_of_lt hy)
  have hsrc : Program.low 32
      ((inBit call p 14 { r with ax := .word x, dx := .word y } s zf cf).regs.get .ax) = some x :=
    congrArg some (Nat.mod_eq_of_lt (by omega))
  rw [hstep, Program.execLocked_bitTest _ call.set hbase hsrc hx]
  rfl

/-- The carry is the result. -/
theorem returning_of_bit {x : Nat} :
    Machine.Returning (BitTest.machine .i386 p) cf
      (inBit call p 14 { r with ax := .word x } s zf cf) := by
  have hflag : I386.program.silent 2 (inBit call p 14 { r with ax := .word x } s zf cf)
      = some (inBit call p 16
        { r with ax := .word ((x / 2 ^ 8 * 2 ^ 8 + cf.toNat) % 2 ^ 8) } s zf cf) := by
    obtain ⟨set, n⟩ := call
    cases set <;> rfl
  have hlow : (x / 2 ^ 8 * 2 ^ 8 + cf.toNat) % 2 ^ 8 = cf.toNat := by
    have hle : cf.toNat ≤ 1 := Bool.toNat_le cf
    omega
  rw [hlow] at hflag
  have hback : ∃ l', I386.program.silent 1
        (inBit call p 16 { r with ax := .word cf.toNat } s zf cf)
      = some l' ∧ l'.pc = none ∧ BitTest.result l' = some cf := by
    obtain ⟨set, n⟩ := call
    cases set <;> cases cf <;> exact ⟨_, rfl, rfl, rfl⟩
  obtain ⟨l', hback, hpc, hresult⟩ := hback
  exact Program.reaches_of_silent rfl hflag (Program.reaches_of_silent rfl hback
    (.here ((Program.result_machine hpc).trans hresult)))

/-- A call with a pointer takes effect at the address. -/
theorem acts_bit (hp : p % 2 ^ 32 ≠ 0) :
    Machine.Acts (BitTest.machine .i386 p)
      (call.effectAt ((p + call.n.toNat / 8) % 2 ^ 32) (7 - call.n.toNat % 8))
      (inBit call p 0 { r with cx := .word v } s zf cf) := by
  have hzf : (p % 2 ^ 32 == 0) = false := beq_eq_false_iff_ne.mpr hp
  have htest := @silent_test_bit p call { r with cx := .word v } s zf cf
  rw [hzf] at htest
  obtain ⟨d, w, zf₁, cf₁, hsum, hd, hw, hcarry⟩ := @silent_bit_sum p v call r s
    (decide (p % 2 ^ 32 < 0))
  obtain ⟨x, y, w', zf₂, cf₂, hword, hx, hy⟩ := @silent_bit_word p call r s zf₁ cf₁ d w
    (call.n.toNat % 2 ^ 32 ^^^ 7)
  have hn : call.n.toNat < 2 ^ 32 := call.n.isLt
  have hle : cf₁.toNat ≤ 1 := Bool.toNat_le cf₁
  rw [Nat.mod_eq_of_lt hn, xor_seven] at hd hcarry
  refine Program.reaches_of_silent rfl htest (Program.reaches_of_silent rfl hsum
    (Program.reaches_of_silent rfl hword (.here ?_)))
  intro m
  have hbyte : y + x / 8 = (p + call.n.toNat / 8) % 2 ^ 32 := by
    -- the top bits of the sum are those of the pointer and the carry
    have htop : (8 * p + (call.n.toNat / 8 * 8 + (7 - call.n.toNat % 8))) / 2 ^ 32 % 8
        = (w + cf₁.toNat) % 8 := by
      by_cases hcf : 2 ^ 32 ≤ 8 * p % 2 ^ 32 + (call.n.toNat / 8 * 8 + (7 - call.n.toNat % 8))
      · have hone := hcarry.mpr hcf
        omega
      · have hzero : cf₁.toNat ≠ 1 := fun h => hcf (hcarry.mp h)
        omega
    omega
  have hbit : x % 8 = 7 - call.n.toNat % 8 := by omega
  have hstep := @step_bit p call { r with cx := .word w' } s zf₂ cf₂ m x y (by omega) (by omega)
  rw [hbyte, hbit] at hstep
  exact ⟨_, hstep, returning_of_bit (r := { r with cx := .word w', dx := .word y })⟩

/-- A call with a null pointer does nothing. -/
theorem reaches_end_bit (hp : p % 2 ^ 32 = 0) :
    Machine.Reaches (BitTest.machine .i386 p)
      (fun l => ∀ m, (BitTest.machine .i386 p).step l m = none) (inBit call p 0 r s zf cf) := by
  have hzf : (p % 2 ^ 32 == 0) = true := beq_iff_eq.mpr hp
  have htest := @silent_test_bit p call r s zf cf
  rw [hzf] at htest
  have hback : ∃ l', I386.program.silent 2
        (inBit call p 2 { r with dx := .word p } s true (decide (p % 2 ^ 32 < 0)))
      = some l' ∧ l'.pc = none := by
    obtain ⟨set, n⟩ := call
    cases set <;> exact ⟨_, rfl, rfl⟩
  obtain ⟨l', hback, hpc⟩ := hback
  refine Program.reaches_of_silent rfl htest (Program.reaches_of_silent rfl hback (.here ?_))
  intro m
  exact Program.step_of_pc_none _ hpc m

end

end I386

/-! ## Both -/

/-- The addresses that a pointer can have: those of i386, and those of the low and of the
high half on x86-64. -/
def Canonical : Arch → Nat → Prop
  | .i386, p => p < 2 ^ 32
  | .x86_64, p => p < 2 ^ 47 ∨ 2 ^ 64 - 2 ^ 47 ≤ p ∧ p < 2 ^ 64

/-- Every call does to the memory what it should, whatever the other processors do. -/
def BitTest.Correct (arch : Arch) (p : Nat) (call : BitTest) : Prop :=
  ∀ l, call.Enter arch p l → Machine.Acts (BitTest.machine arch p) (call.effect p) l

/-- The routines are about the right bit, except for a null pointer and, on x86-64, for the
pointers to the high half. -/
theorem bitTest_correct_iff {arch : Arch} {p : Nat} (hp : Canonical arch p) (call : BitTest)
    (hfits : p + call.n.toNat / 8 < 2 ^ arch.program.bits) :
    call.Correct arch p ↔ p ≠ 0 ∧ (arch = .x86_64 → p < 2 ^ 47) := by
  have hn : call.n.toNat < 2 ^ 32 := call.n.isLt
  have hk : 7 - call.n.toNat % 8 < 8 := by omega
  cases arch with
  | i386 =>
    have hmod : p % 2 ^ 32 = p := Nat.mod_eq_of_lt hp
    have haddr : (p + call.n.toNat / 8) % 2 ^ 32 = p + call.n.toNat / 8 := Nat.mod_eq_of_lt hfits
    constructor
    · intro hcorrect
      refine ⟨?_, nofun⟩
      rintro rfl
      have hact := hcorrect _ ⟨zeros, .word 0, 0, rfl, rfl⟩
      obtain ⟨m, hm⟩ := exists_effectAt_ne call (0 + call.n.toNat / 8) hk
      exact hm (congrFun (hact.eq_of_reaches (I386.reaches_end_bit hmod) m) _)
    · intro hcond l henter
      obtain ⟨c, z, v, hcx, rfl⟩ := henter
      have hact := @I386.acts_bit p v call c.regs (withCells c.stack [(12, z)]) c.zf c.cf
        (by rw [hmod]; exact hcond.1)
      rw [haddr, ← hcx] at hact
      exact hact
  | x86_64 =>
    have hlt : p < 2 ^ 64 := by
      rcases hp with hlow | hhigh
      · omega
      · exact hhigh.2
    have hmod : p % 2 ^ 64 = p := Nat.mod_eq_of_lt hlt
    have hact : p ≠ 0 → ∀ l, call.Enter .x86_64 p l → Machine.Acts (BitTest.machine .x86_64 p)
        (call.effectAt ((p + call.n.toNat / 8) % 2 ^ 61) (7 - call.n.toNat % 8)) l := by
      intro hne l henter
      obtain ⟨c, z, d, hd, rfl⟩ := henter
      exact @X86_64.acts_bit p d call { c.regs with dx := z } c.stack c.zf c.cf
        (by rw [hmod]; exact hne) hd
    have henter : call.Enter .x86_64 p
        (Arch.x86_64.call call.routine (.word call.n.toNat) (.word p) (.word 0) zeros) :=
      ⟨zeros, .word 0, call.n.toNat, Nat.mod_eq_of_lt hn, rfl⟩
    constructor
    · intro hcorrect
      have hne : p ≠ 0 := by
        rintro rfl
        obtain ⟨m, hm⟩ := exists_effectAt_ne call (0 + call.n.toNat / 8) hk
        refine hm (congrFun ((hcorrect _ henter).eq_of_reaches ?_ m) _)
        exact @X86_64.reaches_end_bit 0 call.n.toNat call { zeros.regs with dx := .word 0 }
          zeros.stack zeros.zf zeros.cf hmod
      refine ⟨hne, fun _ => ?_⟩
      have haddr := effectAt_injective hk ((hcorrect _ henter).unique (hact hne _ henter))
      rcases hp with hlow | hhigh
      · exact hlow
      · omega
    · intro hcond l hl
      have hlow := hcond.2 rfl
      have haddr : (p + call.n.toNat / 8) % 2 ^ 61 = p + call.n.toNat / 8 :=
        Nat.mod_eq_of_lt (by omega)
      have hl' := hact hcond.1 l hl
      rw [haddr] at hl'
      exact hl'

/-- The last bit of a byte of the kernel on i386. -/
theorem bitTest_correct_iff_kernel :
    BitTest.Correct .i386 0xC0000001 ⟨true, 0xFFFFF⟩ ↔
      0xC0000001 ≠ 0 ∧ (Arch.i386 = .x86_64 → 0xC0000001 < 2 ^ 47) :=
  @bitTest_correct_iff .i386 0xC0000001 (show 0xC0000001 < 2 ^ 32 by decide) _ (by decide)

/-- Setting the bit 0 of the byte at `0xFFFF800000000000` sets one at
`0x1FFF800000000000`. -/
theorem not_correct_high_half :
    Machine.Acts (BitTest.machine .x86_64 0xFFFF800000000000)
        (BitTest.effectAt ⟨true, 0⟩ 0x1FFF800000000000 7)
        (Arch.x86_64.call .TestAndSet (.word 0) (.word 0xFFFF800000000000) (.word 0) zeros) ∧
      ¬ BitTest.Correct .x86_64 0xFFFF800000000000 ⟨true, 0⟩ := by
  have hact : Machine.Acts (BitTest.machine .x86_64 0xFFFF800000000000)
      (BitTest.effectAt ⟨true, 0⟩ 0x1FFF800000000000 7)
      (Arch.x86_64.call .TestAndSet (.word 0) (.word 0xFFFF800000000000) (.word 0) zeros) :=
    @X86_64.acts_bit 0xFFFF800000000000 0 ⟨true, 0⟩ { zeros.regs with dx := .word 0 } zeros.stack
      zeros.zf zeros.cf (by decide) rfl
  refine ⟨hact, fun hcorrect => ?_⟩
  have hact' := hcorrect _ ⟨zeros, .word 0, 0, rfl, rfl⟩
  exact absurd (effectAt_injective (show 7 < 8 by decide) (hact'.unique hact)) (by decide)

end Xeos.System.Atomic
