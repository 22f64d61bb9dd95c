import Mathlib.Data.BitVec
import Xeos.System.Atomic

/-!
# Atomic additions

`System_Atomic_Add32`, `System_Atomic_Increment32`, `System_Atomic_Decrement32` and
their variants for 64 bits, by any number of processors on one word.

The routines for i386 are linearizable.  Those for x86-64 add atomically but
return what is in `RAX`: the amount.  `add edi, eax` leaves the new value in `EDI`.
-/

namespace Xeos.System.Atomic

open Lib Lib.Smp Lib.Interleave

inductive Width
  | w32 | w64
deriving DecidableEq, Repr

namespace Width

def bits : Width → Nat
  | w32 => 32
  | w64 => 64

def add : Width → Routine
  | w32 => .Add32
  | w64 => .Add64

def decrement : Width → Routine
  | w32 => .Decrement32
  | w64 => .Decrement64

def increment : Width → Routine
  | w32 => .Increment32
  | w64 => .Increment64

end Width

/-- A call of one of the routines. -/
inductive Addition (n : Nat)
  | add (amount : BitVec n)
  | decrement
  | increment
deriving DecidableEq, Repr

namespace Addition

variable {n : Nat}

def amount : Addition n → BitVec n
  | add a => a
  | decrement => -1
  | increment => 1

/-- What a call should do: it returns the word right after its own addition. -/
def Spec (op : Addition n) (w w' r : BitVec n) : Prop := w' = w + op.amount ∧ r = w'

/-- The states in which the routines start on the word at `p`. -/
def Enter (arch : Arch) (w : Width) (p : Nat) (op : Addition w.bits) (l : Cpu Routine) : Prop :=
  match arch, op with
  | .x86_64, add a => ∃ c z d, d % 2 ^ w.bits = a.toNat ∧
    l = arch.call w.add (.word d) (.word p) z c
  | .x86_64, decrement => ∃ c y z, l = arch.call w.decrement (.word p) y z c
  | .x86_64, increment => ∃ c y z, l = arch.call w.increment (.word p) y z c
  | .i386, add a =>
    match w with
    | .w32 => ∃ c z, l = arch.call .Add32 (.word a.toNat) (.word p) z c
    | .w64 => ∃ c, l = arch.call .Add64 (.word (a.toNat % 2 ^ 32)) (.word (a.toNat / 2 ^ 32))
      (.word p) c
  | .i386, decrement => ∃ c y z, l = arch.call w.decrement (.word p) y z c
  | .i386, increment => ∃ c y z, l = arch.call w.increment (.word p) y z c

/-- The value that a routine returned. -/
def result (arch : Arch) (w : Width) (c : Cpu Routine) : Option (BitVec w.bits) :=
  match arch, w with
  | .i386, .w64 =>
    match Program.low 32 c.regs.ax, Program.low 32 c.regs.dx with
    | some eax, some edx => some (BitVec.ofNat 64 (eax + 2 ^ 32 * edx))
    | _, _ => none
  | _, w => (Program.low w.bits c.regs.ax).map (BitVec.ofNat w.bits)

theorem result_x86_64 (w : Width) (c : Cpu Routine) :
    result .x86_64 w c = (Program.low w.bits c.regs.ax).map (BitVec.ofNat w.bits) := by
  cases w <;> rfl

/-- The routines of a width on the word at `p`. -/
def machine (arch : Arch) (w : Width) (p : Nat) :
    Machine (Cpu Routine) Memory (Addition w.bits) (BitVec w.bits) :=
  arch.program.machine (Enter arch w p) (result arch w)

end Addition

/-- The word at `p`. -/
def wordAt (w : Width) (p : Nat) (m : Memory) : BitVec w.bits :=
  BitVec.ofNat w.bits (m.load p (w.bits / 8))

theorem load_lt_word (w : Width) (p : Nat) (m : Memory) :
    m.load p (w.bits / 8) < 2 ^ w.bits := by
  have hlt := m.load_lt p (w.bits / 8)
  cases w <;> exact hlt

theorem wordAt_store (w : Width) (p v : Nat) (m : Memory) :
    wordAt w p (m.store p (w.bits / 8) v) = BitVec.ofNat w.bits v := by
  have hsize : 256 ^ (w.bits / 8) = 2 ^ w.bits := by cases w <;> rfl
  rw [wordAt, Memory.load_store, hsize]
  apply BitVec.eq_of_toNat_eq
  rw [BitVec.toNat_ofNat, BitVec.toNat_ofNat, Nat.mod_mod]

/-- The word after an addition in memory. -/
theorem wordAt_store_add (w : Width) (p d : Nat) (m : Memory) :
    wordAt w p (m.store p (w.bits / 8) ((m.load p (w.bits / 8) + d % 2 ^ w.bits) % 2 ^ w.bits))
      = wordAt w p m + BitVec.ofNat w.bits d := by
  rw [wordAt_store, wordAt]
  apply BitVec.eq_of_toNat_eq
  rw [BitVec.toNat_add, BitVec.toNat_ofNat, BitVec.toNat_ofNat, BitVec.toNat_ofNat, Nat.mod_mod,
    Nat.mod_eq_of_lt (load_lt_word w p m)]

theorem ofNat_add_load (w : Width) (p : Nat) (m : Memory) (a : BitVec w.bits) :
    BitVec.ofNat w.bits ((a.toNat + m.load p (w.bits / 8)) % 2 ^ w.bits) = wordAt w p m + a := by
  apply BitVec.eq_of_toNat_eq
  rw [BitVec.toNat_add, wordAt, BitVec.toNat_ofNat, BitVec.toNat_ofNat, Nat.mod_mod,
    Nat.mod_eq_of_lt (load_lt_word w p m), Nat.add_comm]

theorem ofNat_of_mod {n d : Nat} {a : BitVec n} (h : d % 2 ^ n = a.toNat) : BitVec.ofNat n d = a := by
  apply BitVec.eq_of_toNat_eq
  rw [BitVec.toNat_ofNat, h]

/-! ## x86-64 -/

namespace X86_64

/-- The call of a routine, or the call from another routine, whose next
instruction is its `ret`. -/
inductive Frame
  | direct
  | from (routine : Routine)
deriving DecidableEq, Repr

def Frame.sp : Frame → Int
  | .direct => 0
  | .from _ => -8

def Frame.cells : Frame → List (Int × Val Routine)
  | .direct => [(0, .loc none)]
  | .from routine => [(-8, .loc (some (routine, 3))), (0, .loc none)]

/-- A state of `Add32` or `Add64`. -/
def inAdd (w : Width) (k : Nat) (f : Frame) (r : Regs Routine) (s : Int → Val Routine)
    (zf cf : Bool) : Cpu Routine :=
  ⟨some (w.add, k), { r with sp := .slot f.sp }, withCells s f.cells, zf, cf⟩

/-- The states in front of the locked addition. -/
def AtXadd (w : Width) (p : Nat) (a : BitVec w.bits) (l : Cpu Routine) : Prop :=
  ∃ (f : Frame) (r : Regs Routine) (s : Int → Val Routine) (zf cf : Bool) (d e : Nat), (∀ n, f = .from n → n = w.decrement ∨ n = w.increment) ∧
    d % 2 ^ w.bits = a.toNat ∧ e % 2 ^ w.bits = a.toNat ∧
    l = inAdd w 4 f { r with ax := .word e, di := .word d, si := .word p } s zf cf

section

variable {w : Width} {p d : Nat} {r : Regs Routine} {s : Int → Val Routine} {zf cf : Bool}
variable {f : Frame} {z : Val Routine} {c : Cpu Routine} {a : BitVec w.bits}

/-- Up to the test of the pointer. -/
theorem silent_test : X86_64.program.silent 2
      (inAdd w 0 f { r with di := .word d, si := .word p } s zf cf)
    = some (inAdd w 2 f { r with ax := .word 0, di := .word d, si := .word p } s
      (p % 2 ^ 64 == 0) (decide (p % 2 ^ 64 < 0))) := by
  cases w <;> rfl

/-- From there, when the pointer is not null. -/
theorem silent_load : ∃ e, e % 2 ^ w.bits = d % 2 ^ w.bits ∧ X86_64.program.silent 2
      (inAdd w 2 f { r with di := .word d, si := .word p } s false cf)
    = some (inAdd w 4 f { r with ax := .word e, di := .word d, si := .word p } s
      false cf) := by
  cases w with
  | w32 => exact ⟨d % 2 ^ 32, Nat.mod_mod _ _, rfl⟩
  | w64 => exact ⟨d, rfl, rfl⟩

theorem reaches_xadd (hp : p % 2 ^ 64 ≠ 0) (hd : d % 2 ^ w.bits = a.toNat)
    (hf : ∀ n, f = .from n → n = w.decrement ∨ n = w.increment) :
    Machine.Reaches (Addition.machine .x86_64 w p) (AtXadd w p a)
      (inAdd w 0 f { r with di := .word d, si := .word p } s zf cf) := by
  have hzf : (p % 2 ^ 64 == 0) = false := beq_eq_false_iff_ne.mpr hp
  obtain ⟨e, he, hload⟩ := @silent_load w p d { r with ax := .word 0 } s
    (decide (p % 2 ^ 64 < 0)) f
  refine Program.reaches_of_silent rfl silent_test ?_
  rw [hzf]
  refine Program.reaches_of_silent rfl hload (.here ?_)
  exact ⟨f, { r with ax := .word 0 }, s, _, _, d, e, hf, hd, he.trans hd, rfl⟩

/-- Every routine gets to the locked addition of its amount. -/
theorem reaches_of_enter (hp : p % 2 ^ 64 ≠ 0) {op : Addition w.bits} {l : Cpu Routine}
    (henter : op.Enter .x86_64 w p l) :
    Machine.Reaches (Addition.machine .x86_64 w p) (AtXadd w p op.amount) l := by
  cases op with
  | add a =>
    obtain ⟨c, z, d, hd, rfl⟩ := henter
    exact reaches_xadd (r := { c.regs with dx := z }) (f := .direct) hp hd
      (fun _ h => nomatch h)
  | decrement =>
    obtain ⟨c, y, z, rfl⟩ := henter
    have hcall : X86_64.program.silent 3 (Arch.x86_64.call w.decrement (.word p) y z c)
        = some (inAdd w 0 (.from w.decrement)
          { c.regs with di := .word (2 ^ w.bits - 1), si := .word p, dx := z } c.stack c.zf
            c.cf) := by
      cases w <;> rfl
    refine Program.reaches_of_silent rfl hcall ?_
    refine reaches_xadd (r := { c.regs with dx := z }) hp ?_ (fun n h => Or.inl ?_)
    · cases w <;> rfl
    · injection h with h
      exact h.symm
  | increment =>
    obtain ⟨c, y, z, rfl⟩ := henter
    have hcall : X86_64.program.silent 3 (Arch.x86_64.call w.increment (.word p) y z c)
        = some (inAdd w 0 (.from w.increment)
          { c.regs with di := .word 1, si := .word p, dx := z } c.stack c.zf c.cf) := by
      cases w <;> rfl
    refine Program.reaches_of_silent rfl hcall ?_
    refine reaches_xadd (r := { c.regs with dx := z }) hp ?_ (fun n h => Or.inr ?_)
    · cases w <;> rfl
    · injection h with h
      exact h.symm

/-- A call that is back in the caller returns what is in `RAX`. -/
theorem returning_of_silent {k e : Nat} {l l' : Cpu Routine}
    (h : X86_64.program.silent k l = some l') (hpc : l'.pc = none) (hax : l'.regs.ax = .word e) :
    Machine.Returning (Addition.machine .x86_64 w p) (BitVec.ofNat w.bits (e % 2 ^ w.bits)) l := by
  refine Program.reaches_of_silent rfl h (.here ((Program.result_machine hpc).trans ?_))
  rw [Addition.result_x86_64, hax]
  rfl

/-- The instructions after the addition. -/
theorem returning_of_xadd {e old : Nat}
    (hf : ∀ n, f = .from n → n = w.decrement ∨ n = w.increment) :
    Machine.Returning (Addition.machine .x86_64 w p) (BitVec.ofNat w.bits (e % 2 ^ w.bits))
      (inAdd w 5 f { r with ax := .word e, di := .word old, si := .word p } s zf cf) := by
  cases f with
  | direct =>
    have hback : ∃ l', X86_64.program.silent 2 (inAdd w 5 .direct
        { r with ax := .word e, di := .word old, si := .word p } s zf cf) = some l' ∧
        l'.pc = none ∧ l'.regs.ax = .word e := by
      cases w <;> exact ⟨_, rfl, rfl, rfl⟩
    obtain ⟨l', hback, hpc, hax⟩ := hback
    exact returning_of_silent hback hpc hax
  | «from» n =>
    have hback : ∃ l', X86_64.program.silent 3 (inAdd w 5 (.from n)
        { r with ax := .word e, di := .word old, si := .word p } s zf cf) = some l' ∧
        l'.pc = none ∧ l'.regs.ax = .word e := by
      rcases hf n rfl with rfl | rfl <;> cases w <;> exact ⟨_, rfl, rfl, rfl⟩
    obtain ⟨l', hback, hpc, hax⟩ := hback
    exact returning_of_silent hback hpc hax

/-- The locked addition. -/
theorem step_xadd {e : Nat} {m : Memory} : ∃ zf' cf', X86_64.program.step
      (inAdd w 4 f { r with ax := .word e, di := .word d, si := .word p } s zf cf) m
    = some (inAdd w 5 f { r with
        ax := .word e
        di := .word (m.load ((p + 0) % 2 ^ 64) (w.bits / 8))
        si := .word p } s zf' cf',
      m.store ((p + 0) % 2 ^ 64) (w.bits / 8)
        ((m.load ((p + 0) % 2 ^ 64) (w.bits / 8) + d % 2 ^ w.bits) % 2 ^ w.bits)) := by
  cases w <;> exact ⟨_, _, rfl⟩

/-- On x86-64 a call takes effect in its locked addition.  It returns the new value
when the old one is zero. -/
theorem attempt_xadd {m m' : Memory} {l l' : Cpu Routine} {op : Addition w.bits}
    (hfits : p + w.bits / 8 ≤ 2 ^ 64) (hat : AtXadd w p op.amount l) (hzero : wordAt w p m = 0)
    (hstep : X86_64.program.step l m = some (l', m')) :
    op.Spec (wordAt w p m) (wordAt w p m') (wordAt w p m') ∧
      Machine.Returning (Addition.machine .x86_64 w p) (wordAt w p m') l' := by
  obtain ⟨f, r, s, zf, cf, d, e, hf, hd, he, rfl⟩ := hat
  obtain ⟨zf', cf', hxadd⟩ := @step_xadd w p d r s zf cf f e m
  rw [hxadd] at hstep
  obtain ⟨rfl, rfl⟩ := Prod.mk.inj (Option.some.inj hstep)
  have haddr : (p + 0) % 2 ^ 64 = p := by
    have hpos : 0 < w.bits / 8 := by cases w <;> decide
    rw [Nat.add_zero, Nat.mod_eq_of_lt (by omega)]
  rw [haddr, wordAt_store_add, ofNat_of_mod hd]
  refine ⟨⟨rfl, rfl⟩, ?_⟩
  rw [hzero, zero_add]
  have hreturning := @returning_of_xadd w p r s zf' cf' f e (m.load p (w.bits / 8)) hf
  rwa [he, ofNat_of_mod (Nat.mod_eq_of_lt op.amount.isLt)] at hreturning

end

end X86_64

end Xeos.System.Atomic
