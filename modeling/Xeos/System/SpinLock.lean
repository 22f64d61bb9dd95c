import Xeos.Lib.Mutex
import Xeos.System.AtomicArithmetic

/-!
# Spin locks

`System_Atomic_SpinLockLock`, `System_Atomic_SpinLockTry` and
`System_Atomic_SpinLockUnlock` on one word.  The first two call
`System_Atomic_CompareAndSwap32`, whose exchange of a zero for a one takes the lock;
the last one stores a zero.
-/

namespace Xeos.System.Atomic

open Lib Lib.Smp Lib.Interleave

namespace SpinLock

def routine : Mutex.Op → Routine
  | .lock => .SpinLockLock
  | .tryLock => .SpinLockTry
  | .unlock => .SpinLockUnlock

/-- The states in which the routines start on the word at `p`. -/
def Enter (arch : Arch) (p : Nat) (op : Mutex.Op) (l : Cpu Routine) : Prop :=
  ∃ c y z, l = arch.call (routine op) (.word p) y z c

/-- Whether a routine returned `true`, in `AL`. -/
def result (c : Cpu Routine) : Option Bool := some (Program.low 8 c.regs.ax != some 0)

/-- The routines on the word at `p`. -/
def machine (arch : Arch) (p : Nat) : Machine (Cpu Routine) Memory Mutex.Op Bool :=
  arch.program.machine (Enter arch p) result

end SpinLock

/-! ## x86-64 -/

namespace X86_64

/-- The callers of `CompareAndSwap32`, with what they saved. -/
inductive Waiter
  | lock (bp bx : Val Routine)
  | tryLock

namespace Waiter

def sp : Waiter → Int
  | lock .. => -32
  | tryLock => -8

def cells : Waiter → List (Int × Val Routine)
  | lock bp bx => [(-32, .loc (some (.SpinLockLock, 11))), (-16, bx), (-8, bp), (0, .loc none)]
  | tryLock => [(-8, .loc (some (.SpinLockTry, 7))), (0, .loc none)]

/-- `SpinLockLock` keeps the pointer in `RBX`. -/
def regs (p : Nat) (r : Regs Routine) : Waiter → Regs Routine
  | lock .. => { r with bx := .word p, sp := .slot (-32) }
  | tryLock => { r with sp := .slot (-8) }

def op : Waiter → Mutex.Op
  | lock .. => .lock
  | tryLock => .tryLock

end Waiter

/-- A state of `CompareAndSwap32`. -/
def inSwap (f : Waiter) (p k : Nat) (r : Regs Routine) (s : Int → Val Routine) (zf cf : Bool) :
    Cpu Routine :=
  ⟨some (.CompareAndSwap32, k), f.regs p r, withCells s f.cells, zf, cf⟩

/-- The states in front of the exchange of a zero for a one. -/
def AtSwap (p : Nat) (f : Waiter) (l : Cpu Routine) : Prop :=
  ∃ (r : Regs Routine) (s : Int → Val Routine) (zf cf : Bool),
    l = inSwap f p 4 { r with ax := .word 0, dx := .word p, si := .word 1, di := .word 0 } s zf cf

/-- The states in front of the store of `SpinLockUnlock`. -/
def AtRelease (p : Nat) (l : Cpu Routine) : Prop :=
  ∃ (r : Regs Routine) (s : Int → Val Routine) (zf cf : Bool),
    l = ⟨some (.SpinLockUnlock, 3), { r with di := .word p, sp := .slot 0 },
      withCells s [(0, .loc none)], zf, cf⟩

section

variable {p : Nat} {f : Waiter} {r : Regs Routine} {s : Int → Val Routine} {zf cf : Bool}
variable {l l' : Cpu Routine} {m m' : Memory}

/-- From the start of `CompareAndSwap32` to the exchange. -/
theorem reaches_swap (hp : p % 2 ^ 64 ≠ 0) :
    Machine.Reaches (SpinLock.machine .x86_64 p) (AtSwap p f) (inSwap f p 0
      { r with dx := .word p, si := .word 1, di := .word 0 } s zf cf) := by
  have hzf : (p % 2 ^ 64 == 0) = false := beq_eq_false_iff_ne.mpr hp
  have htest : X86_64.program.silent 2 (inSwap f p 0
        { r with dx := .word p, si := .word 1, di := .word 0 } s zf cf)
      = some (inSwap f p 2 { r with ax := .word 0, dx := .word p, si := .word 1, di := .word 0 } s
        (p % 2 ^ 64 == 0) (decide (p % 2 ^ 64 < 0))) := by
    cases f <;> rfl
  rw [hzf] at htest
  have hload : X86_64.program.silent 2 (inSwap f p 2
        { r with ax := .word 0, dx := .word p, si := .word 1, di := .word 0 } s false
        (decide (p % 2 ^ 64 < 0)))
      = some (inSwap f p 4 { r with ax := .word 0, dx := .word p, si := .word 1, di := .word 0 } s
        false (decide (p % 2 ^ 64 < 0))) := by
    cases f <;> rfl
  exact Program.reaches_of_silent rfl htest
    (Program.reaches_of_silent rfl hload (.here ⟨r, s, _, _, rfl⟩))

theorem reaches_swap_of_lock (hp : p % 2 ^ 64 ≠ 0) {c : Cpu Routine} {y z : Val Routine} :
    Machine.Reaches (SpinLock.machine .x86_64 p) (AtSwap p (.lock c.regs.bp c.regs.bx))
      (Arch.x86_64.call .SpinLockLock (.word p) y z c) := by
  have hzf : (p % 2 ^ 64 == 0) = false := beq_eq_false_iff_ne.mpr hp
  have htest : ∃ cf, X86_64.program.silent 6 (Arch.x86_64.call .SpinLockLock (.word p) y z c)
      = some ⟨some (.SpinLockLock, 6),
        { c.regs with
          bx := .word p, dx := z, si := y, di := .word p, bp := .slot (-8), sp := .slot (-24) },
        withCells c.stack [(-16, c.regs.bx), (-8, c.regs.bp), (0, .loc none)],
        p % 2 ^ 64 == 0, cf⟩ := ⟨_, rfl⟩
  obtain ⟨cf, htest⟩ := htest
  rw [hzf] at htest
  have hcall : ∃ zf cf', X86_64.program.silent 5 ⟨some (.SpinLockLock, 6),
        { c.regs with
          bx := .word p, dx := z, si := y, di := .word p, bp := .slot (-8), sp := .slot (-24) },
        withCells c.stack [(-16, c.regs.bx), (-8, c.regs.bp), (0, .loc none)], false, cf⟩
      = some (inSwap (.lock c.regs.bp c.regs.bx) p 0
        { c.regs with dx := .word p, si := .word 1, di := .word 0, bp := .slot (-8) } c.stack zf
        cf') := ⟨_, _, rfl⟩
  obtain ⟨zf, cf', hcall⟩ := hcall
  exact Program.reaches_of_silent rfl htest
    (Program.reaches_of_silent rfl hcall (reaches_swap (r := { c.regs with bp := .slot (-8) }) hp))

theorem reaches_swap_of_try (hp : p % 2 ^ 64 ≠ 0) {c : Cpu Routine} {y z : Val Routine} :
    Machine.Reaches (SpinLock.machine .x86_64 p) (AtSwap p .tryLock)
      (Arch.x86_64.call .SpinLockTry (.word p) y z c) := by
  have hzf : (p % 2 ^ 64 == 0) = false := beq_eq_false_iff_ne.mpr hp
  have htest : ∃ cf, X86_64.program.silent 2 (Arch.x86_64.call .SpinLockTry (.word p) y z c)
      = some ⟨some (.SpinLockTry, 2),
        { c.regs with ax := .word 0, dx := z, si := y, di := .word p, sp := .slot 0 },
        withCells c.stack [(0, .loc none)], p % 2 ^ 64 == 0, cf⟩ := ⟨_, rfl⟩
  obtain ⟨cf, htest⟩ := htest
  rw [hzf] at htest
  have hcall : ∃ zf cf', X86_64.program.silent 5 ⟨some (.SpinLockTry, 2),
        { c.regs with ax := .word 0, dx := z, si := y, di := .word p, sp := .slot 0 },
        withCells c.stack [(0, .loc none)], false, cf⟩
      = some (inSwap .tryLock p 0
        { c.regs with ax := .word 0, dx := .word p, si := .word 1, di := .word 0 } c.stack zf
        cf') := ⟨_, _, rfl⟩
  obtain ⟨zf, cf', hcall⟩ := hcall
  exact Program.reaches_of_silent rfl htest
    (Program.reaches_of_silent rfl hcall (reaches_swap (r := { c.regs with ax := .word 0 }) hp))

theorem reaches_release (hp : p % 2 ^ 64 ≠ 0) {c : Cpu Routine} {y z : Val Routine} :
    Machine.Reaches (SpinLock.machine .x86_64 p) (AtRelease p)
      (Arch.x86_64.call .SpinLockUnlock (.word p) y z c) := by
  have hzf : (p % 2 ^ 64 == 0) = false := beq_eq_false_iff_ne.mpr hp
  have htest : ∃ cf, X86_64.program.silent 1 (Arch.x86_64.call .SpinLockUnlock (.word p) y z c)
      = some ⟨some (.SpinLockUnlock, 1),
        { c.regs with dx := z, si := y, di := .word p, sp := .slot 0 },
        withCells c.stack [(0, .loc none)], p % 2 ^ 64 == 0, cf⟩ := ⟨_, rfl⟩
  obtain ⟨cf, htest⟩ := htest
  rw [hzf] at htest
  have hfence : X86_64.program.silent 2 ⟨some (.SpinLockUnlock, 1),
        { c.regs with dx := z, si := y, di := .word p, sp := .slot 0 },
        withCells c.stack [(0, .loc none)], false, cf⟩
      = some ⟨some (.SpinLockUnlock, 3),
        { c.regs with dx := z, si := y, di := .word p, sp := .slot 0 },
        withCells c.stack [(0, .loc none)], false, cf⟩ := rfl
  exact Program.reaches_of_silent rfl htest (Program.reaches_of_silent rfl hfence
    (.here ⟨{ c.regs with dx := z, si := y }, c.stack, _, _, rfl⟩))

/-- The exchange. -/
theorem step_swap : X86_64.program.step (inSwap f p 4
        { r with ax := .word 0, dx := .word p, si := .word 1, di := .word 0 } s zf cf) m
    = if m.load ((p + 0) % 2 ^ 64) 4 = 0 then
        some (inSwap f p 5
          { r with ax := .word 0, dx := .word p, si := .word 1, di := .word 0 } s true cf,
          m.store ((p + 0) % 2 ^ 64) 4 1)
      else
        some (inSwap f p 5
          { r with
            ax := .word (m.load ((p + 0) % 2 ^ 64) 4)
            dx := .word p
            si := .word 1
            di := .word 0 } s false cf, m) := by
  cases f <;> rfl

/-- `AL` after the exchange. -/
theorem silent_flag {old : Nat} : X86_64.program.silent 2 (inSwap f p 5
      { r with ax := .word old, dx := .word p, si := .word 1, di := .word 0 } s zf cf)
    = some (inSwap f p 7
      { r with ax := .word zf.toNat, dx := .word p, si := .word 1, di := .word 0 } s zf cf) := by
  have hflag : X86_64.program.silent 2 (inSwap f p 5
        { r with ax := .word old, dx := .word p, si := .word 1, di := .word 0 } s zf cf)
      = some (inSwap f p 7
        { r with
          ax := .word ((old / 2 ^ 8 * 2 ^ 8 + zf.toNat) % 2 ^ 8)
          dx := .word p
          si := .word 1
          di := .word 0 } s zf cf) := by
    cases f <;> rfl
  have hlow : (old / 2 ^ 8 * 2 ^ 8 + zf.toNat) % 2 ^ 8 = zf.toNat := by
    have hle : zf.toNat ≤ 1 := Bool.toNat_le zf
    omega
  rw [hflag, hlow]

theorem returning_of_silent_flag {k v : Nat} (h : X86_64.program.silent k l = some l')
    (hpc : l'.pc = none) (hax : l'.regs.ax = .word v) :
    Machine.Returning (SpinLock.machine .x86_64 p) (some (v % 2 ^ 8) != some 0) l := by
  refine Program.reaches_of_silent rfl h (.here ((Program.result_machine hpc).trans ?_))
  rw [SpinLock.result, hax]
  rfl

/-- A call takes the lock in an exchange that finds a zero. -/
theorem returning_of_taken :
    Machine.Returning (SpinLock.machine .x86_64 p) true (inSwap f p 7
      { r with ax := .word 1, dx := .word p, si := .word 1, di := .word 0 } s true cf) := by
  have hback : ∃ k l', X86_64.program.silent k (inSwap f p 7
        { r with ax := .word 1, dx := .word p, si := .word 1, di := .word 0 } s true cf)
      = some l' ∧ l'.pc = none ∧ l'.regs.ax = .word 1 := by
    cases f with
    | lock bp bx => exact ⟨7, _, rfl, rfl, rfl⟩
    | tryLock => exact ⟨3, _, rfl, rfl, rfl⟩
  obtain ⟨k, l', hback, hpc, hax⟩ := hback
  exact returning_of_silent_flag hback hpc hax

/-- `SpinLockTry` does not try again. -/
theorem returning_of_refused :
    Machine.Returning (SpinLock.machine .x86_64 p) false (inSwap .tryLock p 7
      { r with ax := .word 0, dx := .word p, si := .word 1, di := .word 0 } s false cf) := by
  have hback : ∃ l', X86_64.program.silent 3 (inSwap .tryLock p 7
        { r with ax := .word 0, dx := .word p, si := .word 1, di := .word 0 } s false cf)
      = some l' ∧ l'.pc = none ∧ l'.regs.ax = .word 0 := ⟨_, rfl, rfl, rfl⟩
  obtain ⟨l', hback, hpc, hax⟩ := hback
  exact returning_of_silent_flag hback hpc hax

/-- `SpinLockLock` does. -/
theorem reaches_swap_of_refused (hp : p % 2 ^ 64 ≠ 0) {bp bx : Val Routine} :
    Machine.Reaches (SpinLock.machine .x86_64 p) (AtSwap p (.lock bp bx))
      (inSwap (.lock bp bx) p 7
        { r with ax := .word 0, dx := .word p, si := .word 1, di := .word 0 } s false cf) := by
  have hloop : ∃ zf cf', X86_64.program.silent 9 (inSwap (.lock bp bx) p 7
        { r with ax := .word 0, dx := .word p, si := .word 1, di := .word 0 } s false cf)
      = some ⟨some (.CompareAndSwap32, 0), (Waiter.lock bp bx).regs p
          { r with ax := .word 0, dx := .word p, si := .word 1, di := .word 0 },
        withCells (withCells s (Waiter.lock bp bx).cells)
          [(-32, .loc (some (.SpinLockLock, 11)))], zf, cf'⟩ := ⟨_, _, rfl⟩
  obtain ⟨zf, cf', hloop⟩ := hloop
  rw [Waiter.cells, withCells_again] at hloop
  exact Program.reaches_of_silent rfl hloop (reaches_swap (r := { r with ax := .word 0 }) hp)

/-- What a caller of `CompareAndSwap32` does when the lock is taken. -/
def Waiter.Refused (p : Nat) (l : Cpu Routine) : Waiter → Prop
  | lock bp bx => Machine.Reaches (SpinLock.machine .x86_64 p) (AtSwap p (.lock bp bx)) l
  | tryLock => Machine.Returning (SpinLock.machine .x86_64 p) false l

theorem swap_cases (hp : p ≠ 0) (hfits : p + 4 ≤ 2 ^ 64) (hat : AtSwap p f l)
    (hstep : X86_64.program.step l m = some (l', m')) :
    (m.load p 4 = 0 ∧ wordOf p m' = 1 ∧
        Machine.Returning (SpinLock.machine .x86_64 p) true l') ∨
      m.load p 4 ≠ 0 ∧ m' = m ∧ f.Refused p l' := by
  obtain ⟨r, s, zf, cf, rfl⟩ := hat
  have haddr : (p + 0) % 2 ^ 64 = p := by rw [Nat.add_zero, Nat.mod_eq_of_lt (by omega)]
  rw [step_swap, haddr] at hstep
  by_cases hzero : m.load p 4 = 0
  · rw [if_pos hzero] at hstep
    obtain ⟨rfl, rfl⟩ := Prod.mk.inj (Option.some.inj hstep)
    refine Or.inl ⟨hzero, wordOf_store p 1 m, ?_⟩
    exact Program.reaches_of_silent rfl silent_flag returning_of_taken
  · rw [if_neg hzero] at hstep
    obtain ⟨rfl, rfl⟩ := Prod.mk.inj (Option.some.inj hstep)
    refine Or.inr ⟨hzero, rfl, ?_⟩
    have hmod : p % 2 ^ 64 ≠ 0 := by rwa [Nat.mod_eq_of_lt (by omega)]
    cases f with
    | lock bp bx =>
      exact Program.reaches_of_silent rfl silent_flag (reaches_swap_of_refused hmod)
    | tryLock => exact Program.reaches_of_silent rfl silent_flag returning_of_refused

theorem release_cases (hfits : p + 4 ≤ 2 ^ 64) (hat : AtRelease p l)
    (hstep : X86_64.program.step l m = some (l', m')) :
    wordOf p m' = 0 ∧ ∃ b, Machine.Returning (SpinLock.machine .x86_64 p) b l' := by
  obtain ⟨r, s, zf, cf, rfl⟩ := hat
  have haddr : (p + 0) % 2 ^ 64 = p := by rw [Nat.add_zero, Nat.mod_eq_of_lt (by omega)]
  have hstore : X86_64.program.step ⟨some (.SpinLockUnlock, 3),
        { r with di := .word p, sp := .slot 0 }, withCells s [(0, .loc none)], zf, cf⟩ m
      = some (⟨some (.SpinLockUnlock, 4), { r with di := .word p, sp := .slot 0 },
        withCells s [(0, .loc none)], zf, cf⟩, m.store ((p + 0) % 2 ^ 64) 4 0) := rfl
  rw [hstore, haddr] at hstep
  obtain ⟨rfl, rfl⟩ := Prod.mk.inj (Option.some.inj hstep)
  refine ⟨wordOf_store p 0 m, Program.low 8 r.ax != some 0, ?_⟩
  have hback : X86_64.program.silent 1 ⟨some (.SpinLockUnlock, 4),
        { r with di := .word p, sp := .slot 0 }, withCells s [(0, .loc none)], zf, cf⟩
      = some ⟨none, { r with di := .word p, sp := .slot 8 }, withCells s [(0, .loc none)], zf,
        cf⟩ := rfl
  exact Program.reaches_of_silent rfl hback (.here (Program.result_machine rfl))

end

end X86_64

/-! ## i386 -/

namespace I386

/-- The callers of `CompareAndSwap32`, with what they saved. -/
inductive Waiter
  | lock (bp : Val Routine)
  | tryLock (bp : Val Routine)

namespace Waiter

/-- The place behind the call. -/
def back : Waiter → Routine × Nat
  | lock _ => (.SpinLockLock, 10)
  | tryLock _ => (.SpinLockTry, 10)

def bp : Waiter → Val Routine
  | lock bp => bp
  | tryLock bp => bp

/-- The stack with the arguments of `CompareAndSwap32`. -/
def cells (p : Nat) (f : Waiter) : List (Int × Val Routine) :=
  [(-32, .loc (some f.back)), (-20, .word p), (-24, .word 1), (-28, .word 0), (-4, f.bp),
    (0, .loc none)]

end Waiter

/-- A state of `CompareAndSwap32`. -/
def inSwap (f : Waiter) (p k : Nat) (r : Regs Routine) (s : Int → Val Routine) (zf cf : Bool) :
    Cpu Routine :=
  ⟨some (.CompareAndSwap32, k), { r with sp := .slot (-32) }, withCells s (f.cells p), zf, cf⟩

/-- The states in front of the exchange of a zero for a one. -/
def AtSwap (p : Nat) (f : Waiter) (l : Cpu Routine) : Prop :=
  ∃ (r : Regs Routine) (s : Int → Val Routine) (zf cf : Bool),
    l = inSwap f p 6 { r with ax := .word 0, cx := .word p, dx := .word 1 } s zf cf

/-- The states in front of the store of `SpinLockUnlock`. -/
def AtRelease (p : Nat) (l : Cpu Routine) : Prop :=
  ∃ (r : Regs Routine) (s : Int → Val Routine) (zf cf : Bool),
    l = ⟨some (.SpinLockUnlock, 4), { r with ax := .word p, sp := .slot 0 },
      withCells s [(0, .loc none)], zf, cf⟩

section

variable {p : Nat} {f : Waiter} {r : Regs Routine} {s : Int → Val Routine} {zf cf : Bool}
variable {l l' : Cpu Routine} {m m' : Memory}

/-- From the start of `CompareAndSwap32` to the exchange. -/
theorem reaches_swap (hp : p % 2 ^ 32 ≠ 0) :
    Machine.Reaches (SpinLock.machine .i386 p) (AtSwap p f) (inSwap f p 0 r s zf cf) := by
  have hzf : (p % 2 ^ 32 == 0) = false := beq_eq_false_iff_ne.mpr hp
  have htest : ∃ cf', I386.program.silent 3 (inSwap f p 0 r s zf cf)
      = some (inSwap f p 3 { r with ax := .word 0, cx := .word p } s (p % 2 ^ 32 == 0) cf') := by
    cases f <;> exact ⟨_, rfl⟩
  obtain ⟨cf', htest⟩ := htest
  rw [hzf] at htest
  have hload : I386.program.silent 3
        (inSwap f p 3 { r with ax := .word 0, cx := .word p } s false cf')
      = some (inSwap f p 6 { r with ax := .word 0, cx := .word p, dx := .word 1 } s false
        cf') := by
    cases f <;> rfl
  exact Program.reaches_of_silent rfl htest
    (Program.reaches_of_silent rfl hload (.here ⟨r, s, _, _, rfl⟩))

theorem reaches_swap_of_enter (hp : p % 2 ^ 32 ≠ 0) {c : Cpu Routine} {y z : Val Routine} :
    Machine.Reaches (SpinLock.machine .i386 p) (AtSwap p (.lock c.regs.bp))
        (Arch.i386.call .SpinLockLock (.word p) y z c) ∧
      Machine.Reaches (SpinLock.machine .i386 p) (AtSwap p (.tryLock c.regs.bp))
        (Arch.i386.call .SpinLockTry (.word p) y z c) := by
  have hzf : (p % 2 ^ 32 == 0) = false := beq_eq_false_iff_ne.mpr hp
  have hstart : ∀ n, n = .SpinLockLock ∨ n = .SpinLockTry →
      ∃ cf, I386.program.silent 5 (Arch.i386.call n (.word p) y z c)
        = some ⟨some (n, 5), { c.regs with ax := .word p, bp := .slot (-4), sp := .slot (-28) },
          withCells (withCells c.stack [(4, .word p), (8, y), (12, z)])
            [(-4, c.regs.bp), (0, .loc none)], p % 2 ^ 32 == 0, cf⟩ := by
    rintro n (rfl | rfl) <;> exact ⟨_, rfl⟩
  constructor
  · obtain ⟨cf, htest⟩ := hstart .SpinLockLock (Or.inl rfl)
    rw [hzf] at htest
    refine Program.reaches_of_silent rfl htest ?_
    exact Program.reaches_of_silent (j := 5) rfl rfl (reaches_swap (f := .lock c.regs.bp) hp)
  · obtain ⟨cf, htest⟩ := hstart .SpinLockTry (Or.inr rfl)
    rw [hzf] at htest
    refine Program.reaches_of_silent rfl htest ?_
    exact Program.reaches_of_silent (j := 5) rfl rfl (reaches_swap (f := .tryLock c.regs.bp) hp)

theorem reaches_release (hp : p % 2 ^ 32 ≠ 0) {c : Cpu Routine} {y z : Val Routine} :
    Machine.Reaches (SpinLock.machine .i386 p) (AtRelease p)
      (Arch.i386.call .SpinLockUnlock (.word p) y z c) := by
  have hzf : (p % 2 ^ 32 == 0) = false := beq_eq_false_iff_ne.mpr hp
  have htest : ∃ cf, I386.program.silent 2 (Arch.i386.call .SpinLockUnlock (.word p) y z c)
      = some ⟨some (.SpinLockUnlock, 2), { c.regs with ax := .word p, sp := .slot 0 },
        withCells c.stack [(0, .loc none), (4, .word p), (8, y), (12, z)],
        p % 2 ^ 32 == 0, cf⟩ := ⟨_, rfl⟩
  obtain ⟨cf, htest⟩ := htest
  rw [hzf] at htest
  refine Program.reaches_of_silent rfl htest ?_
  exact Program.reaches_of_silent (j := 2) rfl rfl
    (.here ⟨c.regs, withCells c.stack [(4, .word p), (8, y), (12, z)], false, cf, rfl⟩)

/-- The exchange. -/
theorem step_swap : I386.program.step
        (inSwap f p 6 { r with ax := .word 0, cx := .word p, dx := .word 1 } s zf cf) m
    = if m.load ((p + 0) % 2 ^ 32) 4 = 0 then
        some (inSwap f p 7 { r with ax := .word 0, cx := .word p, dx := .word 1 } s true cf,
          m.store ((p + 0) % 2 ^ 32) 4 1)
      else
        some (inSwap f p 7
          { r with
            ax := .word (m.load ((p + 0) % 2 ^ 32) 4)
            cx := .word p
            dx := .word 1 } s false cf, m) := by
  cases f <;> rfl

/-- `AL` after the exchange. -/
theorem silent_flag {old : Nat} : I386.program.silent 2
      (inSwap f p 7 { r with ax := .word old } s zf cf)
    = some (inSwap f p 9 { r with ax := .word zf.toNat } s zf cf) := by
  have hflag : I386.program.silent 2 (inSwap f p 7 { r with ax := .word old } s zf cf)
      = some (inSwap f p 9
        { r with ax := .word ((old / 2 ^ 8 * 2 ^ 8 + zf.toNat) % 2 ^ 8) } s zf cf) := by
    cases f <;> rfl
  have hlow : (old / 2 ^ 8 * 2 ^ 8 + zf.toNat) % 2 ^ 8 = zf.toNat := by
    have hle : zf.toNat ≤ 1 := Bool.toNat_le zf
    omega
  rw [hflag, hlow]

theorem returning_of_silent_flag {k v : Nat} (h : I386.program.silent k l = some l')
    (hpc : l'.pc = none) (hax : l'.regs.ax = .word v) :
    Machine.Returning (SpinLock.machine .i386 p) (some (v % 2 ^ 8) != some 0) l := by
  refine Program.reaches_of_silent rfl h (.here ((Program.result_machine hpc).trans ?_))
  rw [SpinLock.result, hax]
  rfl

/-- A call takes the lock in an exchange that finds a zero. -/
theorem returning_of_taken : Machine.Returning (SpinLock.machine .i386 p) true
    (inSwap f p 9 { r with ax := .word 1 } s true cf) := by
  have hback : ∃ k l', I386.program.silent k (inSwap f p 9 { r with ax := .word 1 } s true cf)
      = some l' ∧ l'.pc = none ∧ l'.regs.ax = .word 1 := by
    cases f with
    | lock bp => exact ⟨6, _, rfl, rfl, rfl⟩
    | tryLock bp => exact ⟨5, _, rfl, rfl, rfl⟩
  obtain ⟨k, l', hback, hpc, hax⟩ := hback
  exact returning_of_silent_flag hback hpc hax

/-- What a caller of `CompareAndSwap32` does when the lock is taken. -/
def Waiter.Refused (p : Nat) (l : Cpu Routine) : Waiter → Prop
  | lock bp => Machine.Reaches (SpinLock.machine .i386 p) (AtSwap p (.lock bp)) l
  | tryLock _ => Machine.Returning (SpinLock.machine .i386 p) false l

/-- `SpinLockLock` tries again, with the arguments that are on its stack. -/
theorem refused (hp : p % 2 ^ 32 ≠ 0) :
    f.Refused p (inSwap f p 9 { r with ax := .word 0 } s false cf) := by
  cases f with
  | lock bp =>
    have hloop : ∃ zf cf', I386.program.silent 6
          (inSwap (.lock bp) p 9 { r with ax := .word 0 } s false cf)
        = some ⟨some (.CompareAndSwap32, 0), { r with ax := .word 0, sp := .slot (-32) },
          withCells (withCells s ((Waiter.lock bp).cells p))
            [(-32, .loc (some (.SpinLockLock, 10)))], zf, cf'⟩ := ⟨_, _, rfl⟩
    obtain ⟨zf, cf', hloop⟩ := hloop
    rw [Waiter.cells, Waiter.back, withCells_again] at hloop
    exact Program.reaches_of_silent rfl hloop (reaches_swap (r := { r with ax := .word 0 }) hp)
  | tryLock bp =>
    have hback : ∃ l', I386.program.silent 5
          (inSwap (.tryLock bp) p 9 { r with ax := .word 0 } s false cf)
        = some l' ∧ l'.pc = none ∧ l'.regs.ax = .word 0 := ⟨_, rfl, rfl, rfl⟩
    obtain ⟨l', hback, hpc, hax⟩ := hback
    exact returning_of_silent_flag hback hpc hax

theorem swap_cases (hp : p ≠ 0) (hfits : p + 4 ≤ 2 ^ 32) (hat : AtSwap p f l)
    (hstep : I386.program.step l m = some (l', m')) :
    (m.load p 4 = 0 ∧ wordOf p m' = 1 ∧
        Machine.Returning (SpinLock.machine .i386 p) true l') ∨
      m.load p 4 ≠ 0 ∧ m' = m ∧ f.Refused p l' := by
  obtain ⟨r, s, zf, cf, rfl⟩ := hat
  have haddr : (p + 0) % 2 ^ 32 = p := by rw [Nat.add_zero, Nat.mod_eq_of_lt (by omega)]
  rw [step_swap, haddr] at hstep
  by_cases hzero : m.load p 4 = 0
  · rw [if_pos hzero] at hstep
    obtain ⟨rfl, rfl⟩ := Prod.mk.inj (Option.some.inj hstep)
    refine Or.inl ⟨hzero, wordOf_store p 1 m, ?_⟩
    exact Program.reaches_of_silent rfl
      (silent_flag (r := { r with cx := .word p, dx := .word 1 })) returning_of_taken
  · rw [if_neg hzero] at hstep
    obtain ⟨rfl, rfl⟩ := Prod.mk.inj (Option.some.inj hstep)
    refine Or.inr ⟨hzero, rfl, ?_⟩
    have hmod : p % 2 ^ 32 ≠ 0 := by rwa [Nat.mod_eq_of_lt (by omega)]
    have hflag := @silent_flag p f { r with cx := .word p, dx := .word 1 } s false cf (m.load p 4)
    have hrefused := @refused p f { r with cx := .word p, dx := .word 1 } s cf hmod
    cases f with
    | lock bp => exact Program.reaches_of_silent rfl hflag hrefused
    | tryLock bp => exact Program.reaches_of_silent rfl hflag hrefused

theorem release_cases (hfits : p + 4 ≤ 2 ^ 32) (hat : AtRelease p l)
    (hstep : I386.program.step l m = some (l', m')) :
    wordOf p m' = 0 ∧ ∃ b, Machine.Returning (SpinLock.machine .i386 p) b l' := by
  obtain ⟨r, s, zf, cf, rfl⟩ := hat
  have haddr : (p + 0) % 2 ^ 32 = p := by rw [Nat.add_zero, Nat.mod_eq_of_lt (by omega)]
  have hstore : I386.program.step ⟨some (.SpinLockUnlock, 4),
        { r with ax := .word p, sp := .slot 0 }, withCells s [(0, .loc none)], zf, cf⟩ m
      = some (⟨some (.SpinLockUnlock, 5), { r with ax := .word p, sp := .slot 0 },
        withCells s [(0, .loc none)], zf, cf⟩, m.store ((p + 0) % 2 ^ 32) 4 0) := rfl
  rw [hstore, haddr] at hstep
  obtain ⟨rfl, rfl⟩ := Prod.mk.inj (Option.some.inj hstep)
  refine ⟨wordOf_store p 0 m, Program.low 8 (.word p : Val Routine) != some 0, ?_⟩
  have hback : I386.program.silent 1 ⟨some (.SpinLockUnlock, 5),
        { r with ax := .word p, sp := .slot 0 }, withCells s [(0, .loc none)], zf, cf⟩
      = some ⟨none, { r with ax := .word p, sp := .slot 4 }, withCells s [(0, .loc none)], zf,
        cf⟩ := rfl
  exact Program.reaches_of_silent rfl hback (.here (Program.result_machine rfl))

end

end I386

/-! ## Runs -/

namespace SpinLock

/-- The states of a call in front of the instruction that may change the word. -/
def Attempt (arch : Arch) (p : Nat) (op : Mutex.Op) (l : Cpu Routine) : Prop :=
  match arch, op with
  | .x86_64, .lock => ∃ bp bx, X86_64.AtSwap p (.lock bp bx) l
  | .x86_64, .tryLock => X86_64.AtSwap p .tryLock l
  | .x86_64, .unlock => X86_64.AtRelease p l
  | .i386, .lock => ∃ bp, I386.AtSwap p (.lock bp) l
  | .i386, .tryLock => ∃ bp, I386.AtSwap p (.tryLock bp) l
  | .i386, .unlock => I386.AtRelease p l

/-- The number of the exchange in `CompareAndSwap32`. -/
def exchange : Arch → Nat
  | .x86_64 => 4
  | .i386 => 6

theorem reaches_attempt {arch : Arch} {p : Nat} (hp : p % 2 ^ arch.program.bits ≠ 0)
    {op : Mutex.Op} {l : Cpu Routine} (henter : Enter arch p op l) :
    (machine arch p).Reaches (Attempt arch p op) l := by
  obtain ⟨c, y, z, rfl⟩ := henter
  cases arch with
  | x86_64 =>
    cases op with
    | lock => exact (X86_64.reaches_swap_of_lock hp).mono fun _ h => ⟨_, _, h⟩
    | tryLock => exact X86_64.reaches_swap_of_try hp
    | unlock => exact X86_64.reaches_release hp
  | i386 =>
    cases op with
    | lock => exact (I386.reaches_swap_of_enter hp).1.mono fun _ h => ⟨_, h⟩
    | tryLock => exact (I386.reaches_swap_of_enter hp).2.mono fun _ h => ⟨_, h⟩
    | unlock => exact I386.reaches_release hp

/-- Where a call makes its attempt. -/
theorem pc_attempt {arch : Arch} {p : Nat} {op : Mutex.Op} {l : Cpu Routine}
    (h : Attempt arch p op l) : l.pc.isSome ∧
      (op ≠ .unlock → l.pc = some (.CompareAndSwap32, exchange arch)) := by
  cases arch with
  | x86_64 =>
    cases op with
    | lock =>
      obtain ⟨bp, bx, r, s, zf, cf, rfl⟩ := h
      exact ⟨rfl, fun _ => rfl⟩
    | tryLock =>
      obtain ⟨r, s, zf, cf, rfl⟩ := h
      exact ⟨rfl, fun _ => rfl⟩
    | unlock =>
      obtain ⟨r, s, zf, cf, rfl⟩ := h
      exact ⟨rfl, fun hne => absurd rfl hne⟩
  | i386 =>
    cases op with
    | lock =>
      obtain ⟨bp, r, s, zf, cf, rfl⟩ := h
      exact ⟨rfl, fun _ => rfl⟩
    | tryLock =>
      obtain ⟨bp, r, s, zf, cf, rfl⟩ := h
      exact ⟨rfl, fun _ => rfl⟩
    | unlock =>
      obtain ⟨r, s, zf, cf, rfl⟩ := h
      exact ⟨rfl, fun hne => absurd rfl hne⟩

theorem result_attempt {arch : Arch} {p : Nat} {op : Mutex.Op} {l : Cpu Routine}
    (h : Attempt arch p op l) : (machine arch p).result l = none := by
  obtain ⟨pc, hpc⟩ := Option.isSome_iff_exists.mp (pc_attempt h).1
  exact Program.result_machine_of_some hpc

theorem load_eq_zero_iff {p : Nat} {m : Memory} : m.load p 4 = 0 ↔ wordOf p m = 0 := by
  rw [← toNat_wordOf, ← BitVec.toNat_inj]
  rfl

/-- An attempt of a call that calls `CompareAndSwap32`, by what its exchange finds. -/
theorem spec_of_swap {M : Machine (Cpu Routine) Memory Mutex.Op Bool} {p : Nat} {m m' : Memory}
    {l' : Cpu Routine} {op : Mutex.Op} {Pending Refused : Prop} (hop : op ≠ .unlock)
    (h : (m.load p 4 = 0 ∧ wordOf p m' = 1 ∧ M.Returning true l') ∨
      m.load p 4 ≠ 0 ∧ m' = m ∧ Refused)
    (hrefused : Refused → (op = .lock ∧ Pending) ∨ op = .tryLock ∧ M.Returning false l') :
    (wordOf p m' = wordOf p m ∧ Pending) ∨
      ∃ r, Mutex.Spec 0 1 op (wordOf p m) (wordOf p m') r ∧ M.Returning r l' := by
  rcases h with ⟨hzero, hone, hback⟩ | ⟨hzero, rfl, h⟩
  · refine Or.inr ⟨true, ?_, hback⟩
    rw [load_eq_zero_iff] at hzero
    cases op with
    | lock => exact ⟨hzero, hone, rfl⟩
    | tryLock => exact Or.inl ⟨hzero, hone, rfl⟩
    | unlock => exact absurd rfl hop
  · rcases hrefused h with ⟨-, hpending⟩ | ⟨rfl, hback⟩
    · exact Or.inl ⟨rfl, hpending⟩
    · exact Or.inr ⟨false, Or.inr ⟨fun h => hzero (load_eq_zero_iff.mpr h), rfl, rfl⟩, hback⟩

theorem step_attempt {arch : Arch} {p : Nat} (hp : p ≠ 0) (hfits : p + 4 ≤ 2 ^ arch.program.bits)
    {op : Mutex.Op} {l l' : Cpu Routine} {m m' : Memory} (h : Attempt arch p op l)
    (hstep : arch.program.step l m = some (l', m')) :
    (wordOf p m' = wordOf p m ∧ (machine arch p).Reaches (Attempt arch p op) l') ∨
      ∃ r, Mutex.Spec 0 1 op (wordOf p m) (wordOf p m') r ∧ (machine arch p).Returning r l' := by
  cases arch with
  | x86_64 =>
    cases op with
    | lock =>
      obtain ⟨bp, bx, hat⟩ := h
      exact spec_of_swap (nofun) (X86_64.swap_cases hp hfits hat hstep)
        (fun hpending => Or.inl ⟨rfl, Machine.Reaches.mono hpending fun _ h => ⟨_, _, h⟩⟩)
    | tryLock =>
      exact spec_of_swap (nofun) (X86_64.swap_cases hp hfits h hstep)
        (fun hback => Or.inr ⟨rfl, hback⟩)
    | unlock =>
      obtain ⟨hfree, b, hback⟩ := X86_64.release_cases hfits h hstep
      exact Or.inr ⟨b, hfree, hback⟩
  | i386 =>
    cases op with
    | lock =>
      obtain ⟨bp, hat⟩ := h
      exact spec_of_swap (nofun) (I386.swap_cases hp hfits hat hstep)
        (fun hpending => Or.inl ⟨rfl, Machine.Reaches.mono hpending fun _ h => ⟨_, h⟩⟩)
    | tryLock =>
      obtain ⟨bp, hat⟩ := h
      exact spec_of_swap (nofun) (I386.swap_cases hp hfits hat hstep)
        (fun hback => Or.inr ⟨rfl, hback⟩)
    | unlock =>
      obtain ⟨hfree, b, hback⟩ := I386.release_cases hfits h hstep
      exact Or.inr ⟨b, hfree, hback⟩

theorem implements {arch : Arch} {p : Nat} (hp : p ≠ 0) (hfits : p + 4 ≤ 2 ^ arch.program.bits) :
    (machine arch p).Implements (fun _ _ _ => True) (wordOf p) (Mutex.Spec 0 1)
      (fun op => (machine arch p).Reaches (Attempt arch p op)) := by
  have hmod : p % 2 ^ arch.program.bits ≠ 0 := by rwa [Nat.mod_eq_of_lt (by omega)]
  exact Machine.implements_of_attempt (fun _ _ => reaches_attempt hmod)
    (fun _ _ => result_attempt) (fun _ _ _ _ _ h _ => step_attempt hp hfits h)

end SpinLock

/-- In every state of every run at most one processor has the lock, the word says
whether one does, and a `SpinLockTry` that is back with `false` has made its exchange
on a word that was not zero. -/
theorem spinLock_exclusive (arch : Arch) {p : Nat} (hp : p ≠ 0)
    (hfits : p + 4 ≤ 2 ^ arch.program.bits) {ι : Type} [DecidableEq ι] {m : Memory}
    (hm : wordOf p m = 0) {s : System ι (Cpu Routine) Memory Mutex.Op Bool}
    (hrun : (SpinLock.machine arch p).Run Mutex.Permit (fun _ _ _ => True) (.start ι _ _ _ m) s) :
    (∀ i j, Mutex.Inside (SpinLock.machine arch p) s i ∨
        Mutex.JustAcquired (SpinLock.machine arch p) s i →
      Mutex.Inside (SpinLock.machine arch p) s j ∨
        Mutex.JustAcquired (SpinLock.machine arch p) s j → i = j) ∧
    (wordOf p s.shared = 1 ↔ ∃ i, Mutex.Inside (SpinLock.machine arch p) s i ∨
        Mutex.JustAcquired (SpinLock.machine arch p) s i) ∧
    ∀ i l, s.phase i = .busy .tryLock l → (SpinLock.machine arch p).result l = some false →
      ∃ s₁ l₁,
        (SpinLock.machine arch p).Run Mutex.Permit (fun _ _ _ => True) (.start ι _ _ _ m) s₁ ∧
        (SpinLock.machine arch p).Run Mutex.Permit (fun _ _ _ => True) s₁ s ∧
        s₁.past i = s.past i ∧ s₁.phase i = .busy .tryLock l₁ ∧
        l₁.pc = some (.CompareAndSwap32, SpinLock.exchange arch) ∧ wordOf p s₁.shared ≠ 0 := by
  have himp := SpinLock.implements hp hfits
  have hone : wordOf p (m.store p 4 1) = 1 := wordOf_store p 1 m
  obtain ⟨hunique, hword⟩ := Mutex.exclusive (by decide) himp hm hone hrun
  refine ⟨hunique, hword, fun i l hbusy hresult => ?_⟩
  have htook := Machine.took_effect himp.enter
    (fun _ _ _ _ _ h _ => SpinLock.step_attempt hp hfits h) (fun _ => rfl) hrun hbusy
  rcases htook with hpending | ⟨r, hreturning, s₁, l₁, w, hto, hrest, hpast, hphase, hat, hspec⟩
  · exact nomatch (himp.result _ _ hpending).symm.trans hresult
  · have hr : false = r := hreturning.result_eq hresult m
    subst hr
    refine ⟨s₁, l₁, hto, hrest, hpast, hphase, (SpinLock.pc_attempt hat).2 (nofun), ?_⟩
    rcases hspec with ⟨-, -, htrue⟩ | ⟨hne, -, -⟩
    · exact nomatch htrue
    · exact hne

/-- Two processors: one has the lock. -/
theorem spinLock_exclusive_two : ∃ s : System Bool (Cpu Routine) Memory Mutex.Op Bool,
    s.past true = [(.lock, true)] ∧ wordOf 0x1000 s.shared = 1 ∧
      ∀ i, Mutex.Inside (SpinLock.machine .x86_64 0x1000) s i ∨
        Mutex.JustAcquired (SpinLock.machine .x86_64 0x1000) s i → i = true := by
  have hcall : (SpinLock.machine .x86_64 0x1000).Enter .lock
      (Arch.x86_64.call .SpinLockLock (.word 0x1000) (.word 0) (.word 0) zeros) :=
    ⟨zeros, .word 0, .word 0, rfl⟩
  have hsteps : ∃ l, (SpinLock.machine .x86_64 0x1000).steps 25
        (Arch.x86_64.call .SpinLockLock (.word 0x1000) (.word 0) (.word 0) zeros) (fun _ => 0)
      = some (l, Memory.store (fun _ => 0) 0x1000 4 1) ∧
      (SpinLock.machine .x86_64 0x1000).result l = some true := ⟨_, rfl, rfl⟩
  obtain ⟨l, hsteps, hresult⟩ := hsteps
  have hpermit : Mutex.Permit [] .lock := fun h => nomatch h
  have hrun : (SpinLock.machine .x86_64 0x1000).Run Mutex.Permit (fun _ _ _ => True)
      (.start Bool _ _ _ fun _ => 0) _ :=
    Machine.run_call (i := true) rfl hpermit hcall (fun _ _ _ _ _ => trivial) hsteps hresult
  obtain ⟨hunique, -, -⟩ := spinLock_exclusive .x86_64 (by decide) (by decide) (by decide) hrun
  refine ⟨_, rfl, by decide, fun i hi => hunique i true hi (Or.inl ?_)⟩
  exact ⟨rfl, fun l hbusy => nomatch hbusy⟩

end Xeos.System.Atomic
