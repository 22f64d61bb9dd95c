import Xeos.Lib.StackCheck
import Xeos.System.AtomicBits

/-!
# What the i386 routines leave to their callers

Every routine of `System_Atomic.32.s` with any arguments and any registers: it returns with the
registers and the stack pointer of its caller, and the compare and swap routines swap.

`CompareAndSwap64` jumps behind its two `pop`s for a null pointer, and `SpinLockTry` behind the
`pop` and the addition that free its frame.
-/

namespace Xeos.System.Atomic

open Lib Lib.Smp Lib.Interleave

namespace I386

/-- A call of a routine, with as many words of arguments as it takes. -/
structure Call where
  routine : Routine
  args : Nat → BitVec 32

/-- The state in which the routine starts.  There is nothing known of the registers. -/
structure Call.Enter (call : Call) (c : Cpu Routine) : Prop where
  pc : c.pc = some (call.routine, 0)
  sp : c.regs.sp = .slot 0
  address : c.stack 0 = .loc none
  args : ∀ i : Nat, c.stack (4 * (i + 1)) = .word (call.args i).toNat

def Call.machine : Machine (Cpu Routine) Memory Call Bool :=
  I386.program.machine Call.Enter BitTest.result

/-- A value of `w` bytes at `p`, that which it should be and the new one. -/
structure Swap where
  w : Nat
  old : Nat
  new : Nat
  p : Nat

/-- Swap where the value is the old one, and return whether it was. -/
def Swap.effect (swap : Swap) (m : Memory) : Memory × Bool :=
  if m.load swap.p swap.w = swap.old then (m.store swap.p swap.w swap.new, true) else (m, false)

/-- The arguments of the compare and swap routines: those of 64 bits are two words. -/
def Call.swap (call : Call) : Option Swap :=
  let arg := fun i => (call.args i).toNat
  match call.routine with
  | .CompareAndSwap8 => some ⟨1, arg 0 % 2 ^ 8, arg 1 % 2 ^ 8, arg 2⟩
  | .CompareAndSwap16 => some ⟨2, arg 0 % 2 ^ 16, arg 1 % 2 ^ 16, arg 2⟩
  | .CompareAndSwap32 => some ⟨4, arg 0, arg 1, arg 2⟩
  | .CompareAndSwap64 => some ⟨8, arg 0 + 2 ^ 32 * arg 1, arg 2 + 2 ^ 32 * arg 3, arg 4⟩
  | _ => none

/-- What a call should do, whatever the other processors do to the memory. -/
structure Call.Safe (call : Call) (c : Cpu Routine) : Prop where
  returns : I386.program.ReturnsClean c
  swaps : ∀ swap, call.swap = some swap →
    if swap.p = 0 then Machine.Returning Call.machine false c
    else Machine.Acts Call.machine swap.effect c

/-! ## The stack -/

/-- The routines that keep the stack for all arguments. -/
def cleanRoutines : List Routine :=
  [.MemoryBarrier, .CompareAndSwap8, .CompareAndSwap16, .CompareAndSwap32, .CompareAndSwapChar,
    .CompareAndSwapShort, .CompareAndSwapInt, .CompareAndSwapLong, .CompareAndSwapPtr,
    .TestAndClear, .TestAndSet, .And32, .Or32, .Xor32, .Add32, .Add64, .Decrement32,
    .Decrement64, .Increment32, .Increment64, .SpinLockLock, .SpinLockUnlock]

theorem cleanRoutines_checked : ∀ n ∈ cleanRoutines, I386.program.code n ≠ [] ∧
    StackCheck.Checked I386.program cleanRoutines (StackCheck.Shape.start []) n = true := by
  decide

section

variable {call : Call} {c : Cpu Routine}

theorem returnsClean_of_mem (h : call.Enter c) (hmem : call.routine ∈ cleanRoutines) :
    I386.program.ReturnsClean c :=
  StackCheck.returns_of_checked cleanRoutines_checked (cleanRoutines_checked _ hmem).1
    (cleanRoutines_checked _ hmem).2 h.pc h.sp (fun _ hoff => absurd hoff List.not_mem_nil)

/-- The routines whose argument `i` is a pointer that is not null. -/
theorem returnsClean_of_pointer {i : Nat} (h : call.Enter c)
    (hchecked : StackCheck.Checked I386.program cleanRoutines
      (StackCheck.Shape.start [4 * (i + 1)]) call.routine = true)
    (hcode : I386.program.code call.routine ≠ []) (harg : call.args i ≠ 0) :
    I386.program.ReturnsClean c := by
  refine StackCheck.returns_of_checked cleanRoutines_checked hcode hchecked h.pc h.sp ?_
  intro off hoff
  rw [List.mem_singleton.mp hoff, Int.zero_add]
  refine ⟨_, h.args i, ?_⟩
  rw [show I386.program.bits = 32 from rfl, Nat.mod_eq_of_lt (call.args i).isLt]
  exact fun hzero => harg (BitVec.toNat_inj.mp hzero)

/-- The states at the entry, with the first five arguments in the stack. -/
theorem Call.Enter.eq (h : call.Enter c) :
    c = ⟨some (call.routine, 0), { c.regs with sp := .slot 0 },
      withCells c.stack [(0, .loc none), (4, .word (call.args 0).toNat),
        (8, .word (call.args 1).toNat), (12, .word (call.args 2).toNat),
        (16, .word (call.args 3).toNat), (20, .word (call.args 4).toNat)], c.zf, c.cf⟩ := by
  have hstack : withCells c.stack [(0, .loc none), (4, .word (call.args 0).toNat),
      (8, .word (call.args 1).toNat), (12, .word (call.args 2).toNat),
      (16, .word (call.args 3).toNat), (20, .word (call.args 4).toNat)] = c.stack := by
    funext off
    simp only [withCells]
    split_ifs with h0 h4 h8 h12 h16 h20
    · rw [h0, h.address]
    · rw [h4, ← h.args 0]
      rfl
    · rw [h8, ← h.args 1]
      rfl
    · rw [h12, ← h.args 2]
      rfl
    · rw [h16, ← h.args 3]
      rfl
    · rw [h20, ← h.args 4]
      rfl
    · rfl
  rw [hstack, ← h.pc, ← h.sp]

/-- A walk to the `ret` with the stack pointer elsewhere. -/
theorem not_returnsClean_of_walk (h : call.Enter c) {j : Nat} {off : Int} (hoff : off ≠ 0)
    (hwalk : ∃ c', I386.program.walk j 0 c = some (0, c') ∧
      I386.program.instrAt c' = some .ret ∧ c'.regs.sp = .slot off) :
    ¬ I386.program.ReturnsClean c := by
  intro hclean
  obtain ⟨c', hwalk, hinstr, hsp⟩ := hwalk
  have hkept := (hclean c' (Program.Visits.start.walk hwalk) hinstr).sp
  rw [hsp, h.sp] at hkept
  exact hoff (Val.slot.inj hkept)

/-- For a null pointer `CompareAndSwap64` jumps behind its two `pop`s. -/
theorem not_returnsClean_swap64 (h : call.Enter c) (hroutine : call.routine = .CompareAndSwap64)
    (hnull : call.args 4 = 0) : ¬ I386.program.ReturnsClean c := by
  refine not_returnsClean_of_walk h (j := 6) (show (0 - 4 - 4 : Int) ≠ 0 by decide) ?_
  rw [h.eq, hroutine, hnull]
  exact ⟨_, rfl, rfl, rfl⟩

/-- For a null pointer `SpinLockTry` jumps behind what frees its frame. -/
theorem not_returnsClean_tryLock (h : call.Enter c) (hroutine : call.routine = .SpinLockTry)
    (hnull : call.args 0 = 0) : ¬ I386.program.ReturnsClean c := by
  refine not_returnsClean_of_walk h (j := 6) (show (0 - 4 - 24 : Int) ≠ 0 by decide) ?_
  rw [h.eq, hroutine, hnull]
  exact ⟨_, rfl, rfl, rfl⟩

end

/-! ## The exchange -/

/-- A state of `CompareAndSwap8`, `CompareAndSwap16` and `CompareAndSwap32`. -/
def inShort (routine : Routine) (x y p k : Nat) (r : Regs Routine) (s : Int → Val Routine)
    (zf cf : Bool) : Cpu Routine :=
  ⟨some (routine, k), { r with sp := .slot 0 },
    withCells s [(0, .loc none), (4, .word x), (8, .word y), (12, .word p)], zf, cf⟩

/-- The width in bits of one of these routines. -/
def shortWidth : Routine → Option Nat
  | .CompareAndSwap8 => some 8
  | .CompareAndSwap16 => some 16
  | .CompareAndSwap32 => some 32
  | _ => none

section

variable {routine : Routine} {w x y p : Nat} {r : Regs Routine} {s : Int → Val Routine}
variable {zf cf : Bool} {m : Memory}

/-- Up to the test of the pointer. -/
theorem silent_test_short (hw : shortWidth routine = some w) :
    I386.program.silent 3 (inShort routine x y p 0 r s zf cf)
      = some (inShort routine x y p 3 { r with ax := .word 0, cx := .word p } s
        (p % 2 ^ 32 == 0) (decide (p % 2 ^ 32 < 0))) := by
  cases routine with
  | CompareAndSwap8 | CompareAndSwap16 | CompareAndSwap32 => rfl
  | _ => exact nomatch hw

/-- From there to the locked instruction. -/
theorem silent_args_short (hw : shortWidth routine = some w) :
    I386.program.silent 3 (inShort routine x y p 3 r s false cf)
      = some (inShort routine x y p 6 { r with ax := .word x, dx := .word y } s false cf) := by
  cases routine with
  | CompareAndSwap8 | CompareAndSwap16 | CompareAndSwap32 => rfl
  | _ => exact nomatch hw

/-- The zero flag is the result. -/
theorem returning_of_short {v : Nat} (hw : shortWidth routine = some w) :
    Machine.Returning Call.machine zf
      (inShort routine x y p 7 { r with ax := .word v } s zf cf) := by
  have hflag : I386.program.silent 2 (inShort routine x y p 7 { r with ax := .word v } s zf cf)
      = some (inShort routine x y p 9
        { r with ax := .word ((v / 2 ^ 8 * 2 ^ 8 + zf.toNat) % 2 ^ 8) } s zf cf) := by
    cases routine with
    | CompareAndSwap8 | CompareAndSwap16 | CompareAndSwap32 => rfl
    | _ => exact nomatch hw
  have hlow : (v / 2 ^ 8 * 2 ^ 8 + zf.toNat) % 2 ^ 8 = zf.toNat := by
    have hle : zf.toNat ≤ 1 := Bool.toNat_le zf
    omega
  rw [hlow] at hflag
  have hback : ∃ l', I386.program.silent 1
        (inShort routine x y p 9 { r with ax := .word zf.toNat } s zf cf)
      = some l' ∧ l'.pc = none ∧ BitTest.result l' = some zf := by
    cases routine with
    | CompareAndSwap8 | CompareAndSwap16 | CompareAndSwap32 => cases zf <;> exact ⟨_, rfl, rfl, rfl⟩
    | _ => exact nomatch hw
  obtain ⟨l', hback, hpc, hresult⟩ := hback
  exact Program.reaches_of_silent rfl hflag (Program.reaches_of_silent rfl hback
    (.here ((Program.result_machine hpc).trans hresult)))

/-- A call with a null pointer. -/
theorem returning_null_short (hw : shortWidth routine = some w) (hp : p % 2 ^ 32 = 0) :
    Machine.Returning Call.machine false (inShort routine x y p 0 r s zf cf) := by
  have hzf : (p % 2 ^ 32 == 0) = true := beq_iff_eq.mpr hp
  have htest := @silent_test_short routine w x y p r s zf cf hw
  rw [hzf] at htest
  have hback : ∃ l', I386.program.silent 2 (inShort routine x y p 3
        { r with ax := .word 0, cx := .word p } s true (decide (p % 2 ^ 32 < 0)))
      = some l' ∧ l'.pc = none ∧ BitTest.result l' = some false := by
    cases routine with
    | CompareAndSwap8 | CompareAndSwap16 | CompareAndSwap32 => exact ⟨_, rfl, rfl, rfl⟩
    | _ => exact nomatch hw
  obtain ⟨l', hback, hpc, hresult⟩ := hback
  exact Program.reaches_of_silent rfl htest (Program.reaches_of_silent rfl hback
    (.here ((Program.result_machine hpc).trans hresult)))

theorem step_short (hw : shortWidth routine = some w) :
    I386.program.step (inShort routine x y p 6
        { r with ax := .word x, cx := .word p, dx := .word y } s zf cf) m
      = I386.program.execLocked (inShort routine x y p 7
          { r with ax := .word x, cx := .word p, dx := .word y } s zf cf) m
        (.cmpxchg w (.mem .cx 0) .dx) := by
  cases routine with
  | CompareAndSwap8 | CompareAndSwap16 | CompareAndSwap32 =>
    rw [← Option.some.inj hw]
    rfl
  | _ => exact nomatch hw

/-- The accumulator after an exchange that failed. -/
theorem merge_word (w a b : Nat) :
    ∃ v, Program.merge w (.word a) (.word b : Val Routine) = some (.word v) := by
  unfold Program.merge
  split_ifs
  · exact ⟨b, rfl⟩
  · exact ⟨_, rfl⟩

/-- A call with a pointer. -/
theorem acts_short (hw : shortWidth routine = some w) (hp : p % 2 ^ 32 ≠ 0) :
    Machine.Acts Call.machine
      (Swap.effect ⟨w / 8, x % 2 ^ w, y % 2 ^ w, p % 2 ^ 32⟩)
      (inShort routine x y p 0 r s zf cf) := by
  have hzf : (p % 2 ^ 32 == 0) = false := beq_eq_false_iff_ne.mpr hp
  have htest := @silent_test_short routine w x y p r s zf cf hw
  rw [hzf] at htest
  refine Program.reaches_of_silent rfl htest (Program.reaches_of_silent rfl
    (silent_args_short hw) (.here fun m => ?_))
  have hstep := (@step_short routine w x y p r s false (decide (p % 2 ^ 32 < 0)) m hw).trans
    (I386.program.execLocked_cmpxchg (a := p % 2 ^ 32) (e := x % 2 ^ w) (v := y % 2 ^ w)
      rfl rfl rfl)
  unfold Swap.effect
  dsimp only
  by_cases hm : m.load (p % 2 ^ 32) (w / 8) = x % 2 ^ w
  · rw [if_pos hm] at hstep ⊢
    exact ⟨_, hstep, returning_of_short (r := { r with cx := .word p, dx := .word y }) hw⟩
  · obtain ⟨v, hv⟩ := merge_word w x (m.load (p % 2 ^ 32) (w / 8))
    have hmerge : Program.merge w (inShort routine x y p 7
        { r with ax := .word x, cx := .word p, dx := .word y } s false
          (decide (p % 2 ^ 32 < 0))).regs.ax (.word (m.load (p % 2 ^ 32) (w / 8)))
        = some (.word v) := hv
    rw [if_neg hm, hmerge] at hstep
    rw [if_neg hm]
    exact ⟨_, hstep, returning_of_short (r := { r with cx := .word p, dx := .word y }) hw⟩

end

/-- The stack of `CompareAndSwap64` with its arguments. -/
def longStack (call : Call) (s : Int → Val Routine) : Int → Val Routine :=
  withCells s [(0, .loc none), (4, .word (call.args 0).toNat), (8, .word (call.args 1).toNat),
    (12, .word (call.args 2).toNat), (16, .word (call.args 3).toNat),
    (20, .word (call.args 4).toNat)]

/-- A state of `CompareAndSwap64` behind its two `push`es. -/
def inLong (call : Call) (k : Nat) (r : Regs Routine) (b i : Val Routine)
    (s : Int → Val Routine) (zf cf : Bool) : Cpu Routine :=
  ⟨some (.CompareAndSwap64, k), { r with sp := .slot (0 - 4 - 4) },
    withCells (longStack call s) [(0 - 4 - 4, i), (0 - 4, b)], zf, cf⟩

section

variable {call : Call} {r : Regs Routine} {b i : Val Routine} {s : Int → Val Routine}
variable {zf cf : Bool} {m : Memory}

/-- Up to the test of the pointer. -/
theorem silent_test_long : I386.program.silent 5
      ⟨some (.CompareAndSwap64, 0), { r with sp := .slot 0 }, longStack call s, zf, cf⟩
    = some (inLong call 5 { r with ax := .word 0, si := .word (call.args 4).toNat } r.bx r.si s
      ((call.args 4).toNat % 2 ^ 32 == 0) (decide ((call.args 4).toNat % 2 ^ 32 < 0))) := rfl

/-- From there to the locked instruction. -/
theorem silent_args_long : I386.program.silent 5 (inLong call 5 r b i s false cf)
    = some (inLong call 10 { r with
        ax := .word (call.args 0).toNat
        dx := .word (call.args 1).toNat
        bx := .word (call.args 2).toNat
        cx := .word (call.args 3).toNat } b i s false cf) := rfl

/-- The zero flag is the result. -/
theorem returning_of_long {v : Nat} (hax : r.ax = .word v) :
    Machine.Returning Call.machine zf (inLong call 11 r b i s zf cf) := by
  have hflag : I386.program.silent 2 (inLong call 11 { r with ax := .word v } b i s zf cf)
      = some (inLong call 13
        { r with ax := .word ((v / 2 ^ 8 * 2 ^ 8 + zf.toNat) % 2 ^ 8) } b i s zf cf) := rfl
  have hlow : (v / 2 ^ 8 * 2 ^ 8 + zf.toNat) % 2 ^ 8 = zf.toNat := by
    have hle : zf.toNat ≤ 1 := Bool.toNat_le zf
    omega
  rw [hlow, ← hax] at hflag
  have hback : ∃ l', I386.program.silent 3
        (inLong call 13 { r with ax := .word zf.toNat } b i s zf cf)
      = some l' ∧ l'.pc = none ∧ BitTest.result l' = some zf := by
    cases zf <;> exact ⟨_, rfl, rfl, rfl⟩
  obtain ⟨l', hback, hpc, hresult⟩ := hback
  exact Program.reaches_of_silent rfl hflag (Program.reaches_of_silent rfl hback
    (.here ((Program.result_machine hpc).trans hresult)))

theorem step_long : I386.program.step (inLong call 10 r b i s zf cf) m
    = I386.program.execLocked (inLong call 11 r b i s zf cf) m (.cmpxchg8b (.mem .si 0)) := rfl

theorem setZf_long : { inLong call 11 r b i s zf cf with zf := true }
    = inLong call 11 r b i s true cf := rfl

theorem setReg_long (u v : Val Routine) :
    { Program.setReg (Program.setReg (inLong call 11 r b i s zf cf) .ax u) .dx v with zf := false }
      = inLong call 11 { r with ax := u, dx := v } b i s false cf := rfl

/-- What should be swapped. -/
def longSwap (call : Call) : Swap where
  w := 8
  old := (call.args 0).toNat + 2 ^ 32 * (call.args 1).toNat
  new := (call.args 2).toNat + 2 ^ 32 * (call.args 3).toNat
  p := (call.args 4).toNat

/-- The locked instruction. -/
theorem exchange_long (hax : r.ax = .word (call.args 0).toNat)
    (hdx : r.dx = .word (call.args 1).toNat) (hbx : r.bx = .word (call.args 2).toNat)
    (hcx : r.cx = .word (call.args 3).toNat) (hsi : r.si = .word (call.args 4).toNat) :
    ∃ l', Call.machine.step (inLong call 10 r b i s zf cf) m
        = some (l', ((longSwap call).effect m).1) ∧
      Machine.Returning Call.machine ((longSwap call).effect m).2 l' := by
  have hlow : ∀ j, ∀ v, v = .word (call.args j).toNat →
      Program.low 32 (v : Val Routine) = some (call.args j).toNat := by
    rintro j _ rfl
    exact congrArg some (Nat.mod_eq_of_lt (call.args j).isLt)
  have haddress : I386.program.address (inLong call 11 r b i s zf cf) .si 0
      = some (call.args 4).toNat := by
    rw [Program.address, show (inLong call 11 r b i s zf cf).regs.get .si = r.si from rfl, hsi]
    exact congrArg some (Nat.mod_eq_of_lt (call.args 4).isLt)
  have hstep : Call.machine.step (inLong call 10 r b i s zf cf) m = _ :=
    (@step_long call r b i s zf cf m).trans (I386.program.execLocked_cmpxchg8b m .si 0 _ haddress
      (hlow 0 _ hax) (hlow 1 _ hdx) (hlow 2 _ hbx) (hlow 3 _ hcx))
  by_cases hm : m.load (call.args 4).toNat 8
      = (call.args 0).toNat + 2 ^ 32 * (call.args 1).toNat
  · rw [if_pos hm, setZf_long] at hstep
    have heffect : (longSwap call).effect m
        = (m.store (call.args 4).toNat 8 (longSwap call).new, true) := if_pos hm
    rw [heffect]
    exact ⟨_, hstep, returning_of_long hax⟩
  · rw [if_neg hm, setReg_long] at hstep
    have heffect : (longSwap call).effect m = (m, false) := if_neg hm
    rw [heffect]
    exact ⟨_, hstep, returning_of_long rfl⟩

/-- A call with a pointer. -/
theorem acts_long (hp : call.args 4 ≠ 0) :
    Machine.Acts Call.machine (longSwap call).effect
      ⟨some (.CompareAndSwap64, 0), { r with sp := .slot 0 }, longStack call s, zf, cf⟩ := by
  have hzf : ((call.args 4).toNat % 2 ^ 32 == 0) = false := by
    rw [Nat.mod_eq_of_lt (call.args 4).isLt]
    exact beq_eq_false_iff_ne.mpr fun hzero => hp (BitVec.toNat_inj.mp hzero)
  have htest := @silent_test_long call r s zf cf
  rw [hzf] at htest
  generalize decide ((call.args 4).toNat % 2 ^ 32 < 0) = cf₁ at htest
  have hargs := @silent_args_long call
    { r with ax := .word 0, si := .word (call.args 4).toNat } r.bx r.si s cf₁
  refine Program.reaches_of_silent rfl htest (Program.reaches_of_silent rfl hargs
    (.here fun m => ?_))
  have hexchange := fun r' : Regs Routine => @exchange_long call r' r.bx r.si s false cf₁ m
  exact hexchange _ rfl rfl rfl rfl rfl

end

/-! ## The calls -/

section

variable {call : Call} {c : Cpu Routine}

/-- A compare and swap of up to 32 bits. -/
theorem swaps_short {w : Nat} (h : call.Enter c) (hw : shortWidth call.routine = some w) :
    if (call.args 2).toNat = 0 then Machine.Returning Call.machine false c
    else Machine.Acts Call.machine (Swap.effect ⟨w / 8, (call.args 0).toNat % 2 ^ w,
      (call.args 1).toNat % 2 ^ w, (call.args 2).toNat⟩) c := by
  have hmod : (call.args 2).toNat % 2 ^ 32 = (call.args 2).toNat :=
    Nat.mod_eq_of_lt (call.args 2).isLt
  have heq : c = inShort call.routine (call.args 0).toNat (call.args 1).toNat
      (call.args 2).toNat 0 c.regs (withCells c.stack [(16, .word (call.args 3).toNat),
        (20, .word (call.args 4).toNat)]) c.zf c.cf := h.eq
  rw [heq]
  split_ifs with hp
  · exact returning_null_short hw (by rw [hmod]; exact hp)
  · have hacts := @acts_short call.routine w (call.args 0).toNat (call.args 1).toNat
      (call.args 2).toNat c.regs (withCells c.stack [(16, .word (call.args 3).toNat),
        (20, .word (call.args 4).toNat)]) c.zf c.cf hw (by rw [hmod]; exact hp)
    rw [hmod] at hacts
    exact hacts

/-- The compare and swap routines swap, unless the pointer of `CompareAndSwap64` is null. -/
theorem swaps_of_pointer (h : call.Enter c)
    (hpointer : ¬ (call.routine = .CompareAndSwap64 ∧ call.args 4 = 0)) {swap : Swap}
    (hswap : call.swap = some swap) :
    if swap.p = 0 then Machine.Returning Call.machine false c
    else Machine.Acts Call.machine swap.effect c := by
  have hmod : ∀ j, (call.args j).toNat % 2 ^ 32 = (call.args j).toNat :=
    fun j => Nat.mod_eq_of_lt (call.args j).isLt
  unfold Call.swap at hswap
  split at hswap
  · next hroutine =>
    rw [← Option.some.inj hswap]
    exact swaps_short h (congrArg shortWidth hroutine)
  · next hroutine =>
    rw [← Option.some.inj hswap]
    exact swaps_short h (congrArg shortWidth hroutine)
  · next hroutine =>
    have hshort := swaps_short h (congrArg shortWidth hroutine)
    rw [hmod, hmod] at hshort
    rw [← Option.some.inj hswap]
    exact hshort
  · next hroutine =>
    have hp : call.args 4 ≠ 0 := fun hzero => hpointer ⟨hroutine, hzero⟩
    have hne : (call.args 4).toNat ≠ 0 := fun hzero => hp (BitVec.toNat_inj.mp hzero)
    have heq := h.eq
    rw [hroutine] at heq
    rw [← Option.some.inj hswap]
    dsimp only
    rw [if_neg hne, heq]
    exact @acts_long call c.regs c.stack c.zf c.cf hp
  · exact nomatch hswap

end

/-- Exactly the calls of `CompareAndSwap64` and `SpinLockTry` with a null pointer do not return
clean; the compare and swap routines do what they should in all other calls. -/
theorem cleanCall_iff (call : Call) (c : Cpu Routine) (h : call.Enter c) :
    call.Safe c ↔ ¬ (call.routine = .CompareAndSwap64 ∧ call.args 4 = 0) ∧
      ¬ (call.routine = .SpinLockTry ∧ call.args 0 = 0) := by
  constructor
  · intro hsafe
    exact ⟨fun ⟨hroutine, hnull⟩ => not_returnsClean_swap64 h hroutine hnull hsafe.returns,
      fun ⟨hroutine, hnull⟩ => not_returnsClean_tryLock h hroutine hnull hsafe.returns⟩
  · rintro ⟨hswap, htry⟩
    refine ⟨?_, fun swap => swaps_of_pointer h hswap⟩
    by_cases hclean : call.routine ∈ cleanRoutines
    · exact returnsClean_of_mem h hclean
    · cases hroutine : call.routine with
      | CompareAndSwap64 =>
        refine returnsClean_of_pointer (i := 4) h ?_ ?_ fun hnull => hswap ⟨hroutine, hnull⟩
        · rw [hroutine]
          decide
        · rw [hroutine]
          decide
      | SpinLockTry =>
        refine returnsClean_of_pointer (i := 0) h ?_ ?_ fun hnull => htry ⟨hroutine, hnull⟩
        · rw [hroutine]
          decide
        · rw [hroutine]
          decide
      | _ =>
        rw [hroutine] at hclean
        exact absurd (by decide) hclean

/-- The state in which a caller with zeros in its registers leaves the call. -/
def enter (call : Call) : Cpu Routine where
  pc := some (call.routine, 0)
  regs := { zeros.regs with sp := .slot 0 }
  stack off := if off = 0 then .loc none else .word (call.args (off / 4 - 1).toNat).toNat
  zf := false
  cf := false

theorem enter_enter (call : Call) : call.Enter (enter call) := by
  refine ⟨rfl, rfl, rfl, fun i => ?_⟩
  have hne : 4 * ((i : Int) + 1) ≠ 0 := by omega
  have harg : (4 * ((i : Int) + 1) / 4 - 1).toNat = i := by omega
  rw [enter]
  dsimp only
  rw [if_neg hne, harg]

/-- A swap at `0x1000`. -/
theorem cleanCall_iff_swap64 :
    Call.Safe ⟨.CompareAndSwap64, fun _ => 0x1000⟩ (enter ⟨.CompareAndSwap64, fun _ => 0x1000⟩) :=
  (cleanCall_iff _ _ (enter_enter _)).mpr ⟨by decide, by decide⟩

/-- With a null pointer the `ret` of `CompareAndSwap64` takes a saved register for its return
address. -/
theorem not_safe_swap64 :
    (∃ c, I386.program.walk 6 0 (enter ⟨.CompareAndSwap64, fun _ => 0⟩) = some (0, c) ∧
      I386.program.instrAt c = some .ret ∧ c.regs.sp = .slot (-8)) ∧
    ¬ Call.Safe ⟨.CompareAndSwap64, fun _ => 0⟩ (enter ⟨.CompareAndSwap64, fun _ => 0⟩) :=
  ⟨⟨_, rfl, rfl, rfl⟩,
    fun hsafe => not_returnsClean_swap64 (enter_enter _) rfl rfl hsafe.returns⟩

end I386

end Xeos.System.Atomic
