import Xeos.C99.Dispatch

/-!
# The frame of the string routines

`memchr`, `memset` and `memcpy` of the i386 push the registers that belong to their caller and
fetch the arguments from the stack.  The x86-64 convention has the arguments in registers, and
these functions use no register that belongs to the caller.
-/

namespace Xeos.C99

open Lib Lib.Asm

/-- The processors that the assembly routines are written for. -/
inductive Arch where
  | i386 | x86_64
deriving DecidableEq, Repr

namespace Arch

def bits : Arch → Nat
  | i386 => 32
  | x86_64 => 64

/-- The registers that the convention leaves to the caller. -/
def saved : Arch → List Reg
  | i386 => [.bx, .si, .di]
  | x86_64 => [.bx, .r12, .r13, .r14, .r15]

/-- The first instructions of a function: three arguments to `edi`, `esi` and `edx`. -/
def enter {L : Type} : Arch → List (Instr L)
  | i386 =>
    [.pushBp, .movBpSp, .push .di, .push .si, .push .bx,
      .mov 32 .di (.bpSlot 8), .mov 32 .si (.bpSlot 12), .mov 32 .dx (.bpSlot 16)]
  | x86_64 => []

/-- How many they are. -/
def enterLength : Arch → Nat
  | i386 => 8
  | x86_64 => 0

/-- The last ones. -/
def leave {L : Type} : Arch → List (Instr L)
  | i386 => [.pop .bx, .pop .si, .pop .di, .popBp, .ret]
  | x86_64 => [.ret]

end Arch

/-- A call with three arguments, as the convention passes them. -/
structure Call (a : Arch) (x y z : Nat) (c : Cpu) : Prop where
  caller : c.stack c.sp = .caller
  args : match a with
    | .i386 => c.stack (c.sp + 4) = .word x ∧ c.stack (c.sp + 8) = .word y ∧
        c.stack (c.sp + 12) = .word z
    | .x86_64 => c.regs.di = x ∧ c.regs.si = y ∧ c.regs.dx = z

/-- The function was called in the state `c₀`, and has its frame in `c`. -/
structure Inside (a : Arch) (c₀ c : Cpu) : Prop where
  stack : ∀ k ≥ c₀.sp, c.stack k = c₀.stack k
  frame : match a with
    | .i386 => c.sp = c₀.sp - 16 ∧ c.bp = .slot (c₀.sp - 4) ∧
        c.stack (c₀.sp - 16) = .word c₀.regs.bx ∧ c.stack (c₀.sp - 12) = .word c₀.regs.si ∧
        c.stack (c₀.sp - 8) = .word c₀.regs.di ∧ c.stack (c₀.sp - 4) = c₀.bp
    | .x86_64 => c.sp = c₀.sp ∧ c.bp = c₀.bp ∧ ∀ r ∈ a.saved, c.regs.get r = c₀.regs.get r

/-- The function that was called in the state `c₀` has returned as the convention says. -/
structure Unwound (a : Arch) (c₀ c : Cpu) : Prop where
  regs : ∀ r ∈ a.saved, c.regs.get r = c₀.regs.get r
  bp : c.bp = c₀.bp
  sp : c.sp = c₀.sp + (a.bits / 8 : Nat)

variable {L : Type} {a : Arch} {p : Program L} {cpuid : X86.Cpuid} {l : L} {i x y z : Nat}
  {c₀ c c' : Cpu} {ws : List Reg}

theorem Inside.kept (h : Inside a c₀ c) (hkept : Kept ws c c')
    (hws : a = .x86_64 → ∀ r ∈ Arch.saved .x86_64, r ∉ ws) : Inside a c₀ c' := by
  refine ⟨fun k hk => (congrFun hkept.stack k).trans (h.stack k hk), ?_⟩
  have hframe := h.frame
  cases a with
  | i386 => rwa [hkept.sp, hkept.bp, hkept.stack]
  | x86_64 =>
    obtain ⟨hsp, hbp, hregs⟩ := hframe
    exact ⟨hkept.sp.trans hsp, hkept.bp.trans hbp,
      fun r hr => (hkept.reg r (hws rfl r hr)).trans (hregs r hr)⟩

/-- A word below the frame does not belong to it. -/
theorem Inside.stack_of_le (h : Inside .i386 c₀ c)
    (hstack : ∀ k ≥ c.sp, c'.stack k = c.stack k) (hsp : c'.sp = c.sp) (hbp : c'.bp = c.bp) :
    Inside .i386 c₀ c' := by
  obtain ⟨hsp₀, hbp₀, hbx, hsi, hdi, hsaved⟩ := h.frame
  refine ⟨fun k hk => (hstack k (by omega)).trans (h.stack k hk), hsp.trans hsp₀, hbp.trans hbp₀,
    ?_, ?_, ?_, ?_⟩
  · exact (hstack _ (by omega)).trans hbx
  · exact (hstack _ (by omega)).trans hsi
  · exact (hstack _ (by omega)).trans hdi
  · exact (hstack _ (by omega)).trans hsaved

/-- The state behind the pushes of `enter`. -/
def framed32 (c : Cpu) : Cpu :=
  push 32 (push 32 (push 32 { push 32 c c.bp with bp := .slot (c.sp - 4) } (.word c.regs.di))
    (.word c.regs.si)) (.word c.regs.bx)

theorem stack_framed32 (c : Cpu) (b : Int) : (framed32 c).stack b =
    if b = c.sp - 16 then .word c.regs.bx else if b = c.sp - 12 then .word c.regs.si
    else if b = c.sp - 8 then .word c.regs.di else if b = c.sp - 4 then c.bp else c.stack b := by
  have h : ∀ k : Int, c.sp - 4 - k = c.sp - (4 + k) := fun k => by omega
  simp only [framed32, push, Cpu.setSlot]
  norm_num [sub_sub]

theorem inside_framed32 (c : Cpu) : Inside .i386 c (framed32 c) where
  stack k hk := by
    rw [stack_framed32, if_neg (by omega), if_neg (by omega), if_neg (by omega),
      if_neg (by omega)]
  frame := by
    refine ⟨?_, rfl, ?_, ?_, ?_, ?_⟩
    · show c.sp - 4 - 4 - 4 - 4 = c.sp - 16
      omega
    · rw [stack_framed32, if_pos rfl]
    · rw [stack_framed32, if_neg (by omega), if_pos rfl]
    · rw [stack_framed32, if_neg (by omega), if_neg (by omega), if_pos rfl]
    · rw [stack_framed32, if_neg (by omega), if_neg (by omega), if_neg (by omega), if_pos rfl]

/-- What `enter` does. -/
structure Entered (a : Arch) (x y z : Nat) (c c' : Cpu) : Prop extends Inside a c c' where
  di : c'.regs.di = x
  si : c'.regs.si = y
  dx : c'.regs.dx = z
  mem : c'.mem = c.mem

variable (cpuid)

theorem run_enter (h : Call a x y z c) :
    ∃ c', run alu a.bits cpuid (a.enter (L := L)) c = .next c' ∧ Entered a x y z c c' := by
  have hargs := h.args
  cases a with
  | x86_64 =>
    obtain ⟨hdi, hsi, hdx⟩ := hargs
    exact ⟨c, rfl, ⟨⟨fun _ _ => rfl, rfl, rfl, fun _ _ => rfl⟩, hdi, hsi, hdx, rfl⟩⟩
  | i386 =>
    obtain ⟨hx, hy, hz⟩ := hargs
    have harg : ∀ (k : Nat) v, c.stack (c.sp + k) = .word v →
        (framed32 c).stack (c.sp - 4 + (4 + k : Nat)) = .word v := by
      intro k v hv
      rw [(inside_framed32 c).stack _ (by omega), ← hv]
      congr 1
      omega
    have hfirst : run alu 32 cpuid (Arch.i386.enter (L := L)) c
        = run alu 32 cpuid (Arch.i386.enter.drop 5) (framed32 c) := rfl
    have hload₁ : exec (L := L) alu 32 (framed32 c) cpuid (.mov 32 .di (.bpSlot 8)) = _ :=
      exec_mov_bpSlot rfl (harg 4 x hx) (by decide)
    have hload₂ : exec (L := L) alu 32 ((framed32 c).setReg .di x) cpuid
        (.mov 32 .si (.bpSlot 12)) = _ :=
      exec_mov_bpSlot rfl (harg 8 y hy) (by decide)
    have hload₃ : exec (L := L) alu 32 (((framed32 c).setReg .di x).setReg .si y) cpuid
        (.mov 32 .dx (.bpSlot 16)) = _ :=
      exec_mov_bpSlot rfl (harg 12 z hz) (by decide)
    have hkept : Kept [.di, .si, .dx] (framed32 c)
        ((((framed32 c).setReg .di x).setReg .si y).setReg .dx z) :=
      (((Kept.refl _).setReg _ _).setReg _ _).setReg _ _
    refine ⟨_, ?_, ((inside_framed32 c).kept hkept (by intro h; cases h)), rfl, rfl, rfl, rfl⟩
    show run alu 32 cpuid Arch.i386.enter c = _
    rw [hfirst]
    simp only [Arch.enter, List.drop_succ_cons, List.drop_zero]
    rw [run_match, hload₁]
    dsimp only
    rw [run_match, hload₂]
    dsimp only
    rw [run_match, hload₃]
    rfl

theorem enter_straight {rest : List (Instr L)} (hbits : p.bits = a.bits)
    (hblock : p.block l = a.enter ++ rest) (h : Call a x y z c) :
    ∃ c', p.Straight cpuid l 0 a.enterLength c c' ∧ Entered a x y z c c' := by
  obtain ⟨c', hrun, hentered⟩ := run_enter (L := L) cpuid h
  have hlength : a.enterLength = (a.enter (L := L)).length := by
    cases a <;> rfl
  refine ⟨c', ?_, hentered⟩
  rw [Program.Straight, hbits, hblock, List.drop_zero, Nat.sub_zero, hlength, List.take_left]
  exact hrun

/-- The state behind the pops of `leave`, with the registers of `c₀`. -/
def unframed32 (c₀ c : Cpu) : Cpu :=
  let d := (popped 32 ((popped 32 ((popped 32 c).setReg .bx c₀.regs.bx)).setReg .si
    c₀.regs.si)).setReg .di c₀.regs.di
  { popped 32 d with bp := d.stack d.sp }

/-- What `leave` does, for the function that was called in the state `c₀`. -/
theorem run_leave (h : Inside a c₀ c) :
    ∃ c', run alu a.bits cpuid (a.leave (L := L)) c = .ret (c₀.stack c₀.sp) c' ∧
      Unwound a c₀ c' ∧ c'.mem = c.mem ∧ c'.regs.ax = c.regs.ax := by
  have hframe := h.frame
  have hcaller : c.stack c₀.sp = c₀.stack c₀.sp := h.stack _ le_rfl
  cases a with
  | x86_64 =>
    obtain ⟨hsp, hbp, hregs⟩ := hframe
    rw [← hsp] at hcaller
    refine ⟨popped 64 c, ?_, ⟨hregs, hbp, congrArg (· + 8) hsp⟩, rfl, rfl⟩
    rw [← hsp, ← hcaller]
    rfl
  | i386 =>
    obtain ⟨hsp, -, hbx, hsi, hdi, hbp⟩ := hframe
    have hslot : ∀ {k k' : Int} {v : Val}, k = k' → c.stack k' = v → c.stack k = v := by
      rintro k _ v rfl hv
      exact hv
    have hpop₁ : exec (L := L) alu 32 c cpuid (.pop .bx) = _ := exec_pop (hslot hsp hbx)
    have hpop₂ : exec (L := L) alu 32 ((popped 32 c).setReg .bx c₀.regs.bx) cpuid (.pop .si) = _ :=
      exec_pop (v := c₀.regs.si) (hslot (show c.sp + 4 = c₀.sp - 12 by omega) hsi)
    have hpop₃ : exec (L := L) alu 32
        ((popped 32 ((popped 32 c).setReg .bx c₀.regs.bx)).setReg .si c₀.regs.si) cpuid (.pop .di)
          = _ :=
      exec_pop (v := c₀.regs.di) (hslot (show c.sp + 4 + 4 = c₀.sp - 8 by omega) hdi)
    have hret : (unframed32 c₀ c).stack (unframed32 c₀ c).sp = c₀.stack c₀.sp :=
      hslot (show c.sp + 4 + 4 + 4 + 4 = c₀.sp by omega) hcaller
    have hbase : (unframed32 c₀ c).bp = c₀.bp :=
      hslot (show c.sp + 4 + 4 + 4 = c₀.sp - 4 by omega) hbp
    refine ⟨popped 32 (unframed32 c₀ c), ?_, ⟨?_, hbase, ?_⟩, rfl, rfl⟩
    · rw [← hret, Arch.leave, Arch.bits, run_match, hpop₁]
      dsimp only
      rw [run_match, hpop₂]
      dsimp only
      rw [run_match, hpop₃]
      rfl
    · intro r hr
      simp only [Arch.saved, List.mem_cons, List.not_mem_nil, or_false] at hr
      rcases hr with rfl | rfl | rfl <;> rfl
    · show c.sp + 4 + 4 + 4 + 4 + 4 = c₀.sp + 4
      omega

theorem leave_yields (hbits : p.bits = a.bits) (hblock : (p.block l).drop i = a.leave)
    (h : Inside a c₀ c) : ∃ c', p.Yields cpuid l i c (.ret (c₀.stack c₀.sp) c') ∧
      Unwound a c₀ c' ∧ c'.mem = c.mem ∧ c'.regs.ax = c.regs.ax := by
  obtain ⟨c', hrun, hunwound⟩ := run_leave (L := L) cpuid h
  refine ⟨c', ?_, hunwound⟩
  rw [Program.Yields, hbits, hblock, hrun]

end Xeos.C99
