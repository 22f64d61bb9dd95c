import Xeos.Hal.Idt
import Xeos.Lib.Stack

/-!
# The interrupt stubs

The text of `__XEOS_HAL_IDT_DEF_ISR` for the two architectures, with what
surrounds it: the frame that the processor pushes, the C call of
`__XEOS_HAL_IDT_HandleISR`, and the `iret`.

The registers have one name on both architectures, `ax` for `rax` and `eax`.
`fields` is the order of the members of `XEOS_HAL_CPU_Registers`, which is not the
order of the pushes on i386.
-/

namespace Xeos.Hal.Stub

open Lib Lib.Stack

inductive Arch where
  | i386
  | x86_64
deriving DecidableEq, Repr

inductive Reg where
  | ax | bx | cx | dx | si | di | sp | bp
  | r8 | r9 | r10 | r11 | r12 | r13 | r14 | r15
deriving DecidableEq, Repr

namespace Arch

/-- The size of a word in bits. -/
abbrev width : Arch → Nat
  | i386 => 32
  | x86_64 => 64

/-- The size of a word in bytes. -/
def slot : Arch → Nat
  | i386 => 4
  | x86_64 => 8

abbrev Word (a : Arch) : Type := BitVec a.width

abbrev Mem (a : Arch) : Type := a.Word → a.Word

abbrev Machine (a : Arch) : Type := Stack.Machine Reg a.width

/-- The general registers and the base pointer. -/
def named : Arch → List Reg
  | i386 => [.ax, .bx, .cx, .dx, .si, .di, .bp]
  | x86_64 =>
    [.ax, .bx, .cx, .dx, .si, .di, .r8, .r9, .r10, .r11, .r12, .r13, .r14, .r15, .bp]

/-- The members of `XEOS_HAL_CPU_Registers`, in the order of the structure. -/
def fields : Arch → List Reg
  | i386 => [.ax, .bx, .cx, .dx, .si, .di, .sp, .bp]
  | x86_64 =>
    [.ax, .bx, .cx, .dx, .si, .di, .r8, .r9, .r10, .r11, .r12, .r13, .r14, .r15, .sp, .bp]

/-! ## The text of the stub -/

/-- The stub `__XEOS_HAL_IDT_ISR_n` up to the call of `__XEOS_HAL_IDT_HandleISR`. -/
def stubEntry (n : UInt8) : (a : Arch) → List (Instr Reg a.width)
  | i386 =>
    [.push .bp, .push .sp, .push .si, .push .di, .push .dx, .push .cx, .push .bx, .push .ax,
      .push .sp, .pushImm (BitVec.ofNat 32 n.toNat)]
  | x86_64 =>
    [.push .bp, .push .sp, .push .r15, .push .r14, .push .r13, .push .r12, .push .r11,
      .push .r10, .push .r9, .push .r8, .push .di, .push .si, .push .dx, .push .cx, .push .bx,
      .push .ax, .movImm .di (BitVec.ofNat 64 n.toNat), .mov .si .sp]

/-- The stub after the call, up to the `iret`. -/
def stubExit : (a : Arch) → List (Instr Reg a.width)
  | i386 =>
    [.pop .ax, .pop .ax, .pop .ax, .pop .bx, .pop .cx, .pop .dx, .pop .di, .pop .si, .pop .sp,
      .pop .bp]
  | x86_64 =>
    [.pop .ax, .pop .bx, .pop .cx, .pop .dx, .pop .si, .pop .di, .pop .r8, .pop .r9, .pop .r10,
      .pop .r11, .pop .r12, .pop .r13, .pop .r14, .pop .r15, .pop .sp, .pop .bp]

/-! ## The processor -/

/-- What an interrupt suspends: the registers and the memory, and the words that
the frame holds. -/
structure Context (a : Arch) where
  machine : a.Machine
  ip : a.Word
  cs : a.Word
  flags : a.Word
  ss : a.Word

/-- A context of the kernel.  Bit 1 of the flags is always set, and the code
segment has the privilege level 0. -/
structure Interrupted (a : Arch) extends Context a where
  flags_one : flags.getLsbD 1 = true
  cs_ring0 : cs.getLsbD 1 = false

/-- The frame of an interrupt of the kernel, from its top word.  In long mode it
always holds the stack pointer and the stack segment. -/
def frame : (a : Arch) → Context a → Option a.Word → List a.Word
  | i386, c, err => err.toList ++ [c.ip, c.cs, c.flags]
  | x86_64, c, err => err.toList ++ [c.ip, c.cs, c.flags, c.machine.reg .sp, c.ss]

/-- The stack pointer at which the frame starts.  Long mode aligns it. -/
def aligned : (a : Arch) → a.Word → a.Word
  | i386, v => v
  | x86_64, v => v &&& ~~~0xF#64

/-- The processor pushes the frame, with an error code or without. -/
def enter (a : Arch) (c : Context a) (err : Option a.Word) : a.Machine :=
  pushAll .sp a.slot (a.frame c err)
    ⟨Function.update c.machine.reg .sp (a.aligned (c.machine.reg .sp)), c.machine.mem⟩

/-- The words of the frame that `iret` loads, and the context it resumes.  The
stack segment is reloaded in long mode only. -/
def iret : (a : Arch) → a.Machine → a.Word → Context a
  | i386, m, ss =>
    let top := m.reg .sp
    { machine := { m with reg := Function.update m.reg .sp (wordAt 4 top 3) }
      ip := m.mem top
      cs := m.mem (wordAt 4 top 1)
      flags := m.mem (wordAt 4 top 2)
      ss := ss }
  | x86_64, m, _ =>
    let top := m.reg .sp
    { machine := { m with reg := Function.update m.reg .sp (m.mem (wordAt 8 top 3)) }
      ip := m.mem top
      cs := m.mem (wordAt 8 top 1)
      flags := m.mem (wordAt 8 top 2)
      ss := m.mem (wordAt 8 top 4) }

/-! ## The C call -/

/-- A handler function by its effect: the arguments `isr` and `registers`, and
the memory before and after. -/
abbrev Handler (a : Arch) : Type := UInt8 → a.Word → a.Mem → a.Mem → Prop

/-- The member of the structure at the address `registers` with the name `r`. -/
def field (a : Arch) (mem : a.Mem) (registers : a.Word) (r : Reg) : a.Word :=
  mem (wordAt a.slot registers (a.fields.idxOf r))

/-- The arguments of the call.  On i386 they are on the stack. -/
def arguments : (a : Arch) → a.Machine → UInt8 × a.Word
  | i386, m => (UInt8.ofNat (m.mem (m.reg .sp)).toNat, m.mem (wordAt 4 (m.reg .sp) 1))
  | x86_64, m => (UInt8.ofNat (m.reg .di).toNat, m.reg .si)

/-- The registers that a C function keeps. -/
def calleeSaved : Arch → List Reg
  | i386 => [.bx, .si, .di, .bp, .sp]
  | x86_64 => [.bx, .bp, .r12, .r13, .r14, .r15, .sp]

/-- The call of `f` in `m` may return in `m'`.  The structure holds what `f`
leaves in it, the `keep` words above the structure are not an object of the
called code, and anything may have changed below. -/
structure Returned (a : Arch) (keep : Nat) (f : Handler a) (m m' : a.Machine) : Prop where
  effect : ∃ mem, f (a.arguments m).1 (a.arguments m).2 m.mem mem ∧
    ∀ i, i < a.fields.length →
      m'.mem (wordAt a.slot (a.arguments m).2 i) = mem (wordAt a.slot (a.arguments m).2 i)
  above : ∀ i, a.fields.length ≤ i → i < a.fields.length + keep →
    m'.mem (wordAt a.slot (a.arguments m).2 i) = m.mem (wordAt a.slot (a.arguments m).2 i)
  calleeSaved : ∀ r ∈ a.calleeSaved, m'.reg r = m.reg r

/-- `__XEOS_HAL_IDT_HandleISR`, with the handlers of a table of the IDT. -/
def HandleISR (a : Arch) (t : Idt.Tables (Handler a)) : Handler a :=
  fun isr registers mem mem' =>
    match Idt.HandleISR isr t with
    | none => mem' = mem
    | some handler => handler isr registers mem mem'

theorem HandleISR_none {a : Arch} {t : Idt.Tables (Handler a)} {n : UInt8}
    (h : t.handlers n = none) : a.HandleISR t n = fun _ mem mem' => mem' = mem := by
  funext registers mem mem'
  unfold HandleISR
  rw [Idt.HandleISR_eq, h]

theorem HandleISR_some {a : Arch} {t : Idt.Tables (Handler a)} {n : UInt8} {handler : Handler a}
    (h : t.handlers n = some handler) : a.HandleISR t n = handler n := by
  funext registers mem mem'
  unfold HandleISR
  rw [Idt.HandleISR_eq, h]

/-- The interrupt of `c` at the vector `n` may resume `c'`. -/
def Resumes (a : Arch) (n : UInt8) (keep : Nat) (f : Handler a) (c : Context a)
    (err : Option a.Word) (c' : Context a) : Prop :=
  ∃ m, Returned a keep f (exec .sp a.slot (stubEntry n a) (a.enter c err)) m ∧
    c' = a.iret (exec .sp a.slot a.stubExit m) c.ss

end Arch

end Xeos.Hal.Stub
