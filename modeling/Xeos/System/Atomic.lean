import Xeos.Lib.Smp

/-!
# The atomic routines

The text of `System_Atomic.64.s` and `System_Atomic.32.s`, one instruction a line.
A jump names the number of its target in the routine.

The i386 macro `__System_Atomic_Arithmetic` exchanges a register: its `cmpxchg`
has `ecx` where the one of `CompareAndSwap32` has `[ ecx ]`.
-/

namespace Xeos.System.Atomic

open Lib.Smp

inductive Routine
  | MemoryBarrier
  | CompareAndSwap8 | CompareAndSwap16 | CompareAndSwap32 | CompareAndSwap64
  | CompareAndSwapChar | CompareAndSwapShort | CompareAndSwapInt | CompareAndSwapLong
  | CompareAndSwapPtr
  | TestAndClear | TestAndSet
  | And32 | Or32 | Xor32
  | Add32 | Add64
  | Decrement32 | Decrement64
  | Increment32 | Increment64
  | SpinLockLock | SpinLockTry | SpinLockUnlock
deriving DecidableEq, Repr

namespace X86_64

abbrev ax : Operand := .reg .ax
abbrev bx : Operand := .reg .bx
abbrev dx : Operand := .reg .dx
abbrev si : Operand := .reg .si
abbrev di : Operand := .reg .di
abbrev sp : Operand := .reg .sp
abbrev bp : Operand := .reg .bp

/-- `__System_Atomic_BitOperation`, with `bts` or `btr`. -/
def bitOperation (set : Bool) : List (Instr Routine) :=
  [.arith .xor 32 .ax ax,
    .cmp 64 si (.imm 0),
    .je 13,
    .arith .xor 32 .di (.imm 7),
    .shl 64 .si 3,
    .arith .add 64 .si di,
    .mov 64 di si,
    .arith .and 64 .di (.imm 31),
    .arith .xor 64 .si di,
    .shr 64 .si 3,
    .lock (.bitTest set 32 (.mem .si 0) .di),
    .setc .ax,
    .movzx .ax .ax,
    -- 13: .end
    .ret]

/-- `__System_Atomic_Arithmetic`. -/
def arithmetic (op : Arith) : List (Instr Routine) :=
  [.arith .xor 32 .ax ax,
    .cmp 64 si (.imm 0),
    .je 9,
    .mov 32 ax (.mem .si 0),
    -- 4: .1
    .mov 32 dx ax,
    .arith op 32 .dx di,
    .lock (.cmpxchg 32 (.mem .si 0) .di),
    .jnz 4,
    .mov 32 ax dx,
    -- 9: .end
    .ret]

def MemoryBarrier : List (Instr Routine) :=
  [.mfence,
    .ret]

def CompareAndSwap8 : List (Instr Routine) :=
  [.push16 .bx,
    .arith .xor 32 .ax ax,
    .cmp 64 dx (.imm 0),
    .je 10,
    .mov 16 bx di,
    .mov 8 ax bx,
    .mov 16 bx si,
    .lock (.cmpxchg 8 (.mem .dx 0) .bx),
    .sete .ax,
    .movzx .ax .ax,
    -- 10: .end
    .pop16 .bx,
    .ret]

def CompareAndSwap16 : List (Instr Routine) :=
  [.arith .xor 32 .ax ax,
    .cmp 64 dx (.imm 0),
    .je 7,
    .mov 16 ax di,
    .lock (.cmpxchg 16 (.mem .dx 0) .si),
    .sete .ax,
    .movzx .ax .ax,
    -- 7: .end
    .ret]

def CompareAndSwap32 : List (Instr Routine) :=
  [.arith .xor 32 .ax ax,
    .cmp 64 dx (.imm 0),
    .je 7,
    .mov 32 ax di,
    .lock (.cmpxchg 32 (.mem .dx 0) .si),
    .sete .ax,
    .movzx .ax .ax,
    -- 7: .end
    .ret]

def CompareAndSwap64 : List (Instr Routine) :=
  [.arith .xor 32 .ax ax,
    .cmp 64 dx (.imm 0),
    .je 7,
    .mov 64 ax di,
    .lock (.cmpxchg 64 (.mem .dx 0) .si),
    .sete .ax,
    .movzx .ax .ax,
    -- 7: .end
    .ret]

def CompareAndSwapChar : List (Instr Routine) := [.tail .CompareAndSwap8]

def CompareAndSwapShort : List (Instr Routine) := [.tail .CompareAndSwap16]

def CompareAndSwapInt : List (Instr Routine) := [.tail .CompareAndSwap32]

def CompareAndSwapLong : List (Instr Routine) := [.tail .CompareAndSwap64]

def CompareAndSwapPtr : List (Instr Routine) := [.tail .CompareAndSwap64]

def TestAndClear : List (Instr Routine) := bitOperation false

def TestAndSet : List (Instr Routine) := bitOperation true

def And32 : List (Instr Routine) := arithmetic .and

def Or32 : List (Instr Routine) := arithmetic .or

def Xor32 : List (Instr Routine) := arithmetic .xor

def Add32 : List (Instr Routine) :=
  [.arith .xor 32 .ax ax,
    .cmp 64 si (.imm 0),
    .je 6,
    .mov 32 ax di,
    .lock (.xadd 32 (.mem .si 0) .di),
    .arith .add 32 .di ax,
    -- 6: .end
    .ret]

def Add64 : List (Instr Routine) :=
  [.arith .xor 64 .ax ax,
    .cmp 64 si (.imm 0),
    .je 6,
    .mov 64 ax di,
    .lock (.xadd 64 (.mem .si 0) .di),
    .arith .add 64 .di ax,
    -- 6: .end
    .ret]

def Decrement32 : List (Instr Routine) :=
  [.mov 64 si di,
    .mov 32 di (.imm 0xFFFFFFFF),
    .call .Add32,
    .ret]

def Decrement64 : List (Instr Routine) :=
  [.mov 64 si di,
    .mov 64 di (.imm 0xFFFFFFFFFFFFFFFF),
    .call .Add64,
    .ret]

def Increment32 : List (Instr Routine) :=
  [.mov 64 si di,
    .mov 32 di (.imm 1),
    .call .Add32,
    .ret]

def Increment64 : List (Instr Routine) :=
  [.mov 64 si di,
    .mov 64 di (.imm 1),
    .call .Add64,
    .ret]

def SpinLockLock : List (Instr Routine) :=
  [.push .bp,
    .mov 64 bp sp,
    .push .bx,
    .arith .sub 64 .sp (.imm 8),
    .mov 64 bx di,
    .cmp 64 di (.imm 0),
    .je 15,
    -- 7: .compare
    .mov 64 dx bx,
    .arith .xor 32 .di di,
    .mov 32 si (.imm 1),
    .call .CompareAndSwap32,
    .test 8 ax ax,
    .jnz 15,
    .pause,
    .jmp 7,
    -- 15: .end
    .arith .add 64 .sp (.imm 8),
    .pop .bx,
    .pop .bp,
    .ret]

def SpinLockTry : List (Instr Routine) :=
  [.arith .xor 32 .ax ax,
    .cmp 64 di (.imm 0),
    .je 8,
    .mov 64 dx di,
    .arith .xor 32 .di di,
    .mov 32 si (.imm 1),
    .call .CompareAndSwap32,
    .movzx .ax .ax,
    -- 8: .end
    .ret]

def SpinLockUnlock : List (Instr Routine) :=
  [.cmp 64 di (.imm 0),
    .je 4,
    .mfence,
    .mov 32 (.mem .di 0) (.imm 0),
    -- 4: .end
    .ret]

def program : Program Routine where
  bits := 64
  code
    | .MemoryBarrier => MemoryBarrier
    | .CompareAndSwap8 => CompareAndSwap8
    | .CompareAndSwap16 => CompareAndSwap16
    | .CompareAndSwap32 => CompareAndSwap32
    | .CompareAndSwap64 => CompareAndSwap64
    | .CompareAndSwapChar => CompareAndSwapChar
    | .CompareAndSwapShort => CompareAndSwapShort
    | .CompareAndSwapInt => CompareAndSwapInt
    | .CompareAndSwapLong => CompareAndSwapLong
    | .CompareAndSwapPtr => CompareAndSwapPtr
    | .TestAndClear => TestAndClear
    | .TestAndSet => TestAndSet
    | .And32 => And32
    | .Or32 => Or32
    | .Xor32 => Xor32
    | .Add32 => Add32
    | .Add64 => Add64
    | .Decrement32 => Decrement32
    | .Decrement64 => Decrement64
    | .Increment32 => Increment32
    | .Increment64 => Increment64
    | .SpinLockLock => SpinLockLock
    | .SpinLockTry => SpinLockTry
    | .SpinLockUnlock => SpinLockUnlock

end X86_64

namespace I386

abbrev eax : Operand := .reg .ax
abbrev ebx : Operand := .reg .bx
abbrev ecx : Operand := .reg .cx
abbrev edx : Operand := .reg .dx
abbrev esi : Operand := .reg .si
abbrev ebp : Operand := .reg .bp
abbrev esp : Operand := .reg .sp

/-- `__System_Atomic_BitOperation`, with `bts` or `btr`.  The `shld` takes in what the caller
left in `ecx`. -/
def bitOperation (set : Bool) : List (Instr Routine) :=
  [.mov 32 edx (.stack .sp 8),
    .cmp 32 edx (.imm 0),
    .je 16,
    .mov 32 eax (.stack .sp 4),
    .shld 32 .cx .dx 3,
    .shl 32 .dx 3,
    .arith .xor 32 .ax (.imm 7),
    .arith .add 32 .dx eax,
    .arith .adc 32 .cx (.imm 0),
    .mov 32 eax edx,
    .arith .and 32 .ax (.imm 31),
    .arith .xor 32 .dx eax,
    .shrd 32 .dx .cx 3,
    .lock (.bitTest set 32 (.mem .dx 0) .ax),
    .setc .ax,
    .movzx .ax .ax,
    -- 16: .end
    .ret]

/-- `__System_Atomic_Arithmetic`. -/
def arithmetic (op : Arith) : List (Instr Routine) :=
  [.mov 32 ecx (.stack .sp 8),
    .cmp 32 ecx (.imm 0),
    .je 9,
    .mov 32 eax (.mem .cx 0),
    -- 4: .1
    .mov 32 edx (.stack .sp 4),
    .arith op 32 .dx eax,
    .lock (.cmpxchg 32 ecx .dx),
    .jnz 4,
    .mov 32 eax edx,
    -- 9: .end
    .ret]

def MemoryBarrier : List (Instr Routine) :=
  [.mfence,
    .ret]

def CompareAndSwap8 : List (Instr Routine) :=
  [.arith .xor 32 .ax eax,
    .mov 32 ecx (.stack .sp 12),
    .cmp 32 ecx (.imm 0),
    .je 9,
    .mov 32 eax (.stack .sp 4),
    .mov 32 edx (.stack .sp 8),
    .lock (.cmpxchg 8 (.mem .cx 0) .dx),
    .sete .ax,
    .movzx .ax .ax,
    -- 9: .end
    .ret]

def CompareAndSwap16 : List (Instr Routine) :=
  [.arith .xor 32 .ax eax,
    .mov 32 ecx (.stack .sp 12),
    .cmp 32 ecx (.imm 0),
    .je 9,
    .mov 32 eax (.stack .sp 4),
    .mov 32 edx (.stack .sp 8),
    .lock (.cmpxchg 16 (.mem .cx 0) .dx),
    .sete .ax,
    .movzx .ax .ax,
    -- 9: .end
    .ret]

def CompareAndSwap32 : List (Instr Routine) :=
  [.arith .xor 32 .ax eax,
    .mov 32 ecx (.stack .sp 12),
    .cmp 32 ecx (.imm 0),
    .je 9,
    .mov 32 eax (.stack .sp 4),
    .mov 32 edx (.stack .sp 8),
    .lock (.cmpxchg 32 (.mem .cx 0) .dx),
    .sete .ax,
    .movzx .ax .ax,
    -- 9: .end
    .ret]

def CompareAndSwap64 : List (Instr Routine) :=
  [.push .bx,
    .push .si,
    .arith .xor 32 .ax eax,
    .mov 32 esi (.stack .sp 28),
    .cmp 32 esi (.imm 0),
    .je 15,
    .mov 32 eax (.stack .sp 12),
    .mov 32 edx (.stack .sp 16),
    .mov 32 ebx (.stack .sp 20),
    .mov 32 ecx (.stack .sp 24),
    .lock (.cmpxchg8b (.mem .si 0)),
    .sete .ax,
    .movzx .ax .ax,
    .pop .si,
    .pop .bx,
    -- 15: .end, behind the pops
    .ret]

def CompareAndSwapChar : List (Instr Routine) := [.tail .CompareAndSwap8]

def CompareAndSwapShort : List (Instr Routine) := [.tail .CompareAndSwap16]

def CompareAndSwapInt : List (Instr Routine) := [.tail .CompareAndSwap32]

def CompareAndSwapLong : List (Instr Routine) := [.tail .CompareAndSwap32]

def CompareAndSwapPtr : List (Instr Routine) := [.tail .CompareAndSwap32]

def TestAndClear : List (Instr Routine) := bitOperation false

def TestAndSet : List (Instr Routine) := bitOperation true

def And32 : List (Instr Routine) := arithmetic .and

def Or32 : List (Instr Routine) := arithmetic .or

def Xor32 : List (Instr Routine) := arithmetic .xor

def Add32 : List (Instr Routine) :=
  [.arith .xor 32 .ax eax,
    .mov 32 edx (.stack .sp 8),
    .cmp 32 edx (.imm 0),
    .je 8,
    .mov 32 eax (.stack .sp 4),
    .mov 32 ecx eax,
    .lock (.xadd 32 (.mem .dx 0) .ax),
    .arith .add 32 .ax ecx,
    -- 8: .end
    .ret]

def Add64 : List (Instr Routine) :=
  [.push .bx,
    .push .si,
    .mov 32 esi (.stack .sp 20),
    .cmp 32 esi (.imm 0),
    .je 15,
    .mov 32 eax (.mem .si 0),
    .mov 32 edx (.mem .si 4),
    -- 7: .1
    .mov 32 ebx (.stack .sp 12),
    .mov 32 ecx (.stack .sp 16),
    .arith .add 32 .bx eax,
    .arith .adc 32 .cx edx,
    .lock (.cmpxchg8b (.mem .si 0)),
    .jnz 7,
    .mov 32 eax ebx,
    .mov 32 edx ecx,
    -- 15: .end
    .pop .si,
    .pop .bx,
    .ret]

def Decrement32 : List (Instr Routine) :=
  [.push .bp,
    .mov 32 ebp esp,
    .arith .sub 32 .sp (.imm 16),
    .mov 32 eax (.stack .bp 8),
    .mov 32 (.stack .sp 0) (.imm 0xFFFFFFFF),
    .mov 32 (.stack .sp 4) eax,
    .call .Add32,
    .arith .add 32 .sp (.imm 16),
    .pop .bp,
    .ret]

def Decrement64 : List (Instr Routine) :=
  [.push .bp,
    .mov 32 ebp esp,
    .arith .sub 32 .sp (.imm 24),
    .mov 32 eax (.stack .bp 8),
    .mov 32 (.stack .sp 0) (.imm 0xFFFFFFFF),
    .mov 32 (.stack .sp 4) (.imm 0xFFFFFFFF),
    .mov 32 (.stack .sp 8) eax,
    .call .Add64,
    .arith .add 32 .sp (.imm 24),
    .pop .bp,
    .ret]

def Increment32 : List (Instr Routine) :=
  [.push .bp,
    .mov 32 ebp esp,
    .arith .sub 32 .sp (.imm 16),
    .mov 32 eax (.stack .bp 8),
    .mov 32 (.stack .sp 0) (.imm 1),
    .mov 32 (.stack .sp 4) eax,
    .call .Add32,
    .arith .add 32 .sp (.imm 16),
    .pop .bp,
    .ret]

def Increment64 : List (Instr Routine) :=
  [.push .bp,
    .mov 32 ebp esp,
    .arith .sub 32 .sp (.imm 24),
    .mov 32 eax (.stack .bp 8),
    .mov 32 (.stack .sp 0) (.imm 1),
    .mov 32 (.stack .sp 4) (.imm 0),
    .mov 32 (.stack .sp 8) eax,
    .call .Add64,
    .arith .add 32 .sp (.imm 24),
    .pop .bp,
    .ret]

def SpinLockLock : List (Instr Routine) :=
  [.push .bp,
    .mov 32 ebp esp,
    .arith .sub 32 .sp (.imm 24),
    .mov 32 eax (.stack .bp 8),
    .cmp 32 eax (.imm 0),
    .je 14,
    .mov 32 (.stack .sp 0) (.imm 0),
    .mov 32 (.stack .sp 4) (.imm 1),
    .mov 32 (.stack .sp 8) eax,
    -- 9: .compare
    .call .CompareAndSwap32,
    .test 8 eax eax,
    .jnz 14,
    .pause,
    .jmp 9,
    -- 14: .end
    .arith .add 32 .sp (.imm 24),
    .pop .bp,
    .ret]

def SpinLockTry : List (Instr Routine) :=
  [.push .bp,
    .mov 32 ebp esp,
    .arith .sub 32 .sp (.imm 24),
    .mov 32 eax (.stack .bp 8),
    .cmp 32 eax (.imm 0),
    .je 13,
    .mov 32 (.stack .sp 0) (.imm 0),
    .mov 32 (.stack .sp 4) (.imm 1),
    .mov 32 (.stack .sp 8) eax,
    .call .CompareAndSwap32,
    .movzx .ax .ax,
    .arith .add 32 .sp (.imm 24),
    .pop .bp,
    -- 13: .end
    .ret]

def SpinLockUnlock : List (Instr Routine) :=
  [.mov 32 eax (.stack .sp 4),
    .cmp 32 eax (.imm 0),
    .je 5,
    .mfence,
    .mov 32 (.mem .ax 0) (.imm 0),
    -- 5: .end
    .ret]

def program : Program Routine where
  bits := 32
  code
    | .MemoryBarrier => MemoryBarrier
    | .CompareAndSwap8 => CompareAndSwap8
    | .CompareAndSwap16 => CompareAndSwap16
    | .CompareAndSwap32 => CompareAndSwap32
    | .CompareAndSwap64 => CompareAndSwap64
    | .CompareAndSwapChar => CompareAndSwapChar
    | .CompareAndSwapShort => CompareAndSwapShort
    | .CompareAndSwapInt => CompareAndSwapInt
    | .CompareAndSwapLong => CompareAndSwapLong
    | .CompareAndSwapPtr => CompareAndSwapPtr
    | .TestAndClear => TestAndClear
    | .TestAndSet => TestAndSet
    | .And32 => And32
    | .Or32 => Or32
    | .Xor32 => Xor32
    | .Add32 => Add32
    | .Add64 => Add64
    | .Decrement32 => Decrement32
    | .Decrement64 => Decrement64
    | .Increment32 => Increment32
    | .Increment64 => Increment64
    | .SpinLockLock => SpinLockLock
    | .SpinLockTry => SpinLockTry
    | .SpinLockUnlock => SpinLockUnlock

end I386

/-! ## Calls -/

inductive Arch
  | i386 | x86_64
deriving DecidableEq, Repr

namespace Arch

def program : Arch → Program Routine
  | i386 => I386.program
  | x86_64 => X86_64.program

/-- The state in which a routine starts, with up to three arguments.  The caller
leaves everything else as in `c`: the arguments are in `RDI`, `RSI` and `RDX`, or
on the stack. -/
def call (arch : Arch) (routine : Routine) (x y z : Val Routine) (c : Cpu Routine) :
    Cpu Routine :=
  match arch with
  | x86_64 =>
    { c with
      pc := some (routine, 0)
      regs := { c.regs with di := x, si := y, dx := z, sp := .slot 0 }
      stack := withCells c.stack [(0, .loc none)] }
  | i386 =>
    { c with
      pc := some (routine, 0)
      regs := { c.regs with sp := .slot 0 }
      stack := withCells c.stack [(0, .loc none), (4, x), (8, y), (12, z)] }

end Arch

end Xeos.System.Atomic
