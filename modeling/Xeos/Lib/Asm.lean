import Xeos.Lib.X86

/-!
# Routines with a stack and vectors

The instructions that read and write strings a word or a vector at a time, for
registers of 32 or 64 bits.  As in `Lib.X86` a routine is a `Program`, and its
blocks run from label to label.

The stack is apart from the memory that the pointers of the caller lead to.  Its
addresses are counted from where the stack pointer stands at the call, so the
return address is at 0 and the first argument of the i386 convention at 4.  The
one variable of the routine, `status`, is apart from the memory as well.

A whole register is copied as it is.  A part of a register, and the result of an
operation, is reduced to its width, which is a number of bits.
-/

namespace Lib.Asm

/-- The general registers but for the stack pointer and the base pointer. -/
inductive Reg where
  | ax | bx | cx | dx | si | di | r8 | r9 | r10 | r11 | r12 | r13 | r14 | r15
deriving DecidableEq, Repr

structure Regs where
  ax : Nat
  bx : Nat
  cx : Nat
  dx : Nat
  si : Nat
  di : Nat
  r8 : Nat
  r9 : Nat
  r10 : Nat
  r11 : Nat
  r12 : Nat
  r13 : Nat
  r14 : Nat
  r15 : Nat

namespace Regs

def get (r : Regs) : Reg → Nat
  | .ax => r.ax
  | .bx => r.bx
  | .cx => r.cx
  | .dx => r.dx
  | .si => r.si
  | .di => r.di
  | .r8 => r.r8
  | .r9 => r.r9
  | .r10 => r.r10
  | .r11 => r.r11
  | .r12 => r.r12
  | .r13 => r.r13
  | .r14 => r.r14
  | .r15 => r.r15

def set (r : Regs) (v : Nat) : Reg → Regs
  | .ax => { r with ax := v }
  | .bx => { r with bx := v }
  | .cx => { r with cx := v }
  | .dx => { r with dx := v }
  | .si => { r with si := v }
  | .di => { r with di := v }
  | .r8 => { r with r8 := v }
  | .r9 => { r with r9 := v }
  | .r10 => { r with r10 := v }
  | .r11 => { r with r11 := v }
  | .r12 => { r with r12 := v }
  | .r13 => { r with r13 := v }
  | .r14 => { r with r14 := v }
  | .r15 => { r with r15 := v }

@[simp] theorem get_set (r : Regs) (v : Nat) (x y : Reg) :
    (r.set v x).get y = if y = x then v else r.get y := by
  cases x <;> cases y <;> rfl

end Regs

/-- Sixteen bytes, the lowest one first. -/
abbrev Vec := Nat → UInt8

inductive Xmm where
  | xmm0 | xmm1 | xmm2 | xmm3 | xmm4 | xmm5 | xmm6 | xmm7
deriving DecidableEq, Repr

structure Xmms where
  xmm0 : Vec
  xmm1 : Vec
  xmm2 : Vec
  xmm3 : Vec
  xmm4 : Vec
  xmm5 : Vec
  xmm6 : Vec
  xmm7 : Vec

namespace Xmms

def get (x : Xmms) : Xmm → Vec
  | .xmm0 => x.xmm0
  | .xmm1 => x.xmm1
  | .xmm2 => x.xmm2
  | .xmm3 => x.xmm3
  | .xmm4 => x.xmm4
  | .xmm5 => x.xmm5
  | .xmm6 => x.xmm6
  | .xmm7 => x.xmm7

def set (x : Xmms) (v : Vec) : Xmm → Xmms
  | .xmm0 => { x with xmm0 := v }
  | .xmm1 => { x with xmm1 := v }
  | .xmm2 => { x with xmm2 := v }
  | .xmm3 => { x with xmm3 := v }
  | .xmm4 => { x with xmm4 := v }
  | .xmm5 => { x with xmm5 := v }
  | .xmm6 => { x with xmm6 := v }
  | .xmm7 => { x with xmm7 := v }

end Xmms

/-- A word, an address in the stack or the return address. -/
inductive Val where
  | word (v : Nat)
  | slot (off : Int)
  | caller
deriving DecidableEq

/-- The number in a value, if it is one. -/
def Val.toWord : Val → Option Nat
  | .word v => some v
  | .slot _ | .caller => none

/-! ## Flags -/

/-- The conditions of the jumps, with their other names. -/
inductive Cond where
  /-- `je`, `jz`. -/
  | e
  /-- `jne`, `jnz`. -/
  | ne
  /-- `jb`: unsigned. -/
  | b
  /-- `jge`: signed. -/
  | ge
  /-- `jl`: signed. -/
  | l
  /-- `jle`: signed. -/
  | le
deriving DecidableEq, Repr

structure Flags where
  cf : Bool
  zf : Bool
  sf : Bool
  of : Bool

/-- The top bit of a value of `w` bits. -/
def signBit (w v : Nat) : Bool := decide (2 ^ (w - 1) ≤ v)

def difference (w a b : Nat) : Nat := (a + 2 ^ w - b) % 2 ^ w

def sum (w a b : Nat) : Nat := (a + b) % 2 ^ w

namespace Flags

/-- The flags of `a - b`. -/
def sub (w a b : Nat) : Flags where
  cf := decide (a < b)
  zf := decide (difference w a b = 0)
  sf := signBit w (difference w a b)
  of := (signBit w a != signBit w b) && (signBit w a != signBit w (difference w a b))

/-- The flags of `a + b`. -/
def add (w a b : Nat) : Flags where
  cf := decide (2 ^ w ≤ a + b)
  zf := decide (sum w a b = 0)
  sf := signBit w (sum w a b)
  of := (signBit w a == signBit w b) && (signBit w a != signBit w (sum w a b))

/-- The flags of a bitwise operation with the result `v`. -/
def logic (w v : Nat) : Flags where
  cf := false
  zf := decide (v = 0)
  sf := signBit w v
  of := false

def holds (f : Flags) : Cond → Bool
  | .e => f.zf
  | .ne => !f.zf
  | .b => f.cf
  | .ge => f.sf == f.of
  | .l => f.sf != f.of
  | .le => f.zf || (f.sf != f.of)

end Flags

/-! ## Arithmetic -/

inductive Arith where
  | add | sub | and | or | xor
deriving DecidableEq, Repr

/-- The operations on words of a processor.  `Asm.alu` is the one there is: they are
a parameter of the machine so that a straight piece of code can be computed without
computing its words. -/
structure Alu where
  result : Arith → (w a b : Nat) → Nat
  flags : Arith → (w a b : Nat) → Flags
  not : (w a : Nat) → Nat
  shl : (w a count : Nat) → Nat
  shr : (a count : Nat) → Nat
  mulLow : (w a b : Nat) → Nat
  mulHigh : (w a b : Nat) → Nat
  /-- The low bits of a register. -/
  low : (w a : Nat) → Nat
  /-- A register after a write of its low bits. -/
  insert : (w a v : Nat) → Nat
  address : (bits base disp : Nat) → Nat

def alu : Alu where
  result
    | .add, w, a, b => sum w a b
    | .sub, w, a, b => difference w a b
    | .and, _, a, b => a &&& b
    | .or, _, a, b => a ||| b
    | .xor, _, a, b => a ^^^ b
  flags
    | .add, w, a, b => Flags.add w a b
    | .sub, w, a, b => Flags.sub w a b
    | .and, w, a, b => Flags.logic w (a &&& b)
    | .or, w, a, b => Flags.logic w (a ||| b)
    | .xor, w, a, b => Flags.logic w (a ^^^ b)
  not w a := 2 ^ w - 1 - a
  shl w a k := a * 2 ^ k % 2 ^ w
  shr a k := a / 2 ^ k
  mulLow w a b := a * b % 2 ^ w
  mulHigh w a b := a * b / 2 ^ w
  low w a := a % 2 ^ w
  insert w a v := a / 2 ^ w * 2 ^ w + v
  address bits base disp := (base + disp) % 2 ^ bits

/-! ## The machine -/

structure Cpu where
  regs : Regs
  xmms : Xmms
  /-- The base pointer. -/
  bp : Val
  /-- The stack pointer, counted from where it stands at the call. -/
  sp : Int
  stack : Int → Val
  mem : Memory
  /-- The variable of the routine. -/
  status : Nat
  flags : Flags

/-- A register, an immediate, `[ base + disp ]`, a word of the stack or the
variable of the routine. -/
inductive Operand where
  | reg (r : Reg)
  | imm (v : Int)
  | mem (base : Reg) (disp : Nat)
  | bpSlot (disp : Nat)
  | spSlot (disp : Nat)
  | status
deriving DecidableEq, Repr

/-- What the processor makes of a 32-bit immediate of a wider instruction. -/
def signExtend32 (v : Nat) : Int := if v < 2 ^ 31 then v else v - 2 ^ 32

namespace Operand

abbrev ax : Operand := .reg .ax
abbrev bx : Operand := .reg .bx
abbrev cx : Operand := .reg .cx
abbrev dx : Operand := .reg .dx
abbrev si : Operand := .reg .si
abbrev di : Operand := .reg .di
abbrev r8 : Operand := .reg .r8
abbrev r9 : Operand := .reg .r9
abbrev r10 : Operand := .reg .r10

end Operand

/-- Where a vector instruction takes its source. -/
inductive VecOperand where
  | xmm (x : Xmm)
  | mem (base : Reg)
deriving DecidableEq, Repr

/-- The widths are numbers of bits. -/
inductive Instr (L : Type) where
  | mov (w : Nat) (dst src : Operand)
  | arith (op : Arith) (w : Nat) (dst : Reg) (src : Operand)
  | cmp (w : Nat) (a b : Operand)
  | test (w : Nat) (a b : Operand)
  | not (w : Nat) (dst : Reg)
  | inc (w : Nat) (dst : Reg)
  | dec (w : Nat) (dst : Reg)
  | shl (w : Nat) (dst : Reg) (count : Nat)
  /-- `shl` by the low bits of the counter. -/
  | shlCl (w : Nat) (dst : Reg)
  | shr (w : Nat) (dst : Reg) (count : Nat)
  | mul (w : Nat) (src : Reg)
  | div (w : Nat) (src : Reg)
  | xchg (a b : Reg)
  | bsf (w : Nat) (dst src : Reg)
  | push (src : Reg)
  | pop (dst : Reg)
  | pushBp
  | popBp
  /-- `mov ebp, esp`. -/
  | movBpSp
  /-- `movd`, and `movq` for 64 bits. -/
  | movd (w : Nat) (x : Xmm) (src : Reg)
  /-- `movdqa xmm, [ base + disp ]`. -/
  | movdqaLoad (x : Xmm) (base : Reg) (disp : Nat)
  /-- `movdqa [ base + disp ], xmm`. -/
  | movdqaStore (base : Reg) (disp : Nat) (x : Xmm)
  /-- `movdqu [ base + disp ], xmm`. -/
  | movdquStore (base : Reg) (disp : Nat) (x : Xmm)
  | pxor (x y : Xmm)
  | pcmpeqb (x : Xmm) (src : VecOperand)
  | pmovmskb (dst : Reg) (x : Xmm)
  | punpcklbw (x y : Xmm)
  | pshufd (x y : Xmm) (order : Nat)
  | shufps (x y : Xmm) (order : Nat)
  | cpuid
  | jcc (cond : Cond) (target : L)
  | jmp (target : L)
  | ret

/-- How an instruction, or a block of them, ends.  A `ret` goes to the value that
it finds on the stack. -/
inductive Outcome (L : Type) where
  | next (c : Cpu)
  | goto (target : L) (c : Cpu)
  | ret (dest : Val) (c : Cpu)
  | fault

namespace Cpu

def setReg (c : Cpu) (r : Reg) (v : Nat) : Cpu := { c with regs := c.regs.set v r }

def setXmm (c : Cpu) (x : Xmm) (v : Vec) : Cpu := { c with xmms := c.xmms.set v x }

def setFlags (c : Cpu) (f : Flags) : Cpu := { c with flags := f }

def setSlot (c : Cpu) (off : Int) (v : Val) : Cpu :=
  { c with stack := fun a => if a = off then v else c.stack a }

end Cpu

/-! ## Vectors -/

namespace Vec

/-- The bytes of a number of `w` bits, and zeros above it. -/
def ofNat (w v : Nat) : Vec := fun i => if i < w / 8 then UInt8.ofNat (v / 256 ^ i) else 0

def equal (x y : Vec) : Vec := fun i => if x i = y i then 255 else 0

/-- The top bits of the first `n` bytes. -/
def signs (x : Vec) : Nat → Nat
  | 0 => 0
  | n + 1 => signs x n + 2 ^ n * (if 128 ≤ (x n).toNat then 1 else 0)

def interleave (x y : Vec) : Vec := fun i => if i % 2 = 0 then x (i / 2) else y (i / 2)

/-- The byte of a source that the byte `i` of a shuffle by double words comes from. -/
def shuffled (order i : Nat) : Nat := 4 * (order / 4 ^ (i / 4) % 4) + i % 4

end Vec

/-- The number of the lowest bit of `v` that is set, from the bit `i` on. -/
def lowestBit : Nat → Nat → Nat → Nat
  | 0, i, _ => i
  | fuel + 1, i, v => if v.testBit i then i else lowestBit fuel (i + 1) v

/-! ## Instructions -/

section

variable (A : Alu) (bits : Nat) (c : Cpu)

def narrow (w v : Nat) : Nat := if w = bits then v else A.low w v

def address (base : Reg) (disp : Nat) : Nat := A.address bits (c.regs.get base) disp

def read (w : Nat) : Operand → Option Nat
  | .reg r => some (narrow A bits w (c.regs.get r))
  | .imm v => some (v % (2 ^ w : Nat)).toNat
  | .mem base disp => some (c.mem.load (address A bits c base disp) (w / 8))
  | .bpSlot disp =>
    match c.bp with
    | .slot off => (c.stack (off + disp)).toWord.map (narrow A bits w)
    | _ => none
  | .spSlot disp => (c.stack (c.sp + disp)).toWord.map (narrow A bits w)
  | .status => some (narrow A bits w c.status)

/-- A write of 32 bits clears the rest of the register, and a shorter one keeps
it. -/
def write (w v : Nat) : Operand → Option Cpu
  | .reg r => some (c.setReg r (if 32 ≤ w then v else A.insert w (c.regs.get r) v))
  | .mem base disp => some { c with mem := c.mem.store (address A bits c base disp) (w / 8) v }
  | .status => some { c with status := v }
  | .imm _ | .bpSlot _ | .spSlot _ => none

/-- The next instruction, unless an operand was missing. -/
def Outcome.ofOption {L : Type} : Option Cpu → Outcome L
  | some c => .next c
  | none => .fault

def push (v : Val) : Cpu :=
  { c.setSlot (c.sp - (bits / 8 : Nat)) v with sp := c.sp - (bits / 8 : Nat) }

/-- The stack pointer after a `pop`. -/
def popped : Cpu := { c with sp := c.sp + (bits / 8 : Nat) }

/-- The address of a vector in memory has to be aligned. -/
def alignedAt (a : Nat) : Option Nat := if a % 16 = 0 then some a else none

/-- One instruction.  Where the processor leaves a flag undefined it keeps its
value: no jump tests such a flag. -/
def exec {L : Type} (cpuid : X86.Cpuid) : Instr L → Outcome L
  | .mov w dst src => .ofOption ((read A bits c w src).bind fun v => write A bits c w v dst)
  | .arith op w dst src =>
    .ofOption ((read A bits c w src).map fun b =>
      (c.setReg dst (A.result op w (narrow A bits w (c.regs.get dst)) b)).setFlags
        (A.flags op w (narrow A bits w (c.regs.get dst)) b))
  | .cmp w a b =>
    .ofOption ((read A bits c w a).bind fun a => (read A bits c w b).map fun b =>
      c.setFlags (A.flags .sub w a b))
  | .test w a b =>
    .ofOption ((read A bits c w a).bind fun a => (read A bits c w b).map fun b =>
      c.setFlags (A.flags .and w a b))
  | .not w dst => .next (c.setReg dst (A.not w (narrow A bits w (c.regs.get dst))))
  | .inc w dst =>
    let a := narrow A bits w (c.regs.get dst)
    .next ((c.setReg dst (A.result .add w a 1)).setFlags { A.flags .add w a 1 with cf := c.flags.cf })
  | .dec w dst =>
    let a := narrow A bits w (c.regs.get dst)
    .next ((c.setReg dst (A.result .sub w a 1)).setFlags { A.flags .sub w a 1 with cf := c.flags.cf })
  | .shl w dst k => .next (c.setReg dst (A.shl w (narrow A bits w (c.regs.get dst)) k))
  | .shlCl w dst =>
    .next (c.setReg dst (A.shl w (narrow A bits w (c.regs.get dst)) (c.regs.cx % w)))
  | .shr w dst k => .next (c.setReg dst (A.shr (narrow A bits w (c.regs.get dst)) k))
  | .mul w src =>
    let a := narrow A bits w c.regs.ax
    let b := narrow A bits w (c.regs.get src)
    .next ((c.setReg .ax (A.mulLow w a b)).setReg .dx (A.mulHigh w a b))
  | .div w src =>
    let a := narrow A bits w c.regs.ax + 2 ^ w * narrow A bits w c.regs.dx
    let b := narrow A bits w (c.regs.get src)
    if b = 0 ∨ 2 ^ w ≤ a / b then .fault
    else .next ((c.setReg .ax (a / b)).setReg .dx (a % b))
  | .xchg a b => .next ((c.setReg a (c.regs.get b)).setReg b (c.regs.get a))
  | .bsf w dst src =>
    let v := narrow A bits w (c.regs.get src)
    if v = 0 then .next c else .next (c.setReg dst (lowestBit w 0 v))
  | .push src => .next (push bits c (.word (c.regs.get src)))
  | .pop dst =>
    .ofOption ((c.stack c.sp).toWord.map fun v => (popped bits c).setReg dst v)
  | .pushBp => .next (push bits c c.bp)
  | .popBp => .next { popped bits c with bp := c.stack c.sp }
  | .movBpSp => .next { c with bp := .slot c.sp }
  | .movd w x src => .next (c.setXmm x (Vec.ofNat w (c.regs.get src)))
  | .movdqaLoad x base disp =>
    .ofOption ((alignedAt (address A bits c base disp)).map fun a =>
      c.setXmm x fun i => c.mem (a + i))
  | .movdqaStore base disp x =>
    .ofOption ((alignedAt (address A bits c base disp)).map fun a =>
      { c with mem := c.mem.copy (c.xmms.get x) a 0 16 })
  | .movdquStore base disp x =>
    .next { c with mem := c.mem.copy (c.xmms.get x) (address A bits c base disp) 0 16 }
  | .pxor x y => .next (c.setXmm x fun i => c.xmms.get x i ^^^ c.xmms.get y i)
  | .pcmpeqb x (.xmm y) => .next (c.setXmm x (Vec.equal (c.xmms.get x) (c.xmms.get y)))
  | .pcmpeqb x (.mem base) =>
    .ofOption ((alignedAt (address A bits c base 0)).map fun a =>
      c.setXmm x (Vec.equal (c.xmms.get x) fun i => c.mem (a + i)))
  | .pmovmskb dst x => .next (c.setReg dst (Vec.signs (c.xmms.get x) 16))
  | .punpcklbw x y => .next (c.setXmm x (Vec.interleave (c.xmms.get x) (c.xmms.get y)))
  | .pshufd x y order => .next (c.setXmm x fun i => c.xmms.get y (Vec.shuffled order i))
  | .shufps x y order =>
    .next (c.setXmm x fun i =>
      if i < 8 then c.xmms.get x (Vec.shuffled order i) else c.xmms.get y (Vec.shuffled order i))
  | .cpuid =>
    let r := cpuid (A.low 32 c.regs.ax)
    .next ((((c.setReg .ax (A.low 32 r.eax)).setReg .bx (A.low 32 r.ebx)).setReg .cx
      (A.low 32 r.ecx)).setReg .dx (A.low 32 r.edx))
  | .jcc cond target => if c.flags.holds cond then .goto target c else .next c
  | .jmp target => .goto target c
  | .ret => .ret (c.stack c.sp) (popped bits c)

end

/-- The instructions in turn, until one of them leaves the block. -/
def run {L : Type} (A : Alu) (bits : Nat) (cpuid : X86.Cpuid) : List (Instr L) → Cpu → Outcome L
  | [], c => .next c
  | i :: is, c =>
    match exec A bits c cpuid i with
    | .next c' => run A bits cpuid is c'
    | out => out

section

variable {L : Type} {A : Alu} {bits : Nat} {cpuid : X86.Cpuid} {i : Instr L}
  {is : List (Instr L)} {c c' d : Cpu}

theorem run_match (i : Instr L) (is : List (Instr L)) (c : Cpu) :
    run A bits cpuid (i :: is) c =
      match exec A bits c cpuid i with
      | .next c' => run A bits cpuid is c'
      | out => out := rfl

theorem run_cons (h : exec A bits c cpuid i = .next d) :
    run A bits cpuid (i :: is) c = run A bits cpuid is d := by
  rw [run_match, h]

/-- Code that runs to its end goes on behind its first instruction. -/
theorem exec_of_run_cons (h : run A bits cpuid (i :: is) c = .next c') :
    ∃ d, exec A bits c cpuid i = .next d ∧ run A bits cpuid is d = .next c' := by
  rw [run_match] at h
  cases hi : exec A bits c cpuid i with
  | next d =>
    rw [hi] at h
    exact ⟨d, rfl, h⟩
  | goto target d => rw [hi] at h; cases h
  | ret dest d => rw [hi] at h; cases h
  | fault => rw [hi] at h; cases h

/-- An instruction that leaves the block. -/
theorem run_leaves {out : Outcome L} (h : exec A bits c cpuid i = out)
    (hout : ∀ d, out ≠ .next d) : run A bits cpuid (i :: is) c = out := by
  rw [run_match, h]
  cases out with
  | next d => exact absurd rfl (hout d)
  | goto | ret | fault => rfl

end

/-- The text of a routine, for registers of `bits` bits. -/
structure Program (L : Type) where
  bits : Nat
  block : L → List (Instr L)
  /-- The label that follows in the text. -/
  next : L → Option L

/-- Run the block of the label.  The result is what a `ret` went to, with the state
after it, or `none` for a fault. -/
def Program.step {L : Type} (p : Program L) (cpuid : X86.Cpuid) (s : L × Cpu) :
    L × Cpu ⊕ Option (Val × Cpu) :=
  match run alu p.bits cpuid (p.block s.1) s.2 with
  | .next c =>
    match p.next s.1 with
    | some l => .inl (l, c)
    | none => .inr none
  | .goto l c => .inl (l, c)
  | .ret dest c => .inr (some (dest, c))
  | .fault => .inr none

/-- The routine, entered at `l`, leaves for `dest` in the state `c'`. -/
def Program.Leaves {L : Type} (p : Program L) (cpuid : X86.Cpuid) (l : L) (c : Cpu) (dest : Val)
    (c' : Cpu) : Prop :=
  Returns (p.step cpuid) (l, c) (some (dest, c'))

/-- The routine, entered at `l`, returns to its caller in the state `c'`. -/
def Program.Ends {L : Type} (p : Program L) (cpuid : X86.Cpuid) (l : L) (c c' : Cpu) : Prop :=
  p.Leaves cpuid l c .caller c'

/-! ## The conditions after a comparison -/

namespace Flags

variable {w a b : Nat}

theorem difference_of_le (hle : b ≤ a) (ha : a < 2 ^ w) : difference w a b = a - b := by
  rw [difference, show a + 2 ^ w - b = a - b + 2 ^ w by omega, Nat.add_mod_right,
    Nat.mod_eq_of_lt (by omega)]

theorem difference_of_lt (hlt : a < b) (hb : b < 2 ^ w) :
    difference w a b = a + 2 ^ w - b := by
  rw [difference, Nat.mod_eq_of_lt (by omega)]

theorem sum_of_lt (h : a + b < 2 ^ w) : sum w a b = a + b := Nat.mod_eq_of_lt h

theorem holds_b_sub : (alu.flags .sub w a b).holds .b = decide (a < b) := rfl

theorem holds_e_and : (alu.flags .and w a b).holds .e = decide (a &&& b = 0) := rfl

theorem holds_ne_and : (alu.flags .and w a b).holds .ne = !decide (a &&& b = 0) := rfl

theorem holds_e_and_self : (alu.flags .and w a a).holds .e = decide (a = 0) := by
  rw [holds_e_and, Nat.and_self]

theorem holds_e_sub (ha : a < 2 ^ w) (hb : b < 2 ^ w) :
    (alu.flags .sub w a b).holds .e = decide (a = b) := by
  show decide (difference w a b = 0) = decide (a = b)
  rw [decide_eq_decide]
  rcases Nat.lt_or_ge a b with hlt | hge
  · rw [difference_of_lt hlt hb]
    omega
  · rw [difference_of_le hge ha]
    omega

/-- The overflow of a subtraction corrects the sign of its result: together they say
how two positive numbers compare. -/
theorem sf_eq_of_sub (hw : 0 < w) (ha : a < 2 ^ (w - 1)) (hb : b < 2 ^ (w - 1)) :
    ((alu.flags .sub w a b).sf == (alu.flags .sub w a b).of) = decide (b ≤ a) := by
  have hpow : 2 ^ w = 2 ^ (w - 1) + 2 ^ (w - 1) := by
    rw [show w = w - 1 + 1 by omega, pow_succ, Nat.add_sub_cancel]
    omega
  have hsa : signBit w a = false := decide_eq_false (by omega)
  have hsb : signBit w b = false := decide_eq_false (by omega)
  show (signBit w (difference w a b) == ((signBit w a != signBit w b) &&
    (signBit w a != signBit w (difference w a b)))) = decide (b ≤ a)
  rw [hsa, hsb]
  rcases Nat.lt_or_ge a b with hlt | hge
  · rw [difference_of_lt hlt (by omega), signBit,
      decide_eq_true (show 2 ^ (w - 1) ≤ a + 2 ^ w - b by omega),
      decide_eq_false (show ¬ b ≤ a by omega)]
    rfl
  · rw [difference_of_le hge (by omega), signBit,
      decide_eq_false (show ¬ 2 ^ (w - 1) ≤ a - b by omega),
      decide_eq_true (show b ≤ a by omega)]
    rfl

theorem holds_ge_sub (hw : 0 < w) (ha : a < 2 ^ (w - 1)) (hb : b < 2 ^ (w - 1)) :
    (alu.flags .sub w a b).holds .ge = decide (b ≤ a) :=
  sf_eq_of_sub hw ha hb

theorem holds_l_sub (hw : 0 < w) (ha : a < 2 ^ (w - 1)) (hb : b < 2 ^ (w - 1)) :
    (alu.flags .sub w a b).holds .l = decide (a < b) := by
  have h := sf_eq_of_sub hw ha hb
  show (!((alu.flags .sub w a b).sf == (alu.flags .sub w a b).of)) = decide (a < b)
  rw [h, ← decide_not, decide_eq_decide, Nat.not_le]

/-- What is left of a count, compared with zero. -/
theorem holds_le_difference (hw : 0 < w) (ha : a < 2 ^ (w - 1)) (hb : b ≤ 2 ^ (w - 1)) :
    (alu.flags .sub w (difference w a b) 0).holds .le = decide (a ≤ b) := by
  have hpow : 2 ^ w = 2 ^ (w - 1) + 2 ^ (w - 1) := by
    rw [show w = w - 1 + 1 by omega, pow_succ, Nat.add_sub_cancel]
    omega
  have hpos : 0 < 2 ^ (w - 1) := Nat.two_pow_pos _
  have hlt : difference w a b < 2 ^ w := Nat.mod_lt _ (by omega)
  have hzero : difference w (difference w a b) 0 = difference w a b :=
    difference_of_le (Nat.zero_le _) hlt
  have hflags : (alu.flags .sub w (difference w a b) 0).holds .le
      = (decide (difference w a b = 0) || signBit w (difference w a b)) := by
    show (decide (difference w (difference w a b) 0 = 0) ||
      (signBit w (difference w (difference w a b) 0) != ((signBit w (difference w a b) !=
        signBit w 0) && (signBit w (difference w a b) !=
          signBit w (difference w (difference w a b) 0))))) = _
    rw [hzero, bne_self_eq_false, Bool.and_false, Bool.bne_false]
  rw [hflags, signBit]
  rcases Nat.lt_or_ge b a with hba | hab
  · rw [difference_of_le hba.le (by omega), decide_eq_false (show ¬ a - b = 0 by omega),
      decide_eq_false (show ¬ 2 ^ (w - 1) ≤ a - b by omega),
      decide_eq_false (show ¬ a ≤ b by omega)]
    rfl
  · rw [decide_eq_true hab]
    rcases Nat.eq_or_lt_of_le hab with heq | hab
    · rw [heq, difference_of_le le_rfl (by omega), Nat.sub_self]
      rfl
    · rw [difference_of_lt hab (by omega), decide_eq_true (show 2 ^ (w - 1) ≤ a + 2 ^ w - b by omega),
        Bool.or_true]

end Flags

/-! ## Blocks and runs -/

section Run

variable {L : Type} {bits : Nat} {cpuid : X86.Cpuid} {is js : List (Instr L)} {p : Program L}
  {l l' target : L} {c c' c'' : Cpu} {dest : Val}

theorem run_append (h : run alu bits cpuid is c = .next c') :
    run alu bits cpuid (is ++ js) c = run alu bits cpuid js c' := by
  induction is generalizing c with
  | nil =>
    have hc : c = c' := Outcome.next.inj h
    rw [List.nil_append, hc]
  | cons i is ih =>
    obtain ⟨d, hi, hrest⟩ := exec_of_run_cons h
    rw [List.cons_append, run_cons hi]
    exact ih hrest

/-! A block is followed from the instruction with a number.  Straight pieces of it
are run by computation, and a conditional jump is taken or passed by a fact about the
flags. -/

/-- The instructions of the block of `l` from the `i`th to the one before the `j`th
lead from `c` to `c'`. -/
def Program.Straight (p : Program L) (cpuid : X86.Cpuid) (l : L) (i j : Nat) (c c' : Cpu) : Prop :=
  run alu p.bits cpuid (((p.block l).drop i).take (j - i)) c = .next c'

/-- The block of `l` from the `i`th instruction on ends with `out`. -/
def Program.Yields (p : Program L) (cpuid : X86.Cpuid) (l : L) (i : Nat) (c : Cpu)
    (out : Outcome L) : Prop :=
  run alu p.bits cpuid ((p.block l).drop i) c = out

theorem drop_eq_cons {i : Nat} {instr : Instr L} (hi : (p.block l)[i]? = some instr) :
    (p.block l).drop i = instr :: (p.block l).drop (i + 1) := by
  obtain ⟨hlt, heq⟩ := List.getElem?_eq_some_iff.mp hi
  rw [List.drop_eq_getElem_cons hlt, heq]

/-- One instruction that depends on more than its registers. -/
theorem Program.Straight.of_exec {i : Nat} {instr : Instr L}
    (hi : (p.block l)[i]? = some instr) (h : exec alu p.bits c cpuid instr = .next c') :
    p.Straight cpuid l i (i + 1) c c' := by
  rw [Straight, drop_eq_cons hi, Nat.add_sub_cancel_left, List.take_succ_cons, List.take_zero,
    run_cons h]
  rfl

section Exec

variable {a v : Nat}

attribute [local simp] exec read write narrow address alignedAt Val.toWord Outcome.ofOption

theorem exec_mov_spSlot {r : Reg} {disp : Nat} (h : c.stack (c.sp + disp) = .word v)
    (hbits : 32 ≤ bits) :
    exec (L := L) alu bits c cpuid (.mov bits (.reg r) (.spSlot disp)) = .next (c.setReg r v) := by
  simp [h, hbits]

theorem exec_mov_bpSlot {r : Reg} {disp : Nat} {off : Int} (hbp : c.bp = .slot off)
    (h : c.stack (off + disp) = .word v) (hbits : 32 ≤ bits) :
    exec (L := L) alu bits c cpuid (.mov bits (.reg r) (.bpSlot disp)) = .next (c.setReg r v) := by
  simp [hbp, h, hbits]

theorem exec_pcmpeqb_mem {x : Xmm} {r : Reg} (hr : c.regs.get r = a) (hlt : a < 2 ^ bits)
    (ha : a % 16 = 0) :
    exec (L := L) alu bits c cpuid (.pcmpeqb x (.mem r))
      = .next (c.setXmm x (Vec.equal (c.xmms.get x) fun i => c.mem (a + i))) := by
  have haddr : alu.address bits a 0 = a := Nat.mod_eq_of_lt hlt
  simp [hr, haddr, ha]

theorem exec_movdqaLoad {x : Xmm} {r : Reg} {disp : Nat} (hr : c.regs.get r + disp = a)
    (hlt : a < 2 ^ bits) (ha : a % 16 = 0) :
    exec (L := L) alu bits c cpuid (.movdqaLoad x r disp)
      = .next (c.setXmm x fun i => c.mem (a + i)) := by
  have haddr : alu.address bits (c.regs.get r) disp = a := by
    rw [← hr]
    exact Nat.mod_eq_of_lt (hr ▸ hlt)
  simp [haddr, ha]

theorem exec_pop {r : Reg} (h : c.stack c.sp = .word v) :
    exec (L := L) alu bits c cpuid (.pop r) = .next ((popped bits c).setReg r v) := by
  rw [exec, h]
  rfl

theorem exec_bsf {j : Nat} {r r' : Reg} (hr : c.regs.get r' = v) (hne : v ≠ 0)
    (hj : lowestBit bits 0 v = j) :
    exec (L := L) alu bits c cpuid (.bsf bits r r') = .next (c.setReg r j) := by
  subst hj
  rw [exec]
  simp only [narrow, if_true, hr, hne, if_false]

end Exec

/-- What a straight piece of code does.  It is computed for any operations on words, so that
no word is. -/
theorem Program.straight_of (p : Program L) (cpuid : X86.Cpuid) (l : L) (i j : Nat) (c : Cpu)
    (Φ : Alu → Cpu → Prop) (out : Alu → Cpu)
    (h : ∀ A, run A p.bits cpuid (((p.block l).drop i).take (j - i)) c = .next (out A))
    (hΦ : ∀ A, Φ A (out A)) : ∃ c', p.Straight cpuid l i j c c' ∧ Φ alu c' :=
  ⟨out alu, h alu, hΦ alu⟩

/-- The same when the state behind the piece is not one term. -/
theorem Program.exists_straight (p : Program L) (cpuid : X86.Cpuid) (l : L) (i j : Nat) (c : Cpu)
    (Φ : Alu → Cpu → Prop)
    (h : ∃ out : Alu → Cpu,
      (∀ A, run A p.bits cpuid (((p.block l).drop i).take (j - i)) c = .next (out A)) ∧
        ∀ A, Φ A (out A)) : ∃ c', p.Straight cpuid l i j c c' ∧ Φ alu c' := by
  obtain ⟨out, hrun, hΦ⟩ := h
  exact ⟨out alu, hrun alu, hΦ alu⟩

namespace Program.Yields

variable {i j : Nat} {out : Outcome L} {cond : Cond}

theorem of_straight (hij : i ≤ j) (h : p.Straight cpuid l i j c c')
    (hrest : p.Yields cpuid l j c' out) : p.Yields cpuid l i c out := by
  have hsplit : ((p.block l).drop i).take (j - i) ++ (p.block l).drop j = (p.block l).drop i := by
    have hdrop := List.take_append_drop (j - i) ((p.block l).drop i)
    rw [List.drop_drop, Nat.add_sub_cancel' hij] at hdrop
    exact hdrop
  rw [Yields, ← hsplit, run_append h]
  exact hrest

theorem of_taken (hi : (p.block l)[i]? = some (.jcc cond target))
    (h : c.flags.holds cond = true) : p.Yields cpuid l i c (.goto target c) := by
  have hexec : exec alu p.bits c cpuid (.jcc cond target) = .goto target c := if_pos h
  rw [Yields, drop_eq_cons hi]
  exact run_leaves hexec nofun

theorem of_passed (hi : (p.block l)[i]? = some (.jcc cond target))
    (h : c.flags.holds cond = false) (hrest : p.Yields cpuid l (i + 1) c out) :
    p.Yields cpuid l i c out := by
  have hexec : exec alu p.bits c cpuid (.jcc cond target) = .next c :=
    if_neg (Bool.eq_false_iff.mp h)
  rw [Yields, drop_eq_cons hi, run_cons hexec]
  exact hrest

theorem of_ret (hi : (p.block l)[i]? = some .ret) (h : c.stack c.sp = dest) :
    p.Yields cpuid l i c (.ret dest (popped p.bits c)) := by
  rw [Yields, drop_eq_cons hi, ← h]
  exact run_leaves rfl nofun

theorem of_jmp (hi : (p.block l)[i]? = some (.jmp target)) :
    p.Yields cpuid l i c (.goto target c) := by
  rw [Yields, drop_eq_cons hi]
  exact run_leaves rfl nofun

/-- The end of the block. -/
theorem of_end (hi : (p.block l).drop i = []) : p.Yields cpuid l i c (.next c) := by
  rw [Yields, hi]
  rfl

/-- A block that ends with `jne` behind a word that was tested. -/
theorem of_jne {v : Nat} (hi : (p.block l)[i]? = some (.jcc .ne target))
    (hend : (p.block l).drop (i + 1) = []) (h : c.flags.holds .ne = !decide (v = 0)) :
    p.Yields cpuid l i c (if v = 0 then .next c else .goto target c) := by
  by_cases hv : v = 0
  · rw [decide_eq_true hv] at h
    rw [if_pos hv]
    exact of_passed hi h (of_end hend)
  · rw [decide_eq_false hv] at h
    rw [if_neg hv]
    exact of_taken hi h

/-- A block that ends with `je` behind a word that was tested. -/
theorem of_je {v : Nat} (hi : (p.block l)[i]? = some (.jcc .e target))
    (hend : (p.block l).drop (i + 1) = []) (h : c.flags.holds .e = decide (v = 0)) :
    p.Yields cpuid l i c (if v = 0 then .goto target c else .next c) := by
  by_cases hv : v = 0
  · rw [decide_eq_true hv] at h
    rw [if_pos hv]
    exact of_taken hi h
  · rw [decide_eq_false hv] at h
    rw [if_neg hv]
    exact of_passed hi h (of_end hend)

end Program.Yields

theorem run_block {out : Outcome L} (h : p.Yields cpuid l 0 c out) :
    run alu p.bits cpuid (p.block l) c = out := h

/-- The block of `l` leaves the routine with the postcondition, or continues at a
label whose assertion holds and with a lower measure. -/
def Program.Progresses (p : Program L) (cpuid : X86.Cpuid) (T : L → Cpu → Prop)
    (μ : L → Cpu → Nat) (Q : Val → Cpu → Prop) (l : L) (c : Cpu) : Prop :=
  (∃ dest c', p.step cpuid (l, c) = .inr (some (dest, c')) ∧ Q dest c') ∨
    ∃ l' c', p.step cpuid (l, c) = .inl (l', c') ∧ T l' c' ∧ μ l' c' < μ l c

/-- The rule for a routine with loops: an assertion for each label and a measure
that every block lowers. -/
theorem Program.leaves_of_assertions (T : L → Cpu → Prop) (μ : L → Cpu → Nat)
    (Q : Val → Cpu → Prop) (hblock : ∀ l c, T l c → p.Progresses cpuid T μ Q l c)
    (h : T l c) : ∃ dest c', p.Leaves cpuid l c dest c' ∧ Q dest c' := by
  have hstep : ∀ t : L × Cpu, T t.1 t.2 →
      (∃ r, p.step cpuid t = .inr r ∧ ∃ dest c', r = some (dest, c') ∧ Q dest c') ∨
        (∃ t', p.step cpuid t = .inl t' ∧ T t'.1 t'.2 ∧ μ t'.1 t'.2 < μ t.1 t.2) := by
    intro t ht
    rcases hblock t.1 t.2 ht with ⟨dest, c', hret, hQ⟩ | ⟨l', c', hgoto, hT, hlt⟩
    · exact Or.inl ⟨some (dest, c'), hret, dest, c', rfl, hQ⟩
    · exact Or.inr ⟨(l', c'), hgoto, hT, hlt⟩
  have hreturns : ∃ r, Returns (p.step cpuid) (l, c) r ∧
      ∃ dest c', r = some (dest, c') ∧ Q dest c' :=
    returns_of_variant (fun t => T t.1 t.2) (fun t => μ t.1 t.2) _ hstep h
  obtain ⟨r, hr, dest, c', rfl, hQ⟩ := hreturns
  exact ⟨dest, c', hr, hQ⟩

theorem Program.Leaves.of_goto (h : p.Yields cpuid l 0 c (.goto l' c'))
    (hrest : p.Leaves cpuid l' c' dest c'') : p.Leaves cpuid l c dest c'' := by
  refine Returns.next ?_ hrest
  rw [step, run_block h]

theorem Program.Leaves.of_next (h : p.Yields cpuid l 0 c (.next c'))
    (hl : p.next l = some l') (hrest : p.Leaves cpuid l' c' dest c'') :
    p.Leaves cpuid l c dest c'' := by
  refine Returns.next ?_ hrest
  rw [step, run_block h]
  simp only [hl]

theorem Program.Leaves.of_ret (h : p.Yields cpuid l 0 c (.ret dest c')) :
    p.Leaves cpuid l c dest c' := by
  refine Returns.done ?_
  rw [step, run_block h]

theorem Program.leaves_iff_of_goto (h : p.Yields cpuid l 0 c (.goto l' c')) :
    p.Leaves cpuid l c dest c'' ↔ p.Leaves cpuid l' c' dest c'' := by
  refine returns_iff_of_step ?_
  rw [step, run_block h]

theorem Program.leaves_iff_of_next (h : p.Yields cpuid l 0 c (.next c'))
    (hl : p.next l = some l') :
    p.Leaves cpuid l c dest c'' ↔ p.Leaves cpuid l' c' dest c'' := by
  refine returns_iff_of_step ?_
  rw [step, run_block h]
  simp only [hl]

/-- A run leaves the routine in one way. -/
theorem Program.Leaves.unique {dest' : Val} (h : p.Leaves cpuid l c dest c')
    (h' : p.Leaves cpuid l c dest' c'') : dest = dest' ∧ c' = c'' :=
  Prod.mk.inj (Option.some.inj (Returns.unique h h'))

section Progresses

variable {T : L → Cpu → Prop} {μ : L → Cpu → Nat} {Q : Val → Cpu → Prop}

theorem Program.Progresses.of_goto (h : p.Yields cpuid l 0 c (.goto l' c'))
    (hT : T l' c') (hμ : μ l' c' < μ l c) : p.Progresses cpuid T μ Q l c := by
  refine Or.inr ⟨l', c', ?_, hT, hμ⟩
  rw [step, run_block h]

theorem Program.Progresses.of_next (h : p.Yields cpuid l 0 c (.next c'))
    (hl : p.next l = some l') (hT : T l' c') (hμ : μ l' c' < μ l c) :
    p.Progresses cpuid T μ Q l c := by
  refine Or.inr ⟨l', c', ?_, hT, hμ⟩
  rw [step, run_block h]
  simp only [hl]

theorem Program.Progresses.of_ret (h : p.Yields cpuid l 0 c (.ret dest c'))
    (hQ : Q dest c') : p.Progresses cpuid T μ Q l c := by
  refine Or.inl ⟨dest, c', ?_, hQ⟩
  rw [step, run_block h]

end Progresses

end Run

/-! ## What an instruction leaves as it was -/

section Frame

variable {L : Type}

/-- The registers that an instruction writes to. -/
def Instr.writes : Instr L → List Reg
  | .mov _ (.reg r) _ | .arith _ _ r _ | .not _ r | .inc _ r | .dec _ r | .shl _ r _
  | .shlCl _ r | .shr _ r _ | .bsf _ r _ | .pmovmskb r _ => [r]
  | .mul _ _ | .div _ _ => [.ax, .dx]
  | .xchg a b => [a, b]
  | .cpuid => [.ax, .bx, .cx, .dx]
  | _ => []

/-- The instruction changes nothing but registers and flags. -/
def Instr.isLocal : Instr L → Bool
  | .mov _ (.reg _) _ | .arith .. | .cmp .. | .test .. | .not .. | .inc .. | .dec .. | .shl ..
  | .shlCl .. | .shr .. | .mul .. | .div .. | .xchg .. | .bsf .. | .movd .. | .movdqaLoad ..
  | .pxor .. | .pcmpeqb .. | .pmovmskb .. | .punpcklbw .. | .pshufd .. | .shufps .. | .cpuid => true
  | _ => false

/-- From `c` to `c'` nothing changed but these registers, and vectors and flags. -/
structure Kept (written : List Reg) (c c' : Cpu) : Prop where
  reg : ∀ r, r ∉ written → c'.regs.get r = c.regs.get r
  mem : c'.mem = c.mem
  stack : c'.stack = c.stack
  sp : c'.sp = c.sp
  bp : c'.bp = c.bp
  status : c'.status = c.status

variable {A : Alu} {bits : Nat} {cpuid : X86.Cpuid} {c c' c'' : Cpu} {ws ws' : List Reg}

theorem Kept.refl (c : Cpu) : Kept [] c c := ⟨fun _ _ => rfl, rfl, rfl, rfl, rfl, rfl⟩

theorem Kept.trans (h : Kept ws c c') (h' : Kept ws' c' c'') : Kept (ws ++ ws') c c'' where
  reg r hr := by
    rw [List.mem_append, not_or] at hr
    rw [h'.reg r hr.2, h.reg r hr.1]
  mem := h'.mem.trans h.mem
  stack := h'.stack.trans h.stack
  sp := h'.sp.trans h.sp
  bp := h'.bp.trans h.bp
  status := h'.status.trans h.status

theorem Kept.mono (h : Kept ws c c') (hsub : ws ⊆ ws') : Kept ws' c c' :=
  ⟨fun r hr => h.reg r fun hmem => hr (hsub hmem), h.mem, h.stack, h.sp, h.bp, h.status⟩

theorem Kept.setFlags (h : Kept ws c c') (f : Flags) : Kept ws c (c'.setFlags f) :=
  ⟨h.reg, h.mem, h.stack, h.sp, h.bp, h.status⟩

theorem Kept.setXmm (c : Cpu) (x : Xmm) (v : Vec) : Kept [] c (c.setXmm x v) :=
  ⟨fun _ _ => rfl, rfl, rfl, rfl, rfl, rfl⟩

theorem Kept.setReg (h : Kept ws c c') (r : Reg) (v : Nat) :
    Kept (ws ++ [r]) c (c'.setReg r v) where
  reg q hq := by
    rw [List.mem_append, List.mem_singleton, not_or] at hq
    exact (Regs.get_set _ _ _ _).trans ((if_neg hq.2).trans (h.reg q hq.1))
  mem := h.mem
  stack := h.stack
  sp := h.sp
  bp := h.bp
  status := h.status

theorem ofOption_eq_next {o : Option Cpu} : Outcome.ofOption (L := L) o = .next c' ↔ o = some c' := by
  cases o <;> simp [Outcome.ofOption]

theorem exec_kept {i : Instr L} (hlocal : i.isLocal = true)
    (h : exec A bits c cpuid i = .next c') : Kept i.writes c c' := by
  have hset : ∀ r v, Kept [r] c (c.setReg r v) := fun r v => (Kept.refl c).setReg r v
  have hfs : ∀ f, Kept [] c (c.setFlags f) := (Kept.refl c).setFlags
  cases i with
  | mov w dst src =>
    cases dst with
    | reg r =>
      obtain ⟨v, -, hv⟩ := Option.bind_eq_some_iff.mp (ofOption_eq_next.mp h)
      rw [← Option.some.inj hv]
      exact hset _ _
    | _ => cases hlocal
  | arith op w dst src =>
    obtain ⟨v, -, rfl⟩ := Option.map_eq_some_iff.mp (ofOption_eq_next.mp h)
    exact (hset _ _).setFlags _
  | cmp w a b | test w a b =>
    obtain ⟨v, -, hv⟩ := Option.bind_eq_some_iff.mp (ofOption_eq_next.mp h)
    obtain ⟨u, -, rfl⟩ := Option.map_eq_some_iff.mp hv
    exact hfs _
  | not w r | shl w r k | shlCl w r | shr w r k | pmovmskb r x =>
    rw [← Outcome.next.inj h]
    exact hset _ _
  | inc w r | dec w r =>
    rw [← Outcome.next.inj h]
    exact (hset _ _).setFlags _
  | mul w r =>
    rw [← Outcome.next.inj h]
    exact (hset _ _).setReg _ _
  | xchg a b =>
    rw [← Outcome.next.inj h]
    exact (hset _ _).setReg _ _
  | div w r =>
    rw [exec] at h
    split at h
    · cases h
    · rw [← Outcome.next.inj h]
      exact (hset _ _).setReg _ _
  | bsf w r r' =>
    rw [exec] at h
    split at h
    · rw [← Outcome.next.inj h]
      exact ⟨fun _ _ => rfl, rfl, rfl, rfl, rfl, rfl⟩
    · rw [← Outcome.next.inj h]
      exact hset _ _
  | movd w x r | pxor x y | punpcklbw x y | pshufd x y k | shufps x y k =>
    rw [← Outcome.next.inj h]
    exact Kept.setXmm _ _ _
  | movdqaLoad x r d =>
    obtain ⟨v, -, rfl⟩ := Option.map_eq_some_iff.mp (ofOption_eq_next.mp h)
    exact Kept.setXmm _ _ _
  | pcmpeqb x src =>
    cases src with
    | xmm y =>
      rw [← Outcome.next.inj h]
      exact Kept.setXmm _ _ _
    | mem r =>
      obtain ⟨v, -, rfl⟩ := Option.map_eq_some_iff.mp (ofOption_eq_next.mp h)
      exact Kept.setXmm _ _ _
  | cpuid =>
    rw [← Outcome.next.inj h]
    exact (((hset _ _).setReg _ _).setReg _ _).setReg _ _
  | push | pop | pushBp | popBp | movBpSp | movdqaStore | movdquStore | jcc | jmp | ret =>
    cases hlocal

/-- A piece of code with such instructions only. -/
theorem run_kept {is : List (Instr L)} (hlocal : is.all Instr.isLocal = true)
    (h : run A bits cpuid is c = .next c') : Kept (is.flatMap Instr.writes) c c' := by
  induction is generalizing c with
  | nil =>
    rw [← Outcome.next.inj h]
    exact Kept.refl c
  | cons i is ih =>
    rw [List.all_cons, Bool.and_eq_true] at hlocal
    obtain ⟨d, hi, hrest⟩ := exec_of_run_cons h
    rw [List.flatMap_cons]
    exact (exec_kept hlocal.1 hi).trans (ih hlocal.2 hrest)

theorem Program.Straight.kept {p : Program L} {l : L} {i j : Nat}
    (h : p.Straight cpuid l i j c c')
    (hlocal : (((p.block l).drop i).take (j - i)).all Instr.isLocal = true) :
    Kept ((((p.block l).drop i).take (j - i)).flatMap Instr.writes) c c' :=
  run_kept hlocal h

end Frame

end Lib.Asm
