import Xeos.Lib.Bits
import Xeos.Lib.Interleave

/-!
# Processors that share a memory

The instructions of short atomic routines, one step each.  Every processor has
its own registers and its own stack; the memory is shared.  An instruction that
reads and writes the memory is one step only with the `lock` prefix, so without
it the machine has no step for it, and the prefix in front of an instruction that
does not write the memory is an invalid opcode.

A value is a word, an address in the stack of the processor or a return address.
The addresses of the stack are counted from where the caller left the stack
pointer.
-/

namespace Lib.Smp

inductive Reg
  | ax | bx | cx | dx | si | di | bp | sp
deriving DecidableEq, Repr

/-- A routine and the number of an instruction in it.  There is none in the caller. -/
abbrev Loc (N : Type) := Option (N × Nat)

inductive Val (N : Type)
  | word (v : Nat)
  | slot (off : Int)
  | loc (l : Loc N)

structure Regs (N : Type) where
  ax : Val N
  bx : Val N
  cx : Val N
  dx : Val N
  si : Val N
  di : Val N
  bp : Val N
  sp : Val N

namespace Regs

variable {N : Type}

def get (r : Regs N) : Reg → Val N
  | .ax => r.ax
  | .bx => r.bx
  | .cx => r.cx
  | .dx => r.dx
  | .si => r.si
  | .di => r.di
  | .bp => r.bp
  | .sp => r.sp

def set (r : Regs N) (v : Val N) : Reg → Regs N
  | .ax => { r with ax := v }
  | .bx => { r with bx := v }
  | .cx => { r with cx := v }
  | .dx => { r with dx := v }
  | .si => { r with si := v }
  | .di => { r with di := v }
  | .bp => { r with bp := v }
  | .sp => { r with sp := v }

end Regs

structure Cpu (N : Type) where
  pc : Loc N
  regs : Regs N
  stack : Int → Val N
  zf : Bool
  cf : Bool

/-- A register, an immediate, a word of the stack or a word of the memory. -/
inductive Operand
  | reg (r : Reg)
  | imm (v : Nat)
  | stack (base : Reg) (disp : Nat)
  | mem (base : Reg) (disp : Nat)
deriving DecidableEq, Repr

inductive Arith
  | add | adc | sub | and | or | xor
deriving DecidableEq, Repr

/-- The widths are numbers of bits. -/
inductive Instr (N : Type)
  | mov (w : Nat) (dst src : Operand)
  | arith (op : Arith) (w : Nat) (dst : Reg) (src : Operand)
  | cmp (w : Nat) (a b : Operand)
  | test (w : Nat) (a b : Operand)
  /-- The shifts, by fewer bits than the width. -/
  | shl (w : Nat) (dst : Reg) (count : Nat)
  | shr (w : Nat) (dst : Reg) (count : Nat)
  | shld (w : Nat) (dst src : Reg) (count : Nat)
  | shrd (w : Nat) (dst src : Reg) (count : Nat)
  | push (src : Reg)
  | pop (dst : Reg)
  /-- `push` and `pop` of the low 16 bits. -/
  | push16 (src : Reg)
  | pop16 (dst : Reg)
  /-- `sete` of the low byte. -/
  | sete (dst : Reg)
  /-- `setc` of the low byte. -/
  | setc (dst : Reg)
  /-- `movzx` of the low byte. -/
  | movzx (dst src : Reg)
  | xadd (w : Nat) (dst : Operand) (src : Reg)
  | cmpxchg (w : Nat) (dst : Operand) (src : Reg)
  | cmpxchg8b (dst : Operand)
  /-- `bts`, or `btr`. -/
  | bitTest (set : Bool) (w : Nat) (dst : Operand) (src : Reg)
  | lock (i : Instr N)
  | je (target : Nat)
  | jnz (target : Nat)
  | jmp (target : Nat)
  /-- `jmp` to the start of a routine. -/
  | tail (routine : N)
  | call (routine : N)
  | ret
  | mfence
  | pause

/-- The routines of a program for registers of `bits` bits. -/
structure Program (N : Type) where
  bits : Nat
  code : N → List (Instr N)

namespace Program

variable {N : Type} (P : Program N)

/-- The number of a value in `w` bits. -/
def low (w : Nat) : Val N → Option Nat
  | .word v => some (v % 2 ^ w)
  | _ => none

/-- A whole register is copied as it is. -/
def narrow (w : Nat) (v : Val N) : Option (Val N) :=
  if w = P.bits then some v else (low w v).map .word

/-- The address of an operand in memory. -/
def address (c : Cpu N) (base : Reg) (disp : Nat) : Option Nat :=
  match c.regs.get base with
  | .word v => some ((v + disp) % 2 ^ P.bits)
  | _ => none

/-- The address of an operand in the stack. -/
def slotOf (c : Cpu N) (base : Reg) (disp : Nat) : Option Int :=
  match c.regs.get base with
  | .slot off => some (off + disp)
  | _ => none

/-- A register, an immediate or a word of the stack. -/
def read (w : Nat) (c : Cpu N) : Operand → Option (Val N)
  | .reg r => P.narrow w (c.regs.get r)
  | .imm v => some (.word (v % 2 ^ w))
  | .stack base disp => (slotOf c base disp).bind fun off => P.narrow w (c.stack off)
  | .mem .. => none

def readWord (w : Nat) (c : Cpu N) (o : Operand) : Option Nat := (P.read w c o).bind (low w)

def setReg (c : Cpu N) (r : Reg) (v : Val N) : Cpu N := { c with regs := c.regs.set v r }

def setSlot (c : Cpu N) (off : Int) (v : Val N) : Cpu N :=
  { c with stack := fun a => if a = off then v else c.stack a }

/-- A register after a write of `w` bits of it: a write of 8 or 16 bits keeps the rest, and
a longer one clears it. -/
def merge (w : Nat) (old v : Val N) : Option (Val N) :=
  if 32 ≤ w then some v
  else
    match old, v with
    | .word a, .word b => some (.word (a / 2 ^ w * 2 ^ w + b % 2 ^ w))
    | _, _ => none

def write (w : Nat) (c : Cpu N) (v : Val N) : Operand → Option (Cpu N)
  | .reg r => (merge w (c.regs.get r) v).map (setReg c r)
  | .stack base disp => (slotOf c base disp).map fun off => setSlot c off v
  | .imm _ | .mem .. => none

/-- The result and the carry. -/
def compute (w : Nat) (cf : Bool) (a b : Nat) : Arith → Nat × Bool
  | .add => ((a + b) % 2 ^ w, decide (2 ^ w ≤ a + b))
  | .adc => ((a + b + cf.toNat) % 2 ^ w, decide (2 ^ w ≤ a + b + cf.toNat))
  | .sub => ((a + 2 ^ w - b) % 2 ^ w, decide (a < b))
  | .and => (a &&& b, false)
  | .or => (a ||| b, false)
  | .xor => (a ^^^ b, false)

/-- The result and the carry of a shift to the left, with the bits that come in. -/
def shiftLeft (w k a b : Nat) : Nat × Bool :=
  (a * 2 ^ k % 2 ^ w + b / 2 ^ (w - k), a.testBit (w - k))

/-- The same to the right. -/
def shiftRight (w k a b : Nat) : Nat × Bool :=
  (a / 2 ^ k + b % 2 ^ k * 2 ^ (w - k), a.testBit (k - 1))

def execShift (shift : Nat → Nat → Nat × Bool) (w : Nat) (dst : Reg) (src : Val N) (c : Cpu N) :
    Option (Cpu N) :=
  match low w (c.regs.get dst), low w src with
  | some a, some b =>
    let (v, cf) := shift a b
    some { setReg c dst (.word v) with zf := v == 0, cf := cf }
  | _, _ => none

/-- Arithmetic on a register, which may be the stack pointer. -/
def execArith (op : Arith) (w : Nat) (dst : Reg) (src : Operand) (c : Cpu N) : Option (Cpu N) :=
  if op = .xor ∧ src = .reg dst then
    some { setReg c dst (.word 0) with zf := true, cf := false }
  else
    match c.regs.get dst, op, P.readWord w c src with
    | .slot off, .add, some b => some (setReg c dst (.slot (off + b)))
    | .slot off, .sub, some b => some (setReg c dst (.slot (off - b)))
    | .word a, _, some b =>
      let (v, cf) := compute w c.cf (a % 2 ^ w) b op
      some { setReg c dst (.word v) with zf := v == 0, cf := cf }
    | _, _, _ => none

def pushVal (c : Cpu N) (v : Val N) : Option (Cpu N) :=
  match c.regs.sp with
  | .slot off =>
    let off := off - (P.bits / 8 : Nat)
    some (setSlot (setReg c .sp (.slot off)) off v)
  | _ => none

def popVal (c : Cpu N) : Option (Cpu N × Val N) :=
  match c.regs.sp with
  | .slot off => some (setReg c .sp (.slot (off + (P.bits / 8 : Nat))), c.stack off)
  | _ => none

def pushWord (c : Cpu N) (v : Val N) : Option (Cpu N) :=
  match c.regs.sp, low 16 v with
  | .slot off, some v => some (setSlot (setReg c .sp (.slot (off - 2))) (off - 2) (.word v))
  | _, _ => none

def popWord (c : Cpu N) : Option (Cpu N × Val N) :=
  match c.regs.sp with
  | .slot off => some (setReg c .sp (.slot (off + 2)), c.stack off)
  | _ => none

/-- A bit offset in a register may be negative. -/
def signed (w v : Nat) : Int := if v < 2 ^ (w - 1) then v else v - 2 ^ w

/-- The instructions that take the `lock` prefix, on a word of the memory. -/
def execLocked (c : Cpu N) (m : Memory) : Instr N → Option (Cpu N × Memory)
  | .xadd w (.mem base disp) src =>
    match P.address c base disp, low w (c.regs.get src) with
    | some a, some v =>
      let old := m.load a (w / 8)
      let (new, cf) := compute w c.cf old v .add
      some ({ setReg c src (.word old) with zf := new == 0, cf := cf }, m.store a (w / 8) new)
    | _, _ => none
  | .cmpxchg w (.mem base disp) src =>
    match P.address c base disp, low w c.regs.ax, low w (c.regs.get src) with
    | some a, some expected, some v =>
      let old := m.load a (w / 8)
      if old = expected then some ({ c with zf := true }, m.store a (w / 8) v)
      else (merge w c.regs.ax (.word old)).map fun v => ({ setReg c .ax v with zf := false }, m)
    | _, _, _ => none
  | .cmpxchg8b (.mem base disp) =>
    match P.address c base disp, low 32 c.regs.ax, low 32 c.regs.dx, low 32 c.regs.bx,
      low 32 c.regs.cx with
    | some a, some eax, some edx, some ebx, some ecx =>
      let old := m.load a 8
      if old = eax + 2 ^ 32 * edx then
        some ({ c with zf := true }, m.store a 8 (ebx + 2 ^ 32 * ecx))
      else
        some ({ setReg (setReg c .ax (.word (old % 2 ^ 32))) .dx (.word (old / 2 ^ 32)) with
          zf := false }, m)
    | _, _, _, _, _ => none
  | .bitTest set w (.mem base disp) src =>
    match P.address c base disp, low w (c.regs.get src) with
    | some a, some v =>
      let a := ((a + (w / 8 : Nat) * (signed w v / w)) % (2 ^ P.bits : Nat)).toNat
      let k := (signed w v % w).toNat
      let old := m.load a (w / 8)
      let new := if set then old ||| 2 ^ k else old &&& (2 ^ w - 1 - 2 ^ k)
      some ({ c with cf := old.testBit k }, m.store a (w / 8) new)
    | _, _ => none
  | _ => none

/-- An instruction without an operand in memory, of the routine `n`, where `k` is
the number of the next one. -/
def execOwn (n : N) (k : Nat) (c : Cpu N) : Instr N → Option (Cpu N)
  | .mov w dst src => (P.read w c src).bind fun v => write w c v dst
  | .arith op w dst src => P.execArith op w dst src c
  | .cmp w a b =>
    match P.readWord w c a, P.readWord w c b with
    | some a, some b => some { c with zf := a == b, cf := decide (a < b) }
    | _, _ => none
  | .test w a b =>
    match P.readWord w c a, P.readWord w c b with
    | some a, some b => some { c with zf := a &&& b == 0, cf := false }
    | _, _ => none
  | .shl w dst k => execShift (shiftLeft w k) w dst (.word 0) c
  | .shr w dst k => execShift (shiftRight w k) w dst (.word 0) c
  | .shld w dst src k => execShift (shiftLeft w k) w dst (c.regs.get src) c
  | .shrd w dst src k => execShift (shiftRight w k) w dst (c.regs.get src) c
  | .push src => P.pushVal c (c.regs.get src)
  | .pop dst => (P.popVal c).map fun (c, v) => setReg c dst v
  | .push16 src => pushWord c (c.regs.get src)
  | .pop16 dst => (popWord c).bind fun (c, v) => (merge 16 (c.regs.get dst) v).map (setReg c dst)
  | .sete dst =>
    match c.regs.get dst with
    | .word v => some (setReg c dst (.word (v / 2 ^ 8 * 2 ^ 8 + c.zf.toNat)))
    | _ => none
  | .setc dst =>
    match c.regs.get dst with
    | .word v => some (setReg c dst (.word (v / 2 ^ 8 * 2 ^ 8 + c.cf.toNat)))
    | _ => none
  | .movzx dst src =>
    match c.regs.get src with
    | .word v => some (setReg c dst (.word (v % 2 ^ 8)))
    | _ => none
  | .je target => some (if c.zf then { c with pc := some (n, target) } else c)
  | .jnz target => some (if c.zf then c else { c with pc := some (n, target) })
  | .jmp target => some { c with pc := some (n, target) }
  | .tail routine => some { c with pc := some (routine, 0) }
  | .call routine =>
    (P.pushVal c (.loc (some (n, k)))).map fun c => { c with pc := some (routine, 0) }
  | .ret =>
    match P.popVal c with
    | some (c, .loc l) => some { c with pc := l }
    | _ => none
  | .mfence | .pause => some c
  | .lock _ | .xadd .. | .cmpxchg .. | .cmpxchg8b .. | .bitTest .. => none

/-- Any instruction. -/
def exec (n : N) (k : Nat) (c : Cpu N) (m : Memory) : Instr N → Option (Cpu N × Memory)
  | .mov w (.reg dst) (.mem base disp) =>
    (P.address c base disp).map fun a => (setReg c dst (.word (m.load a (w / 8))), m)
  | .mov w (.mem base disp) src =>
    match P.address c base disp, P.readWord w c src with
    | some a, some v => some (c, m.store a (w / 8) v)
    | _, _ => none
  | .lock i => P.execLocked c m i
  | i => (P.execOwn n k c i).map fun c => (c, m)

/-- One step of a processor: there is none in the caller and after a fault. -/
def step (c : Cpu N) (m : Memory) : Option (Cpu N × Memory) :=
  match c.pc with
  | none => none
  | some (n, k) =>
    match (P.code n)[k]? with
    | none => none
    | some i => P.exec n (k + 1) { c with pc := some (n, k + 1) } m i

theorem step_of_pc_none {c : Cpu N} (hpc : c.pc = none) (m : Memory) : P.step c m = none := by
  rw [step, hpc]

/-- The program as the code of operations, where `res` is the result of a call that
returned. -/
def machine {Op Ret : Type} (Enter : Op → Cpu N → Prop) (res : Cpu N → Option Ret) :
    Interleave.Machine (Cpu N) Memory Op Ret where
  Enter := Enter
  step := P.step
  result c := if c.pc.isNone then res c else none
  step_of_result c r m h := by
    have hpc : c.pc = none := by
      by_contra hne
      rw [if_neg (fun hnone => hne (Option.isNone_iff_eq_none.mp hnone))] at h
      exact nomatch h
    exact P.step_of_pc_none hpc m

section

variable {P} {Op Ret : Type} {Enter : Op → Cpu N → Prop} {res : Cpu N → Option Ret} {c : Cpu N}

/-- The result of a call that is back in the caller. -/
theorem result_machine (hpc : c.pc = none) : (P.machine Enter res).result c = res c := by
  change (if c.pc.isNone then res c else none) = res c
  rw [hpc, Option.isNone_none, if_pos rfl]

theorem result_machine_of_some {l : N × Nat} (hpc : c.pc = some l) :
    (P.machine Enter res).result c = none := by
  change (if c.pc.isNone then res c else none) = none
  rw [hpc, Option.isNone_some, if_neg Bool.false_ne_true]

end

/-- An exchange that compares. -/
theorem execLocked_cmpxchg {c : Cpu N} {m : Memory} {w a e v disp : Nat} {base src : Reg}
    (hbase : P.address c base disp = some a) (hax : low w c.regs.ax = some e)
    (hsrc : low w (c.regs.get src) = some v) :
    P.execLocked c m (.cmpxchg w (.mem base disp) src)
      = if m.load a (w / 8) = e then some ({ c with zf := true }, m.store a (w / 8) v)
        else (merge w c.regs.ax (.word (m.load a (w / 8)))).map
          fun v => ({ setReg c .ax v with zf := false }, m) := by
  unfold execLocked
  simp only [hbase, hax, hsrc]

/-- An exchange of 64 bits that compares. -/
theorem execLocked_cmpxchg8b (m : Memory) (base : Reg) (disp : Nat) (c : Cpu N)
    {a eax edx ebx ecx : Nat} (hbase : P.address c base disp = some a)
    (hax : low 32 c.regs.ax = some eax) (hdx : low 32 c.regs.dx = some edx)
    (hbx : low 32 c.regs.bx = some ebx) (hcx : low 32 c.regs.cx = some ecx) :
    P.execLocked c m (.cmpxchg8b (.mem base disp))
      = if m.load a 8 = eax + 2 ^ 32 * edx then
          some ({ c with zf := true }, m.store a 8 (ebx + 2 ^ 32 * ecx))
        else
          some ({ setReg (setReg c .ax (.word (m.load a 8 % 2 ^ 32))) .dx
            (.word (m.load a 8 / 2 ^ 32)) with zf := false }, m) := by
  unfold execLocked
  simp only [hbase, hax, hdx, hbx, hcx]

/-- A test of a bit whose number is below 32 stays in the word at the address. -/
theorem execLocked_bitTest {c : Cpu N} {m : Memory} {base src : Reg} {x y : Nat} (set : Bool)
    (hbase : P.address c base 0 = some y) (hsrc : low 32 (c.regs.get src) = some x) (hx : x < 32) :
    P.execLocked c m (.bitTest set 32 (.mem base 0) src)
      = some ({ c with cf := m.bit (y + x / 8) (x % 8) }, m.setBit (y + x / 8) (x % 8) set) := by
  have hy : y < 2 ^ P.bits := by
    unfold address at hbase
    split at hbase
    · rw [← Option.some.inj hbase]
      exact Nat.mod_lt _ (Nat.two_pow_pos _)
    · exact nomatch hbase
  have hsigned : signed 32 x = x := by
    unfold signed
    rw [if_pos (by omega)]
  have hword : (((y : Int) + (32 / 8 : Nat) * ((x : Int) / (32 : Nat))) % (2 ^ P.bits : Nat)).toNat
      = y := by
    have hzero : (x : Int) / (32 : Nat) = 0 := by omega
    rw [hzero, Int.mul_zero, Int.add_zero, Int.emod_eq_of_lt (by omega) (by exact_mod_cast hy)]
    omega
  have hbit : ((x : Int) % (32 : Nat)).toNat = x := by omega
  have hload : (m.load y 4).testBit x = m.bit (y + x / 8) (x % 8) := by
    rw [← Memory.testBit_load m (show x / 8 < 4 by omega) (Nat.mod_lt x (by omega)),
      Nat.div_add_mod]
  unfold execLocked
  simp only [hbase, hsrc, hsigned, hword, hbit, Nat.reduceDiv, hload]
  cases set with
  | true => rw [← Memory.store_lor_two_pow m (show x < 8 * 4 from hx), if_pos rfl]
  | false => rw [← Memory.store_land_two_pow m (show x < 8 * 4 from hx), if_neg Bool.false_ne_true]

/-! ## Instructions without an access to the memory -/

/-- `k` steps, none of them with an operand in memory. -/
def silent : Nat → Cpu N → Option (Cpu N)
  | 0, c => some c
  | j + 1, c =>
    match c.pc with
    | none => none
    | some (n, k) =>
      match (P.code n)[k]? with
      | none => none
      | some i => (P.execOwn n (k + 1) { c with pc := some (n, k + 1) } i).bind (silent j)

section Silent

variable {P} {c c' : Cpu N}

theorem exec_of_execOwn {n : N} {k : Nat} {i : Instr N} (h : P.execOwn n k c i = some c')
    (m : Memory) : P.exec n k c m i = some (c', m) := by
  have hown : (P.execOwn n k c i).map (fun c => (c, m)) = some (c', m) := by
    rw [h]
    rfl
  cases i with
  | lock i => exact nomatch h
  | mov w dst src =>
    obtain ⟨v, hread, hwrite⟩ := Option.bind_eq_some_iff.mp h
    cases dst with
    | mem base disp => exact nomatch hwrite
    | reg r =>
      cases src with
      | mem base disp => exact nomatch hread
      | _ => exact hown
    | _ => exact hown
  | _ => exact hown

variable {Op Ret : Type} {T : Cpu N → Prop} {M : Interleave.Machine (Cpu N) Memory Op Ret}

/-- A machine that runs the program goes through silent steps. -/
theorem reaches_of_silent (hM : M.step = P.step) {j : Nat} (h : P.silent j c = some c')
    (hreach : M.Reaches T c') : M.Reaches T c := by
  induction j generalizing c with
  | zero =>
    have heq : c = c' := Option.some.inj h
    rw [heq]
    exact hreach
  | succ j ih =>
    rw [silent] at h
    cases hpc : c.pc with
    | none =>
      rw [hpc] at h
      exact nomatch h
    | some l =>
      obtain ⟨n, k⟩ := l
      rw [hpc] at h
      dsimp only at h
      cases hcode : (P.code n)[k]? with
      | none =>
        rw [hcode] at h
        exact nomatch h
      | some i =>
        rw [hcode] at h
        obtain ⟨c₁, hown, hrest⟩ := Option.bind_eq_some_iff.mp h
        refine .next (fun _ => c₁) (fun m => ?_) (fun _ => ih hrest)
        rw [hM, step, hpc]
        dsimp only
        rw [hcode]
        exact exec_of_execOwn hown m

end Silent

end Program

/-! ## The cells of a stack -/

/-- A stack with some of its cells given. -/
def withCells {N : Type} (stack : Int → Val N) : List (Int × Val N) → Int → Val N
  | [], a => stack a
  | (o, v) :: cells, a => if a = o then v else withCells stack cells a

/-- Writing the first of the cells once more. -/
theorem withCells_again {N : Type} (stack : Int → Val N) (o : Int) (v : Val N)
    (cells : List (Int × Val N)) :
    withCells (withCells stack ((o, v) :: cells)) [(o, v)] = withCells stack ((o, v) :: cells) := by
  funext a
  simp only [withCells]
  split
  · rfl
  · rfl

end Lib.Smp
