import Xeos.Lib.Loop
import Xeos.Lib.Memory

/-!
# A part of the x86 instruction set

The instructions that the assembly routines use, over a flat memory.  A routine
is a `Program`: for each label of its text the instructions that follow it, and
the label that comes next.  A jump, a return or a fault ends a block, and a block
that runs off its end continues at the next label.

Registers and addresses are natural numbers.  Every instruction reduces what it
writes to its width, which is a number of bits.
-/

namespace Lib.X86

/-- The general purpose registers, by their 64-bit names. -/
inductive Reg where
  | rax | rbx | rcx | rdx | rsi | rdi | rbp | rsp
  | r8 | r9 | r10 | r11 | r12 | r13 | r14 | r15
deriving DecidableEq, Repr

/-- The state of the processor, with the flags that the jumps test. -/
structure Cpu where
  reg : Reg → Nat
  xmm : Nat → Nat
  mem : Memory
  cf : Bool
  zf : Bool
  sf : Bool
  of : Bool

/-- A register, an immediate or `[ base + disp ]`. -/
inductive Operand where
  | reg (r : Reg)
  | imm (v : Nat)
  | mem (base : Option Reg) (disp : Nat)
deriving DecidableEq, Repr

namespace Operand

abbrev rax : Operand := .reg .rax
abbrev rcx : Operand := .reg .rcx
abbrev rdx : Operand := .reg .rdx
abbrev rsi : Operand := .reg .rsi
abbrev rdi : Operand := .reg .rdi
abbrev r8 : Operand := .reg .r8
abbrev r9 : Operand := .reg .r9
abbrev r10 : Operand := .reg .r10
abbrev r11 : Operand := .reg .r11

end Operand

/-- The conditions of the jumps, with their other names. -/
inductive Cond where
  /-- `jb`: carry. -/
  | b
  /-- `je`, `jz`. -/
  | e
  /-- `jne`, `jnz`. -/
  | ne
  /-- `jge`: signed. -/
  | ge
deriving DecidableEq, Repr

inductive Instr (L : Type) where
  | mov (w : Nat) (dst src : Operand)
  | add (w : Nat) (dst src : Operand)
  | sub (w : Nat) (dst src : Operand)
  | and (w : Nat) (dst src : Operand)
  | cmp (w : Nat) (a b : Operand)
  | test (w : Nat) (a b : Operand)
  /-- `movdqa xmm, [ base + disp ]`, or `movdqu`. -/
  | movdqLoad (aligned : Bool) (x : Nat) (base : Reg) (disp : Nat)
  /-- `movdqa [ base + disp ], xmm`, or `movdqu`. -/
  | movdqStore (aligned : Bool) (base : Reg) (disp : Nat) (x : Nat)
  | cpuid
  | jcc (cond : Cond) (target : L)
  | jmp (target : L)
  | ret

/-- What a `cpuid` leaves in `eax`, `ebx`, `ecx` and `edx`. -/
structure CpuidResult where
  eax : Nat
  ebx : Nat
  ecx : Nat
  edx : Nat

/-- The answers of `cpuid`, by leaf. -/
abbrev Cpuid := Nat → CpuidResult

namespace Cpu

def setReg (c : Cpu) (r : Reg) (v : Nat) : Cpu :=
  { c with reg := fun r' => if r' = r then v else c.reg r' }

def setXmm (c : Cpu) (x v : Nat) : Cpu :=
  { c with xmm := fun y => if y = x then v else c.xmm y }

def setMem (c : Cpu) (m : Memory) : Cpu := { c with mem := m }

def address (c : Cpu) (base : Option Reg) (disp : Nat) : Nat :=
  match base with
  | some r => (c.reg r + disp) % 2 ^ 64
  | none => disp % 2 ^ 64

def read (c : Cpu) (w : Nat) : Operand → Nat
  | .reg r => c.reg r % 2 ^ w
  | .imm v => v % 2 ^ w
  | .mem base disp => c.mem.load (c.address base disp) (w / 8)

/-- A write of 32 bits clears the rest of the register, and a shorter one keeps
it. -/
def write (c : Cpu) (w : Nat) (dst : Operand) (v : Nat) : Cpu :=
  match dst with
  | .reg r =>
    if 32 ≤ w then c.setReg r (v % 2 ^ w)
    else c.setReg r (c.reg r / 2 ^ w * 2 ^ w + v % 2 ^ w)
  | .imm _ => c
  | .mem base disp => c.setMem (c.mem.store (c.address base disp) (w / 8) v)

/-- The top bit of a value of `w` bits. -/
def signBit (w v : Nat) : Bool := decide (2 ^ (w - 1) ≤ v)

def difference (w a b : Nat) : Nat := (a + 2 ^ w - b) % 2 ^ w

/-- The flags of `a - b`. -/
def setFlagsSub (c : Cpu) (w a b : Nat) : Cpu :=
  { c with
    cf := decide (a < b)
    zf := decide (difference w a b = 0)
    sf := signBit w (difference w a b)
    of := (signBit w a != signBit w b) && (signBit w a != signBit w (difference w a b)) }

/-- The flags of `a + b`. -/
def setFlagsAdd (c : Cpu) (w a b : Nat) : Cpu :=
  { c with
    cf := decide (2 ^ w ≤ a + b)
    zf := decide ((a + b) % 2 ^ w = 0)
    sf := signBit w ((a + b) % 2 ^ w)
    of := (signBit w a == signBit w b) && (signBit w a != signBit w ((a + b) % 2 ^ w)) }

/-- The flags of a bitwise operation with the result `v`. -/
def setFlagsLogic (c : Cpu) (w v : Nat) : Cpu :=
  { c with cf := false, zf := decide (v = 0), sf := signBit w v, of := false }

def holds (c : Cpu) : Cond → Bool
  | .b => c.cf
  | .e => c.zf
  | .ne => !c.zf
  | .ge => c.sf == c.of

end Cpu

/-- How an instruction, or a block of them, ends. -/
inductive Outcome (L : Type) where
  | next (c : Cpu)
  | goto (target : L) (c : Cpu)
  | ret (c : Cpu)
  | fault

/-- One instruction. -/
def exec {L : Type} (cpuid : Cpuid) (i : Instr L) (c : Cpu) : Outcome L :=
  match i with
  | .mov w dst src => .next (c.write w dst (c.read w src))
  | .add w dst src =>
    let a := c.read w dst
    let b := c.read w src
    .next ((c.write w dst (a + b)).setFlagsAdd w a b)
  | .sub w dst src =>
    let a := c.read w dst
    let b := c.read w src
    .next ((c.write w dst (Cpu.difference w a b)).setFlagsSub w a b)
  | .and w dst src =>
    let v := c.read w dst &&& c.read w src
    .next ((c.write w dst v).setFlagsLogic w v)
  | .cmp w a b => .next (c.setFlagsSub w (c.read w a) (c.read w b))
  | .test w a b => .next (c.setFlagsLogic w (c.read w a &&& c.read w b))
  | .movdqLoad aligned x base disp =>
    let a := c.address (some base) disp
    if aligned && a % 16 != 0 then .fault
    else .next (c.setXmm x (c.mem.load a 16))
  | .movdqStore aligned base disp x =>
    let a := c.address (some base) disp
    if aligned && a % 16 != 0 then .fault
    else .next (c.setMem (c.mem.store a 16 (c.xmm x)))
  | .cpuid =>
    let r := cpuid (c.reg .rax % 2 ^ 32)
    .next ((((c.setReg .rax (r.eax % 2 ^ 32)).setReg .rbx (r.ebx % 2 ^ 32)).setReg .rcx
      (r.ecx % 2 ^ 32)).setReg .rdx (r.edx % 2 ^ 32))
  | .jcc cond target => if c.holds cond then .goto target c else .next c
  | .jmp target => .goto target c
  | .ret => .ret c

/-- The instructions in turn, until one of them leaves the block. -/
def runBlock {L : Type} (cpuid : Cpuid) : List (Instr L) → Cpu → Outcome L
  | [], c => .next c
  | i :: is, c =>
    match exec cpuid i c with
    | .next c' => runBlock cpuid is c'
    | out => out

/-- The text of a routine. -/
structure Program (L : Type) where
  block : L → List (Instr L)
  /-- The label that follows in the text. -/
  next : L → Option L

/-- Run the block of the label.  The result is the state at the `ret`, or `none`
for a fault. -/
def Program.step {L : Type} (p : Program L) (cpuid : Cpuid) (s : L × Cpu) :
    L × Cpu ⊕ Option Cpu :=
  match runBlock cpuid (p.block s.1) s.2 with
  | .next c =>
    match p.next s.1 with
    | some l => .inl (l, c)
    | none => .inr none
  | .goto l c => .inl (l, c)
  | .ret c => .inr (some c)
  | .fault => .inr none

/-- The routine, entered at `l`, returns in the state `c'`. -/
def Program.Ends {L : Type} (p : Program L) (cpuid : Cpuid) (l : L) (c c' : Cpu) : Prop :=
  Returns (p.step cpuid) (l, c) (some c')

/-! ## The state after a write -/

namespace Cpu

variable (c : Cpu)

@[simp] theorem setReg_reg (r r' : Reg) (v : Nat) :
    (c.setReg r v).reg r' = if r' = r then v else c.reg r' := rfl

@[simp] theorem setReg_mem (r : Reg) (v : Nat) : (c.setReg r v).mem = c.mem := rfl

@[simp] theorem setReg_xmm (r : Reg) (v : Nat) : (c.setReg r v).xmm = c.xmm := rfl

@[simp] theorem setXmm_reg (x v : Nat) : (c.setXmm x v).reg = c.reg := rfl

@[simp] theorem setXmm_mem (x v : Nat) : (c.setXmm x v).mem = c.mem := rfl

@[simp] theorem setXmm_xmm (x y v : Nat) :
    (c.setXmm x v).xmm y = if y = x then v else c.xmm y := rfl

@[simp] theorem setMem_reg (m : Memory) : (c.setMem m).reg = c.reg := rfl

@[simp] theorem setMem_mem (m : Memory) : (c.setMem m).mem = m := rfl

@[simp] theorem setMem_xmm (m : Memory) : (c.setMem m).xmm = c.xmm := rfl

@[simp] theorem setFlagsSub_reg (w a b : Nat) : (c.setFlagsSub w a b).reg = c.reg := rfl

@[simp] theorem setFlagsSub_mem (w a b : Nat) : (c.setFlagsSub w a b).mem = c.mem := rfl

@[simp] theorem setFlagsAdd_reg (w a b : Nat) : (c.setFlagsAdd w a b).reg = c.reg := rfl

@[simp] theorem setFlagsAdd_mem (w a b : Nat) : (c.setFlagsAdd w a b).mem = c.mem := rfl

@[simp] theorem setFlagsLogic_reg (w v : Nat) : (c.setFlagsLogic w v).reg = c.reg := rfl

@[simp] theorem setFlagsLogic_mem (w v : Nat) : (c.setFlagsLogic w v).mem = c.mem := rfl

@[simp] theorem read_reg (w : Nat) (r : Reg) : c.read w (.reg r) = c.reg r % 2 ^ w := rfl

@[simp] theorem read_imm (w v : Nat) : c.read w (.imm v) = v % 2 ^ w := rfl

@[simp] theorem read_mem (w : Nat) (base : Option Reg) (disp : Nat) :
    c.read w (.mem base disp) = c.mem.load (c.address base disp) (w / 8) := rfl

@[simp] theorem address_some (r : Reg) (disp : Nat) :
    c.address (some r) disp = (c.reg r + disp) % 2 ^ 64 := rfl

@[simp] theorem write_reg_64 (r : Reg) (v : Nat) :
    c.write 64 (.reg r) v = c.setReg r (v % 2 ^ 64) := rfl

@[simp] theorem write_reg_8 (r : Reg) (v : Nat) :
    c.write 8 (.reg r) v = c.setReg r (c.reg r / 2 ^ 8 * 2 ^ 8 + v % 2 ^ 8) := rfl

@[simp] theorem write_mem (w : Nat) (base : Option Reg) (disp v : Nat) :
    c.write w (.mem base disp) v
      = c.setMem (c.mem.store (c.address base disp) (w / 8) v) := rfl

/-! ## The conditions after a comparison -/

@[simp] theorem holds_b_setFlagsSub (w a b : Nat) :
    (c.setFlagsSub w a b).holds .b = decide (a < b) := rfl

/-- Two values are equal when their difference is zero. -/
theorem difference_eq_zero {w a b : Nat} (ha : a < 2 ^ w) (hb : b < 2 ^ w) :
    difference w a b = 0 ↔ a = b := by
  unfold difference
  rcases Nat.lt_or_ge a b with hlt | hge
  · rw [Nat.mod_eq_of_lt (by omega)]
    omega
  · rw [show a + 2 ^ w - b = a - b + 2 ^ w by omega, Nat.add_mod_right,
      Nat.mod_eq_of_lt (by omega)]
    omega

theorem holds_e_setFlagsSub {w a b : Nat} (ha : a < 2 ^ w) (hb : b < 2 ^ w) :
    (c.setFlagsSub w a b).holds .e = decide (a = b) := by
  show decide (difference w a b = 0) = decide (a = b)
  rw [decide_eq_decide]
  exact difference_eq_zero ha hb

theorem holds_ne_setFlagsSub {w a b : Nat} (ha : a < 2 ^ w) (hb : b < 2 ^ w) :
    (c.setFlagsSub w a b).holds .ne = decide (a ≠ b) := by
  show (!(c.setFlagsSub w a b).holds .e) = decide (a ≠ b)
  rw [holds_e_setFlagsSub c ha hb, decide_not]

/-- The signed comparison of two values that are positive as signed ones. -/
theorem holds_ge_setFlagsSub {w a b : Nat} (ha : a < 2 ^ (w - 1)) (hb : b < 2 ^ (w - 1))
    (hw : 0 < w) : (c.setFlagsSub w a b).holds .ge = decide (b ≤ a) := by
  have hpow : 2 ^ w = 2 ^ (w - 1) + 2 ^ (w - 1) := by
    rw [show w = w - 1 + 1 by omega, pow_succ, Nat.add_sub_cancel]
    omega
  have hsa : signBit w a = false := decide_eq_false (by omega)
  have hsb : signBit w b = false := decide_eq_false (by omega)
  show (signBit w (difference w a b) == ((signBit w a != signBit w b) &&
    (signBit w a != signBit w (difference w a b)))) = decide (b ≤ a)
  rw [hsa, hsb]
  unfold difference signBit
  rcases Nat.lt_or_ge a b with hlt | hge
  · rw [Nat.mod_eq_of_lt (by omega), decide_eq_true (show 2 ^ (w - 1) ≤ a + 2 ^ w - b by omega),
      decide_eq_false (show ¬ b ≤ a by omega)]
    rfl
  · rw [show a + 2 ^ w - b = a - b + 2 ^ w by omega, Nat.add_mod_right,
      Nat.mod_eq_of_lt (by omega), decide_eq_false (show ¬ 2 ^ (w - 1) ≤ a - b by omega),
      decide_eq_true (show b ≤ a by omega)]
    rfl

@[simp] theorem holds_e_setFlagsLogic (w v : Nat) :
    (c.setFlagsLogic w v).holds .e = decide (v = 0) := rfl

end Cpu

/-! ## Blocks and runs -/

section Run

variable {L : Type} {cpuid : Cpuid} {is js : List (Instr L)} {p : Program L} {l l' : L}
  {c c' c'' : Cpu}

theorem runBlock_cons {i : Instr L} (h : exec cpuid i c = .next c') :
    runBlock cpuid (i :: is) c = runBlock cpuid is c' := by
  rw [runBlock, h]

theorem runBlock_leaves {i : Instr L} {out : Outcome L} (h : exec cpuid i c = out)
    (hout : ∀ d, out ≠ .next d) : runBlock cpuid (i :: is) c = out := by
  rw [runBlock, h]
  cases out with
  | next d => exact absurd rfl (hout d)
  | goto | ret | fault => rfl

theorem runBlock_append (h : runBlock cpuid is c = .next c') :
    runBlock cpuid (is ++ js) c = runBlock cpuid js c' := by
  induction is generalizing c with
  | nil =>
    have hc : c = c' := Outcome.next.inj h
    rw [List.nil_append, hc]
  | cons i is ih =>
    rw [List.cons_append]
    cases hi : exec cpuid i c with
    | next d =>
      rw [runBlock_cons hi] at h ⊢
      exact ih h
    | goto target d => rw [runBlock_leaves hi nofun] at h; cases h
    | ret d => rw [runBlock_leaves hi nofun] at h; cases h
    | fault => rw [runBlock_leaves hi nofun] at h; cases h

/-- An instruction that leaves the block makes the rest of it irrelevant. -/
theorem runBlock_append_of_goto (h : runBlock cpuid is c = .goto l' c') :
    runBlock cpuid (is ++ js) c = .goto l' c' := by
  induction is generalizing c with
  | nil => cases h
  | cons i is ih =>
    rw [List.cons_append]
    cases hi : exec cpuid i c with
    | next d =>
      rw [runBlock_cons hi] at h ⊢
      exact ih h
    | goto target d =>
      rw [runBlock_leaves hi nofun] at h ⊢
      exact h
    | ret d => rw [runBlock_leaves hi nofun] at h; cases h
    | fault => rw [runBlock_leaves hi nofun] at h; cases h

/-- The block of `l` returns with the postcondition, or continues at a label whose
assertion holds and with a lower measure. -/
def Program.Progresses (p : Program L) (cpuid : Cpuid) (T : L → Cpu → Prop) (μ : L → Cpu → Nat)
    (Q : Cpu → Prop) (l : L) (c : Cpu) : Prop :=
  (∃ c', p.step cpuid (l, c) = .inr (some c') ∧ Q c') ∨
    ∃ l' c', p.step cpuid (l, c) = .inl (l', c') ∧ T l' c' ∧ μ l' c' < μ l c

/-- The rule for a routine with loops: an assertion for each label and a measure
that every block lowers. -/
theorem Program.ends_of_assertions (T : L → Cpu → Prop) (μ : L → Cpu → Nat) (Q : Cpu → Prop)
    (hblock : ∀ l c, T l c → p.Progresses cpuid T μ Q l c) (h : T l c) :
    ∃ c', p.Ends cpuid l c c' ∧ Q c' := by
  have hstep : ∀ t : L × Cpu, T t.1 t.2 →
      (∃ r, p.step cpuid t = .inr r ∧ ∃ c', r = some c' ∧ Q c') ∨
        (∃ t', p.step cpuid t = .inl t' ∧ T t'.1 t'.2 ∧ μ t'.1 t'.2 < μ t.1 t.2) := by
    intro t ht
    rcases hblock t.1 t.2 ht with ⟨c', hret, hQ⟩ | ⟨l', c', hgoto, hT, hlt⟩
    · exact Or.inl ⟨some c', hret, c', rfl, hQ⟩
    · exact Or.inr ⟨(l', c'), hgoto, hT, hlt⟩
  have hreturns : ∃ r, Returns (p.step cpuid) (l, c) r ∧ ∃ c', r = some c' ∧ Q c' :=
    returns_of_variant (fun t => T t.1 t.2) (fun t => μ t.1 t.2) _ hstep h
  obtain ⟨r, hr, c', rfl, hQ⟩ := hreturns
  exact ⟨c', hr, hQ⟩

theorem Program.Ends.of_goto (h : runBlock cpuid (p.block l) c = .goto l' c')
    (hrest : p.Ends cpuid l' c' c'') : p.Ends cpuid l c c'' := by
  refine Returns.next ?_ hrest
  simp only [step, h]

theorem Program.Ends.of_next (h : runBlock cpuid (p.block l) c = .next c')
    (hl : p.next l = some l') (hrest : p.Ends cpuid l' c' c'') : p.Ends cpuid l c c'' := by
  refine Returns.next ?_ hrest
  simp only [step, h, hl]

/-- A routine has one final state. -/
theorem Program.Ends.unique (h : p.Ends cpuid l c c') (h' : p.Ends cpuid l c c'') : c' = c'' :=
  Option.some.inj (Returns.unique h h')

section Progresses

variable {T : L → Cpu → Prop} {μ : L → Cpu → Nat} {Q : Cpu → Prop}

theorem Program.Progresses.of_goto (h : runBlock cpuid (p.block l) c = .goto l' c')
    (hT : T l' c') (hμ : μ l' c' < μ l c) : p.Progresses cpuid T μ Q l c := by
  refine Or.inr ⟨l', c', ?_, hT, hμ⟩
  simp only [step, h]

theorem Program.Progresses.of_next (h : runBlock cpuid (p.block l) c = .next c')
    (hl : p.next l = some l') (hT : T l' c') (hμ : μ l' c' < μ l c) :
    p.Progresses cpuid T μ Q l c := by
  refine Or.inr ⟨l', c', ?_, hT, hμ⟩
  simp only [step, h, hl]

theorem Program.Progresses.of_ret (h : runBlock cpuid (p.block l) c = .ret c') (hQ : Q c') :
    p.Progresses cpuid T μ Q l c := by
  refine Or.inl ⟨c', ?_, hQ⟩
  simp only [step, h]

end Progresses

end Run

end Lib.X86
