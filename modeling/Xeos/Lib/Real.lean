import Mathlib.Logic.Function.Basic
import Mathlib.Tactic.Basic
import Xeos.Lib.Loop
import Xeos.Lib.Memory

/-!
# A processor in real mode

Registers, segment registers and one flat memory.  An address is sixteen times
a segment plus a 16 bit offset, and the stack is `SS:SP` with a 16 bit stack
pointer, so the high half of `ESP` never changes by a push or a pop.

The flags are one word that only the instructions that name it touch.  A
conditional jump is an `if` on the values that the instruction in front of it
compares, so the arithmetic flags are not part of the state.

A `Slot` is something that one push saves and one pop restores.  `Stacked` is
the discipline of the stack below an entry state: which words lie there, and
that nothing above them moved.  `restore` is what a procedure uses that saves
its registers: a list of slots that was pushed gives its values back when it is
popped, whatever the code in between did to the registers.
-/

namespace Lib.Real

/-- The general registers, in the order of their numbers. -/
inductive Reg
  | ax | cx | dx | bx | sp | bp | si | di
deriving DecidableEq, Repr

inductive Seg
  | es | ss | ds | fs | gs
deriving DecidableEq, Repr

structure Cpu where
  reg : Reg → BitVec 32
  seg : Seg → BitVec 16
  flags : BitVec 32
  /-- The control registers by their number. -/
  cr : Nat → BitVec 32
  mem : Memory

namespace Cpu

/-! ## Registers -/

/-- The low 16 bits of a register. -/
def word (c : Cpu) (r : Reg) : Nat := (c.reg r).toNat % 2 ^ 16

/-- The low 8 bits of a register. -/
def low (c : Cpu) (r : Reg) : Nat := (c.reg r).toNat % 2 ^ 8

def setReg (c : Cpu) (r : Reg) (v : Nat) : Cpu :=
  { c with reg := Function.update c.reg r (BitVec.ofNat 32 v) }

/-- Write the low 16 bits of a register. -/
def setWord (c : Cpu) (r : Reg) (v : Nat) : Cpu :=
  c.setReg r ((c.reg r).toNat / 2 ^ 16 * 2 ^ 16 + v % 2 ^ 16)

/-- Write the low 8 bits of a register. -/
def setLow (c : Cpu) (r : Reg) (v : Nat) : Cpu :=
  c.setReg r ((c.reg r).toNat / 2 ^ 8 * 2 ^ 8 + v % 2 ^ 8)

/-- Write the bits 8 to 15 of a register. -/
def setHigh (c : Cpu) (r : Reg) (v : Nat) : Cpu :=
  c.setReg r ((c.reg r).toNat / 2 ^ 16 * 2 ^ 16 + v % 2 ^ 8 * 2 ^ 8 + (c.reg r).toNat % 2 ^ 8)

def setSeg (c : Cpu) (s : Seg) (v : Nat) : Cpu :=
  { c with seg := Function.update c.seg s (BitVec.ofNat 16 v) }

def setCr (c : Cpu) (n : Nat) (v : BitVec 32) : Cpu :=
  { c with cr := Function.update c.cr n v }

def setFlags (c : Cpu) (v : Nat) : Cpu := { c with flags := BitVec.ofNat 32 v }

/-! ## Memory -/

/-- The linear address of `s:off`. -/
def linear (c : Cpu) (s : Seg) (off : Nat) : Nat := 16 * (c.seg s).toNat + off % 2 ^ 16

def load (c : Cpu) (n : Nat) (s : Seg) (off : Nat) : Nat := c.mem.load (c.linear s off) n

def store (c : Cpu) (n : Nat) (s : Seg) (off v : Nat) : Cpu :=
  { c with mem := c.mem.store (c.linear s off) n v }

/-- The linear address of the top of the stack. -/
def top (c : Cpu) : Nat := c.linear .ss (c.word .sp)

-- The equations of this section are not for `dsimp`: a `rfl` between two big
-- states is cheap to state and dear to check.
section Simp

variable (c : Cpu) (r r' : Reg) (s s' : Seg) (n off v : Nat)

theorem word_lt : c.word r < 2 ^ 16 := Nat.mod_lt _ (by omega)

@[simp] theorem reg_setReg : ((c.setReg r v).reg r).toNat = v % 2 ^ 32 := by
  simp [setReg]

/-- A register that gets the value of another one. -/
theorem reg_setReg_toNat (x : BitVec 32) : (c.setReg r x.toNat).reg r = x := by
  apply BitVec.eq_of_toNat_eq
  rw [reg_setReg, Nat.mod_eq_of_lt x.isLt]

@[simp] theorem reg_setReg_of_ne (h : r' ≠ r) : (c.setReg r v).reg r' = c.reg r' := by
  simp [setReg, h]

@[simp] theorem seg_setReg : (c.setReg r v).seg = c.seg := (rfl)
@[simp] theorem flags_setReg : (c.setReg r v).flags = c.flags := (rfl)
@[simp] theorem cr_setReg : (c.setReg r v).cr = c.cr := (rfl)
@[simp] theorem mem_setReg : (c.setReg r v).mem = c.mem := (rfl)

@[simp] theorem word_setReg : (c.setReg r v).word r = v % 2 ^ 16 := by
  simp only [word, reg_setReg]
  omega

@[simp] theorem word_setReg_of_ne (h : r' ≠ r) : (c.setReg r v).word r' = c.word r' := by
  simp only [word, reg_setReg_of_ne c r r' v h]

@[simp] theorem low_setReg_of_ne (h : r' ≠ r) : (c.setReg r v).low r' = c.low r' := by
  simp only [low, reg_setReg_of_ne c r r' v h]

theorem reg_setWord :
    ((c.setWord r v).reg r).toNat = (c.reg r).toNat / 2 ^ 16 * 2 ^ 16 + v % 2 ^ 16 := by
  have hlt := (c.reg r).isLt
  rw [setWord, reg_setReg]
  omega

@[simp] theorem reg_setWord_of_ne (h : r' ≠ r) : (c.setWord r v).reg r' = c.reg r' :=
  reg_setReg_of_ne c r r' _ h

@[simp] theorem seg_setWord : (c.setWord r v).seg = c.seg := (rfl)
@[simp] theorem flags_setWord : (c.setWord r v).flags = c.flags := (rfl)
@[simp] theorem cr_setWord : (c.setWord r v).cr = c.cr := (rfl)
@[simp] theorem mem_setWord : (c.setWord r v).mem = c.mem := (rfl)

@[simp] theorem word_setWord : (c.setWord r v).word r = v % 2 ^ 16 := by
  rw [word, reg_setWord]
  omega

@[simp] theorem word_setWord_of_ne (h : r' ≠ r) : (c.setWord r v).word r' = c.word r' :=
  word_setReg_of_ne c r r' _ h

@[simp] theorem low_setWord : (c.setWord r v).low r = v % 2 ^ 8 := by
  rw [low, reg_setWord]
  omega

@[simp] theorem low_setWord_of_ne (h : r' ≠ r) : (c.setWord r v).low r' = c.low r' :=
  low_setReg_of_ne c r r' _ h

@[simp] theorem mem_setLow : (c.setLow r v).mem = c.mem := (rfl)

@[simp] theorem low_setLow : (c.setLow r v).low r = v % 2 ^ 8 := by
  rw [low, setLow, reg_setReg]
  omega

@[simp] theorem reg_setSeg : (c.setSeg s v).reg = c.reg := (rfl)
@[simp] theorem flags_setSeg : (c.setSeg s v).flags = c.flags := (rfl)
@[simp] theorem cr_setSeg : (c.setSeg s v).cr = c.cr := (rfl)
@[simp] theorem mem_setSeg : (c.setSeg s v).mem = c.mem := (rfl)
@[simp] theorem word_setSeg : (c.setSeg s v).word r = c.word r := (rfl)
@[simp] theorem low_setSeg : (c.setSeg s v).low r = c.low r := (rfl)

@[simp] theorem seg_setSeg : ((c.setSeg s v).seg s).toNat = v % 2 ^ 16 := by
  simp [setSeg]

@[simp] theorem seg_setSeg_of_ne (h : s' ≠ s) : (c.setSeg s v).seg s' = c.seg s' := by
  simp [setSeg, h]

@[simp] theorem reg_store : (c.store n s off v).reg = c.reg := (rfl)
@[simp] theorem seg_store : (c.store n s off v).seg = c.seg := (rfl)
@[simp] theorem flags_store : (c.store n s off v).flags = c.flags := (rfl)
@[simp] theorem cr_store : (c.store n s off v).cr = c.cr := (rfl)
@[simp] theorem word_store : (c.store n s off v).word r = c.word r := (rfl)
@[simp] theorem low_store : (c.store n s off v).low r = c.low r := (rfl)

@[simp] theorem mem_store :
    (c.store n s off v).mem = c.mem.store (c.linear s off) n v := (rfl)

end Simp

/-! ## Push and pop -/

end Cpu

/-- Something that one push saves and one pop restores. -/
inductive Slot
  | reg (r : Reg)
  | word (r : Reg)
  | seg (s : Seg)
  | flags
  /-- A 32 bit register that is pushed and whose pop is thrown away. -/
  | skip (r : Reg)
  | skipWord (r : Reg)
deriving DecidableEq, Repr

namespace Slot

/-- The bytes it takes on the stack. -/
def size : Slot → Nat
  | reg _ | flags | skip _ => 4
  | word _ | seg _ | skipWord _ => 2

def value (c : Cpu) : Slot → Nat
  | reg r | skip r => (c.reg r).toNat
  | word r | skipWord r => c.word r
  | seg s => (c.seg s).toNat
  | flags => c.flags.toNat

def assign (c : Cpu) (v : Nat) : Slot → Cpu
  | reg r => c.setReg r v
  | word r => c.setWord r v
  | seg s => c.setSeg s v
  | flags => c.setFlags v
  | skip _ | skipWord _ => c

theorem value_lt (c : Cpu) (t : Slot) : t.value c < 256 ^ t.size := by
  cases t with
  | reg r => exact (c.reg r).isLt
  | word r => exact c.word_lt r
  | seg s => exact (c.seg s).isLt
  | flags => exact c.flags.isLt
  | skip r => exact (c.reg r).isLt
  | skipWord r => exact c.word_lt r

end Slot

namespace Cpu

/-- Push the `n` bytes of `v`. -/
def pushWith (c : Cpu) (n v : Nat) : Cpu :=
  let c := c.setWord .sp (c.word .sp + 2 ^ 16 - n)
  { c with mem := c.mem.store c.top n v }

/-- The `n` bytes on the top of the stack. -/
def peek (c : Cpu) (n : Nat) : Nat := c.mem.load c.top n

/-- Take `n` bytes off the stack. -/
def drop (c : Cpu) (n : Nat) : Cpu := c.setWord .sp (c.word .sp + n)

def push (t : Slot) (c : Cpu) : Cpu := c.pushWith t.size (t.value c)

def pop (t : Slot) (c : Cpu) : Cpu := t.assign (c.drop t.size) (c.peek t.size)

/-- Push a list of slots with the values they have in `c₀`, the first one first. -/
def pushAll (c₀ : Cpu) : List Slot → Cpu → Cpu
  | [], c => c
  | t :: ts, c => pushAll c₀ ts (c.pushWith t.size (t.value c₀))

/-- Call a procedure.  The return address `ret` is below the words of the caller. -/
def call (ret : BitVec 16) (f : Cpu → Cpu) (c : Cpu) : Cpu := (f (c.pushWith 2 ret.toNat)).drop 2

/-- Pop a list of slots, the first one first. -/
def popAll : List Slot → Cpu → Cpu
  | [], c => c
  | t :: ts, c => popAll ts (c.pop t)

section Simp

variable (c : Cpu) (r : Reg) (s : Seg) (n v : Nat)

@[simp] theorem reg_pushWith_of_ne (h : r ≠ .sp) : (c.pushWith n v).reg r = c.reg r :=
  reg_setWord_of_ne c .sp r _ h

@[simp] theorem word_pushWith_of_ne (h : r ≠ .sp) : (c.pushWith n v).word r = c.word r :=
  word_setWord_of_ne c .sp r _ h

@[simp] theorem seg_pushWith : (c.pushWith n v).seg = c.seg := (rfl)
@[simp] theorem flags_pushWith : (c.pushWith n v).flags = c.flags := (rfl)
@[simp] theorem cr_pushWith : (c.pushWith n v).cr = c.cr := (rfl)

theorem pushAll_append (c₁ : Cpu) (ts us : List Slot) :
    c₁.pushAll (ts ++ us) c = c₁.pushAll us (c₁.pushAll ts c) := by
  induction ts generalizing c with
  | nil => rfl
  | cons t ts ih => exact ih _

/-- One more push of a slot that still has its value. -/
theorem push_pushAll {c₁ : Cpu} {ts : List Slot} {t : Slot}
    (h : t.value (c₁.pushAll ts c) = t.value c₁) :
    (c₁.pushAll ts c).push t = c₁.pushAll (ts ++ [t]) c := by
  rw [pushAll_append, push, h]
  rfl

@[simp] theorem reg_pushAll_of_ne (c₁ : Cpu) (ts : List Slot) (h : r ≠ .sp) :
    (c₁.pushAll ts c).reg r = c.reg r := by
  induction ts generalizing c with
  | nil => rfl
  | cons t ts ih => exact (ih _).trans (reg_pushWith_of_ne c r _ _ h)

@[simp] theorem seg_pushAll (c₁ : Cpu) (ts : List Slot) : (c₁.pushAll ts c).seg = c.seg := by
  induction ts generalizing c with
  | nil => rfl
  | cons t ts ih => exact (ih _).trans (seg_pushWith c _ _)

@[simp] theorem flags_pushAll (c₁ : Cpu) (ts : List Slot) :
    (c₁.pushAll ts c).flags = c.flags := by
  induction ts generalizing c with
  | nil => rfl
  | cons t ts ih => exact (ih _).trans (flags_pushWith c _ _)

@[simp] theorem cr_pushAll (c₁ : Cpu) (ts : List Slot) : (c₁.pushAll ts c).cr = c.cr := by
  induction ts generalizing c with
  | nil => rfl
  | cons t ts ih => exact (ih _).trans (cr_pushWith c _ _)

@[simp] theorem reg_drop_of_ne (h : r ≠ .sp) : (c.drop n).reg r = c.reg r :=
  reg_setWord_of_ne c .sp r _ h

@[simp] theorem word_drop_of_ne (h : r ≠ .sp) : (c.drop n).word r = c.word r :=
  word_setWord_of_ne c .sp r _ h

@[simp] theorem seg_drop : (c.drop n).seg = c.seg := (rfl)
@[simp] theorem flags_drop : (c.drop n).flags = c.flags := (rfl)
@[simp] theorem cr_drop : (c.drop n).cr = c.cr := (rfl)
@[simp] theorem mem_drop : (c.drop n).mem = c.mem := (rfl)

end Simp

end Cpu

/-! ## The discipline of the stack -/

/-- The bytes of a list of words. -/
def bytes : List (Nat × Nat) → Nat
  | [] => 0
  | f :: fs => f.1 + bytes fs

@[simp] theorem bytes_nil : bytes [] = 0 := rfl

@[simp] theorem bytes_cons (f : Nat × Nat) (fs : List (Nat × Nat)) :
    bytes (f :: fs) = f.1 + bytes fs := rfl

@[simp] theorem bytes_append (fs gs : List (Nat × Nat)) :
    bytes (fs ++ gs) = bytes fs + bytes gs := by
  induction fs with
  | nil => simp
  | cons f fs ih =>
    simp only [List.cons_append, bytes_cons, ih]
    omega

/-- The words of the list, each with its size, lie one above the other from `a`. -/
def Frame (m : Memory) : Nat → List (Nat × Nat) → Prop
  | _, [] => True
  | a, f :: fs => m.load a f.1 = f.2 ∧ Frame m (a + f.1) fs

theorem Frame.congr {m m' : Memory} {a : Nat} {fs : List (Nat × Nat)} (h : Frame m a fs)
    (heq : ∀ b, a ≤ b → b < a + bytes fs → m' b = m b) : Frame m' a fs := by
  induction fs generalizing a with
  | nil => trivial
  | cons f fs ih =>
    obtain ⟨hload, hrest⟩ := h
    constructor
    · rw [← hload]
      apply Memory.load_congr
      intro i hi
      exact heq _ (by omega) (by rw [bytes_cons]; omega)
    · apply ih hrest
      intro b hle hlt
      exact heq b (by omega) (by rw [bytes_cons]; omega)

/-- The state `c` has the words of the list on the stack below the stack
pointer of `c₀`, and nothing else. -/
structure Stacked (c₀ c : Cpu) (fs : List (Nat × Nat)) : Prop where
  ss : c.seg .ss = c₀.seg .ss
  room : bytes fs ≤ c₀.word .sp
  sp : (c.reg .sp).toNat + bytes fs = (c₀.reg .sp).toNat
  frame : Frame c.mem c.top fs

namespace Stacked

variable {c₀ c c' : Cpu} {fs : List (Nat × Nat)} {n v : Nat} {t : Slot}

theorem refl (c : Cpu) : Stacked c c [] where
  ss := rfl
  room := Nat.zero_le _
  sp := rfl
  frame := trivial

theorem word (h : Stacked c₀ c fs) : c.word .sp + bytes fs = c₀.word .sp := by
  have hroom := h.room
  have hsp := h.sp
  simp only [Cpu.word] at hroom ⊢
  omega

theorem top (h : Stacked c₀ c fs) : c.top + bytes fs = c₀.top := by
  have hword := h.word
  have hlt := c.word_lt .sp
  have hlt₀ := c₀.word_lt .sp
  simp only [Cpu.top, Cpu.linear, h.ss, Nat.mod_eq_of_lt hlt, Nat.mod_eq_of_lt hlt₀]
  omega

/-- Code that leaves the stack pointer, `SS` and the words on the stack alone. -/
theorem keep (h : Stacked c₀ c fs) (hss : c'.seg .ss = c.seg .ss) (hsp : c'.reg .sp = c.reg .sp)
    (hmem : ∀ a, c.top ≤ a → a < c₀.top → c'.mem a = c.mem a) : Stacked c₀ c' fs := by
  have htop : c'.top = c.top := by
    simp only [Cpu.top, Cpu.linear, Cpu.word, hss, hsp]
  refine ⟨hss.trans h.ss, h.room, by rw [hsp]; exact h.sp, ?_⟩
  rw [htop]
  apply h.frame.congr
  intro b hle hlt
  rw [h.top] at hlt
  exact hmem b hle hlt

theorem pushWith (h : Stacked c₀ c fs) (hroom : n + bytes fs ≤ c₀.word .sp) (hv : v < 256 ^ n) :
    Stacked c₀ (c.pushWith n v) ((n, v) :: fs) := by
  have hword := h.word
  have hlt := c₀.word_lt .sp
  have hsp : ((c.pushWith n v).reg .sp).toNat + n = (c.reg .sp).toNat := by
    have hset := c.reg_setWord .sp (c.word .sp + 2 ^ 16 - n)
    rw [show (c.pushWith n v).reg .sp = (c.setWord .sp (c.word .sp + 2 ^ 16 - n)).reg .sp from rfl,
      hset]
    simp only [Cpu.word] at hword hroom hlt ⊢
    omega
  have htop : (c.setWord .sp (c.word .sp + 2 ^ 16 - n)).top + n = c.top := by
    simp only [Cpu.top, Cpu.linear, Cpu.seg_setWord, Cpu.word_setWord]
    omega
  refine ⟨h.ss, hroom, ?_, ?_⟩
  · have hsp₀ := h.sp
    rw [bytes_cons]
    omega
  · refine ⟨?_, ?_⟩
    · exact (Memory.load_store _ _ _ _).trans (Nat.mod_eq_of_lt hv)
    · change Frame _ ((c.setWord .sp (c.word .sp + 2 ^ 16 - n)).top + n) fs
      rw [htop]
      apply h.frame.congr
      intro b hle _
      exact Memory.store_of_not_mem _ _ (by omega)

/-- What a push writes. -/
theorem mem_pushWith (h : Stacked c₀ c fs) (hroom : n + bytes fs ≤ c₀.word .sp) {a : Nat}
    (ha : a + n < c.top ∨ c.top ≤ a) : (c.pushWith n v).mem a = c.mem a := by
  have hword := h.word
  have hlt := c₀.word_lt .sp
  apply Memory.store_of_not_mem
  simp only [Cpu.top, Cpu.linear, Cpu.seg_setWord, Cpu.word_setWord] at ha ⊢
  omega

theorem peek (h : Stacked c₀ c ((n, v) :: fs)) : c.peek n = v := h.frame.1

theorem drop (h : Stacked c₀ c ((n, v) :: fs)) : Stacked c₀ (c.drop n) fs := by
  have hword := h.word
  have hroom := h.room
  have hsp := h.sp
  have hlt := c₀.word_lt .sp
  simp only [bytes_cons] at hword hroom hsp
  have htop : (c.drop n).top = c.top + n := by
    simp only [Cpu.top, Cpu.linear, Cpu.drop, Cpu.seg_setWord, Cpu.word_setWord]
    omega
  refine ⟨h.ss, by omega, ?_, ?_⟩
  · rw [Cpu.drop, Cpu.reg_setWord]
    simp only [Cpu.word] at hword hroom hlt ⊢
    omega
  · rw [htop]
    exact h.frame.2

/-- Calling a procedure that leaves the stack as it was at its entry. -/
theorem call (h : Stacked c₀ c fs) (hroom : 2 + bytes fs ≤ c₀.word .sp) {ret : BitVec 16}
    {f : Cpu → Cpu} (hss : (f (c.pushWith 2 ret.toNat)).seg .ss = c.seg .ss)
    (hsp : (f (c.pushWith 2 ret.toNat)).reg .sp = (c.pushWith 2 ret.toNat).reg .sp)
    (hmem : ∀ a, (c.pushWith 2 ret.toNat).top ≤ a → a < c₀.top →
      (f (c.pushWith 2 ret.toNat)).mem a = (c.pushWith 2 ret.toNat).mem a) :
    Stacked c₀ (c.call ret f) fs :=
  ((h.pushWith hroom ret.isLt).keep hss hsp hmem).drop

end Stacked

/-! ## Saving and restoring -/

namespace Slot

/-- The pop of the slot writes neither the stack pointer nor `SS`. -/
def Plain (t : Slot) : Prop := t ≠ reg .sp ∧ t ≠ word .sp ∧ t ≠ seg .ss

instance (t : Slot) : Decidable t.Plain := inferInstanceAs (Decidable (_ ∧ _ ∧ _))

section Assign

variable {t : Slot} {c c₁ : Cpu}

@[simp] theorem mem_assign (v : Nat) : (t.assign c v).mem = c.mem := by
  cases t <;> rfl

@[simp] theorem cr_assign (v : Nat) : (t.assign c v).cr = c.cr := by
  cases t <;> rfl

theorem Plain.sp_assign (h : t.Plain) (v : Nat) : (t.assign c v).reg .sp = c.reg .sp := by
  obtain ⟨hreg, hword, -⟩ := h
  cases t with
  | reg r => exact Cpu.reg_setReg_of_ne c r .sp v (fun heq => hreg (heq ▸ rfl))
  | word r => exact Cpu.reg_setWord_of_ne c r .sp v (fun heq => hword (heq ▸ rfl))
  | seg s => rfl
  | flags => rfl
  | skip r => rfl
  | skipWord r => rfl

theorem seg_assign_of_ne {s : Seg} (h : t ≠ seg s) (v : Nat) :
    (t.assign c v).seg s = c.seg s := by
  cases t with
  | seg s' => exact Cpu.seg_setSeg_of_ne c s' s v (fun heq => h (heq ▸ rfl))
  | reg r => rfl
  | word r => rfl
  | flags => rfl
  | skip r => rfl
  | skipWord r => rfl

/-- A register that a slot holds, or that agrees already. -/
theorem reg_assign {r : Reg} (h : t = reg r ∨ c.reg r = c₁.reg r) :
    (t.assign c (t.value c₁)).reg r = c₁.reg r := by
  by_cases ht : t = reg r
  · subst ht
    apply BitVec.eq_of_toNat_eq
    exact (Cpu.reg_setReg c r _).trans (Nat.mod_eq_of_lt (c₁.reg r).isLt)
  · have heq : c.reg r = c₁.reg r := h.resolve_left ht
    cases t with
    | reg r' =>
      rw [← heq]
      exact Cpu.reg_setReg_of_ne c r' r _ (fun hr => ht (hr ▸ rfl))
    | word r' =>
      by_cases hr : r = r'
      · subst hr
        apply BitVec.eq_of_toNat_eq
        have hset := c.reg_setWord r (c₁.word r)
        rw [heq, Cpu.word] at hset
        refine hset.trans ?_
        omega
      · rw [← heq]
        exact Cpu.reg_setWord_of_ne c r' r _ hr
    | seg s => exact heq
    | flags => exact heq
    | skip r' => exact heq
    | skipWord r' => exact heq

theorem word_assign {r : Reg} (h : t = word r ∨ c.word r = c₁.word r) :
    (t.assign c (t.value c₁)).word r = c₁.word r := by
  by_cases ht : t = word r
  · subst ht
    exact (Cpu.word_setWord c r _).trans (Nat.mod_eq_of_lt (c₁.word_lt r))
  · have heq : c.word r = c₁.word r := h.resolve_left ht
    cases t with
    | reg r' =>
      by_cases hr : r = r'
      · subst hr
        exact Cpu.word_setReg c r _
      · rw [← heq]
        exact Cpu.word_setReg_of_ne c r' r _ hr
    | word r' =>
      rw [← heq]
      exact Cpu.word_setWord_of_ne c r' r _ (fun hr => ht (hr ▸ rfl))
    | seg s => exact heq
    | flags => exact heq
    | skip r' => exact heq
    | skipWord r' => exact heq

theorem seg_assign {s : Seg} (h : t = seg s ∨ c.seg s = c₁.seg s) :
    (t.assign c (t.value c₁)).seg s = c₁.seg s := by
  by_cases ht : t = seg s
  · subst ht
    apply BitVec.eq_of_toNat_eq
    exact (Cpu.seg_setSeg c s _).trans (Nat.mod_eq_of_lt (c₁.seg s).isLt)
  · rw [← h.resolve_left ht]
    exact seg_assign_of_ne ht _

theorem flags_assign (h : t = flags ∨ c.flags = c₁.flags) :
    (t.assign c (t.value c₁)).flags = c₁.flags := by
  by_cases ht : t = flags
  · subst ht
    exact BitVec.ofNat_toNat 32 c₁.flags |>.trans (BitVec.setWidth_eq _)
  · have heq := h.resolve_left ht
    cases t with
    | flags => exact absurd rfl ht
    | reg r => exact heq
    | word r => exact heq
    | seg s => exact heq
    | skip r => exact heq
    | skipWord r => exact heq

end Assign

/-- The word that a slot of the state `c₁` is on the stack. -/
def saved (c₁ : Cpu) (t : Slot) : Nat × Nat := (t.size, t.value c₁)

end Slot

theorem Cpu.seg_popAll_of_not_mem {c : Cpu} {ts : List Slot} {s : Seg} (hmem : .seg s ∉ ts) :
    (c.popAll ts).seg s = c.seg s := by
  induction ts generalizing c with
  | nil => rfl
  | cons t ts ih =>
    rw [List.mem_cons, not_or] at hmem
    obtain ⟨ht, hts⟩ := hmem
    rw [Cpu.popAll, ih hts, Cpu.pop, Slot.seg_assign_of_ne (fun heq => ht heq.symm),
      Cpu.seg_drop]

namespace Stacked

variable {c₀ c c₁ : Cpu} {fs : List (Nat × Nat)} {t : Slot} {ts : List Slot}

theorem push (h : Stacked c₀ c fs) (hroom : t.size + bytes fs ≤ c₀.word .sp)
    (hv : t.value c = t.value c₁) : Stacked c₀ (c.push t) (t.saved c₁ :: fs) := by
  have hpush := h.pushWith hroom (t.value_lt c)
  rw [hv] at hpush
  rw [Cpu.push, hv]
  exact hpush

theorem mem_push (h : Stacked c₀ c fs) (hroom : t.size + bytes fs ≤ c₀.word .sp) {a : Nat}
    (ha : a + t.size < c.top ∨ c.top ≤ a) : (c.push t).mem a = c.mem a :=
  h.mem_pushWith hroom ha

theorem pushAll (h : Stacked c₀ c fs)
    (hroom : bytes (ts.map (Slot.saved c₁)) + bytes fs ≤ c₀.word .sp) :
    Stacked c₀ (c₁.pushAll ts c) ((ts.map (Slot.saved c₁)).reverse ++ fs) := by
  induction ts generalizing c fs with
  | nil => exact h
  | cons t ts ih =>
    rw [List.map_cons, bytes_cons] at hroom
    have hsize : (t.saved c₁).1 = t.size := rfl
    have hpush := h.pushWith (by omega) (t.value_lt c₁)
    have hrest := ih hpush (by rw [bytes_cons]; dsimp only; omega)
    rw [List.map_cons, List.reverse_cons, List.append_assoc]
    exact hrest

theorem pop (h : Stacked c₀ c (t.saved c₁ :: fs)) :
    c.pop t = t.assign (c.drop t.size) (t.value c₁) := by
  have hpeek : c.peek t.size = t.value c₁ := Stacked.peek h
  rw [Cpu.pop, hpeek]

theorem popped (h : Stacked c₀ c (t.saved c₁ :: fs)) (ht : t.Plain) :
    Stacked c₀ (c.pop t) fs := by
  have hdrop : Stacked c₀ (c.drop t.size) fs := Stacked.drop h
  rw [h.pop]
  exact hdrop.keep (Slot.seg_assign_of_ne ht.2.2 _) (ht.sp_assign _)
    (fun a _ _ => by rw [Slot.mem_assign])

/-- Popping what was pushed. -/
theorem popAll (h : Stacked c₀ c (ts.map (Slot.saved c₁) ++ fs)) (hts : ∀ t ∈ ts, t.Plain) :
    Stacked c₀ (c.popAll ts) fs := by
  induction ts generalizing c with
  | nil => exact h
  | cons t ts ih =>
    have hpop := h.popped (hts t List.mem_cons_self)
    exact ih hpop (fun u hu => hts u (List.mem_cons_of_mem t hu))

/-- What holds after the pops: something that one of the slots establishes, or
that held before, and that no slot destroys. -/
theorem popAll_induction {A : Slot → Prop} {P : Cpu → Prop}
    (hdrop : ∀ c n, P c → P (c.drop n))
    (hassign : ∀ t c, t.Plain → (A t ∨ P c) → P (t.assign c (t.value c₁)))
    (h : Stacked c₀ c (ts.map (Slot.saved c₁) ++ fs)) (hts : ∀ t ∈ ts, t.Plain)
    (hP : (∃ t ∈ ts, A t) ∨ P c) : P (c.popAll ts) := by
  induction ts generalizing c with
  | nil =>
    rcases hP with ⟨t, ht, -⟩ | hP
    · exact absurd ht List.not_mem_nil
    · exact hP
  | cons t ts ih =>
    have ht : t.Plain := hts t List.mem_cons_self
    apply ih (h.popped ht) (fun u hu => hts u (List.mem_cons_of_mem t hu))
    rw [h.pop]
    rcases hP with ⟨u, hu, hA⟩ | hP
    · rcases List.mem_cons.mp hu with rfl | hu
      · exact Or.inr (hassign u _ ht (Or.inl hA))
      · exact Or.inl ⟨u, hu, hA⟩
    · exact Or.inr (hassign t _ ht (Or.inr (hdrop c _ hP)))

section Restore

variable (h : Stacked c₀ c (ts.map (Slot.saved c₁) ++ fs)) (hts : ∀ t ∈ ts, t.Plain)
include h hts

theorem mem_popAll : (c.popAll ts).mem = c.mem := by
  apply popAll_induction (A := fun _ => False) (P := fun c' => c'.mem = c.mem) _ _ h hts
    (Or.inr rfl)
  · intro c' n hc'
    exact hc'
  · rintro t c' - (hfalse | hc')
    · exact hfalse.elim
    · rw [Slot.mem_assign, hc']

theorem cr_popAll : (c.popAll ts).cr = c.cr := by
  apply popAll_induction (A := fun _ => False) (P := fun c' => c'.cr = c.cr) _ _ h hts
    (Or.inr rfl)
  · intro c' n hc'
    exact hc'
  · rintro t c' - (hfalse | hc')
    · exact hfalse.elim
    · rw [Slot.cr_assign, hc']

/-- A register that one of the slots saved has its saved value. -/
theorem reg_popAll {r : Reg} (hr : r ≠ .sp) (hmem : .reg r ∈ ts ∨ c.reg r = c₁.reg r) :
    (c.popAll ts).reg r = c₁.reg r := by
  apply popAll_induction (A := fun t => t = .reg r) (P := fun c' => c'.reg r = c₁.reg r) _ _
    h hts
  · exact hmem.imp (fun ht => ⟨_, ht, rfl⟩) id
  · intro c' n hc'
    rw [Cpu.reg_drop_of_ne c' r n hr, hc']
  · intro t c' _ hc'
    exact Slot.reg_assign hc'

theorem word_popAll {r : Reg} (hr : r ≠ .sp) (hmem : .word r ∈ ts ∨ c.word r = c₁.word r) :
    (c.popAll ts).word r = c₁.word r := by
  apply popAll_induction (A := fun t => t = .word r) (P := fun c' => c'.word r = c₁.word r) _ _
    h hts
  · exact hmem.imp (fun ht => ⟨_, ht, rfl⟩) id
  · intro c' n hc'
    rw [Cpu.word_drop_of_ne c' r n hr, hc']
  · intro t c' _ hc'
    exact Slot.word_assign hc'

theorem seg_popAll {s : Seg} (hmem : .seg s ∈ ts ∨ c.seg s = c₁.seg s) :
    (c.popAll ts).seg s = c₁.seg s := by
  apply popAll_induction (A := fun t => t = .seg s) (P := fun c' => c'.seg s = c₁.seg s) _ _
    h hts
  · exact hmem.imp (fun ht => ⟨_, ht, rfl⟩) id
  · intro c' n hc'
    exact hc'
  · intro t c' _ hc'
    exact Slot.seg_assign hc'

theorem flags_popAll (hmem : .flags ∈ ts ∨ c.flags = c₁.flags) :
    (c.popAll ts).flags = c₁.flags := by
  apply popAll_induction (A := fun t => t = .flags) (P := fun c' => c'.flags = c₁.flags) _ _
    h hts
  · exact hmem.imp (fun ht => ⟨_, ht, rfl⟩) id
  · intro c' n hc'
    exact hc'
  · intro t c' _ hc'
    exact Slot.flags_assign hc'

end Restore

/-- The bytes that the pushes write are those of the stack. -/
theorem mem_pushAll (h : Stacked c₀ c fs)
    (hroom : bytes (ts.map (Slot.saved c₁)) + bytes fs ≤ c₀.word .sp) {a : Nat}
    (ha : a + bytes (ts.map (Slot.saved c₁)) < c.top ∨ c.top ≤ a) :
    (c₁.pushAll ts c).mem a = c.mem a := by
  induction ts generalizing c fs with
  | nil => rfl
  | cons t ts ih =>
    rw [List.map_cons, bytes_cons] at hroom ha
    have hsize : (t.saved c₁).1 = t.size := rfl
    have hpush := h.pushWith (by omega) (t.value_lt c₁)
    have htop := hpush.top
    have htop₀ := h.top
    rw [bytes_cons] at htop
    dsimp only at htop
    have hrest := ih hpush (by rw [bytes_cons]; dsimp only; omega) (by omega)
    rw [Cpu.pushAll, hrest]
    exact h.mem_pushWith (by omega) (by omega)

end Stacked

/-! ## Counted loops -/

namespace Cpu

/-- `stosd`, by the direction flag. -/
def stosd (c : Cpu) : Cpu :=
  (c.store 4 .es (c.word .di) (c.reg .ax).toNat).setWord .di
    (if c.flags.getLsbD 10 then c.word .di + 2 ^ 16 - 4 else c.word .di + 4)

/-- One round of a loop that counts down `CX`. -/
def countDown (f : Cpu → Cpu) (c : Cpu) : Cpu :=
  let c := f c
  c.setWord .cx (c.word .cx + 2 ^ 16 - 1)

/-- `rep`, for an instruction that leaves `CX` alone. -/
def rep (f : Cpu → Cpu) (c : Cpu) : Cpu := forLoop (fun _ => countDown f) (c.word .cx) c

/-- Code that ends with `loop` to its start and leaves `CX` alone. -/
def loopCx (f : Cpu → Cpu) (c : Cpu) : Cpu :=
  forLoop (fun _ => countDown f) (if c.word .cx = 0 then 2 ^ 16 else c.word .cx) c

end Cpu

namespace Cpu

/-- `cmpsb`, by the direction flag, and whether the bytes are equal. -/
def cmpsb (c : Cpu) : Cpu × Bool :=
  let equal := c.load 1 .ds (c.word .si) == c.load 1 .es (c.word .di)
  let n := if c.flags.getLsbD 10 then 2 ^ 16 - 1 else 1
  ((c.setWord .si (c.word .si + n)).setWord .di (c.word .di + n), equal)

/-- `rep` in front of a comparison: `n` rounds, or up to the first difference. -/
def repe (f : Cpu → Cpu × Bool) : Nat → Cpu → Cpu × Bool
  | 0, c => (c, true)
  | n + 1, c =>
    let (c, equal) := f c
    let c := c.setWord .cx (c.word .cx + 2 ^ 16 - 1)
    if equal then repe f n c else (c, false)

/-- The states in which the rounds of `repe f n` start. -/
def repeRounds (f : Cpu → Cpu × Bool) : Nat → Cpu → List Cpu
  | 0, _ => []
  | n + 1, c =>
    let (d, equal) := f c
    let d := d.setWord .cx (d.word .cx + 2 ^ 16 - 1)
    c :: if equal then repeRounds f n d else []

end Cpu

/-- The registers, segments, flags and control registers are those of `c`, but
for the registers of the list. -/
structure SameBut (rs : List Reg) (c c' : Cpu) : Prop where
  reg : ∀ r, r ∉ rs → c'.reg r = c.reg r
  seg : c'.seg = c.seg
  flags : c'.flags = c.flags
  cr : c'.cr = c.cr

namespace SameBut

variable {rs : List Reg} {c c' c'' : Cpu} {r : Reg}

theorem refl (c : Cpu) : SameBut rs c c := ⟨fun _ _ => rfl, rfl, rfl, rfl⟩

theorem trans (h : SameBut rs c c') (h' : SameBut rs c' c'') : SameBut rs c c'' where
  reg r hr := (h'.reg r hr).trans (h.reg r hr)
  seg := h'.seg.trans h.seg
  flags := h'.flags.trans h.flags
  cr := h'.cr.trans h.cr

theorem mono {rs' : List Reg} (h : SameBut rs c c') (hsub : ∀ r ∈ rs, r ∈ rs') :
    SameBut rs' c c' :=
  ⟨fun r hr => h.reg r (fun hmem => hr (hsub r hmem)), h.seg, h.flags, h.cr⟩

theorem word (h : SameBut rs c c') (hr : r ∉ rs) : c'.word r = c.word r := by
  rw [Cpu.word, h.reg r hr, Cpu.word]

theorem linear (h : SameBut rs c c') (s : Seg) (off : Nat) :
    c'.linear s off = c.linear s off := by
  rw [Cpu.linear, h.seg, Cpu.linear]

theorem setReg (hr : r ∈ rs) (v : Nat) : SameBut rs c (c.setReg r v) where
  reg r' hr' := Cpu.reg_setReg_of_ne c r r' v (fun heq => hr' (heq ▸ hr))
  seg := rfl
  flags := rfl
  cr := rfl

theorem setWord (hr : r ∈ rs) (v : Nat) : SameBut rs c (c.setWord r v) := setReg hr _

theorem setLow (hr : r ∈ rs) (v : Nat) : SameBut rs c (c.setLow r v) := setReg hr _

theorem store (n : Nat) (s : Seg) (off v : Nat) : SameBut rs c (c.store n s off v) :=
  ⟨fun _ _ => rfl, rfl, rfl, rfl⟩

end SameBut

/-- Clearing memory with `rep stosd`. -/
theorem rep_stosd {c : Cpu} (hdf : c.flags.getLsbD 10 = false) (hax : c.reg .ax = 0)
    (hfits : c.word .di + 4 * c.word .cx ≤ 2 ^ 16) :
    SameBut [.di, .cx] c (c.rep Cpu.stosd) ∧
      (c.rep Cpu.stosd).mem = c.mem.fill (c.linear .es (c.word .di)) (4 * c.word .cx) 0 := by
  have hzero : ∀ m : Memory, ∀ a k : Nat,
      (m.fill a (4 * k) 0).store (a + 4 * k) 4 0 = m.fill a (4 * (k + 1)) 0 := by
    intro m a k
    funext b
    simp only [Memory.store, Memory.fill, Nat.zero_div]
    by_cases hb : a + 4 * k ≤ b ∧ b < a + 4 * k + 4
    · rw [if_pos hb, if_pos (by omega)]
      rfl
    · rw [if_neg hb]
      by_cases hb' : a ≤ b ∧ b < a + 4 * k
      · rw [if_pos hb', if_pos (by omega)]
      · rw [if_neg hb', if_neg (by omega)]
  have hlt := c.word_lt .cx
  have hinv := forLoop_inv (fun _ => Cpu.countDown Cpu.stosd) (c.word .cx) c
    (fun k t => SameBut [.di, .cx] c t ∧
      (k < c.word .cx → t.word .di = c.word .di + 4 * k) ∧
      t.mem = c.mem.fill (c.linear .es (c.word .di)) (4 * k) 0)
    ⟨SameBut.refl c, fun _ => rfl, by
      funext b
      exact (Memory.fill_of_not_mem c.mem 0 (by omega)).symm⟩ ?_
  · exact ⟨hinv.1, hinv.2.2⟩
  rintro k t hk ⟨hsame, hdi, hmem⟩
  have hdi := hdi hk
  have hdf' : t.flags.getLsbD 10 = false := by rw [hsame.flags, hdf]
  have hne : Reg.di ≠ Reg.cx := by simp
  refine ⟨?_, ?_, ?_⟩
  · have hstored : SameBut [.di, .cx] t (t.store 4 .es (t.word .di) (t.reg .ax).toNat) :=
      SameBut.store _ _ _ _
    exact hsame.trans ((hstored.trans (SameBut.setWord (by simp) _)).trans
      (SameBut.setWord (by simp) _))
  · intro hk'
    simp only [Cpu.countDown, Cpu.stosd, hdf', Bool.false_eq_true, if_false]
    rw [Cpu.word_setWord_of_ne _ _ _ _ hne, Cpu.word_setWord, hdi]
    omega
  · have hax' : t.reg .ax = 0 := by rw [hsame.reg .ax (by simp), hax]
    have haddr : t.linear .es (t.word .di) = c.linear .es (c.word .di) + 4 * k := by
      rw [hsame.linear, hdi]
      simp only [Cpu.linear]
      omega
    simp only [Cpu.countDown, Cpu.stosd, Cpu.mem_setWord, Cpu.mem_store]
    rw [haddr, hax', hmem]
    exact hzero c.mem _ k

/-- One round of `rep cmpsb`: what is left, and whether it goes on. -/
theorem repe_cmpsb_succ {c d : Cpu} (hdf : c.flags.getLsbD 10 = false)
    (hd : d = ((c.setWord .si (c.word .si + 1)).setWord .di (c.word .di + 1)).setWord .cx
      (c.word .cx + 2 ^ 16 - 1)) (n : Nat) :
    c.repe Cpu.cmpsb (n + 1)
        = (if c.load 1 .ds (c.word .si) == c.load 1 .es (c.word .di) then d.repe Cpu.cmpsb n
          else (d, false)) ∧
      c.repeRounds Cpu.cmpsb (n + 1)
        = c :: if c.load 1 .ds (c.word .si) == c.load 1 .es (c.word .di) then
            d.repeRounds Cpu.cmpsb n else [] := by
  have hcs : Reg.cx ≠ Reg.si := nofun
  have hcd : Reg.cx ≠ Reg.di := nofun
  have hround : Cpu.cmpsb c = ((c.setWord .si (c.word .si + 1)).setWord .di (c.word .di + 1),
      c.load 1 .ds (c.word .si) == c.load 1 .es (c.word .di)) := by
    rw [Cpu.cmpsb, hdf]
    rfl
  have hnext : ((c.setWord .si (c.word .si + 1)).setWord .di (c.word .di + 1)).word .cx
      = c.word .cx := by
    rw [Cpu.word_setWord_of_ne _ _ _ _ hcd, Cpu.word_setWord_of_ne _ _ _ _ hcs]
  constructor
  · rw [hd, Cpu.repe, hround]
    simp only [hnext]
  · rw [hd, Cpu.repeRounds, hround]
    simp only [hnext]

/-- Comparing memory with `rep cmpsb`, and the bytes that it reads. -/
theorem repe_cmpsb_linear {c : Cpu} {n : Nat} (hdf : c.flags.getLsbD 10 = false) :
    SameBut [.si, .di, .cx] c (c.repe Cpu.cmpsb n).1 ∧ (c.repe Cpu.cmpsb n).1.mem = c.mem ∧
      ((c.repe Cpu.cmpsb n).2 = true ↔ ∀ i, i < n →
        c.mem (c.linear .ds (c.word .si + i)) = c.mem (c.linear .es (c.word .di + i))) ∧
      ∀ t ∈ c.repeRounds Cpu.cmpsb n, ∃ i, i < n ∧
        t.linear .ds (t.word .si) = c.linear .ds (c.word .si + i) ∧
        t.linear .es (t.word .di) = c.linear .es (c.word .di + i) := by
  induction n generalizing c with
  | zero =>
    exact ⟨SameBut.refl c, rfl, ⟨fun _ i hi => absurd hi (Nat.not_lt_zero i), fun _ => rfl⟩,
      fun t ht => absurd ht List.not_mem_nil⟩
  | succ n ih =>
    obtain ⟨d, hd⟩ : ∃ d, d = ((c.setWord .si (c.word .si + 1)).setWord .di
      (c.word .di + 1)).setWord .cx (c.word .cx + 2 ^ 16 - 1) := ⟨_, rfl⟩
    obtain ⟨hstep, hrounds⟩ := repe_cmpsb_succ hdf hd n
    have hsame : SameBut [.si, .di, .cx] c d := by
      rw [hd]
      exact ((SameBut.setWord (by simp) _).trans (SameBut.setWord (by simp) _)).trans
        (SameBut.setWord (by simp) _)
    have hmem : d.mem = c.mem := by
      rw [hd, Cpu.mem_setWord, Cpu.mem_setWord, Cpu.mem_setWord]
    have hsd : Reg.si ≠ Reg.di := nofun
    have hsc : Reg.si ≠ Reg.cx := nofun
    have hdc : Reg.di ≠ Reg.cx := nofun
    have hsi : d.word .si = (c.word .si + 1) % 2 ^ 16 := by
      rw [hd, Cpu.word_setWord_of_ne _ _ _ _ hsc, Cpu.word_setWord_of_ne _ _ _ _ hsd,
        Cpu.word_setWord]
    have hdi : d.word .di = (c.word .di + 1) % 2 ^ 16 := by
      rw [hd, Cpu.word_setWord_of_ne _ _ _ _ hdc, Cpu.word_setWord]
    have hfrom : ∀ i, d.linear .ds (d.word .si + i) = c.linear .ds (c.word .si + (i + 1)) := by
      intro i
      rw [hsame.linear, hsi, Cpu.linear, Cpu.linear]
      omega
    have hto : ∀ i, d.linear .es (d.word .di + i) = c.linear .es (c.word .di + (i + 1)) := by
      intro i
      rw [hsame.linear, hdi, Cpu.linear, Cpu.linear]
      omega
    have hfirst : (c.load 1 .ds (c.word .si) == c.load 1 .es (c.word .di)) = true ↔
        c.mem (c.linear .ds (c.word .si + 0)) = c.mem (c.linear .es (c.word .di + 0)) := by
      rw [beq_iff_eq, Cpu.load, Cpu.load, Memory.load_one, Memory.load_one]
      exact UInt8.toNat_inj
    rw [hstep, hrounds]
    by_cases heq : c.mem (c.linear .ds (c.word .si + 0)) = c.mem (c.linear .es (c.word .di + 0))
    · rw [if_pos (hfirst.mpr heq), if_pos (hfirst.mpr heq)]
      obtain ⟨hrest, hmem', hiff, hreads⟩ := ih (c := d) (by rw [hsame.flags, hdf])
      refine ⟨hsame.trans hrest, hmem'.trans hmem, hiff.trans ?_, ?_⟩
      · simp only [hmem, hfrom, hto]
        constructor
        · intro hall i hi
          cases i with
          | zero => exact heq
          | succ i => exact hall i (by omega)
        · intro hall i hi
          exact hall (i + 1) (by omega)
      · intro t ht
        rcases List.mem_cons.mp ht with rfl | ht
        · exact ⟨0, Nat.succ_pos n, rfl, rfl⟩
        · obtain ⟨i, hi, hds, hes⟩ := hreads t ht
          rw [hfrom] at hds
          rw [hto] at hes
          exact ⟨i + 1, by omega, hds, hes⟩
    · rw [if_neg (fun h => heq (hfirst.mp h)), if_neg (fun h => heq (hfirst.mp h))]
      refine ⟨hsame, hmem, ⟨fun h => absurd h Bool.false_ne_true, fun hall => ?_⟩, ?_⟩
      · exact absurd (hall 0 (by omega)) heq
      · intro t ht
        rw [List.mem_singleton] at ht
        subst ht
        exact ⟨0, Nat.succ_pos n, rfl, rfl⟩

/-- The comparison of two ranges that do not run over the end of their segments. -/
theorem repe_cmpsb {c : Cpu} {n : Nat} (hdf : c.flags.getLsbD 10 = false)
    (hsi : c.word .si + n ≤ 2 ^ 16) (hdi : c.word .di + n ≤ 2 ^ 16) :
    SameBut [.si, .di, .cx] c (c.repe Cpu.cmpsb n).1 ∧ (c.repe Cpu.cmpsb n).1.mem = c.mem ∧
      ((c.repe Cpu.cmpsb n).2 = true ↔
        ∀ i, i < n → c.mem (c.linear .ds (c.word .si) + i) = c.mem (c.linear .es (c.word .di) + i)) := by
  have hlinear : ∀ s off i, off + n ≤ 2 ^ 16 → i < n → c.linear s (off + i) = c.linear s off + i := by
    intro s off i hoff hi
    rw [Cpu.linear, Cpu.linear, Nat.mod_eq_of_lt (by omega), Nat.mod_eq_of_lt (by omega),
      Nat.add_assoc]
  obtain ⟨hsame, hmem, hiff, -⟩ := repe_cmpsb_linear (n := n) hdf
  refine ⟨hsame, hmem, hiff.trans (forall_congr' fun i => forall_congr' fun hi => ?_)⟩
  rw [hlinear .ds _ i hsi hi, hlinear .es _ i hdi hi]

end Lib.Real
