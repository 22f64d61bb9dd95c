import Mathlib.Logic.Function.Basic
import Mathlib.Tactic.Basic
import Xeos.Lib.Real

/-!
# A processor with a flat memory

The protected and the long mode with segments that start at zero: registers of `bits` bits, and
a stack in the same memory as everything else.  Every push is of a whole register; one of a
segment register is filled with zeros.

As in real mode a conditional jump is an `if` on the values that were compared, and the flags
are one word that only the instructions that name it touch.  `Stacked` is the discipline of the
stack.  A procedure pushes a list of slots and pops it again; `InProc` is what its body has to
keep, and `InProc.finish` what the procedure gives back for it.
-/

namespace Lib.Flat

open Lib.Real (Seg Frame bytes bytes_cons bytes_nil bytes_append)

/-- The eight registers of every mode, and the eight of the long mode. -/
inductive Reg
  | main (r : Real.Reg)
  | ext (k : Fin 8)
deriving DecidableEq, Repr

abbrev Reg.sp : Reg := .main .sp

abbrev Reg.bp : Reg := .main .bp

structure Cpu (bits : Nat) where
  reg : Reg → BitVec bits
  seg : Seg → BitVec 16
  flags : BitVec bits
  mem : Memory

variable {bits : Nat}

namespace Cpu

def setReg (c : Cpu bits) (r : Reg) (v : Nat) : Cpu bits :=
  { c with reg := Function.update c.reg r (BitVec.ofNat bits v) }

def setSeg (c : Cpu bits) (s : Seg) (v : Nat) : Cpu bits :=
  { c with seg := Function.update c.seg s (BitVec.ofNat 16 v) }

def store (c : Cpu bits) (n off v : Nat) : Cpu bits :=
  { c with mem := c.mem.store (off % 2 ^ bits) n v }

/-- The stack pointer. -/
def top (c : Cpu bits) : Nat := (c.reg .sp).toNat

/-- Push the `n` bytes of `v`. -/
def pushWith (c : Cpu bits) (n v : Nat) : Cpu bits :=
  let c := c.setReg .sp (c.top + 2 ^ bits - n)
  { c with mem := c.mem.store c.top n v }

/-- The `n` bytes on the top of the stack. -/
def peek (c : Cpu bits) (n : Nat) : Nat := c.mem.load c.top n

/-- Take `n` bytes off the stack. -/
def drop (c : Cpu bits) (n : Nat) : Cpu bits := c.setReg .sp (c.top + n)

section Simp

variable (c : Cpu bits) (r r' : Reg) (v n : Nat)

@[simp] theorem reg_setReg : ((c.setReg r v).reg r).toNat = v % 2 ^ bits := by
  simp [setReg]

@[simp] theorem reg_setReg_of_ne (h : r' ≠ r) : (c.setReg r v).reg r' = c.reg r' := by
  simp [setReg, h]

theorem reg_pushWith_of_ne (h : r ≠ .sp) : (c.pushWith n v).reg r = c.reg r :=
  reg_setReg_of_ne c .sp r _ h

theorem reg_drop_of_ne (h : r ≠ .sp) : (c.drop n).reg r = c.reg r :=
  reg_setReg_of_ne c .sp r _ h

theorem top_setReg_of_ne (h : r ≠ .sp) : (c.setReg r v).top = c.top :=
  congrArg BitVec.toNat (reg_setReg_of_ne c r .sp v (Ne.symm h))

theorem top_lt : c.top < 2 ^ bits := (c.reg .sp).isLt

end Simp

end Cpu

/-- Something that one push saves and one pop restores. -/
inductive Slot
  | reg (r : Reg)
  | seg (s : Seg)
  | flags
  /-- The stack pointer, whose pop is thrown away. -/
  | skip
deriving DecidableEq, Repr

namespace Slot

def value (c : Cpu bits) : Slot → Nat
  | reg r => (c.reg r).toNat
  | seg s => (c.seg s).toNat
  | flags => c.flags.toNat
  | skip => c.top

def assign (c : Cpu bits) (v : Nat) : Slot → Cpu bits
  | reg r => c.setReg r v
  | seg s => c.setSeg s v
  | flags => { c with flags := BitVec.ofNat bits v }
  | skip => c

/-- The word that a slot of the state is on the stack. -/
def saved (c : Cpu bits) (t : Slot) : Nat × Nat := (bits / 8, t.value c)

end Slot

namespace Cpu

def push (t : Slot) (c : Cpu bits) : Cpu bits := c.pushWith (bits / 8) (t.value c)

def pop (t : Slot) (c : Cpu bits) : Cpu bits := t.assign (c.drop (bits / 8)) (c.peek (bits / 8))

/-- Push a list of slots with the values they have in `c₀`, the first one first. -/
def pushAll (c₀ : Cpu bits) : List Slot → Cpu bits → Cpu bits
  | [], c => c
  | t :: ts, c => pushAll c₀ ts (c.pushWith (bits / 8) (t.value c₀))

/-- Pop a list of slots, the first one first. -/
def popAll : List Slot → Cpu bits → Cpu bits
  | [], c => c
  | t :: ts, c => popAll ts (c.pop t)

end Cpu

/-! ## The discipline of the stack -/

/-- The state `c` has the words of the list on the stack below the stack pointer of `c₀`, and
nothing else. -/
structure Stacked (c₀ c : Cpu bits) (fs : List (Nat × Nat)) : Prop where
  top : c.top + bytes fs = c₀.top
  frame : Frame c.mem c.top fs

namespace Stacked

variable {c₀ c c' c₁ : Cpu bits} {fs : List (Nat × Nat)} {n v : Nat} {t : Slot} {ts : List Slot}

theorem refl (c : Cpu bits) : Stacked c c [] := ⟨rfl, trivial⟩

/-- Code that leaves the stack pointer and the words on the stack alone. -/
theorem keep (h : Stacked c₀ c fs) (hsp : c'.top = c.top)
    (hmem : ∀ a, c.top ≤ a → a < c₀.top → c'.mem a = c.mem a) : Stacked c₀ c' fs := by
  have htop := h.top
  refine ⟨by rw [hsp]; exact h.top, ?_⟩
  rw [hsp]
  exact h.frame.congr fun b hle hlt => hmem b hle (by omega)

theorem top_pushWith (h : Stacked c₀ c fs) (hroom : n + bytes fs ≤ c₀.top) :
    (c.pushWith n v).top + n = c.top := by
  have htop := h.top
  have hlt := c.top_lt
  have hset : (c.pushWith n v).top = (c.top + 2 ^ bits - n) % 2 ^ bits := c.reg_setReg .sp _
  rw [hset, show c.top + 2 ^ bits - n = c.top - n + 2 ^ bits by omega, Nat.add_mod_right,
    Nat.mod_eq_of_lt (by omega)]
  omega

theorem pushWith (h : Stacked c₀ c fs) (hroom : n + bytes fs ≤ c₀.top) (hv : v < 256 ^ n) :
    Stacked c₀ (c.pushWith n v) ((n, v) :: fs) := by
  have htop := h.top
  have hpush := h.top_pushWith (v := v) hroom
  refine ⟨by rw [bytes_cons]; omega, ?_, ?_⟩
  · exact (Memory.load_store _ _ _ _).trans (Nat.mod_eq_of_lt hv)
  · rw [hpush]
    exact h.frame.congr fun b hle _ => Memory.store_of_not_mem _ _ (Or.inr (by
      rw [show (c.setReg .sp (c.top + 2 ^ bits - n)).top = (c.pushWith n v).top from rfl]
      omega))

/-- What a push writes. -/
theorem mem_pushWith (h : Stacked c₀ c fs) (hroom : n + bytes fs ≤ c₀.top) {a : Nat}
    (ha : a + n < c.top ∨ c.top ≤ a) : (c.pushWith n v).mem a = c.mem a := by
  have hpush := h.top_pushWith (v := v) hroom
  refine Memory.store_of_not_mem _ _ ?_
  rw [show (c.setReg .sp (c.top + 2 ^ bits - n)).top = (c.pushWith n v).top from rfl]
  omega

theorem peek (h : Stacked c₀ c ((n, v) :: fs)) : c.peek n = v := h.frame.1

theorem top_drop (h : Stacked c₀ c ((n, v) :: fs)) : (c.drop n).top = c.top + n := by
  have htop := h.top
  have hlt := c₀.top_lt
  rw [bytes_cons] at htop
  exact (c.reg_setReg .sp _).trans (Nat.mod_eq_of_lt (by omega))

theorem drop (h : Stacked c₀ c ((n, v) :: fs)) : Stacked c₀ (c.drop n) fs := by
  have htop := h.top
  rw [bytes_cons] at htop
  refine ⟨by rw [h.top_drop]; omega, ?_⟩
  rw [h.top_drop]
  exact h.frame.2

end Stacked

/-! ## Saving and restoring -/

section Restore

variable {c₀ c c₁ : Cpu bits} {fs : List (Nat × Nat)} {t : Slot} {ts : List Slot} {r : Reg}
variable {s : Seg} {v : Nat}

theorem pow_bytes (hbits : 8 ∣ bits) : 256 ^ (bits / 8) = 2 ^ bits := by
  rw [show 256 = 2 ^ 8 from rfl, ← Nat.pow_mul, Nat.mul_div_cancel' hbits]

theorem Slot.value_lt (hbits : 8 ∣ bits) (hle : 16 ≤ bits) (c : Cpu bits) (t : Slot) :
    t.value c < 256 ^ (bits / 8) := by
  have hseg : 2 ^ 16 ≤ 2 ^ bits := Nat.pow_le_pow_right (by decide) hle
  rw [pow_bytes hbits]
  cases t with
  | reg r => exact (c.reg r).isLt
  | seg s => exact Nat.lt_of_lt_of_le (c.seg s).isLt hseg
  | flags => exact c.flags.isLt
  | skip => exact c.top_lt

theorem Slot.mem_assign : (t.assign c v).mem = c.mem := by
  cases t <;> rfl

theorem Slot.top_assign (ht : t ≠ .reg .sp) : (t.assign c v).top = c.top := by
  cases t with
  | reg r => exact c.top_setReg_of_ne r v (fun h => ht (congrArg Slot.reg h))
  | _ => rfl

/-- A register that a slot holds, or that agrees already. -/
theorem Slot.reg_assign (h : t = .reg r ∨ c.reg r = c₁.reg r) :
    (t.assign c (t.value c₁)).reg r = c₁.reg r := by
  by_cases ht : t = .reg r
  · subst ht
    refine BitVec.eq_of_toNat_eq ((c.reg_setReg r _).trans ?_)
    exact Nat.mod_eq_of_lt (c₁.reg r).isLt
  · have heq := h.resolve_left ht
    cases t with
    | reg r' => exact (c.reg_setReg_of_ne r' r _ (fun h => ht (congrArg Slot.reg h.symm))).trans heq
    | _ => exact heq

theorem Slot.seg_assign (h : t = .seg s ∨ c.seg s = c₁.seg s) :
    (t.assign c (t.value c₁)).seg s = c₁.seg s := by
  by_cases ht : t = .seg s
  · subst ht
    refine BitVec.eq_of_toNat_eq ?_
    show (Function.update c.seg s _ s).toNat = _
    rw [Function.update_self, BitVec.toNat_ofNat]
    exact Nat.mod_eq_of_lt (c₁.seg s).isLt
  · have heq := h.resolve_left ht
    cases t with
    | seg s' => exact (Function.update_of_ne (fun h => ht (congrArg Slot.seg h.symm)) _ _).trans heq
    | _ => exact heq

theorem Slot.flags_assign (h : t = .flags ∨ c.flags = c₁.flags) :
    (t.assign c (t.value c₁)).flags = c₁.flags := by
  cases t with
  | flags => exact BitVec.ofNat_toNat bits c₁.flags |>.trans (BitVec.setWidth_eq _)
  | _ => exact h.resolve_left nofun

theorem Stacked.pop (h : Stacked c₀ c (t.saved c₁ :: fs)) :
    c.pop t = t.assign (c.drop (bits / 8)) (t.value c₁) := by
  rw [Cpu.pop, h.peek]

theorem Stacked.popped (h : Stacked c₀ c (t.saved c₁ :: fs)) (ht : t ≠ .reg .sp) :
    Stacked c₀ (c.pop t) fs := by
  rw [h.pop]
  exact h.drop.keep (Slot.top_assign ht) fun a _ _ => by rw [Slot.mem_assign]

/-- What one pop does to a register other than the stack pointer. -/
theorem Stacked.reg_popped (h : Stacked c₀ c (t.saved c₁ :: fs)) (hr : r ≠ .sp)
    (hreg : t = .reg r ∨ c.reg r = c₁.reg r) : (c.pop t).reg r = c₁.reg r := by
  rw [h.pop]
  refine Slot.reg_assign (hreg.imp_right fun heq => ?_)
  rw [c.reg_drop_of_ne r _ hr, heq]

/-- Popping what was pushed gives the saved values back. -/
theorem Stacked.popAll (h : Stacked c₀ c (ts.map (Slot.saved c₁) ++ fs)) (hts : .reg .sp ∉ ts) :
    Stacked c₀ (c.popAll ts) fs ∧ (c.popAll ts).mem = c.mem ∧
      (∀ r, r ≠ .sp → .reg r ∈ ts ∨ c.reg r = c₁.reg r → (c.popAll ts).reg r = c₁.reg r) ∧
      (∀ s, .seg s ∈ ts ∨ c.seg s = c₁.seg s → (c.popAll ts).seg s = c₁.seg s) ∧
      (.flags ∈ ts ∨ c.flags = c₁.flags → (c.popAll ts).flags = c₁.flags) := by
  induction ts generalizing c with
  | nil =>
    exact ⟨h, rfl, fun r _ hr => hr.resolve_left List.not_mem_nil,
      fun s hs => hs.resolve_left List.not_mem_nil, fun hf => hf.resolve_left List.not_mem_nil⟩
  | cons t ts ih =>
    rw [List.mem_cons, not_or] at hts
    have ht : t ≠ .reg .sp := fun heq => hts.1 heq.symm
    obtain ⟨hstack, hmem, hreg, hseg, hflags⟩ := ih (h.popped ht) hts.2
    have hpop : c.pop t = t.assign (c.drop (bits / 8)) (t.value c₁) := Stacked.pop h
    have hsplit : ∀ u, u ∈ t :: ts → t = u ∨ u ∈ ts := fun u hu =>
      (List.mem_cons.mp hu).imp Eq.symm id
    refine ⟨hstack, hmem.trans (by rw [hpop, Slot.mem_assign]; rfl), fun r hr hr' => ?_,
      fun s hs => ?_, fun hf => ?_⟩
    · refine hreg r hr ?_
      by_cases hin : .reg r ∈ ts
      · exact Or.inl hin
      · exact Or.inr (Stacked.reg_popped h hr
          (hr'.imp_left fun hu => (hsplit _ hu).resolve_right hin))
    · refine hseg s ?_
      by_cases hin : .seg s ∈ ts
      · exact Or.inl hin
      · rw [hpop]
        exact Or.inr (Slot.seg_assign (hs.imp_left fun hu => (hsplit _ hu).resolve_right hin))
    · refine hflags ?_
      by_cases hin : Slot.flags ∈ ts
      · exact Or.inl hin
      · rw [hpop]
        exact Or.inr (Slot.flags_assign (hf.imp_left fun hu => (hsplit _ hu).resolve_right hin))

/-- Pushing a list of slots. -/
theorem Stacked.pushAll (hbits : 8 ∣ bits) (hle : 16 ≤ bits) (h : Stacked c₀ c fs)
    (hroom : bytes (ts.map (Slot.saved c₁)) + bytes fs ≤ c₀.top) :
    Stacked c₀ (c₁.pushAll ts c) ((ts.map (Slot.saved c₁)).reverse ++ fs) ∧
      (∀ r, r ≠ .sp → (c₁.pushAll ts c).reg r = c.reg r) ∧ (c₁.pushAll ts c).seg = c.seg ∧
      (c₁.pushAll ts c).flags = c.flags ∧
      ∀ a, a + bytes (ts.map (Slot.saved c₁)) < c.top ∨ c.top ≤ a →
        (c₁.pushAll ts c).mem a = c.mem a := by
  induction ts generalizing c fs with
  | nil => exact ⟨h, fun _ _ => rfl, rfl, rfl, fun _ _ => rfl⟩
  | cons t ts ih =>
    rw [List.map_cons, bytes_cons] at hroom
    have hsize : (t.saved c₁).1 = bits / 8 := rfl
    have hfit : bits / 8 + bytes fs ≤ c₀.top := by omega
    have hpush := h.pushWith hfit (t.value_lt hbits hle c₁)
    have htop := h.top_pushWith (v := t.value c₁) hfit
    obtain ⟨hstack, hreg, hseg, hflags, hmem⟩ := ih hpush
      (by rw [bytes_cons]; dsimp only; omega)
    refine ⟨?_, fun r hr => (hreg r hr).trans (c.reg_pushWith_of_ne r _ _ hr), hseg, hflags,
      fun a ha => ?_⟩
    · rw [List.map_cons, List.reverse_cons, List.append_assoc]
      exact hstack
    · rw [List.map_cons, bytes_cons, hsize] at ha
      rw [Cpu.pushAll, hmem a (by omega)]
      exact h.mem_pushWith hfit (by omega)

end Restore

/-! ## Procedures -/

/-- The start of a procedure that saves the flags and the registers of a list, and makes a
stack frame without local variables. -/
def procStart (slots : List Slot) (c : Cpu bits) : Cpu bits :=
  let c := c.push .flags
  let c := c.pushAll slots c
  c.setReg .bp c.top

/-- The end: back to the frame, and everything that was pushed. -/
def procEnd (slots : List Slot) (c : Cpu bits) : Cpu bits :=
  let c := c.setReg .sp (c.reg .bp).toNat
  let c := c.popAll slots.reverse
  c.pop .flags

/-- The words of the frame from the lowest one up. -/
def procFrame (slots : List Slot) (c : Cpu bits) : List (Nat × Nat) :=
  (slots.map (Slot.saved (c.push .flags))).reverse ++ [Slot.saved c .flags]

def procBytes (bits : Nat) (slots : List Slot) : Nat := (slots.length + 1) * (bits / 8)

/-- Call the procedure `f`: it goes back to the caller if it leaves the return address. -/
def Cpu.call (ret : BitVec bits) (f : Cpu bits → Option (Cpu bits)) (c : Cpu bits) :
    Option (Cpu bits) :=
  (f (c.pushWith (bits / 8) ret.toNat)).bind fun c =>
    if c.peek (bits / 8) = ret.toNat then some (c.drop (bits / 8)) else none

section Proc

variable {c₀ c c' : Cpu bits} {slots : List Slot} {fs : List (Nat × Nat)} {n x : Nat}

theorem bytes_map_saved (c : Cpu bits) (ts : List Slot) :
    bytes (ts.map (Slot.saved c)) = ts.length * (bits / 8) := by
  induction ts with
  | nil => rw [List.map_nil, bytes_nil, List.length_nil, Nat.zero_mul]
  | cons t ts ih =>
    rw [List.map_cons, bytes_cons, ih, List.length_cons, Nat.succ_mul, Nat.add_comm]
    rfl

theorem procFrame_eq (slots : List Slot) (c : Cpu bits) :
    procFrame slots c = slots.reverse.map (Slot.saved (c.push .flags)) ++ [Slot.saved c .flags] := by
  rw [procFrame, List.map_reverse]

theorem bytes_procFrame (slots : List Slot) (c : Cpu bits) :
    bytes (procFrame slots c) = procBytes bits slots := by
  rw [procFrame_eq, bytes_append, bytes_map_saved, List.length_reverse, procBytes, Nat.succ_mul]
  rfl

/-- The state between the start and the end of a procedure, which was in `c₀` at its entry. -/
structure InProc (slots : List Slot) (c₀ c : Cpu bits) (fs : List (Nat × Nat)) : Prop where
  room : procBytes bits slots ≤ c₀.top
  stack : Stacked (procStart slots c₀) c fs
  bp : c.reg .bp = (procStart slots c₀).reg .bp
  frame : ∀ a, c₀.top ≤ a + procBytes bits slots → a < c₀.top →
    c.mem a = (procStart slots c₀).mem a

section Start

variable (hbits : 8 ∣ bits) (hle : 16 ≤ bits) (hroom : procBytes bits slots ≤ c₀.top)

include hbits hle hroom

theorem pushed_flags : Stacked c₀ (c₀.push .flags) [Slot.saved c₀ .flags] := by
  have hsize : bits / 8 + bytes [] ≤ c₀.top := by
    rw [procBytes, Nat.succ_mul] at hroom
    rw [bytes_nil]
    omega
  exact (Stacked.refl c₀).pushWith hsize (Slot.value_lt hbits hle c₀ .flags)

/-- What the pushes of the start do. -/
theorem procStart_pushes :
    Stacked c₀ (procStart slots c₀) (procFrame slots c₀) ∧
      (∀ r, r ≠ .sp → r ≠ .bp → (procStart slots c₀).reg r = c₀.reg r) ∧
      (procStart slots c₀).seg = c₀.seg ∧ (procStart slots c₀).flags = c₀.flags ∧
      ∀ a, a + procBytes bits slots < c₀.top ∨ c₀.top ≤ a →
        (procStart slots c₀).mem a = c₀.mem a := by
  have hflags := pushed_flags hbits hle hroom
  have hsum := bytes_procFrame slots c₀
  rw [procFrame, bytes_append, ← List.map_reverse, bytes_map_saved, List.length_reverse] at hsum
  have htop := hflags.top
  rw [bytes_cons, bytes_nil] at hsum htop
  obtain ⟨hstack, hreg, hseg, hf, hmem⟩ := @Stacked.pushAll _ _ _ (c₀.push .flags) _ slots
    hbits hle hflags (by rw [bytes_map_saved, bytes_cons, bytes_nil]; omega)
  refine ⟨hstack.keep (Cpu.top_setReg_of_ne _ .bp _ nofun) fun _ _ _ => rfl,
    fun r hsp hbp => ?_, hseg, hf, fun a ha => ?_⟩
  · rw [procStart, Cpu.reg_setReg_of_ne _ _ _ _ hbp, hreg r hsp]
    exact Cpu.reg_pushWith_of_ne c₀ r _ _ hsp
  · have hsize : (Slot.saved c₀ .flags).1 = bits / 8 := rfl
    rw [bytes_map_saved] at hmem
    refine (hmem a (by omega)).trans ((Stacked.refl c₀).mem_pushWith ?_ (by omega))
    rw [bytes_nil]
    omega

theorem procStart_top : (procStart slots c₀).top + procBytes bits slots = c₀.top := by
  have htop := (procStart_pushes hbits hle hroom).1.top
  rwa [bytes_procFrame] at htop

end Start

theorem procStart_bp : ((procStart slots c₀).reg .bp).toNat = (procStart slots c₀).top := by
  have hlt := ((c₀.push .flags).pushAll slots (c₀.push .flags)).top_lt
  rw [procStart, Cpu.top_setReg_of_ne _ .bp _ nofun, Cpu.reg_setReg, Nat.mod_eq_of_lt hlt]

namespace InProc

theorem start (hroom : procBytes bits slots ≤ c₀.top) :
    InProc slots c₀ (procStart slots c₀) [] :=
  ⟨hroom, Stacked.refl _, rfl, fun _ _ _ => rfl⟩

theorem top (h : InProc slots c₀ c fs) (hbits : 8 ∣ bits) (hle : 16 ≤ bits) :
    c.top + bytes fs + procBytes bits slots = c₀.top := by
  rw [h.stack.top, procStart_top hbits hle h.room]

/-- Code that leaves the stack and the frame pointer alone. -/
theorem keep (h : InProc slots c₀ c fs) (hsp : c'.top = c.top) (hbp : c'.reg .bp = c.reg .bp)
    (hmem : ∀ a, c.top ≤ a → a < c₀.top → c'.mem a = c.mem a) (hbits : 8 ∣ bits)
    (hle : 16 ≤ bits) : InProc slots c₀ c' fs := by
  have htop := h.top hbits hle
  have hstart := procStart_top hbits hle h.room
  refine ⟨h.room, h.stack.keep hsp fun a hge hlt => hmem a hge (by omega), hbp.trans h.bp, ?_⟩
  intro a hge hlt
  rw [hmem a (by omega) hlt, h.frame a hge hlt]

theorem push_room (h : InProc slots c₀ c fs) (hroom : n ≤ c.top) :
    n + bytes fs ≤ (procStart slots c₀).top := by
  have htop := h.stack.top
  omega

theorem pushWith (h : InProc slots c₀ c fs) (hroom : n ≤ c.top) (hx : x < 256 ^ n)
    (hbits : 8 ∣ bits) (hle : 16 ≤ bits) : InProc slots c₀ (c.pushWith n x) ((n, x) :: fs) := by
  have htop := h.top hbits hle
  refine ⟨h.room, h.stack.pushWith (h.push_room hroom) hx,
    (c.reg_pushWith_of_ne .bp _ _ nofun).trans h.bp, ?_⟩
  intro a hge hlt
  rw [h.stack.mem_pushWith (h.push_room hroom) (by omega), h.frame a hge hlt]

theorem drop (h : InProc slots c₀ c ((n, x) :: fs)) : InProc slots c₀ (c.drop n) fs :=
  ⟨h.room, h.stack.drop, (c.reg_drop_of_ne .bp n nofun).trans h.bp, h.frame⟩

/-- The end of the procedure, from any state of its body that has kept the registers that the
start does not save. -/
theorem finish (h : InProc slots c₀ c fs) (hbits : 8 ∣ bits) (hle : 16 ≤ bits)
    (hsp : .reg .sp ∉ slots) (hreg : ∀ r, r ≠ .sp → .reg r ∈ slots ∨ c.reg r = c₀.reg r)
    (hseg : ∀ s, .seg s ∈ slots ∨ c.seg s = c₀.seg s) :
    procEnd slots c = { c₀ with mem := c.mem } := by
  obtain ⟨hstart, -⟩ := procStart_pushes hbits hle h.room
  have hframe := procStart_top hbits hle h.room
  have hsum := bytes_procFrame slots c₀
  have hback : (c.setReg .sp (c.reg .bp).toNat).top = (procStart slots c₀).top := by
    refine (c.reg_setReg .sp _).trans ?_
    rw [h.bp, procStart_bp, Nat.mod_eq_of_lt (Cpu.top_lt _)]
  have hstack : Stacked c₀ (c.setReg .sp (c.reg .bp).toNat) (procFrame slots c₀) :=
    hstart.keep hback fun a hge hlt => h.frame a (by omega) hlt
  rw [procFrame_eq] at hstack
  obtain ⟨hpop, hmem, hregs, hsegs, -⟩ := hstack.popAll (by
    rw [List.mem_reverse]
    exact hsp)
  have hend : procEnd slots c = Slot.assign
      (((c.setReg .sp (c.reg .bp).toNat).popAll slots.reverse).drop (bits / 8))
      (Slot.value c₀ .flags) .flags := Stacked.pop hpop
  have htop : (procEnd slots c).top = c₀.top := by
    have hlast := (hpop.popped nofun).top
    rwa [bytes_nil, Nat.add_zero] at hlast
  have hregAll : (procEnd slots c).reg = c₀.reg := by
    funext r
    by_cases hr : r = .sp
    · rw [hr]
      exact BitVec.eq_of_toNat_eq htop
    · rw [hend]
      refine (Cpu.reg_drop_of_ne _ r _ hr).trans ((hregs r hr ?_).trans
        (c₀.reg_pushWith_of_ne r _ _ hr))
      rw [List.mem_reverse, Cpu.reg_setReg_of_ne _ _ _ _ hr]
      exact (hreg r hr).imp_right fun heq => heq.trans (c₀.reg_pushWith_of_ne r _ _ hr).symm
  have hsegAll : (procEnd slots c).seg = c₀.seg := by
    funext s
    rw [hend]
    refine (hsegs s ?_)
    rw [List.mem_reverse]
    exact hseg s
  have hflags : (procEnd slots c).flags = c₀.flags := by
    rw [hend]
    exact Slot.flags_assign (Or.inl rfl)
  have hmemAll : (procEnd slots c).mem = c.mem := by
    rw [hend]
    exact hmem
  calc procEnd slots c
      = ⟨(procEnd slots c).reg, (procEnd slots c).seg, (procEnd slots c).flags,
          (procEnd slots c).mem⟩ := rfl
    _ = { c₀ with mem := c.mem } := by rw [hregAll, hsegAll, hflags, hmemAll]

end InProc

/-- A call of a procedure that restores everything but the memory, and leaves the return
address alone. -/
theorem Cpu.call_eq {c₁ : Cpu bits} {m : Memory} {ret : BitVec bits}
    {f : Cpu bits → Option (Cpu bits)} (hbits : 8 ∣ bits) (hroom : bits / 8 ≤ c.top)
    (hpush : c.pushWith (bits / 8) ret.toNat = c₁) (hf : f c₁ = some { c₁ with mem := m })
    (hm : ∀ a, c₁.top ≤ a → a < c.top → m a = c₁.mem a) :
    c.call ret f = some { c with mem := m } := by
  have hret : ret.toNat < 256 ^ (bits / 8) := by
    rw [pow_bytes hbits]
    exact ret.isLt
  have hentry : Stacked c c₁ [(bits / 8, ret.toNat)] :=
    hpush ▸ (Stacked.refl c).pushWith (by rw [bytes_nil]; omega) hret
  have hback : Stacked c { c₁ with mem := m } [(bits / 8, ret.toNat)] := hentry.keep rfl hm
  have htop := hback.drop.top
  rw [bytes_nil, Nat.add_zero] at htop
  have hreg : (Cpu.drop { c₁ with mem := m } (bits / 8)).reg = c.reg := by
    funext r
    by_cases hr : r = .sp
    · rw [hr]
      exact BitVec.eq_of_toNat_eq htop
    · rw [Cpu.reg_drop_of_ne _ r _ hr, ← hpush]
      exact Cpu.reg_pushWith_of_ne c r ret.toNat (bits / 8) hr
  rw [Cpu.call, hpush, hf, Option.bind_some, if_pos hback.peek]
  refine congrArg some ?_
  calc Cpu.drop { c₁ with mem := m } (bits / 8)
      = ⟨(Cpu.drop { c₁ with mem := m } (bits / 8)).reg, c₁.seg, c₁.flags, m⟩ := rfl
    _ = { c with mem := m } := by
      rw [hreg, ← hpush]
      rfl

end Proc

end Lib.Flat
