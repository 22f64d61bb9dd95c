import Mathlib.Tactic.Basic
import Xeos.Lib.Real

/-!
# The start and the end of a boot procedure

`@XEOS.16.proc.start` and `@XEOS.16.proc.end` are one pair of macros with the
32 bit ones.  The start saves the flags, the general registers and the data
segments and makes a stack frame; the end goes back to the frame and restores
them.

`procEnd_spec` says what the pair is for.  Code between the two that keeps
`EBP`, `SS` and the saved bytes may do what it likes with the rest: after the
end the processor is as it was at the start, except for the memory and the
control registers.
-/

namespace Xeos.Boot

open Lib Lib.Real

/-- `pushad`, in the order of the registers. -/
def pushadSlots : List Slot :=
  [.reg .ax, .reg .cx, .reg .dx, .reg .bx, .skip .sp, .reg .bp, .reg .si, .reg .di]

def pushad (c : Cpu) : Cpu := c.pushAll pushadSlots c

def popad (c : Cpu) : Cpu := c.popAll pushadSlots.reverse

/-- `pusha`, in the order of the registers. -/
def pushaSlots : List Slot :=
  [.word .ax, .word .cx, .word .dx, .word .bx, .skipWord .sp, .word .bp, .word .si, .word .di]

def pusha (c : Cpu) : Cpu := c.pushAll pushaSlots c

def popa (c : Cpu) : Cpu := c.popAll pushaSlots.reverse

/-- `@XEOS.16.proc.start`, with the number of local variables. -/
def procStart (locals : Nat) (c : Cpu) : Cpu :=
  let c := c.push .flags
  let c := pushad c
  let c := c.push (.seg .ds)
  let c := c.push (.seg .es)
  let c := c.push (.seg .fs)
  let c := c.push (.seg .gs)
  let c := c.push (.reg .bp)
  let c := c.setReg .bp (c.reg .sp).toNat
  c.setReg .sp ((c.reg .sp).toNat + 2 ^ 32 - locals * 4)

/-- `@XEOS.16.proc.end`. -/
def procEnd (c : Cpu) : Cpu :=
  let c := c.setReg .sp (c.reg .bp).toNat
  let c := c.pop (.reg .bp)
  let c := c.pop (.seg .gs)
  let c := c.pop (.seg .fs)
  let c := c.pop (.seg .es)
  let c := c.pop (.seg .ds)
  let c := popad c
  c.pop .flags

/-! ## The frame -/

/-- The slots of the frame in the order in which they are pushed, after the flags. -/
def procSlots : List Slot :=
  pushadSlots ++ [.seg .ds, .seg .es, .seg .fs, .seg .gs, .reg .bp]

/-- The bytes that the start puts on the stack, the local variables apart. -/
def procBytes : Nat := 48

/-- The state that has the values of the frame: the one after the flags are pushed. -/
def procSaved (c : Cpu) : Cpu := c.push .flags

/-- The words of the frame from the lowest one up. -/
def procFrame (c : Cpu) : List (Nat × Nat) :=
  (procSlots.map (Slot.saved (procSaved c))).reverse ++ [Slot.saved c .flags]

theorem bytes_procFrame (c : Cpu) : bytes (procFrame c) = procBytes := rfl

/-- The pushes of the start. -/
def procPushed (c : Cpu) : Cpu := (procSaved c).pushAll procSlots (procSaved c)

theorem procStart_eq (locals : Nat) (c : Cpu) :
    procStart locals c
      = ((procPushed c).setReg .bp ((procPushed c).reg .sp).toNat).setReg .sp
          (((procPushed c).reg .sp).toNat + 2 ^ 32 - locals * 4) := by
  have hpush : (((((pushad (procSaved c)).push (.seg .ds)).push (.seg .es)).push
      (.seg .fs)).push (.seg .gs)).push (.reg .bp) = procPushed c := by
    rw [pushad, Cpu.push_pushAll, Cpu.push_pushAll, Cpu.push_pushAll, Cpu.push_pushAll,
      Cpu.push_pushAll]
    · simp only [procPushed, procSlots, List.append_assoc, List.cons_append, List.nil_append]
    · rw [Slot.value, Slot.value, Cpu.reg_pushAll_of_ne _ _ _ _ (by decide)]
    all_goals rw [Slot.value, Slot.value, Cpu.seg_pushAll]
  have hne : Reg.sp ≠ Reg.bp := nofun
  rw [← hpush]
  simp only [procStart, procSaved, Cpu.reg_setReg_of_ne _ _ _ _ hne]

/-- The pops of the end. -/
theorem procEnd_eq (c : Cpu) :
    procEnd c = (c.setReg .sp (c.reg .bp).toNat).popAll (procSlots.reverse ++ [Slot.flags]) := rfl

/-- The words of the frame as the end pops them. -/
theorem procFrame_eq (c : Cpu) :
    procFrame c = (procSlots.reverse ++ [Slot.flags]).map (Slot.saved (procSaved c)) ++ [] := by
  rw [List.append_nil, List.map_append, List.map_reverse]
  rfl

section Start

variable {c : Cpu} {locals : Nat}

theorem procPushed_stacked (hroom : procBytes ≤ c.word .sp) :
    Stacked c (procPushed c) (procFrame c) := by
  have hbytes : bytes (procSlots.map (Slot.saved (procSaved c))) + 4 = procBytes := rfl
  have hflags : Stacked c (procSaved c) [Slot.saved c .flags] :=
    (Stacked.refl c).push (by rw [procBytes] at hroom; simp [Slot.size]; omega) rfl
  apply hflags.pushAll
  rw [bytes_cons, bytes_nil]
  change _ + (4 + 0) ≤ _
  omega

/-- The stack pointer below the frame, which is the frame pointer of the body. -/
theorem procPushed_sp (hroom : procBytes ≤ c.word .sp) :
    ((procPushed c).reg .sp).toNat + procBytes = (c.reg .sp).toNat := by
  have hsp := (procPushed_stacked hroom).sp
  rwa [bytes_procFrame] at hsp

theorem reg_procPushed {r : Reg} (hr : r ≠ .sp) : (procPushed c).reg r = c.reg r := by
  rw [procPushed, Cpu.reg_pushAll_of_ne _ _ _ _ hr]
  exact Cpu.reg_pushWith_of_ne c r _ _ hr

theorem reg_procStart {r : Reg} (hsp : r ≠ .sp) (hbp : r ≠ .bp) :
    (procStart locals c).reg r = c.reg r := by
  rw [procStart_eq, Cpu.reg_setReg_of_ne _ _ _ _ hsp, Cpu.reg_setReg_of_ne _ _ _ _ hbp]
  exact reg_procPushed hsp

theorem seg_procStart : (procStart locals c).seg = c.seg := by
  rw [procStart_eq, Cpu.seg_setReg, Cpu.seg_setReg, procPushed, Cpu.seg_pushAll]
  rfl

theorem cr_procStart : (procStart locals c).cr = c.cr := by
  rw [procStart_eq, Cpu.cr_setReg, Cpu.cr_setReg, procPushed, Cpu.cr_pushAll]
  rfl

theorem flags_procStart : (procStart locals c).flags = c.flags := by
  rw [procStart_eq, Cpu.flags_setReg, Cpu.flags_setReg, procPushed, Cpu.flags_pushAll]
  rfl

/-- The stack pointer of the body is below the frame and the local variables. -/
theorem procStart_sp (hroom : procBytes + locals * 4 ≤ c.word .sp) :
    ((procStart locals c).reg .sp).toNat + (procBytes + locals * 4) = (c.reg .sp).toNat := by
  have hsp := procPushed_sp (c := c) (by omega)
  have hlt := (c.reg .sp).isLt
  have hword : c.word .sp ≤ (c.reg .sp).toNat := Nat.mod_le _ _
  rw [procStart_eq, Cpu.reg_setReg]
  omega

theorem procStart_bp (hroom : procBytes ≤ c.word .sp) :
    ((procStart locals c).reg .bp).toNat + procBytes = (c.reg .sp).toNat := by
  have hne : Reg.bp ≠ Reg.sp := nofun
  have hsp := procPushed_sp hroom
  have hlt := ((procPushed c).reg .sp).isLt
  rw [procStart_eq, Cpu.reg_setReg_of_ne _ _ _ _ hne, Cpu.reg_setReg, Nat.mod_eq_of_lt hlt]
  exact hsp

theorem procStart_top (hroom : procBytes + locals * 4 ≤ c.word .sp) :
    (procStart locals c).top + (procBytes + locals * 4) = c.top := by
  have hsp := procStart_sp hroom
  simp only [Cpu.top, Cpu.linear, Cpu.word, seg_procStart] at hsp hroom ⊢
  omega

/-- The start writes the stack only. -/
theorem mem_procStart (hroom : procBytes ≤ c.word .sp) {a : Nat}
    (ha : a + procBytes < c.top ∨ c.top ≤ a) : (procStart locals c).mem a = c.mem a := by
  have hbytes : bytes (procSlots.map (Slot.saved (procSaved c))) + 4 = procBytes := rfl
  have hsize : Slot.flags.size = 4 := rfl
  have hflags : Stacked c (procSaved c) [Slot.saved c .flags] :=
    (Stacked.refl c).push (by rw [hsize, bytes_nil]; omega) rfl
  have htop : (procSaved c).top + 4 = c.top := hflags.top
  rw [procStart_eq, Cpu.mem_setReg, Cpu.mem_setReg, procPushed,
    hflags.mem_pushAll (by rw [bytes_cons, bytes_nil]; change _ + (4 + 0) ≤ _; omega) (by omega)]
  exact (Stacked.refl c).mem_pushWith (by rw [hsize, bytes_nil]; omega) (by omega)

end Start

/-- What the end restores.  The body keeps `EBP`, `SS` and the frame. -/
theorem procEnd_spec {c c' : Cpu} {locals : Nat} (hroom : procBytes ≤ c.word .sp)
    (hbp : c'.reg .bp = (procStart locals c).reg .bp) (hss : c'.seg .ss = c.seg .ss)
    (hmem : ∀ a, c.top ≤ a + procBytes → a < c.top →
      c'.mem a = (procStart locals c).mem a) :
    procEnd c' = { c with cr := c'.cr, mem := c'.mem } := by
  have hpushed := procPushed_stacked hroom
  have hframe : Stacked c (c'.setReg .sp (c'.reg .bp).toNat) (procFrame c) := by
    have htop := hpushed.top
    rw [bytes_procFrame] at htop
    apply hpushed.keep
    · rw [Cpu.seg_setReg, hss, hpushed.ss]
    · apply BitVec.eq_of_toNat_eq
      have h1 := @procStart_bp c locals hroom
      have h2 := procPushed_sp hroom
      rw [Cpu.reg_setReg, hbp, Nat.mod_eq_of_lt (BitVec.isLt _)]
      omega
    · intro a hle hlt
      rw [Cpu.mem_setReg, hmem a (by omega) hlt, procStart_eq, Cpu.mem_setReg, Cpu.mem_setReg]
  rw [procFrame_eq] at hframe
  have hplain : ∀ t ∈ procSlots.reverse ++ [Slot.flags], t.Plain := by decide
  have hall : ∀ r : Reg, r ≠ .sp → Slot.reg r ∈ procSlots.reverse ++ [Slot.flags] := by
    intro r hr
    cases r with
    | sp => exact absurd rfl hr
    | _ => decide
  have hreg : (procEnd c').reg = c.reg := by
    funext r
    by_cases hr : r = .sp
    · subst hr
      have hsp := (hframe.popAll hplain).sp
      rw [bytes_nil, Nat.add_zero, ← procEnd_eq] at hsp
      exact BitVec.eq_of_toNat_eq hsp
    · rw [procEnd_eq, hframe.reg_popAll hplain hr (Or.inl (hall r hr))]
      exact Cpu.reg_pushWith_of_ne c r _ _ hr
  have hseg : (procEnd c').seg = c.seg := by
    funext s
    by_cases hs : s = .ss
    · subst hs
      exact (hframe.popAll hplain).ss
    · have hmem : Slot.seg s ∈ procSlots.reverse ++ [Slot.flags] := by
        cases s with
        | ss => exact absurd rfl hs
        | _ => decide
      rw [procEnd_eq, hframe.seg_popAll hplain (Or.inl hmem)]
      rfl
  have hflags : (procEnd c').flags = c.flags := by
    rw [procEnd_eq, hframe.flags_popAll hplain (Or.inl (by decide))]
    rfl
  have hcr : (procEnd c').cr = c'.cr := by
    rw [procEnd_eq, hframe.cr_popAll hplain, Cpu.cr_setReg]
  have hmem' : (procEnd c').mem = c'.mem := by
    rw [procEnd_eq, hframe.mem_popAll hplain, Cpu.mem_setReg]
  generalize procEnd c' = d at *
  cases d with
  | mk reg seg flags cr mem =>
    dsimp only at hreg hseg hflags hcr hmem'
    rw [hreg, hseg, hflags, hcr, hmem']

/-! ## The body -/

/-- A state between the start and the end, for the entry state `c₀`, with the
words `fs` on the stack below the local variables. -/
structure InProc (locals : Nat) (c₀ c : Cpu) (fs : List (Nat × Nat)) : Prop where
  room : procBytes + locals * 4 ≤ c₀.word .sp
  stack : Stacked (procStart locals c₀) c fs
  bp : c.reg .bp = (procStart locals c₀).reg .bp
  frame : ∀ a, c₀.top ≤ a + procBytes → a < c₀.top → c.mem a = (procStart locals c₀).mem a

namespace InProc

variable {locals : Nat} {c₀ c c' c₁ : Cpu} {fs : List (Nat × Nat)} {t : Slot}

theorem start (hroom : procBytes + locals * 4 ≤ c₀.word .sp) :
    InProc locals c₀ (procStart locals c₀) [] :=
  ⟨hroom, Stacked.refl _, rfl, fun _ _ _ => rfl⟩

theorem top (h : InProc locals c₀ c fs) :
    c.top + bytes fs + (procBytes + locals * 4) = c₀.top := by
  have hbody := h.stack.top
  have hstart := procStart_top h.room
  omega

theorem word_sp (h : InProc locals c₀ c fs) :
    c.word .sp + bytes fs + (procBytes + locals * 4) = c₀.word .sp := by
  have hbody := h.stack.word
  have hsp := procStart_sp h.room
  have hroom := h.room
  simp only [Cpu.word] at hbody hsp hroom ⊢
  omega

/-- Code that leaves the stack, `EBP` and `SS` alone. -/
theorem keep (h : InProc locals c₀ c fs) (hss : c'.seg .ss = c.seg .ss)
    (hsp : c'.reg .sp = c.reg .sp) (hbp : c'.reg .bp = c.reg .bp)
    (hmem : ∀ a, c.top ≤ a → a < c₀.top → c'.mem a = c.mem a) : InProc locals c₀ c' fs := by
  have htop := h.top
  have hstart := procStart_top h.room
  refine ⟨h.room, h.stack.keep hss hsp (fun a hle hlt => hmem a hle (by omega)),
    hbp.trans h.bp, ?_⟩
  intro a hle hlt
  rw [hmem a (by omega) hlt, h.frame a hle hlt]

theorem push_room (h : InProc locals c₀ c fs) {n : Nat} (hroom : n ≤ c.word .sp) :
    n + bytes fs ≤ (procStart locals c₀).word .sp := by
  have hbody := h.stack.word
  omega

theorem push (h : InProc locals c₀ c fs) {w : Cpu} (hroom : t.size ≤ c.word .sp)
    (hv : t.value c = t.value w) : InProc locals c₀ (c.push t) (t.saved w :: fs) := by
  have hne : Reg.bp ≠ Reg.sp := nofun
  have htop := h.top
  refine ⟨h.room, h.stack.push (h.push_room hroom) hv, ?_, ?_⟩
  · rw [Cpu.push, Cpu.reg_pushWith_of_ne _ _ _ _ hne, h.bp]
  · intro a hle hlt
    rw [h.stack.mem_push (h.push_room hroom) (by omega), h.frame a hle hlt]

/-- The slot is not one of the registers that the body keeps. -/
def Free (t : Slot) : Prop := t.Plain ∧ t ≠ .reg .bp ∧ t ≠ .word .bp

instance (t : Slot) : Decidable (Free t) := inferInstanceAs (Decidable (_ ∧ _ ∧ _))

theorem popped (h : InProc locals c₀ c (t.saved c₁ :: fs)) (ht : Free t) :
    InProc locals c₀ (c.pop t) fs := by
  have hne : Reg.bp ≠ Reg.sp := nofun
  refine ⟨h.room, h.stack.popped ht.1, ?_, ?_⟩
  · obtain ⟨-, hreg, hword⟩ := ht
    rw [h.stack.pop, ← h.bp, ← Cpu.reg_drop_of_ne c .bp t.size hne]
    cases t with
    | reg r => exact Cpu.reg_setReg_of_ne _ _ _ _ (fun heq => hreg (heq ▸ rfl))
    | word r => exact Cpu.reg_setWord_of_ne _ _ _ _ (fun heq => hword (heq ▸ rfl))
    | seg s => rfl
    | flags => rfl
    | skip r => rfl
    | skipWord r => rfl
  · intro a hle hlt
    rw [h.stack.pop, Slot.mem_assign, Cpu.mem_drop]
    exact h.frame a hle hlt

theorem mem_push (h : InProc locals c₀ c fs) (hroom : t.size ≤ c.word .sp) {a : Nat}
    (ha : a + t.size < c.top ∨ c.top ≤ a) : (c.push t).mem a = c.mem a :=
  h.stack.mem_push (h.push_room hroom) ha

/-- Calling a procedure that leaves the stack as it was at its entry, and `EBP`. -/
theorem call (h : InProc locals c₀ c fs) (hroom : 2 ≤ c.word .sp) {ret : BitVec 16}
    {f : Cpu → Cpu} (hss : (f (c.pushWith 2 ret.toNat)).seg .ss = c.seg .ss)
    (hsp : (f (c.pushWith 2 ret.toNat)).reg .sp = (c.pushWith 2 ret.toNat).reg .sp)
    (hbp : (f (c.pushWith 2 ret.toNat)).reg .bp = c.reg .bp)
    (hmem : ∀ a, (c.pushWith 2 ret.toNat).top ≤ a → a < c₀.top →
      (f (c.pushWith 2 ret.toNat)).mem a = (c.pushWith 2 ret.toNat).mem a) :
    InProc locals c₀ (c.call ret f) fs := by
  have hne : Reg.bp ≠ Reg.sp := nofun
  have htop := h.top
  have hstart := procStart_top h.room
  have hpush := h.stack.pushWith (h.push_room hroom) ret.isLt
  have hbelow := hpush.top
  have hhere := h.stack.top
  rw [bytes_cons] at hbelow
  refine ⟨h.room, h.stack.call (h.push_room hroom) hss hsp
    (fun a hle hlt => hmem a hle (by omega)), ?_, ?_⟩
  · rw [Cpu.call, Cpu.reg_drop_of_ne _ _ _ hne, hbp, h.bp]
  · intro a hle hlt
    rw [Cpu.call, Cpu.mem_drop, hmem a (by omega) hlt,
      h.stack.mem_pushWith (h.push_room hroom) (by omega), h.frame a hle hlt]

/-- The end of the procedure, from any state of its body. -/
theorem finish (h : InProc locals c₀ c fs) : procEnd c = { c₀ with cr := c.cr, mem := c.mem } := by
  have hroom := h.room
  apply procEnd_spec (by omega) h.bp
  · rw [h.stack.ss, seg_procStart]
  · exact h.frame

end InProc

end Xeos.Boot
