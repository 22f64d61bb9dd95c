import Xeos.Boot.Proc
import Xeos.Lib.Loop

/-!
# Finding a video mode

`XEOS.16.vesa.findVESAMode` asks the BIOS for its list of video modes and then, one mode
after the other, for the description of each, until one is what the caller wants.

The list pointer advances after the check of `AH`.  A mode whose description the BIOS
refuses is asked for again, so the search comes past such a mode only when it has ended
before: `findVESAMode_first_iff`.
-/

namespace Xeos.Boot

open Lib Lib.Real

/-! ## The routine -/

/-- `AH` -/
def ah (c : Cpu) : Nat := (c.reg .ax).toNat / 2 ^ 8 % 2 ^ 8

/-- The offset of the local variable number `i` in the stack segment. -/
def varOffset (c : Cpu) (i : Nat) : Nat := c.word .bp + 2 ^ 16 - 4 * i

/-- `@XEOS.16.proc.var.i`, as a word. -/
def getVar (c : Cpu) (i : Nat) : Nat := c.load 2 .ss (varOffset c i)

/-- `@XEOS.16.proc.var.set i, r` -/
def setVar (i : Nat) (r : Reg) (c : Cpu) : Cpu :=
  let c := c.store 4 .ss (varOffset c i) 0
  c.store 2 .ss (varOffset c i) (c.word r)

section Routine

variable {B : Type} (int10 : B → Cpu → B × Cpu)
variable (modeVar : Nat)

/-- Up to the call for the VBE information block.  The variable `$XEOS.16.vesa.mode` is at
`modeVar`. -/
def vesaStart (c : Cpu) : Cpu :=
  let c := procStart 6 c
  let c := setVar 1 .ax c
  let c := setVar 2 .bx c
  let c := setVar 3 .cx c
  let c := setVar 4 .dx c
  let c := setVar 5 .di c
  let c := setVar 6 .si c
  c.store 2 .ds modeVar 0

def infoRequest (c : Cpu) : Cpu :=
  let c := c.push (.seg .es)
  let c := c.setWord .di (getVar c 5)
  c.setWord .ax 0x4F00

/-- From `.loop` to the number of the mode in `DX`. -/
def fetchMode (c : Cpu) : Cpu :=
  let c := c.push (.seg .es)
  let c := c.setWord .di (getVar c 5)
  let c := c.setWord .ax (c.load 2 .ds (c.word .di + 0x10))
  let c := c.setSeg .es (c.word .ax)
  let c := c.setWord .dx (c.load 2 .es (c.word .si))
  c.pop (.seg .es)

def modeRequest (c : Cpu) : Cpu :=
  let c := c.setWord .cx (c.word .dx)
  let c := c.setWord .di (getVar c 6)
  c.setWord .ax 0x4F01

/-- `.check_res`, and whether the mode has the size and the depth. -/
def checkRes (c : Cpu) : Cpu × Bool :=
  let c := c.setWord .ax (c.load 2 .ds (c.word .di + 0x12))
  if c.word .ax ≠ getVar c 1 then (c, false)
  else
    let c := c.setWord .ax (c.load 2 .ds (c.word .di + 0x14))
    if c.word .ax ≠ getVar c 2 then (c, false)
    else
      let c := c.setWord .ax 0
      let c := c.setLow .ax (c.load 1 .ds (c.word .di + 0x19))
      (c, c.word .ax == getVar c 3)

/-- The checks of the attributes in front of `.check_res`. -/
def checkMode (c : Cpu) : Cpu × Bool :=
  let c := c.setWord .di (getVar c 6)
  let c := c.setWord .ax (c.load 2 .ds (c.word .di))
  if ¬ (c.word .ax).testBit 0 then (c, false)
  else if ¬ (c.word .ax).testBit 4 then (c, false)
  else
    let c := c.setWord .bx (getVar c 4)
    if c.word .bx ≠ 0 ∧ ¬ (c.word .ax).testBit 7 then (c, false)
    else checkRes c

/-- `.loop` -/
def vesaLoop (s : B × Cpu) : (B × Cpu) ⊕ (B × Cpu) :=
  let c := fetchMode s.2
  if c.word .dx = 0xFFFF then .inr (s.1, c)
  else
    let (b, c) := int10 s.1 (modeRequest c)
    if c.low .ax ≠ 0x4F then .inr (b, c)
    else if ah c ≠ 0 then .inl (b, c)
    else
      let (c, valid) := checkMode (c.setWord .si (c.word .si + 2))
      if valid then .inr (b, c.store 2 .ds modeVar (c.word .dx)) else .inl (b, c)

/-- `.ret` -/
def vesaRet (c : Cpu) : Cpu :=
  let c := procEnd c
  c.setWord .ax (c.load 2 .ds modeVar)

/-- `XEOS.16.vesa.findVESAMode`, with a bound on the rounds of the loop. -/
def findVESAMode (fuel : Nat) (s : B × Cpu) : Option (B × Cpu) :=
  let (b, c) := int10 s.1 (infoRequest (vesaStart modeVar s.2))
  let c := c.pop (.seg .es)
  if c.word .ax ≠ 0x004F then some (b, vesaRet modeVar c)
  else
    let c := c.setWord .si (c.load 2 .ds (c.word .di + 0x0E))
    (runFor (vesaLoop int10 modeVar) fuel (b, c)).map fun t => (t.1, vesaRet modeVar t.2)

end Routine

/-! ## The BIOS -/

/-- The answer of function 4F01h for a mode: `AH` and the mode info block. -/
structure ModeAnswer where
  ah : Nat
  info : Memory

/-- What a call keeps: all registers but `AX`, and the memory but for the `n` bytes at `ES:DI`,
the BIOS's own and `depth` bytes of the stack. -/
structure VbeReply (own : Set Nat) (depth n : Nat) (c c' : Cpu) : Prop where
  reg : ∀ r, r ≠ .ax → c'.reg r = c.reg r
  seg : c'.seg = c.seg
  mem : ∀ a, a ∉ own → a + depth < c.top ∨ c.top ≤ a →
    a < c.linear .es (c.word .di) ∨ c.linear .es (c.word .di) + n ≤ a → c'.mem a = c.mem a

/-- The list of modes at `seg:off`, ended by `0xFFFF`. -/
def ModesAt (modes : List Nat) (m : Memory) (seg off : Nat) : Prop :=
  ∀ i, i ≤ modes.length → m.load (16 * seg + (off + 2 * i) % 2 ^ 16) 2 = (modes[i]?).getD 0xFFFF

/-- A BIOS with the list of modes at `seg:off`, for an info block at the address `block`, and
with the answer for each mode. -/
structure Vbe {B : Type} (int10 : B → Cpu → B × Cpu) (modes : List Nat) (answer : Nat → ModeAnswer)
    (seg off block : Nat) (own : Set Nat) (depth : Nat) : Prop where
  numbers : ∀ m ∈ modes, m < 0xFFFF
  info : ∀ b c, c.word .ax = 0x4F00 → c.linear .es (c.word .di) = block →
    VbeReply own depth 0x200 c (int10 b c).2 ∧ (int10 b c).2.word .ax = 0x004F ∧
      (int10 b c).2.mem.load (block + 0x0E) 2 = off ∧
      (int10 b c).2.mem.load (block + 0x10) 2 = seg ∧ ModesAt modes (int10 b c).2.mem seg off
  mode : ∀ b c, c.word .ax = 0x4F01 →
    VbeReply own depth 0x100 c (int10 b c).2 ∧ (int10 b c).2.low .ax = 0x4F ∧
      ah (int10 b c).2 = (answer (c.word .cx)).ah ∧
      ∀ j, j < 0x100 → (int10 b c).2.mem (c.linear .es (c.word .di) + j) = (answer (c.word .cx)).info j

/-! ## What the search is for -/

/-- The mode that the caller wants. -/
structure Wanted where
  width : Nat
  height : Nat
  depth : Nat
  lfb : Bool

/-- The arguments in `AX`, `BX`, `CX` and `DX`. -/
def wanted (c : Cpu) : Wanted where
  width := c.word .ax
  height := c.word .bx
  depth := c.word .cx
  lfb := c.word .dx ≠ 0

/-- The block describes what is wanted. -/
def Wanted.Describes (w : Wanted) (info : Memory) : Prop :=
  (info.load 0 2).testBit 0 = true ∧ (info.load 0 2).testBit 4 = true ∧
    (w.lfb = true → (info.load 0 2).testBit 7 = true) ∧ info.load 0x12 2 = w.width ∧
    info.load 0x14 2 = w.height ∧ info.load 0x19 1 = w.depth

instance (w : Wanted) (info : Memory) : Decidable (w.Describes info) :=
  inferInstanceAs (Decidable (_ ∧ _ ∧ _ ∧ _ ∧ _ ∧ _))

def Wanted.accepts (w : Wanted) (a : ModeAnswer) : Bool := decide (a.ah = 0 ∧ w.Describes a.info)

/-- The first mode of the list that is what the caller wants, or zero. -/
def firstMode (w : Wanted) (answer : Nat → ModeAnswer) (modes : List Nat) : Nat :=
  (modes.find? fun m => w.accepts (answer m)).getD 0

/-- No mode is refused before the first one that is wanted. -/
def NoneRefused (w : Wanted) (answer : Nat → ModeAnswer) (modes : List Nat) : Prop :=
  ∀ m ∈ modes.takeWhile (fun m => !w.accepts (answer m)), (answer m).ah = 0

section Modes

variable {w : Wanted} {answer : Nat → ModeAnswer} {m : Nat} {modes : List Nat}

theorem firstMode_cons_of_accepts (h : w.accepts (answer m) = true) :
    firstMode w answer (m :: modes) = m := by
  unfold firstMode
  rw [List.find?_cons, h]
  rfl

theorem firstMode_cons_of_not (h : w.accepts (answer m) = false) :
    firstMode w answer (m :: modes) = firstMode w answer modes := by
  unfold firstMode
  rw [List.find?_cons, h]

theorem noneRefused_cons_of_accepts (h : w.accepts (answer m) = true) :
    NoneRefused w answer (m :: modes) := by
  rw [NoneRefused, List.takeWhile_cons_of_neg (by simp [h])]
  exact fun m hm => absurd hm List.not_mem_nil

theorem noneRefused_cons (h : w.accepts (answer m) = false) :
    NoneRefused w answer (m :: modes) ↔ (answer m).ah = 0 ∧ NoneRefused w answer modes := by
  rw [NoneRefused, List.takeWhile_cons_of_pos (by simp [h]), List.forall_mem_cons, NoneRefused]

end Modes

/-- The bytes of stack of the routine, without what the BIOS uses. -/
def vesaStack : Nat := procBytes + 6 * 4

/-- The bytes that may change between the start and the end, those of the buffers apart. -/
def Loose (own : Set Nat) (depth : Nat) (c : Cpu) (a : Nat) : Prop :=
  a ∈ own ∨ (c.top ≤ a + (vesaStack + 2 + depth) ∧ a + vesaStack < c.top)

def infoBlock (c : Cpu) : Nat := c.linear .es (c.word .di)

def modeBlock (c : Cpu) : Nat := c.linear .es (c.word .si)

/-- The byte is in the frame or in a local variable. -/
def Framed (c : Cpu) (a : Nat) : Prop := c.top ≤ a + vesaStack ∧ a < c.top

/-- What the caller sees to: room on the stack, two buffers in `DS`, and the stack, the buffers
and the variable apart.  The list of the BIOS is apart from the stack and the mode info block. -/
structure VesaReady (modeVar : Nat) (modes : List Nat) (seg off : Nat) (own : Set Nat) (depth : Nat)
    (c : Cpu) : Prop where
  room : vesaStack + 2 + depth ≤ c.word .sp
  ds : c.seg .ds = c.seg .es
  info_fits : c.word .di + 0x200 ≤ 2 ^ 16
  mode_fits : c.word .si + 0x100 ≤ 2 ^ 16
  own_stack : ∀ a ∈ own, a + (vesaStack + 2) < c.top ∨ c.top ≤ a
  info_frame : ∀ j, j < 0x200 → ¬ Framed c (infoBlock c + j)
  mode_frame : ∀ j, j < 0x100 → ¬ Framed c (modeBlock c + j)
  result_fixed : ∀ j, j < 2 → ¬ Loose own depth c (c.linear .ds modeVar + j) ∧
    ¬ Framed c (c.linear .ds modeVar + j)
  result_info : ∀ i j, i < 2 → j < 0x200 → c.linear .ds modeVar + i ≠ infoBlock c + j
  result_mode : ∀ i j, i < 2 → j < 0x100 → c.linear .ds modeVar + i ≠ modeBlock c + j
  info_fixed : ∀ j, j < 0x200 → ¬ Loose own depth c (infoBlock c + j)
  info_mode : ∀ i j, i < 0x200 → j < 0x100 → infoBlock c + i ≠ modeBlock c + j
  list_fixed : ∀ i j, i ≤ modes.length → j < 2 →
    ¬ Loose own depth c (16 * seg + (off + 2 * i) % 2 ^ 16 + j)
  list_mode : ∀ i j k, i ≤ modes.length → j < 2 → k < 0x100 →
    16 * seg + (off + 2 * i) % 2 ^ 16 + j ≠ modeBlock c + k

/-- The routine returns the first mode that is what the caller wants, and keeps the other
registers. -/
def FindsFirst {B : Type} (int10 : B → Cpu → B × Cpu) (modeVar : Nat) (modes : List Nat)
    (answer : Nat → ModeAnswer) (s : B × Cpu) : Prop :=
  ∃ fuel r, findVESAMode int10 modeVar fuel s = some r ∧
    r.2.word .ax = firstMode (wanted s.2) answer modes ∧
    (∀ q, q ≠ .ax → r.2.reg q = s.2.reg q) ∧ r.2.seg = s.2.seg

/-! ## The local variables -/

/-- The register that is saved in the local variable number `i`. -/
def varReg : Nat → Reg
  | 1 => .ax
  | 2 => .bx
  | 3 => .cx
  | 4 => .dx
  | 5 => .di
  | _ => .si

theorem varReg_ne (i : Nat) : varReg i ≠ .sp ∧ varReg i ≠ .bp := by
  unfold varReg
  split <;> decide

/-- The first `k` local variables are set, and nothing else has changed. -/
structure VarsSet (c₀ c : Cpu) (k : Nat) : Prop where
  reg : c.reg = (procStart 6 c₀).reg
  seg : c.seg = c₀.seg
  vars : ∀ i, 1 ≤ i → i ≤ k →
    c.mem.load (c₀.top - (procBytes + 4 * i)) 2 = c₀.word (varReg i)
  mem : ∀ a, a + (procBytes + 4 * k) < c₀.top ∨ c₀.top ≤ a + procBytes →
    c.mem a = (procStart 6 c₀).mem a

section Vars

variable {c₀ c : Cpu} {k : Nat}

/-- Where a local variable is. -/
theorem linear_varOffset (hroom : vesaStack ≤ c₀.word .sp) (hss : c.seg .ss = c₀.seg .ss)
    (hbp : c.reg .bp = (procStart 6 c₀).reg .bp) {i : Nat} (hi : i ≤ 6) :
    c.linear .ss (varOffset c i) + (procBytes + 4 * i) = c₀.top := by
  have hstack : vesaStack = procBytes + 24 := rfl
  have hstart := @procStart_bp c₀ 6 (by omega)
  have hsize : procBytes = 48 := rfl
  have hlt := c₀.word_lt .sp
  simp only [Cpu.linear, Cpu.top, varOffset, hss, Cpu.word, hbp] at hroom hlt ⊢
  omega

theorem VarsSet.start (c₀ : Cpu) : VarsSet c₀ (procStart 6 c₀) 0 where
  reg := rfl
  seg := seg_procStart
  vars i h1 h0 := by omega
  mem _ _ := rfl

theorem VarsSet.setVar (hroom : vesaStack ≤ c₀.word .sp) (h : VarsSet c₀ c k) (hk : k < 6) :
    VarsSet c₀ (setVar (k + 1) (varReg (k + 1)) c) (k + 1) := by
  have haddr := linear_varOffset hroom (congrFun h.seg .ss) (congrFun h.reg .bp)
    (show k + 1 ≤ 6 by omega)
  have hsize : procBytes = 48 := rfl
  obtain ⟨A, hA⟩ : ∃ A, A = c.linear .ss (varOffset c (k + 1)) := ⟨_, rfl⟩
  have hmem : (Xeos.Boot.setVar (k + 1) (varReg (k + 1)) c).mem
      = (c.mem.store A 4 0).store A 2 (c.word (varReg (k + 1))) := by
    rw [hA]
    rfl
  have hword : c.word (varReg (k + 1)) = c₀.word (varReg (k + 1)) := by
    obtain ⟨hsp, hbp⟩ := varReg_ne (k + 1)
    rw [Cpu.word, h.reg, reg_procStart hsp hbp, Cpu.word]
  rw [← hA] at haddr
  refine ⟨h.reg, h.seg, fun i h1 hi => ?_, fun a ha => ?_⟩
  · rw [hmem]
    rcases Nat.lt_or_ge i (k + 1) with hlt | hge
    · rw [← h.vars i h1 (by omega)]
      apply Memory.load_congr
      intro j hj
      rw [Memory.store_of_not_mem _ _ (by omega), Memory.store_of_not_mem _ _ (by omega)]
    · have heq : i = k + 1 := by omega
      subst heq
      have hlt := c₀.word_lt (varReg (k + 1))
      rw [show c₀.top - (procBytes + 4 * (k + 1)) = A by omega, Memory.load_store, hword]
      exact Nat.mod_eq_of_lt hlt
  · rw [hmem, Memory.store_of_not_mem _ _ (by omega), Memory.store_of_not_mem _ _ (by omega)]
    exact h.mem a (by omega)

end Vars

/-! ## The body -/

/-- A state of the body: the frame, the local variables and the segments are in place. -/
structure VesaBody (c₀ c : Cpu) : Prop extends InProc 6 c₀ c [] where
  seg : c.seg = c₀.seg
  vars : ∀ i, 1 ≤ i → i ≤ 6 →
    c.mem.load (c₀.top - (procBytes + 4 * i)) 2 = c₀.word (varReg i)

section Body

variable {c₀ c c' : Cpu} {modeVar depth : Nat} {own : Set Nat}

/-- The local variables below words that the body has pushed. -/
theorem getVar_eq (hroom : vesaStack ≤ c₀.word .sp) (hseg : c.seg = c₀.seg)
    (hbp : c.reg .bp = (procStart 6 c₀).reg .bp) {i : Nat} (hi : i ≤ 6) :
    getVar c i = c.mem.load (c₀.top - (procBytes + 4 * i)) 2 := by
  have haddr := linear_varOffset hroom (congrFun hseg .ss) hbp hi
  rw [getVar, Cpu.load]
  congr 1
  omega

theorem VesaBody.getVar (h : VesaBody c₀ c) {i : Nat} (h1 : 1 ≤ i) (hi : i ≤ 6) :
    getVar c i = c₀.word (varReg i) := by
  rw [getVar_eq h.room h.seg h.bp hi]
  exact h.vars i h1 hi

theorem VesaBody.top (h : VesaBody c₀ c) : c.top + vesaStack = c₀.top := by
  have htop := h.toInProc.top
  have hstack : vesaStack = procBytes + 6 * 4 := rfl
  rw [bytes_nil] at htop
  omega

/-- Code that keeps the frame and the local variables. -/
theorem VesaBody.keep (h : VesaBody c₀ c) (hseg : c'.seg = c.seg) (hsp : c'.reg .sp = c.reg .sp)
    (hbp : c'.reg .bp = c.reg .bp) (hmem : ∀ a, Framed c₀ a → c'.mem a = c.mem a) :
    VesaBody c₀ c' := by
  have htop := h.top
  have hstack : vesaStack = procBytes + 6 * 4 := rfl
  refine ⟨h.toInProc.keep (congrFun hseg .ss) hsp hbp fun a hle hlt => ?_, hseg.trans h.seg,
    fun i h1 hi => ?_⟩
  · exact hmem a ⟨by omega, hlt⟩
  · rw [← h.vars i h1 hi]
    have hroom := h.room
    have hle : c₀.word .sp ≤ c₀.top := by
      have hlt := c₀.word_lt .sp
      rw [Cpu.top, Cpu.linear, Nat.mod_eq_of_lt hlt]
      omega
    apply Memory.load_congr
    intro j hj
    exact hmem _ ⟨by omega, by omega⟩

/-- The body starts with the local variables set and no mode found. -/
theorem vesaStart_body {modes : List Nat} {seg off : Nat}
    (hready : VesaReady modeVar modes seg off own depth c₀) :
    VesaBody c₀ (vesaStart modeVar c₀) ∧ (vesaStart modeVar c₀).reg = (procStart 6 c₀).reg ∧
      (vesaStart modeVar c₀).mem.load (c₀.linear .ds modeVar) 2 = 0 := by
  have hroom : vesaStack ≤ c₀.word .sp := by
    have h := hready.room
    omega
  have hstack : vesaStack = procBytes + 6 * 4 := rfl
  obtain ⟨d, hd, hset⟩ : ∃ d, vesaStart modeVar c₀ = d.store 2 .ds modeVar 0 ∧ VarsSet c₀ d 6 :=
    ⟨_, rfl, ((((((VarsSet.start c₀).setVar hroom (by decide)).setVar hroom (by decide)).setVar hroom
      (by decide)).setVar hroom (by decide)).setVar hroom (by decide)).setVar hroom (by decide)⟩
  have hlinear : d.linear .ds modeVar = c₀.linear .ds modeVar := by
    rw [Cpu.linear, hset.seg, Cpu.linear]
  have hframe : ∀ a, Framed c₀ a → (vesaStart modeVar c₀).mem a = d.mem a := by
    intro a ha
    rw [hd, Cpu.mem_store, hlinear]
    apply Memory.store_of_not_mem
    by_contra hin
    have hapart := (hready.result_fixed (a - c₀.linear .ds modeVar) (by omega)).2
    rw [Nat.add_sub_cancel' (by omega)] at hapart
    exact hapart ha
  have hseg : (vesaStart modeVar c₀).seg = c₀.seg := by
    rw [hd, Cpu.seg_store, hset.seg]
  have hreg : (vesaStart modeVar c₀).reg = (procStart 6 c₀).reg := by
    rw [hd, Cpu.reg_store, hset.reg]
  refine ⟨⟨⟨hroom, ⟨?_, Nat.zero_le _, ?_, trivial⟩, ?_, fun a hle hlt => ?_⟩, hseg, fun i h1 hi => ?_⟩,
    hreg, ?_⟩
  · rw [hseg, seg_procStart]
  · rw [hreg, bytes_nil, Nat.add_zero]
  · rw [hreg]
  · rw [hframe a ⟨by omega, hlt⟩]
    exact hset.mem a (by omega)
  · rw [← hset.vars i h1 hi]
    have hle : c₀.word .sp ≤ c₀.top := by
      have hlt := c₀.word_lt .sp
      rw [Cpu.top, Cpu.linear, Nat.mod_eq_of_lt hlt]
      omega
    apply Memory.load_congr
    intro j hj
    exact hframe _ ⟨by omega, by omega⟩
  · rw [hd, Cpu.mem_store, hlinear, Memory.load_store]
    rfl

/-! ## One mode -/

/-- The bytes that stay as they are in a round: neither loose nor in the mode info block. -/
def Fixed (own : Set Nat) (depth : Nat) (c : Cpu) (a : Nat) : Prop :=
  ¬ Loose own depth c a ∧ (a < modeBlock c ∨ modeBlock c + 0x100 ≤ a)

/-- A push of the body is in the loose bytes. -/
theorem VesaBody.push_mem (h : VesaBody c₀ c) {t : Slot} (ht : t.size = 2)
    (hroom : vesaStack + 2 + depth ≤ c₀.word .sp) {a : Nat} (ha : ¬ Loose own depth c₀ a) :
    (c.push t).mem a = c.mem a := by
  have htop := h.top
  have hsp := h.toInProc.word_sp
  have hstack : vesaStack = procBytes + 6 * 4 := rfl
  rw [bytes_nil] at hsp
  rw [Loose, not_or] at ha
  apply h.toInProc.mem_push
  · omega
  · omega

theorem VesaBody.push_frame (h : VesaBody c₀ c) (hroom : vesaStack + 2 + depth ≤ c₀.word .sp) {a : Nat}
    (ha : Framed c₀ a) : (c.push (.seg .es)).mem a = c.mem a := by
  have hsize : (Slot.seg .es).size = 2 := rfl
  have hstack : vesaStack = procBytes + 6 * 4 := rfl
  have htop := h.top
  have hsp := h.toInProc.word_sp
  have hle := ha.1
  rw [bytes_nil] at hsp
  exact h.toInProc.mem_push (by rw [hsize]; omega) (Or.inr (by omega))

/-- A local variable below the saved `ES`. -/
theorem VesaBody.getVar_push (h : VesaBody c₀ c) (hroom : vesaStack + 2 + depth ≤ c₀.word .sp) {i : Nat}
    (h1 : 1 ≤ i) (hi : i ≤ 6) : Xeos.Boot.getVar (c.push (.seg .es)) i = c₀.word (varReg i) := by
  have hstack : vesaStack = procBytes + 6 * 4 := rfl
  have htop := h.top
  have hbp : (c.push (.seg .es)).reg .bp = c.reg .bp :=
    Cpu.reg_pushWith_of_ne _ _ _ _ (by decide)
  have hseg : (c.push (.seg .es)).seg = c₀.seg := h.seg
  rw [getVar_eq h.room hseg (hbp.trans h.bp) hi, ← h.vars i h1 hi]
  apply Memory.load_congr
  intro j hj
  exact h.push_frame hroom ⟨by omega, by omega⟩

/-- A call of the BIOS from the body keeps what is neither loose nor in the buffer. -/
theorem VbeReply.mem_of_body {n : Nat} (h : VbeReply own depth n c c')
    (htop : c.top + vesaStack = c₀.top ∨ c.top + (vesaStack + 2) = c₀.top) {a : Nat}
    (ha : ¬ Loose own depth c₀ a)
    (hbuffer : a < c.linear .es (c.word .di) ∨ c.linear .es (c.word .di) + n ≤ a) :
    c'.mem a = c.mem a := by
  rw [Loose, not_or] at ha
  exact h.mem a ha.1 (by omega) hbuffer

/-- `fetchMode` up to the `pop`: only the registers that it writes and `ES` differ from the
state after the `push`. -/
theorem fetchMode_eq (c : Cpu) : ∃ di ax es dx,
    fetchMode c = (((((c.push (.seg .es)).setWord .di di).setWord .ax ax).setSeg .es es).setWord .dx
      dx).pop (.seg .es) ∧
    di = getVar (c.push (.seg .es)) 5 ∧
    ax = (c.push (.seg .es)).load 2 .ds (di % 2 ^ 16 + 0x10) ∧ es = ax % 2 ^ 16 ∧
    dx = (c.push (.seg .es)).mem.load (16 * (es % 2 ^ 16) + (c.push (.seg .es)).word .si % 2 ^ 16) 2 := by
  have hsa : Reg.si ≠ Reg.ax := nofun
  have hsd : Reg.si ≠ Reg.di := nofun
  refine ⟨_, _, _, _, rfl, rfl, ?_, ?_, ?_⟩
  · rw [Cpu.word_setWord, Cpu.load, Cpu.linear, Cpu.mem_setWord, Cpu.seg_setWord, Cpu.load,
      Cpu.linear]
  · exact Cpu.word_setWord _ _ _
  · rw [Cpu.load, Cpu.linear, Cpu.seg_setSeg, Cpu.word_setSeg, Cpu.word_setWord_of_ne _ _ _ _ hsa,
      Cpu.word_setWord_of_ne _ _ _ _ hsd, Cpu.mem_setSeg, Cpu.mem_setWord, Cpu.mem_setWord]

/-- The next mode of the list is in `DX`, and `ES` is back. -/
theorem fetchMode_spec (h : VesaBody c₀ c) (hroom : vesaStack + 2 + depth ≤ c₀.word .sp)
    {seg si : Nat} (hds : c₀.seg .ds = c₀.seg .es) (hfits : c₀.word .di + 0x200 ≤ 2 ^ 16)
    (hinfo : ∀ j, j < 0x200 → ¬ Loose own depth c₀ (infoBlock c₀ + j))
    (hseg : c.mem.load (infoBlock c₀ + 0x10) 2 = seg) (hsi : c.word .si = si)
    (hlist : ∀ j, j < 2 → ¬ Loose own depth c₀ (16 * seg + si + j)) :
    VesaBody c₀ (fetchMode c) ∧ (fetchMode c).reg .si = c.reg .si ∧
      (fetchMode c).word .dx = c.mem.load (16 * seg + si) 2 ∧
      ∀ a, ¬ Loose own depth c₀ a → (fetchMode c).mem a = c.mem a := by
  have hsize : (Slot.seg .es).size = 2 := rfl
  have hstack : vesaStack = procBytes + 6 * 4 := rfl
  have hsp := h.toInProc.word_sp
  have htop := h.top
  rw [bytes_nil] at hsp
  have hpush := h.toInProc.push (t := .seg .es) (w := c) (by rw [hsize]; omega) rfl
  have hmem : ∀ a, ¬ Loose own depth c₀ a → (c.push (.seg .es)).mem a = c.mem a :=
    fun a ha => h.push_mem hsize hroom ha
  have hreg : ∀ r, r ≠ .sp → (c.push (.seg .es)).reg r = c.reg r :=
    fun r hr => Cpu.reg_pushWith_of_ne _ _ _ _ hr
  have hseg' : (c.push (.seg .es)).seg = c₀.seg := h.seg
  obtain ⟨di, ax, es, dx, hdef, hdi, hax, hes, hdx⟩ := fetchMode_eq c
  -- the values of the registers
  have hdi' : di = c₀.word .di := by
    rw [hdi]
    exact h.getVar_push hroom (by decide) (by decide)
  have hax' : ax = seg := by
    rw [hax, hdi', Cpu.load, Cpu.linear, hseg', hds, ← hseg]
    have haddr : 16 * (c₀.seg .es).toNat + (c₀.word .di % 2 ^ 16 + 0x10) % 2 ^ 16
        = infoBlock c₀ + 0x10 := by
      rw [infoBlock, Cpu.linear]
      omega
    rw [haddr]
    apply Memory.load_congr
    intro j hj
    have hbyte := hinfo (0x10 + j) (by omega)
    rw [← Nat.add_assoc] at hbyte
    exact hmem _ hbyte
  have hseglt : seg < 2 ^ 16 := by
    rw [← hseg]
    exact Memory.load_lt _ _ 2
  have hsilt : si < 2 ^ 16 := hsi ▸ c.word_lt .si
  have hdx' : dx = c.mem.load (16 * seg + si) 2 := by
    have hword : (c.push (.seg .es)).word .si = si := by
      rw [Cpu.word, hreg .si (by simp), ← Cpu.word, hsi]
    rw [hdx, hword, hes, hax', Nat.mod_mod, Nat.mod_eq_of_lt hseglt, Nat.mod_eq_of_lt hsilt]
    apply Memory.load_congr
    intro j hj
    exact hmem _ (hlist j hj)
  -- the state in front of the `pop`
  obtain ⟨d, hd⟩ : ∃ d, d = ((((c.push (.seg .es)).setWord .di di).setWord .ax ax).setSeg .es
    es).setWord .dx dx := ⟨_, rfl⟩
  have hdreg : ∀ r, r ≠ .di → r ≠ .ax → r ≠ .dx → d.reg r = (c.push (.seg .es)).reg r := by
    intro r hrdi hrax hrdx
    rw [hd, Cpu.reg_setWord_of_ne _ _ _ _ hrdx, Cpu.reg_setSeg, Cpu.reg_setWord_of_ne _ _ _ _ hrax,
      Cpu.reg_setWord_of_ne _ _ _ _ hrdi]
  have hdseg : ∀ s, s ≠ .es → d.seg s = c.seg s := by
    intro s hs
    rw [hd, Cpu.seg_setWord, Cpu.seg_setSeg_of_ne _ _ _ _ hs, Cpu.seg_setWord, Cpu.seg_setWord, Cpu.push,
      Cpu.seg_pushWith]
  have hdmem : d.mem = (c.push (.seg .es)).mem := by
    rw [hd, Cpu.mem_setWord, Cpu.mem_setSeg, Cpu.mem_setWord, Cpu.mem_setWord]
  have hdword : d.word .dx = c.mem.load (16 * seg + si) 2 := by
    have hlt := Memory.load_lt c.mem (16 * seg + si) 2
    rw [hd, Cpu.word_setWord, hdx']
    exact Nat.mod_eq_of_lt hlt
  have hkeep : InProc 6 c₀ d [Slot.saved c (.seg .es)] :=
    hpush.keep (hdseg .ss (by decide)) (hdreg .sp (by simp) (by simp) (by simp))
      (hdreg .bp (by simp) (by simp) (by simp)) fun a _ _ => by rw [hdmem]
  have hpop : fetchMode c = (d.drop 2).setSeg .es (c.seg .es).toNat := by
    rw [hdef, ← hd, hkeep.stack.pop]
    rfl
  have hpopped : InProc 6 c₀ (fetchMode c) [] := by
    rw [hdef, ← hd]
    exact hkeep.popped (by decide)
  have hmem' : (fetchMode c).mem = (c.push (.seg .es)).mem := by
    rw [hpop, Cpu.mem_setSeg, Cpu.mem_drop, hdmem]
  refine ⟨⟨hpopped, ?_, fun i h1 hi => ?_⟩, ?_, ?_, fun a ha => by rw [hmem', hmem a ha]⟩
  · funext s
    rw [hpop, ← h.seg]
    by_cases hs : s = .es
    · subst hs
      apply BitVec.eq_of_toNat_eq
      rw [Cpu.seg_setSeg, Nat.mod_eq_of_lt (BitVec.isLt _)]
    · rw [Cpu.seg_setSeg_of_ne _ _ _ _ hs, Cpu.seg_drop, hdseg s hs]
  · rw [hmem', ← h.vars i h1 hi]
    apply Memory.load_congr
    intro j hj
    exact h.push_frame hroom ⟨by omega, by omega⟩
  · rw [hpop, Cpu.reg_setSeg, Cpu.reg_drop_of_ne _ _ _ (by decide),
      hdreg .si (by simp) (by simp) (by simp), hreg .si (by simp)]
  · rw [hpop, Cpu.word_setSeg, Cpu.word_drop_of_ne _ _ _ (by decide), hdword]

end Body

/-! ## The checks -/

/-- A state of the checks that start in the state `b`: `DI` is the mode info block. -/
structure InCheck (c₀ b c : Cpu) : Prop where
  same : SameBut [.ax, .bx, .di] b c
  mem : c.mem = b.mem
  di : c.word .di = c₀.word .si

namespace InCheck

variable {c₀ b c : Cpu} {info : Memory}

theorem body (h : InCheck c₀ b c) (hb : VesaBody c₀ b) : VesaBody c₀ c :=
  hb.keep h.same.seg (h.same.reg .sp (by decide)) (h.same.reg .bp (by decide))
    fun _ _ => by rw [h.mem]

theorem setWord (h : InCheck c₀ b c) {r : Reg} (hr : r = .ax ∨ r = .bx) (v : Nat) :
    InCheck c₀ b (c.setWord r v) := by
  have hmem : r ∈ [Reg.ax, Reg.bx, Reg.di] ∧ Reg.di ≠ r := by
    rcases hr with rfl | rfl <;> decide
  exact ⟨h.same.trans (SameBut.setWord hmem.1 v), h.mem, by
    rw [Cpu.word_setWord_of_ne _ _ _ _ hmem.2, h.di]⟩

variable (hb : VesaBody c₀ b) (hds : c₀.seg .ds = c₀.seg .es) (hfits : c₀.word .si + 0x100 ≤ 2 ^ 16)
variable (hblock : ∀ j, j < 0x100 → b.mem (modeBlock c₀ + j) = info j)
include hb hds hfits hblock

/-- A field of the mode info block. -/
theorem load (h : InCheck c₀ b c) {n o : Nat} (ho : o + n ≤ 0x100) (hn : 0 < n) :
    c.load n .ds (c.word .di + o) = info.load o n := by
  have haddr : c.linear .ds (c.word .di + o) = modeBlock c₀ + o := by
    rw [Cpu.linear, h.same.seg, hb.seg, hds, h.di, modeBlock, Cpu.linear]
    omega
  rw [Cpu.load, haddr]
  apply Memory.load_congr
  intro j hj
  rw [Nat.add_assoc, h.mem]
  exact hblock (o + j) (by omega)

/-- A field as the checks take it. -/
theorem load_ax (h : InCheck c₀ b c) {o : Nat} (ho : o + 2 ≤ 0x100) :
    (c.setWord .ax (c.load 2 .ds (c.word .di + o))).word .ax = info.load o 2 := by
  have hlt := Memory.load_lt info o 2
  rw [Cpu.word_setWord, load hb hds hfits hblock h ho (by decide)]
  exact Nat.mod_eq_of_lt hlt

theorem checkRes (h : InCheck c₀ b c) :
    InCheck c₀ b (checkRes c).1 ∧ ((checkRes c).2 = true ↔ info.load 0x12 2 = c₀.word .ax ∧
      info.load 0x14 2 = c₀.word .bx ∧ info.load 0x19 1 = c₀.word .cx) := by
  have hax := load_ax hb hds hfits hblock h (o := 0x12) (by decide)
  obtain ⟨d, hd⟩ : ∃ d, d = c.setWord .ax (c.load 2 .ds (c.word .di + 0x12)) := ⟨_, rfl⟩
  have hd' : InCheck c₀ b d := hd ▸ h.setWord (Or.inl rfl) _
  have hax' := load_ax hb hds hfits hblock hd' (o := 0x14) (by decide)
  obtain ⟨e, he⟩ : ∃ e, e = d.setWord .ax (d.load 2 .ds (d.word .di + 0x14)) := ⟨_, rfl⟩
  have he' : InCheck c₀ b e := he ▸ hd'.setWord (Or.inl rfl) _
  rw [← hd] at hax
  rw [← he] at hax'
  have hwidth : getVar d 1 = c₀.word .ax := (hd'.body hb).getVar (by decide) (by decide)
  have hheight : getVar e 2 = c₀.word .bx := (he'.body hb).getVar (by decide) (by decide)
  unfold Xeos.Boot.checkRes
  dsimp only
  rw [← hd, hax, hwidth]
  by_cases hw : info.load 0x12 2 = c₀.word .ax
  · rw [if_neg (not_not.mpr hw), ← he, hax', hheight]
    by_cases hh : info.load 0x14 2 = c₀.word .bx
    · rw [if_neg (not_not.mpr hh)]
      have hz : InCheck c₀ b (e.setWord .ax 0) := he'.setWord (Or.inl rfl) _
      have hbyte := load hb hds hfits hblock hz (o := 0x19) (n := 1) (by decide) (by decide)
      obtain ⟨f, hf⟩ : ∃ f, f = (e.setWord .ax 0).setLow .ax
        ((e.setWord .ax 0).load 1 .ds ((e.setWord .ax 0).word .di + 0x19)) := ⟨_, rfl⟩
      have hax'' : f.word .ax = info.load 0x19 1 := by
        have hlt := Memory.load_lt info 0x19 1
        rw [hf, hbyte, Cpu.setLow, Cpu.word_setReg, Cpu.reg_setWord]
        omega
      have hf' : InCheck c₀ b f := by
        rw [hf]
        exact ⟨hz.same.trans (SameBut.setLow (by decide) _), hz.mem,
          (Cpu.word_setReg_of_ne _ _ _ _ (by decide)).trans hz.di⟩
      have hdepth : getVar f 3 = c₀.word .cx := (hf'.body hb).getVar (by decide) (by decide)
      rw [← hf, hax'', hdepth]
      exact ⟨hf', beq_iff_eq.trans ⟨fun hd => ⟨hw, hh, hd⟩, fun hall => hall.2.2⟩⟩
    · rw [if_pos hh]
      exact ⟨he', iff_of_false Bool.false_ne_true fun hall => hh hall.2.1⟩
  · rw [if_pos hw]
    exact ⟨hd', iff_of_false Bool.false_ne_true fun hall => hw hall.1⟩

theorem checkMode :
    InCheck c₀ b (checkMode b).1 ∧ ((checkMode b).2 = true ↔ (wanted c₀).Describes info) := by
  have hsi := c₀.word_lt .si
  have hstart : InCheck c₀ b (b.setWord .di (getVar b 6)) := by
    refine ⟨SameBut.setWord (by decide) _, rfl, ?_⟩
    rw [Cpu.word_setWord, hb.getVar (by decide) (by decide)]
    exact Nat.mod_eq_of_lt hsi
  have hax := load_ax hb hds hfits hblock hstart (o := 0) (by decide)
  rw [Nat.add_zero] at hax
  obtain ⟨c, hc⟩ : ∃ c, c = (b.setWord .di (getVar b 6)).setWord .ax
    ((b.setWord .di (getVar b 6)).load 2 .ds ((b.setWord .di (getVar b 6)).word .di)) := ⟨_, rfl⟩
  have hc' : InCheck c₀ b c := hc ▸ hstart.setWord (Or.inl rfl) _
  rw [← hc] at hax
  obtain ⟨d, hd⟩ : ∃ d, d = c.setWord .bx (getVar c 4) := ⟨_, rfl⟩
  have hd' : InCheck c₀ b d := hd ▸ hc'.setWord (Or.inr rfl) _
  have hlfb : d.word .bx = c₀.word .dx := by
    have hlt := c₀.word_lt .dx
    rw [hd, Cpu.word_setWord, (hc'.body hb).getVar (by decide) (by decide)]
    exact Nat.mod_eq_of_lt hlt
  have hax' : d.word .ax = info.load 0 2 := by
    rw [hd, Cpu.word_setWord_of_ne _ _ _ _ (by decide), hax]
  have hres := checkRes hb hds hfits hblock hd'
  unfold Xeos.Boot.checkMode Wanted.Describes
  dsimp only
  rw [← hc, hax]
  by_cases h0 : (info.load 0 2).testBit 0 = true
  · rw [if_neg (not_not.mpr h0)]
    by_cases h4 : (info.load 0 2).testBit 4 = true
    · rw [if_neg (not_not.mpr h4), ← hd, hlfb, hax']
      by_cases h7 : c₀.word .dx ≠ 0 ∧ ¬ (info.load 0 2).testBit 7 = true
      · rw [if_pos h7]
        refine ⟨hd', iff_of_false Bool.false_ne_true fun hall => h7.2 (hall.2.2.1 ?_)⟩
        exact decide_eq_true h7.1
      · rw [if_neg h7]
        refine ⟨hres.1, hres.2.trans ⟨fun hall => ⟨h0, h4, fun hwant => ?_, hall⟩,
          fun hall => hall.2.2.2⟩⟩
        by_contra hnot
        exact h7 ⟨of_decide_eq_true hwant, hnot⟩
    · rw [if_pos h4]
      exact ⟨hc', iff_of_false Bool.false_ne_true fun hall => h4 hall.2.1⟩
  · rw [if_pos h0]
    exact ⟨hc', iff_of_false Bool.false_ne_true fun hall => h0 hall.1⟩

end InCheck

/-! ## The search -/

/-- The memory after the call for the VBE information block. -/
structure InfoDone (modeVar : Nat) (modes : List Nat) (seg off : Nat) (c₀ : Cpu) (w : Memory) :
    Prop where
  segment : w.load (infoBlock c₀ + 0x10) 2 = seg
  list : ModesAt modes w seg off
  none : w.load (c₀.linear .ds modeVar) 2 = 0

/-- The search is in front of the mode number `i` of the list. -/
structure AtMode (own : Set Nat) (depth off : Nat) (c₀ : Cpu) (w : Memory) (i : Nat) (c : Cpu) :
    Prop where
  body : VesaBody c₀ c
  si : c.word .si = (off + 2 * i) % 2 ^ 16
  mem : ∀ a, Fixed own depth c₀ a → c.mem a = w a

/-- The BIOS has answered for the mode `m`, which is the number `i` of the list. -/
structure Answered (own : Set Nat) (depth off : Nat) (c₀ : Cpu) (w : Memory) (i m : Nat)
    (a : ModeAnswer) (c : Cpu) : Prop extends AtMode own depth off c₀ w i c where
  dx : c.word .dx = m
  al : c.low .ax = 0x4F
  ah : ah c = a.ah
  block : ∀ j, j < 0x100 → c.mem (modeBlock c₀ + j) = a.info j

/-- The search has ended with the mode `v`. -/
structure Ended (modeVar : Nat) (c₀ : Cpu) (v : Nat) (c : Cpu) : Prop where
  body : VesaBody c₀ c
  result : c.mem.load (c₀.linear .ds modeVar) 2 = v

section Search

variable {B : Type} {int10 : B → Cpu → B × Cpu} {modeVar seg off depth : Nat} {modes : List Nat}
variable {answer : Nat → ModeAnswer} {own : Set Nat} {c₀ c : Cpu} {w : Memory} {i : Nat}

theorem fixed_of_ne {a : Nat} (hloose : ¬ Loose own depth c₀ a)
    (hne : ∀ k, k < 0x100 → a ≠ modeBlock c₀ + k) : Fixed own depth c₀ a := by
  refine ⟨hloose, ?_⟩
  by_contra hin
  exact hne (a - modeBlock c₀) (by omega) (by omega)

/-- The registers in front of the call for the description of a mode. -/
theorem modeRequest_spec (h : VesaBody c₀ c) :
    SameBut [.ax, .cx, .di] c (modeRequest c) ∧ (modeRequest c).mem = c.mem ∧
      (modeRequest c).word .ax = 0x4F01 ∧ (modeRequest c).word .cx = c.word .dx ∧
      (modeRequest c).linear .es ((modeRequest c).word .di) = modeBlock c₀ := by
  have hne : Reg.cx ≠ Reg.di := nofun
  have hbody : VesaBody c₀ (c.setWord .cx (c.word .dx)) :=
    h.keep rfl (Cpu.reg_setWord_of_ne _ _ _ _ (by decide)) (Cpu.reg_setWord_of_ne _ _ _ _ (by decide))
      fun _ _ => rfl
  have hvar : getVar (c.setWord .cx (c.word .dx)) 6 = c₀.word .si :=
    hbody.getVar (by decide) (by decide)
  have hdx := c.word_lt .dx
  have hsi := c₀.word_lt .si
  have hdef : modeRequest c
      = ((c.setWord .cx (c.word .dx)).setWord .di (c₀.word .si)).setWord .ax 0x4F01 := by
    rw [← hvar]
    rfl
  rw [hdef]
  refine ⟨?_, rfl, ?_, ?_, ?_⟩
  · exact ((SameBut.setWord (by decide) _).trans (SameBut.setWord (by decide) _)).trans
      (SameBut.setWord (by decide) _)
  · exact Cpu.word_setWord _ _ _
  · rw [Cpu.word_setWord_of_ne _ _ _ _ (by decide), Cpu.word_setWord_of_ne _ _ _ _ hne,
      Cpu.word_setWord, Nat.mod_eq_of_lt hdx]
  · rw [Cpu.word_setWord_of_ne _ _ _ _ (by decide), Cpu.word_setWord, Nat.mod_eq_of_lt hsi,
      modeBlock, Cpu.linear, Cpu.linear, Cpu.seg_setWord, Cpu.seg_setWord, Cpu.seg_setWord, h.seg]

variable (hready : VesaReady modeVar modes seg off own depth c₀)
include hready

theorem result_load {m : Memory} (h : ∀ a, Fixed own depth c₀ a → c.mem a = m a) :
    c.mem.load (c₀.linear .ds modeVar) 2 = m.load (c₀.linear .ds modeVar) 2 := by
  apply Memory.load_congr
  intro j hj
  exact h _ (fixed_of_ne (hready.result_fixed j hj).1 fun k hk => hready.result_mode j k hj hk)

/-- The mode that the loop comes to. -/
theorem AtMode.fetchMode (h : AtMode own depth off c₀ w i c)
    (hw : InfoDone modeVar modes seg off c₀ w) (hi : i ≤ modes.length) :
    AtMode own depth off c₀ w i (fetchMode c) ∧
      (fetchMode c).word .dx = (modes[i]?).getD 0xFFFF := by
  have hseg : c.mem.load (infoBlock c₀ + 0x10) 2 = seg := by
    rw [← hw.segment]
    apply Memory.load_congr
    intro j hj
    rw [Nat.add_assoc]
    exact h.mem _ (fixed_of_ne (hready.info_fixed (0x10 + j) (by omega))
      fun k hk => hready.info_mode (0x10 + j) k (by omega) hk)
  have hlist : c.mem.load (16 * seg + (off + 2 * i) % 2 ^ 16) 2 = (modes[i]?).getD 0xFFFF := by
    rw [← hw.list i hi]
    apply Memory.load_congr
    intro j hj
    exact h.mem _ (fixed_of_ne (hready.list_fixed i j hi hj)
      fun k hk => hready.list_mode i j k hi hj hk)
  obtain ⟨hbody, hsi, hdx, hmem⟩ := fetchMode_spec h.body hready.room hready.ds hready.info_fits
    hready.info_fixed hseg h.si fun j hj => hready.list_fixed i j hi hj
  refine ⟨⟨hbody, ?_, fun a ha => ?_⟩, hdx.trans hlist⟩
  · rw [Cpu.word, hsi, ← h.si, Cpu.word]
  · rw [hmem a ha.1, h.mem a ha]

/-- The call for the description of a mode. -/
theorem AtMode.answered (hvbe : Vbe int10 modes answer seg off (infoBlock c₀) own depth)
    (h : AtMode own depth off c₀ w i c) {m : Nat} (hm : c.word .dx = m) (b : B) :
    Answered own depth off c₀ w i m (answer m) (int10 b (modeRequest c)).2 := by
  obtain ⟨hsame, hmem, hax, hcx, hbuffer⟩ := modeRequest_spec h.body
  obtain ⟨hreply, hal, hah, hblock⟩ := hvbe.mode b _ hax
  rw [hcx, hm] at hah hblock
  rw [hbuffer] at hblock
  have hreg : ∀ r, r ≠ .ax → r ≠ .cx → r ≠ .di → (int10 b (modeRequest c)).2.reg r = c.reg r := by
    intro r hrax hrcx hrdi
    rw [hreply.reg r hrax]
    exact hsame.reg r (by simp [hrax, hrcx, hrdi])
  have hstack : vesaStack = procBytes + 6 * 4 := rfl
  have htop : (modeRequest c).top + vesaStack = c₀.top := by
    have htop := h.body.top
    rw [← htop]
    simp only [Cpu.top, Cpu.linear, Cpu.word, hsame.seg, hsame.reg .sp (by decide)]
  refine ⟨⟨h.body.keep (hreply.seg.trans hsame.seg) (hreg .sp (by simp) (by simp) (by simp))
    (hreg .bp (by simp) (by simp) (by simp)) fun a ha => ?_, ?_, fun a ha => ?_⟩, ?_, hal, hah,
    hblock⟩
  · -- the frame and the local variables
    have houtside : a < modeBlock c₀ ∨ modeBlock c₀ + 0x100 ≤ a := by
      by_contra hin
      have hapart := hready.mode_frame (a - modeBlock c₀) (by omega)
      rw [Nat.add_sub_cancel' (by omega)] at hapart
      exact hapart ha
    rw [← hmem]
    have hle := ha.1
    have hlt := ha.2
    apply hreply.mem a
    · intro hown
      have hapart := hready.own_stack a hown
      omega
    · right
      omega
    · rw [hbuffer]
      exact houtside
  · rw [Cpu.word, hreg .si (by simp) (by simp) (by simp), ← h.si, Cpu.word]
  · rw [hreply.mem_of_body (Or.inl htop) ha.1 (by rw [hbuffer]; exact ha.2), hmem, h.mem a ha]
  · rw [Cpu.word, hreg .dx (by simp) (by simp) (by simp), ← hm, Cpu.word]

/-- The checks of a mode. -/
theorem Answered.checkMode {m : Nat} {a : ModeAnswer} (h : Answered own depth off c₀ w i m a c) :
    AtMode own depth off c₀ w (i + 1) (checkMode (c.setWord .si (c.word .si + 2))).1 ∧
      (checkMode (c.setWord .si (c.word .si + 2))).1.word .dx = m ∧
      ((checkMode (c.setWord .si (c.word .si + 2))).2 = true ↔ (wanted c₀).Describes a.info) := by
  obtain ⟨d, hd⟩ : ∃ d, d = c.setWord .si (c.word .si + 2) := ⟨_, rfl⟩
  have hbody : VesaBody c₀ d := by
    rw [hd]
    exact h.body.keep rfl (Cpu.reg_setWord_of_ne _ _ _ _ (by decide))
      (Cpu.reg_setWord_of_ne _ _ _ _ (by decide)) fun _ _ => rfl
  have hmem : d.mem = c.mem := by
    rw [hd, Cpu.mem_setWord]
  have hsi : d.word .si = (off + 2 * (i + 1)) % 2 ^ 16 := by
    rw [hd, Cpu.word_setWord, h.si]
    omega
  have hdx : d.word .dx = m := by
    rw [hd, Cpu.word_setWord_of_ne _ _ _ _ (by decide), h.dx]
  obtain ⟨hin, hiff⟩ := InCheck.checkMode hbody hready.ds hready.mode_fits
    fun j hj => by rw [hmem, h.block j hj]
  rw [← hd]
  refine ⟨⟨hin.body hbody, ?_, fun a ha => ?_⟩, ?_, hiff⟩
  · rw [hin.same.word (by decide), hsi]
  · rw [hin.mem, hmem, h.mem a ha]
  · rw [hin.same.word (by decide), hdx]

/-- The result of a search that ends without a mode. -/
theorem AtMode.ended (h : AtMode own depth off c₀ w i c) (hw : InfoDone modeVar modes seg off c₀ w) :
    Ended modeVar c₀ 0 c :=
  ⟨h.body, (result_load hready h.mem).trans hw.none⟩

/-- The result of a search that ends with the mode `m`. -/
theorem AtMode.store (h : AtMode own depth off c₀ w i c) {m : Nat} (hm : c.word .dx = m) :
    Ended modeVar c₀ m (c.store 2 .ds modeVar (c.word .dx)) := by
  have hlinear : c.linear .ds modeVar = c₀.linear .ds modeVar := by
    rw [Cpu.linear, h.body.seg, Cpu.linear]
  have hlt := c.word_lt .dx
  constructor
  · refine h.body.keep rfl rfl rfl fun a ha => ?_
    rw [Cpu.mem_store, hlinear]
    apply Memory.store_of_not_mem
    by_contra hin
    have hapart := (hready.result_fixed (a - c₀.linear .ds modeVar) (by omega)).2
    rw [Nat.add_sub_cancel' (by omega)] at hapart
    exact hapart ha
  · rw [Cpu.mem_store, hlinear, Memory.load_store, hm]
    exact Nat.mod_eq_of_lt (hm ▸ hlt)

variable (hw : InfoDone modeVar modes seg off c₀ w)
include hw

/-- The round at the end of the list. -/
theorem vesaLoop_end {s : B × Cpu} (h : AtMode own depth off c₀ w modes.length s.2) :
    ∃ t, vesaLoop int10 modeVar s = .inr t ∧ Ended modeVar c₀ 0 t.2 := by
  obtain ⟨hat, hdx⟩ := h.fetchMode hready hw (Nat.le_refl _)
  rw [List.getElem?_eq_none (Nat.le_refl _), Option.getD_none] at hdx
  refine ⟨(s.1, Xeos.Boot.fetchMode s.2), ?_, hat.ended hready hw⟩
  unfold vesaLoop
  dsimp only
  rw [if_pos hdx]

variable (hvbe : Vbe int10 modes answer seg off (infoBlock c₀) own depth)
include hvbe

/-- A round at a mode of the list. -/
theorem vesaLoop_mode {s : B × Cpu} {i : Nat} (h : AtMode own depth off c₀ w i s.2)
    (hi : i < modes.length) :
    ((answer modes[i]).ah ≠ 0 →
      ∃ t, vesaLoop int10 modeVar s = .inl t ∧ AtMode own depth off c₀ w i t.2) ∧
    ((wanted c₀).accepts (answer modes[i]) = true →
      ∃ t, vesaLoop int10 modeVar s = .inr t ∧ Ended modeVar c₀ modes[i] t.2) ∧
    ((answer modes[i]).ah = 0 → (wanted c₀).accepts (answer modes[i]) = false →
      ∃ t, vesaLoop int10 modeVar s = .inl t ∧ AtMode own depth off c₀ w (i + 1) t.2) := by
  obtain ⟨hat, hdx⟩ := h.fetchMode hready hw (Nat.le_of_lt hi)
  rw [List.getElem?_eq_getElem hi, Option.getD_some] at hdx
  have hne : modes[i] ≠ 0xFFFF := Nat.ne_of_lt (hvbe.numbers _ (List.getElem_mem hi))
  have hans := hat.answered hready hvbe hdx s.1
  unfold vesaLoop
  dsimp only
  rw [hdx, if_neg hne]
  generalize int10 s.1 (modeRequest (Xeos.Boot.fetchMode s.2)) = r at hans
  obtain ⟨b, r⟩ := r
  dsimp only at hans ⊢
  obtain ⟨hnext, hmode, hiff⟩ := hans.checkMode hready
  rw [if_neg (not_not.mpr hans.al), hans.ah]
  generalize Xeos.Boot.checkMode (r.setWord .si (r.word .si + 2)) = q at hnext hmode hiff
  obtain ⟨q, valid⟩ := q
  dsimp only at hnext hmode hiff ⊢
  refine ⟨fun hah => ?_, fun haccepts => ?_, fun hah haccepts => ?_⟩
  · rw [if_pos hah]
    exact ⟨_, rfl, hans.toAtMode⟩
  · obtain ⟨hah, hdesc⟩ := of_decide_eq_true haccepts
    rw [if_neg (not_not.mpr hah), if_pos (hiff.mpr hdesc)]
    exact ⟨_, rfl, hnext.store hready hmode⟩
  · have hnot : ¬ valid = true := fun hvalid =>
      of_decide_eq_false haccepts ⟨hah, hiff.mp hvalid⟩
    rw [if_neg (not_not.mpr hah), if_neg hnot]
    exact ⟨_, rfl, hnext⟩

/-- The search from a mode of the list on, by induction on the modes that are left. -/
theorem vesaLoop_returns {s : B × Cpu} {i : Nat} (h : AtMode own depth off c₀ w i s.2)
    (hi : i ≤ modes.length) (hnone : NoneRefused (wanted c₀) answer (modes.drop i)) :
    ∃ t, Returns (vesaLoop int10 modeVar) s t ∧
      Ended modeVar c₀ (firstMode (wanted c₀) answer (modes.drop i)) t.2 := by
  induction hn : modes.length - i generalizing i s with
  | zero =>
    have heq : i = modes.length := by omega
    subst heq
    obtain ⟨t, hstep, hended⟩ := vesaLoop_end hready hw h
    rw [List.drop_length]
    exact ⟨t, Returns.done hstep, hended⟩
  | succ n ih =>
    have hlt : i < modes.length := by omega
    obtain ⟨-, haccepted, hother⟩ := vesaLoop_mode hready hw hvbe h hlt
    rw [List.drop_eq_getElem_cons hlt] at hnone ⊢
    cases hm : (wanted c₀).accepts (answer modes[i]) with
    | true =>
      obtain ⟨t, hstep, hended⟩ := haccepted hm
      rw [firstMode_cons_of_accepts hm]
      exact ⟨t, Returns.done hstep, hended⟩
    | false =>
      rw [noneRefused_cons hm] at hnone
      obtain ⟨s', hstep, hnext⟩ := hother hnone.1 hm
      obtain ⟨t, hret, hended⟩ := ih hnext (by omega) hnone.2 (by omega)
      rw [firstMode_cons_of_not hm]
      exact ⟨t, hret.next hstep, hended⟩

/-- The search stays at a mode that the BIOS refuses. -/
theorem not_vesaLoop_returns {s : B × Cpu} {i : Nat} (h : AtMode own depth off c₀ w i s.2)
    (hi : i ≤ modes.length) (hrefused : ¬ NoneRefused (wanted c₀) answer (modes.drop i))
    (t : B × Cpu) : ¬ Returns (vesaLoop int10 modeVar) s t := by
  induction hn : modes.length - i generalizing i s with
  | zero =>
    rw [List.drop_eq_nil_of_le (by omega)] at hrefused
    exact absurd (fun m hm => absurd hm List.not_mem_nil) hrefused
  | succ n ih =>
    have hlt : i < modes.length := by omega
    obtain ⟨hstays, -, hother⟩ := vesaLoop_mode hready hw hvbe h hlt
    rw [List.drop_eq_getElem_cons hlt] at hrefused
    cases hm : (wanted c₀).accepts (answer modes[i]) with
    | true => exact absurd (noneRefused_cons_of_accepts hm) hrefused
    | false =>
      rw [noneRefused_cons hm, not_and] at hrefused
      by_cases hah : (answer modes[i]).ah = 0
      · obtain ⟨s', hstep, hnext⟩ := hother hah hm
        rw [returns_iff_of_step hstep]
        exact ih hnext (by omega) (hrefused hah) (by omega)
      · refine not_returns_of_invariant (fun s => AtMode own depth off c₀ w i s.2) ?_ h
        intro s' hs'
        exact (vesaLoop_mode hready hw hvbe hs' hlt).1 hah

end Search

/-! ## The whole routine -/

section Routine

variable {B : Type} {int10 : B → Cpu → B × Cpu} {modeVar seg off depth : Nat} {modes : List Nat}
variable {answer : Nat → ModeAnswer} {own : Set Nat} {c₀ : Cpu}

/-- The state in front of the call for the VBE information block. -/
theorem infoRequest_spec (hready : VesaReady modeVar modes seg off own depth c₀) :
    InProc 6 c₀ (infoRequest (vesaStart modeVar c₀)) [Slot.saved c₀ (.seg .es)] ∧
      (infoRequest (vesaStart modeVar c₀)).seg = c₀.seg ∧
      (infoRequest (vesaStart modeVar c₀)).word .ax = 0x4F00 ∧
      (infoRequest (vesaStart modeVar c₀)).word .di = c₀.word .di ∧
      (∀ a, Framed c₀ a → (infoRequest (vesaStart modeVar c₀)).mem a = (vesaStart modeVar c₀).mem a) ∧
      ∀ a, ¬ Loose own depth c₀ a →
        (infoRequest (vesaStart modeVar c₀)).mem a = (vesaStart modeVar c₀).mem a := by
  obtain ⟨hbody, -, -⟩ := vesaStart_body hready
  obtain ⟨v, hv⟩ : ∃ v, v = vesaStart modeVar c₀ := ⟨_, rfl⟩
  rw [← hv] at hbody ⊢
  have hroom := hready.room
  have hsize : (Slot.seg .es).size = 2 := rfl
  have hstack : vesaStack = procBytes + 6 * 4 := rfl
  have hsp := hbody.toInProc.word_sp
  rw [bytes_nil] at hsp
  have hpush : InProc 6 c₀ (v.push (.seg .es)) [Slot.saved c₀ (.seg .es)] := by
    apply hbody.toInProc.push
    · rw [hsize]
      omega
    · rw [Slot.value, Slot.value, hbody.seg]
  have hdef : infoRequest v = ((v.push (.seg .es)).setWord .di (c₀.word .di)).setWord .ax 0x4F00 := by
    have hvar : getVar (v.push (.seg .es)) 5 = c₀.word .di :=
      hbody.getVar_push hroom (by decide) (by decide)
    rw [← hvar]
    rfl
  have hmem : (infoRequest v).mem = (v.push (.seg .es)).mem := by
    rw [hdef, Cpu.mem_setWord, Cpu.mem_setWord]
  have hdi := c₀.word_lt .di
  refine ⟨hpush.keep ?_ ?_ ?_ fun a _ _ => by rw [hmem], ?_, ?_, ?_, fun a ha => ?_, fun a ha => ?_⟩
  · rw [hdef, Cpu.seg_setWord, Cpu.seg_setWord]
  · rw [hdef, Cpu.reg_setWord_of_ne _ _ _ _ (by decide), Cpu.reg_setWord_of_ne _ _ _ _ (by decide)]
  · rw [hdef, Cpu.reg_setWord_of_ne _ _ _ _ (by decide), Cpu.reg_setWord_of_ne _ _ _ _ (by decide)]
  · rw [hdef, Cpu.seg_setWord, Cpu.seg_setWord, ← hbody.seg]
    rfl
  · rw [hdef]
    exact Cpu.word_setWord _ _ _
  · rw [hdef, Cpu.word_setWord_of_ne _ _ _ _ (by decide), Cpu.word_setWord, Nat.mod_eq_of_lt hdi]
  · rw [hmem]
    exact hbody.push_frame hroom ha
  · rw [hmem]
    exact hbody.push_mem hsize hroom ha

/-- The head of the loop after the call for the VBE information block. -/
theorem infoDone (hready : VesaReady modeVar modes seg off own depth c₀)
    (hvbe : Vbe int10 modes answer seg off (infoBlock c₀) own depth) (b : B) {d : Cpu}
    (hd : d = (int10 b (infoRequest (vesaStart modeVar c₀))).2.pop (.seg .es)) :
    d.word .ax = 0x004F ∧ InfoDone modeVar modes seg off c₀ d.mem ∧
      AtMode own depth off c₀ d.mem 0 (d.setWord .si (d.load 2 .ds (d.word .di + 0x0E))) := by
  obtain ⟨hvbody, -, hvnone⟩ := vesaStart_body hready
  obtain ⟨hq, hqseg, hqax, hqdi, hqframe, hqmem⟩ := infoRequest_spec hready
  obtain ⟨q, hqdef⟩ : ∃ q, q = infoRequest (vesaStart modeVar c₀) := ⟨_, rfl⟩
  rw [← hqdef] at hq hqseg hqax hqdi hqframe hqmem hd
  have hblock : q.linear .es (q.word .di) = infoBlock c₀ := by
    rw [hqdi, Cpu.linear, hqseg, infoBlock, Cpu.linear]
  obtain ⟨hreply, hrax, hroff, hrseg, hrlist⟩ := hvbe.info b q hqax hblock
  generalize (int10 b q).2 = r at hd hreply hrax hroff hrseg hrlist
  have hstack : vesaStack = procBytes + 6 * 4 := rfl
  have htop : q.top + 2 + (procBytes + 6 * 4) = c₀.top := hq.top
  have hinfo : ∀ a, (infoBlock c₀ ≤ a ∧ a < infoBlock c₀ + 0x200 →
      Loose own depth c₀ a ∨ Framed c₀ a) → a < infoBlock c₀ ∨ infoBlock c₀ + 0x200 ≤ a := by
    intro a ha
    by_contra hin
    have hloose := hready.info_fixed (a - infoBlock c₀) (by omega)
    have hframe := hready.info_frame (a - infoBlock c₀) (by omega)
    rw [Nat.add_sub_cancel' (by omega)] at hloose hframe
    exact (ha (by omega)).elim hloose hframe
  -- what the call keeps
  have hkeep : ∀ a, q.top ≤ a → a < c₀.top → r.mem a = q.mem a := by
    intro a hle hlt
    apply hreply.mem a
    · intro hown
      have hapart := hready.own_stack a hown
      omega
    · exact Or.inr hle
    · rw [hblock]
      refine hinfo a fun _ => ?_
      by_cases hsaved : a + vesaStack < c₀.top
      · exact Or.inl (Or.inr ⟨by omega, hsaved⟩)
      · exact Or.inr ⟨by omega, hlt⟩
  have hr : InProc 6 c₀ r [Slot.saved c₀ (.seg .es)] :=
    hq.keep (by rw [hreply.seg]) (hreply.reg .sp (by simp)) (hreply.reg .bp (by simp)) hkeep
  have hpop : d = (r.drop 2).setSeg .es (c₀.seg .es).toNat := by
    rw [hd, hr.stack.pop]
    rfl
  have hdmem : d.mem = r.mem := by
    rw [hpop, Cpu.mem_setSeg, Cpu.mem_drop]
  have hdproc : InProc 6 c₀ d [] := by
    rw [hd]
    exact hr.popped (by decide)
  have hdseg : d.seg = c₀.seg := by
    funext s
    rw [hpop]
    by_cases hs : s = .es
    · subst hs
      apply BitVec.eq_of_toNat_eq
      rw [Cpu.seg_setSeg, Nat.mod_eq_of_lt (BitVec.isLt _)]
    · rw [Cpu.seg_setSeg_of_ne _ _ _ _ hs, Cpu.seg_drop, hreply.seg, hqseg]
  have hdreg : ∀ x, x ≠ .sp → d.word x = r.word x := by
    intro x hx
    rw [hpop, Cpu.word_setSeg, Cpu.word_drop_of_ne _ _ _ hx]
  have hbody : VesaBody c₀ d := by
    refine ⟨hdproc, hdseg, fun i h1 hi => ?_⟩
    rw [hdmem, ← hvbody.vars i h1 hi]
    apply Memory.load_congr
    intro j hj
    have hle : c₀.word .sp ≤ c₀.top := by
      have hlt := c₀.word_lt .sp
      rw [Cpu.top, Cpu.linear, Nat.mod_eq_of_lt hlt]
      omega
    have hroom := hready.room
    rw [hkeep _ (by omega) (by omega)]
    exact hqframe _ ⟨by omega, by omega⟩
  have hdi : d.word .di = c₀.word .di := by
    rw [hdreg .di (by simp), Cpu.word, hreply.reg .di (by simp), ← Cpu.word, hqdi]
  have hload : d.load 2 .ds (d.word .di + 0x0E) = off := by
    have hfits := hready.info_fits
    have haddr : d.linear .ds (d.word .di + 0x0E) = infoBlock c₀ + 0x0E := by
      rw [Cpu.linear, hdseg, hready.ds, hdi, infoBlock, Cpu.linear]
      omega
    rw [Cpu.load, haddr, hdmem, hroff]
  have hoff : off < 2 ^ 16 := by
    rw [← hroff]
    exact Memory.load_lt _ _ 2
  refine ⟨?_, ⟨?_, ?_, ?_⟩, ⟨?_, ?_, fun a _ => ?_⟩⟩
  · rw [hdreg .ax (by simp), hrax]
  · rw [hdmem, hrseg]
  · rw [hdmem]
    exact hrlist
  · rw [hdmem, ← hvnone]
    apply Memory.load_congr
    intro j hj
    have hloose := (hready.result_fixed j hj).1
    rw [hreply.mem_of_body (Or.inr (by omega)) hloose, hqmem _ hloose]
    rw [hblock]
    by_contra hin
    exact hready.result_info j (c₀.linear .ds modeVar + j - infoBlock c₀) hj (by omega) (by omega)
  · exact hbody.keep rfl (Cpu.reg_setWord_of_ne _ _ _ _ (by decide))
      (Cpu.reg_setWord_of_ne _ _ _ _ (by decide)) fun _ _ => rfl
  · rw [Cpu.word_setWord, hload]
    omega
  · rw [Cpu.mem_setWord]

/-- The result of the routine. -/
theorem vesaRet_spec {c : Cpu} {v : Nat} (h : Ended modeVar c₀ v c) :
    (vesaRet modeVar c).word .ax = v ∧ (∀ q, q ≠ .ax → (vesaRet modeVar c).reg q = c₀.reg q) ∧
      (vesaRet modeVar c).seg = c₀.seg := by
  have hend := h.body.toInProc.finish
  have hlt := Memory.load_lt c.mem (c₀.linear .ds modeVar) 2
  rw [h.result] at hlt
  unfold vesaRet
  rw [hend]
  refine ⟨?_, fun q hq => ?_, rfl⟩
  · refine (Cpu.word_setWord _ _ _).trans ?_
    change c.mem.load (c₀.linear .ds modeVar) 2 % 2 ^ 16 = v
    rw [h.result]
    exact Nat.mod_eq_of_lt hlt
  · exact Cpu.reg_setWord_of_ne _ _ _ _ hq

/-- The routine is the loop from its first head on, and the end. -/
theorem findVESAMode_eq (hready : VesaReady modeVar modes seg off own depth c₀)
    (hvbe : Vbe int10 modes answer seg off (infoBlock c₀) own depth) (b : B) :
    ∃ w s, InfoDone modeVar modes seg off c₀ w ∧ AtMode own depth off c₀ w 0 s.2 ∧
      ∀ fuel, findVESAMode int10 modeVar fuel (b, c₀)
        = (runFor (vesaLoop int10 modeVar) fuel s).map fun t => (t.1, vesaRet modeVar t.2) := by
  obtain ⟨d, hd⟩ : ∃ d, d = (int10 b (infoRequest (vesaStart modeVar c₀))).2.pop (.seg .es) :=
    ⟨_, rfl⟩
  obtain ⟨hax, hinfo, hat⟩ := infoDone hready hvbe b hd
  refine ⟨d.mem, ((int10 b (infoRequest (vesaStart modeVar c₀))).1,
    d.setWord .si (d.load 2 .ds (d.word .di + 0x0E))), hinfo, hat, fun fuel => ?_⟩
  unfold findVESAMode
  dsimp only
  rw [← hd, if_neg (not_not.mpr hax)]

theorem findsFirst_of_noneRefused (hready : VesaReady modeVar modes seg off own depth c₀)
    (hvbe : Vbe int10 modes answer seg off (infoBlock c₀) own depth) (b : B)
    (hnone : NoneRefused (wanted c₀) answer modes) :
    FindsFirst int10 modeVar modes answer (b, c₀) := by
  obtain ⟨w, s, hinfo, hat, hrun⟩ := findVESAMode_eq hready hvbe b
  obtain ⟨t, ⟨fuel, ht⟩, hended⟩ := vesaLoop_returns hready hinfo hvbe hat (Nat.zero_le _) hnone
  obtain ⟨hresult, hreg, hseg⟩ := vesaRet_spec hended
  refine ⟨fuel, (t.1, vesaRet modeVar t.2), ?_, hresult, hreg, hseg⟩
  rw [hrun, ht, Option.map_some]

theorem noneRefused_of_findsFirst (hready : VesaReady modeVar modes seg off own depth c₀)
    (hvbe : Vbe int10 modes answer seg off (infoBlock c₀) own depth) (b : B)
    (h : FindsFirst int10 modeVar modes answer (b, c₀)) : NoneRefused (wanted c₀) answer modes := by
  obtain ⟨w, s, hinfo, hat, hrun⟩ := findVESAMode_eq hready hvbe b
  obtain ⟨fuel, r, hr, -⟩ := h
  by_contra hrefused
  rw [hrun] at hr
  obtain ⟨t, ht, -⟩ := Option.map_eq_some_iff.mp hr
  exact not_vesaLoop_returns hready hinfo hvbe hat (Nat.zero_le _) hrefused t ⟨fuel, ht⟩

/-- The routine finds the first mode that is wanted exactly when the BIOS refuses none of the
modes before it. -/
theorem findVESAMode_first_iff (hready : VesaReady modeVar modes seg off own depth c₀)
    (hvbe : Vbe int10 modes answer seg off (infoBlock c₀) own depth) (b : B) :
    FindsFirst int10 modeVar modes answer (b, c₀) ↔ NoneRefused (wanted c₀) answer modes :=
  ⟨noneRefused_of_findsFirst hready hvbe b, findsFirst_of_noneRefused hready hvbe b⟩

end Routine

/-! ## A BIOS with one mode -/

/-- A BIOS that has the mode `m` only.  It puts the list into the info block. -/
def oneModeBios (m : Nat) (a : ModeAnswer) (_ : Unit) (c : Cpu) : Unit × Cpu :=
  let block := c.linear .es (c.word .di)
  if c.word .ax = 0x4F00 then
    let mem := (((c.mem.store (block + 0x0E) 2 (block + 0x22)).store (block + 0x10) 2 0).store
      (block + 0x22) 2 m).store (block + 0x24) 2 0xFFFF
    ((), { c with mem := mem }.setWord .ax 0x004F)
  else ((), { c with mem := c.mem.copy a.info block 0 0x100 }.setWord .ax (0x4F + 0x100 * a.ah))

theorem oneModeBios_vbe {m : Nat} (a : ModeAnswer) (hm : m < 0xFFFF) (ha : a.ah < 256) :
    Vbe (oneModeBios m a) [m] (fun _ => a) 0 0x1022 0x1000 ∅ 0 := by
  constructor
  · intro m' hm'
    rw [List.mem_singleton.mp hm']
    exact hm
  · intro u c hax hblock
    unfold oneModeBios
    dsimp only
    rw [if_pos hax, hblock]
    refine ⟨⟨fun r hr => ?_, rfl, fun x _ _ hx => ?_⟩, ?_, ?_, ?_, fun i hi => ?_⟩
    · exact Cpu.reg_setWord_of_ne _ _ _ _ hr
    · rw [Cpu.mem_setWord]
      dsimp only
      rw [Memory.store_of_not_mem _ _ (by omega), Memory.store_of_not_mem _ _ (by omega),
        Memory.store_of_not_mem _ _ (by omega), Memory.store_of_not_mem _ _ (by omega)]
    · exact Cpu.word_setWord _ _ _
    · simp [Memory.load, Memory.store]
    · simp [Memory.load, Memory.store]
    · rw [Cpu.mem_setWord]
      dsimp only
      have hi' : i = 0 ∨ i = 1 := by
        rw [List.length_singleton] at hi
        omega
      rcases hi' with rfl | rfl
      · refine Eq.trans (Memory.load_congr fun j hj => ?_) ((Memory.load_store
          (((c.mem.store (0x1000 + 0x0E) 2 (0x1000 + 0x22)).store (0x1000 + 0x10) 2 0)) 0x1022 2 m).trans
            (Nat.mod_eq_of_lt (by omega)))
        exact Memory.store_of_not_mem _ _ (by omega)
      · exact Memory.load_store _ 0x1024 2 0xFFFF
  · intro u c hax
    unfold oneModeBios
    dsimp only
    rw [if_neg (by rw [hax]; decide)]
    refine ⟨⟨fun r hr => ?_, rfl, fun x _ _ hx => ?_⟩, ?_, ?_, fun j hj => ?_⟩
    · exact Cpu.reg_setWord_of_ne _ _ _ _ hr
    · rw [Cpu.mem_setWord]
      exact Memory.copy_of_not_mem _ _ hx
    · rw [Cpu.low_setWord]
      omega
    · rw [Xeos.Boot.ah, Cpu.reg_setWord]
      omega
    · rw [Cpu.mem_setWord]
      refine (Memory.copy_of_mem _ _ ⟨by omega, by omega⟩).trans ?_
      congr 1
      omega

/-- A processor with two buffers below the stack. -/
def vesaCpu : Cpu where
  reg r := match r with
    | .ax => 1280
    | .bx => 1024
    | .cx => 32
    | .dx => 1
    | .sp => 0x1000
    | .di => 0x1000
    | .si => 0x2000
    | .bp => 0
  seg s := if s = .ss then 0x9000 else 0
  flags := 0
  cr _ := 0
  mem _ := 0

theorem vesaCpu_ready (m : Nat) : VesaReady 0x3000 [m] 0 0x1022 ∅ 0 vesaCpu := by
  have htop : vesaCpu.top = 0x91000 := rfl
  have hinfo : infoBlock vesaCpu = 0x1000 := rfl
  have hmode : modeBlock vesaCpu = 0x2000 := rfl
  have hvar : vesaCpu.linear .ds 0x3000 = 0x3000 := rfl
  have hstack : vesaStack = 72 := rfl
  have hlow : ∀ a, a < 0x10000 → ¬ Loose ∅ 0 vesaCpu a ∧ ¬ Framed vesaCpu a := by
    intro a ha
    rw [Loose, Framed, htop, hstack]
    constructor
    · rintro (hown | hbelow)
      · exact hown
      · omega
    · omega
  have hlist : ∀ i, i ≤ [m].length → 16 * 0 + (0x1022 + 2 * i) % 2 ^ 16 < 0x1030 := by
    intro i hi
    rw [List.length_singleton] at hi
    omega
  refine ⟨by decide, rfl, by decide, by decide, fun a ha => absurd ha (Set.notMem_empty a), fun j hj => ?_,
    fun j hj => ?_, fun j hj => ?_, fun i j hi hj => ?_, fun i j hi hj => ?_, fun j hj => ?_,
    fun i j hi hj => ?_, fun i j hi hj => ?_, fun i j k hi hj hk => ?_⟩
  · rw [hinfo]
    exact (hlow _ (by omega)).2
  · rw [hmode]
    exact (hlow _ (by omega)).2
  · rw [hvar]
    exact hlow _ (by omega)
  · rw [hvar, hinfo]
    omega
  · rw [hvar, hmode]
    omega
  · rw [hinfo]
    exact (hlow _ (by omega)).1
  · rw [hinfo, hmode]
    omega
  · have hbound := hlist i hi
    exact (hlow _ (by omega)).1
  · have hbound := hlist i hi
    rw [hmode]
    omega

/-- A mode of 1280 by 1024 with 32 bits. -/
def wantedInfo : Memory :=
  (((Memory.store (fun _ => 0) 0 2 0x91).store 0x12 2 1280).store 0x14 2 1024).store 0x19 1 32

theorem findVESAMode_first_iff_boot :
    FindsFirst (oneModeBios 0x11B ⟨0, wantedInfo⟩) 0x3000 [0x11B] (fun _ => ⟨0, wantedInfo⟩)
      ((), vesaCpu) ↔ NoneRefused (wanted vesaCpu) (fun _ => ⟨0, wantedInfo⟩) [0x11B] :=
  findVESAMode_first_iff (vesaCpu_ready 0x11B) (oneModeBios_vbe _ (by decide) (by decide)) ()

/-- The search does not come past the only mode when the BIOS refuses it. -/
theorem not_findsFirst_refused :
    Vbe (oneModeBios 0x11B ⟨1, wantedInfo⟩) [0x11B] (fun _ => ⟨1, wantedInfo⟩) 0 0x1022 0x1000 ∅ 0 ∧
      VesaReady 0x3000 [0x11B] 0 0x1022 ∅ 0 vesaCpu ∧
      ¬ FindsFirst (oneModeBios 0x11B ⟨1, wantedInfo⟩) 0x3000 [0x11B] (fun _ => ⟨1, wantedInfo⟩)
        ((), vesaCpu) := by
  have hvbe := oneModeBios_vbe (m := 0x11B) ⟨1, wantedInfo⟩ (by decide) (by decide)
  have hready := vesaCpu_ready 0x11B
  refine ⟨hvbe, hready, fun hfinds => ?_⟩
  have hnone := noneRefused_of_findsFirst hready hvbe () hfinds
  exact absurd (hnone 0x11B (by simp [Wanted.accepts])) (by decide)

end Xeos.Boot
