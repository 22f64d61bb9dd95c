import Xeos.Lib.Smp

/-!
# A check of what a routine does to its stack

An analysis of the programs of `Lib.Smp`: for every instruction of a routine, where the stack
pointer stands, which registers and which words of the stack have the value that a register had
at the entry, and whether the zero flag is known to be clear.  `Checked` compares the shape
behind every instruction with the one that the next instruction starts from.

`returns_of_checked` is the use of it: a routine that passes returns, if it does, through the
return address that its caller left, with the registers of the caller, whatever the other
processors do to the memory in the meantime.
-/

namespace Lib.Smp

variable {N : Type}

/-! ## Runs of one call -/

namespace Program

variable (P : Program N)

def instrAt (c : Cpu N) : Option (Instr N) := c.pc.bind fun l => (P.code l.1)[l.2]?

/-- The number of calls that are open after the next instruction.  The call itself ends with
a `ret` outside of them. -/
def depthAfter (d : Nat) (c : Cpu N) : Option Nat :=
  match P.instrAt c, d with
  | some (.call _), d => some (d + 1)
  | some .ret, 0 => none
  | some .ret, d + 1 => some d
  | _, d => some d

/-- A state that the call at `c₀` gets to, inside of `d` calls of its own.  The memory may
change between two instructions in any way. -/
inductive Visits (c₀ : Cpu N) : Nat → Cpu N → Prop
  | start : Visits c₀ 0 c₀
  | step {d d' c c' m m'} (h : Visits c₀ d c) (hdepth : P.depthAfter d c = some d')
      (hstep : P.step c m = some (c', m')) : Visits c₀ d' c'

variable {P} in
/-- The call may get on with an instruction without an operand in memory. -/
theorem Visits.own {c₀ c c' : Cpu N} {n : N} {d d' k : Nat} {i : Instr N} (h : P.Visits c₀ d c)
    (hpc : c.pc = some (n, k)) (hi : (P.code n)[k]? = some i) (hdepth : P.depthAfter d c = some d')
    (hown : P.execOwn n (k + 1) { c with pc := some (n, k + 1) } i = some c') :
    P.Visits c₀ d' c' := by
  refine h.step hdepth (?_ : P.step c (fun _ => 0) = some (c', fun _ => 0))
  rw [Program.step, hpc]
  dsimp only
  rw [hi]
  exact exec_of_execOwn hown _

/-- `silent`, with the number of the calls that are open. -/
def walk : Nat → Nat → Cpu N → Option (Nat × Cpu N)
  | 0, d, c => some (d, c)
  | j + 1, d, c =>
    (P.depthAfter d c).bind fun d' => (P.silent 1 c).bind fun c' => walk j d' c'

variable {P} in
theorem Visits.walk {c₀ c c' : Cpu N} {j d d' : Nat} (h : P.Visits c₀ d c)
    (hwalk : P.walk j d c = some (d', c')) : P.Visits c₀ d' c' := by
  induction j generalizing d c with
  | zero =>
    obtain ⟨rfl, rfl⟩ := Prod.mk.inj (Option.some.inj hwalk)
    exact h
  | succ j ih =>
    obtain ⟨d₁, hdepth, hrest⟩ := Option.bind_eq_some_iff.mp hwalk
    obtain ⟨c₁, hsilent, hrest⟩ := Option.bind_eq_some_iff.mp hrest
    refine ih ?_ hrest
    rw [silent] at hsilent
    split at hsilent
    · cases hsilent
    · next n k hpc =>
      split at hsilent
      · cases hsilent
      · next i hi =>
        obtain ⟨c₂, hown, heq⟩ := Option.bind_eq_some_iff.mp hsilent
        rw [← Option.some.inj heq]
        exact h.own hpc hi hdepth hown

end Program

/-- The registers that a routine has to give back. -/
def savedRegs : List Reg := [.bx, .si, .di, .bp]

/-- The stack pointer, the return address and the saved registers are those at the entry. -/
structure Restored (c₀ c : Cpu N) : Prop where
  sp : c.regs.sp = c₀.regs.sp
  address : ∀ off, c₀.regs.sp = .slot off → c.stack off = c₀.stack off
  regs : ∀ r ∈ savedRegs, c.regs.get r = c₀.regs.get r

/-- Where the call returns, it pops its return address and has restored the registers. -/
def Program.ReturnsClean (P : Program N) (c₀ : Cpu N) : Prop :=
  ∀ c, P.Visits c₀ 0 c → P.instrAt c = some .ret → Restored c₀ c

/-! ## Shapes -/

namespace StackCheck

/-- What is known of a value: it is that of a register at the entry, a place in the stack
counted from the entry, or a number that is not zero. -/
inductive Known
  | any
  | initial (r : Reg)
  | slot (off : Int)
  | nonzero
deriving DecidableEq, Repr

def lookup {κ : Type} [DecidableEq κ] : List (κ × Known) → κ → Known
  | [], _ => .any
  | (k', v) :: e, k => if k = k' then v else lookup e k

theorem lookup_cons {κ : Type} [DecidableEq κ] (p : κ × Known) (e : List (κ × Known)) (k : κ) :
    lookup (p :: e) k = if k = p.1 then p.2 else lookup e k := rfl

/-- What the first list knows, the second one knows as well. -/
def weaker {κ : Type} [DecidableEq κ] (e e' : List (κ × Known)) : Bool :=
  e.all fun p => lookup e p.1 = .any ∨ lookup e p.1 = lookup e' p.1

structure Shape where
  /-- Counted from the entry. -/
  sp : Int
  regs : List (Reg × Known)
  cells : List (Int × Known)
  /-- The zero flag is known to be clear. -/
  nz : Bool

namespace Shape

def reg (σ : Shape) : Reg → Known
  | .sp => .slot σ.sp
  | r => lookup σ.regs r

def cell (σ : Shape) (off : Int) : Known := lookup σ.cells off

def setReg (σ : Shape) (r : Reg) (v : Known) : Shape := { σ with regs := (r, v) :: σ.regs }

def setCell (σ : Shape) (off : Int) (v : Known) : Shape := { σ with cells := (off, v) :: σ.cells }

/-- A value that is not known in a register other than the stack pointer. -/
def forget (σ : Shape) (r : Reg) : Option Shape :=
  if r = .sp then none else some (σ.setReg r .any)

def flags (σ : Shape) : Shape := { σ with nz := false }

/-- The shape at the entry, where some arguments are known not to be zero. -/
def start (nonzero : List Int) : Shape where
  sp := 0
  regs := savedRegs.map fun r => (r, .initial r)
  cells := nonzero.map fun off => (off, .nonzero)
  nz := false

/-- Everything that the first shape knows. -/
def le (σ τ : Shape) : Bool :=
  decide (σ.sp = τ.sp) && weaker σ.regs τ.regs && weaker σ.cells τ.cells && (!σ.nz || τ.nz)

/-- The place in the stack of an operand. -/
def slotOf (σ : Shape) (base : Reg) (disp : Nat) : Option Int :=
  match σ.reg base with
  | .slot off => some (off + disp)
  | _ => none

/-- What is read from an operand of a whole register's width. -/
def read (σ : Shape) : Operand → Known
  | .reg r => σ.reg r
  | .stack base disp => (σ.slotOf base disp).elim .any σ.cell
  | .imm _ | .mem .. => .any

end Shape

section

variable (P : Program N)

/-- The size of a word of the stack. -/
def wordSize : Int := (P.bits / 8 : Nat)

/-- Behind a call: the callee keeps what is in the stack above its return address. -/
def behindCall (σ : Shape) : Shape where
  sp := σ.sp
  regs := [(.ax, .any), (.cx, .any), (.dx, .any)] ++ σ.regs
  cells := σ.cells.filter fun p => σ.sp ≤ p.1
  nz := false

/-- The shape behind an operation of arithmetic, which may be on the stack pointer. -/
def nextArith (σ : Shape) (op : Arith) (w : Nat) (r : Reg) (src : Operand) : Option Shape :=
  if r = .sp then
    match op, src with
    | .add, .imm v => some { σ with sp := σ.sp + (v % 2 ^ w : Nat) }
    | .sub, .imm v => some { σ with sp := σ.sp - (v % 2 ^ w : Nat) }
    | _, _ => none
  else σ.flags.forget r

/-- What a move of `w` bits copies. -/
def copied (σ : Shape) (w : Nat) (src : Operand) : Known :=
  if w = P.bits ∧ 32 ≤ w then σ.read src else .any

/-- The shape behind an instruction that does not jump. -/
def next (σ : Shape) : Instr N → Option Shape
  | .mov w (.reg r) src => if r = .sp then none else some (σ.setReg r (copied P σ w src))
  | .mov w (.stack base disp) src =>
    match σ.slotOf base disp with
    | some off => if off < 0 then some (σ.setCell off (copied P σ w src)) else none
    | none => none
  | .mov _ (.mem ..) _ => some σ
  | .arith op w r src => nextArith σ.flags op w r src
  | .cmp w a b =>
    some { σ with nz := decide (w = P.bits ∧ σ.read a = .nonzero ∧ b = .imm 0) }
  | .test .. => some σ.flags
  | .shl _ r _ | .shr _ r _ | .shld _ r _ _ | .shrd _ r _ _ => σ.flags.forget r
  | .push r =>
    if σ.sp ≤ 0 ∧ 0 < wordSize P ∧ r ≠ .sp then
      some ({ (σ.setReg r .any).setCell (σ.sp - wordSize P) (σ.reg r) with
        sp := σ.sp - wordSize P })
    else none
  | .pop r =>
    if r = .sp then none
    else some { σ.setReg r (σ.cell σ.sp) with sp := σ.sp + wordSize P }
  | .sete r | .setc r | .movzx r _ => σ.forget r
  | .lock (.xadd _ _ r) => σ.flags.forget r
  | .lock (.cmpxchg ..) => σ.flags.forget .ax
  | .lock (.cmpxchg8b _) => (σ.flags.forget .ax).bind fun σ => σ.forget .dx
  | .lock (.bitTest ..) => some σ
  | .mfence | .pause => some σ
  | .call _ => some (behindCall σ)
  | .je _ | .jnz _ | .jmp _ | .tail _ | .ret => some σ
  | _ => none

/-- The shapes in front of the instructions, one after the other. -/
def scan (σ : Shape) : List (Instr N) → List Shape
  | [] => []
  | i :: is =>
    match next P σ i with
    | some τ => σ :: scan τ is
    | none => [σ]

/-- A jump to `k` finds a shape that asks for no more. -/
def leAt (table : List Shape) (k : Nat) (σ : Shape) : Bool :=
  match table[k]? with
  | some τ => τ.le σ
  | none => false

/-- What an instruction leaves is enough for the one behind it. -/
def nextLe (table : List Shape) (k : Nat) (σ : Shape) (i : Instr N) : Bool :=
  match next P σ i with
  | some τ => leAt table (k + 1) τ
  | none => false

/-- The check of the instruction `k`, where the routines of `ok` may be called. -/
def checkAt [DecidableEq N] (ok : List N) (table : List Shape) (k : Nat) (σ : Shape) :
    Instr N → Bool
  | .je t => (σ.nz || leAt table t σ) && leAt table (k + 1) σ
  | .jnz t => leAt table t σ && leAt table (k + 1) σ
  | .jmp t => leAt table t σ
  | .tail n => decide (n ∈ ok) && (Shape.start []).le σ
  | .ret => (Shape.start []).le σ
  | .call n =>
    decide (n ∈ ok) && decide (σ.sp ≤ 0 ∧ 0 < wordSize P) && leAt table (k + 1) (behindCall σ)
  | i => nextLe P table k σ i

end

/-- The check of a routine that starts with the shape `σ`. -/
def Checked [DecidableEq N] (P : Program N) (ok : List N) (σ : Shape) (n : N) : Bool :=
  (List.range (P.code n).length).all fun k =>
    match (scan P σ (P.code n))[k]?, (P.code n)[k]? with
    | some τ, some i => checkAt P ok (scan P σ (P.code n)) k τ i
    | _, _ => false

/-! ## What the shapes say -/

/-- The value is what is known of it, for the entry at `c₀` with the stack pointer at `b`. -/
def Known.Holds (P : Program N) (c₀ : Cpu N) (b : Int) : Known → Val N → Prop
  | .any, _ => True
  | .initial r, v => v = c₀.regs.get r
  | .slot off, v => v = .slot (b + off)
  | .nonzero, v => ∃ w, v = .word w ∧ w % 2 ^ P.bits ≠ 0

/-- A state of the shape.  What the caller has in the stack is as it was. -/
structure Shape.Matches (P : Program N) (c₀ : Cpu N) (b : Int) (σ : Shape) (c : Cpu N) : Prop where
  regs : ∀ r, (σ.reg r).Holds P c₀ b (c.regs.get r)
  cells : ∀ off, (σ.cell off).Holds P c₀ b (c.stack (b + off))
  above : ∀ off, 0 ≤ off → c.stack (b + off) = c₀.stack (b + off)
  nz : σ.nz = true → c.zf = false

section

variable {P : Program N} {c₀ c c' : Cpu N} {b : Int} {σ τ : Shape} {v : Val N} {κ : Known}
variable {m m' : Memory} {n : N} {k : Nat} {r : Reg}

theorem regs_get_set (regs : Regs N) (v : Val N) (x y : Reg) :
    (regs.set v x).get y = if y = x then v else regs.get y := by
  cases x <;> cases y <;> rfl

theorem Shape.reg_setReg (hr : r ≠ .sp) (x : Reg) :
    (σ.setReg r κ).reg x = if x = r then κ else σ.reg x := by
  cases x with
  | sp => rw [if_neg (Ne.symm hr)]; rfl
  | _ => rfl

theorem lookup_weaker {κ : Type} [DecidableEq κ] {e e' : List (κ × Known)}
    (h : weaker e e' = true) (k : κ) : lookup e k = .any ∨ lookup e k = lookup e' k := by
  have hmem : ∀ l : List (κ × Known), lookup l k = .any ∨ ∃ p ∈ l, p.1 = k := by
    intro l
    induction l with
    | nil => exact Or.inl rfl
    | cons p l ih =>
      rw [lookup_cons]
      by_cases hk : k = p.1
      · exact Or.inr ⟨p, List.mem_cons_self, hk.symm⟩
      · rw [if_neg hk]
        exact ih.imp_right fun ⟨q, hq, heq⟩ => ⟨q, List.mem_cons_of_mem _ hq, heq⟩
  rcases hmem e with hany | ⟨p, hp, rfl⟩
  · exact Or.inl hany
  · exact of_decide_eq_true (List.all_eq_true.mp h p hp)

theorem Known.Holds.of_eq_or (h : κ.Holds P c₀ b v) {κ' : Known} (hle : κ' = .any ∨ κ' = κ) :
    κ'.Holds P c₀ b v := by
  rcases hle with rfl | rfl
  · trivial
  · exact h

namespace Shape.Matches

theorem sp (h : σ.Matches P c₀ b c) : c.regs.sp = .slot (b + σ.sp) := h.regs .sp

/-- A weaker shape. -/
theorem mono (h : τ.Matches P c₀ b c) (hle : σ.le τ = true) : σ.Matches P c₀ b c := by
  unfold Shape.le at hle
  simp only [Bool.and_eq_true, decide_eq_true_eq, Bool.or_eq_true, Bool.not_eq_true'] at hle
  obtain ⟨⟨⟨hsp, hregs⟩, hcells⟩, hnz⟩ := hle
  refine ⟨fun r => ?_, fun off => ?_, h.above, fun hσ => ?_⟩
  · have hr := h.regs r
    cases r with
    | sp =>
      rw [Shape.reg, hsp]
      exact hr
    | _ => exact hr.of_eq_or (lookup_weaker hregs _)
  · exact (h.cells off).of_eq_or (lookup_weaker hcells off)
  · exact h.nz (hnz.resolve_left (by rw [hσ]; decide))

/-- Other flags. -/
theorem flags (h : σ.Matches P c₀ b c) (zf cf : Bool) :
    σ.flags.Matches P c₀ b { c with zf := zf, cf := cf } :=
  ⟨h.regs, h.cells, h.above, nofun⟩

theorem pc (h : σ.Matches P c₀ b c) (l : Loc N) : σ.Matches P c₀ b { c with pc := l } :=
  ⟨h.regs, h.cells, h.above, h.nz⟩

theorem setReg (h : σ.Matches P c₀ b c) (hr : r ≠ .sp) (hv : κ.Holds P c₀ b v) :
    (σ.setReg r κ).Matches P c₀ b (Program.setReg c r v) := by
  refine ⟨fun x => ?_, h.cells, h.above, h.nz⟩
  rw [Shape.reg_setReg hr, Program.setReg, regs_get_set]
  by_cases hx : x = r
  · rw [if_pos hx, if_pos hx]
    exact hv
  · rw [if_neg hx, if_neg hx]
    exact h.regs x

/-- What is known of the register may be left out. -/
theorem weaken (h : σ.Matches P c₀ b c) (hr : r ≠ .sp) : (σ.setReg r .any).Matches P c₀ b c := by
  refine ⟨fun x => ?_, h.cells, h.above, h.nz⟩
  rw [Shape.reg_setReg hr]
  split_ifs
  · trivial
  · exact h.regs x

theorem setSp (h : σ.Matches P c₀ b c) (off : Int) :
    ({ σ with sp := off } : Shape).Matches P c₀ b (Program.setReg c .sp (.slot (b + off))) := by
  refine ⟨fun x => ?_, h.cells, h.above, h.nz⟩
  have hx := h.regs x
  rw [Program.setReg, regs_get_set]
  cases x with
  | sp => rfl
  | _ => exact hx

theorem setSlot (h : σ.Matches P c₀ b c) {off : Int} (hoff : off < 0) (hv : κ.Holds P c₀ b v) :
    (σ.setCell off κ).Matches P c₀ b (Program.setSlot c (b + off) v) := by
  refine ⟨h.regs, fun x => ?_, fun x hx => ?_, h.nz⟩
  · show Known.Holds P c₀ b (if x = off then κ else σ.cell x)
      (if b + x = b + off then v else c.stack (b + x))
    by_cases heq : x = off
    · rw [if_pos heq, if_pos (by rw [heq])]
      exact hv
    · rw [if_neg heq, if_neg (by omega)]
      exact h.cells x
  · show (if b + x = b + off then v else c.stack (b + x)) = _
    rw [if_neg (by omega)]
    exact h.above x hx

/-- Nothing is known of the register any more. -/
theorem forget (h : σ.Matches P c₀ b c) (hτ : σ.forget r = some τ) (v : Val N) :
    τ.Matches P c₀ b (Program.setReg c r v) := by
  unfold Shape.forget at hτ
  by_cases hr : r = .sp
  · rw [if_pos hr] at hτ
    exact nomatch hτ
  · rw [if_neg hr] at hτ
    rw [← Option.some.inj hτ]
    exact h.setReg hr trivial

theorem forget_flags (h : σ.Matches P c₀ b c) (hτ : σ.flags.forget r = some τ) (v : Val N)
    (zf cf : Bool) : τ.Matches P c₀ b { Program.setReg c r v with zf := zf, cf := cf } :=
  (h.flags zf cf).forget hτ v

theorem slotOf (h : σ.Matches P c₀ b c) {base : Reg} {disp : Nat} {off off' : Int}
    (hσ : σ.slotOf base disp = some off) (hc : Program.slotOf c base disp = some off') :
    off' = b + off := by
  have hbase := h.regs base
  unfold Shape.slotOf at hσ
  unfold Program.slotOf at hc
  split at hσ
  · next o heq =>
    rw [heq] at hbase
    rw [show c.regs.get base = .slot (b + o) from hbase] at hc
    have h1 := Option.some.inj hσ
    have h2 := Option.some.inj hc
    omega
  · exact nomatch hσ

/-- What is read. -/
theorem read (h : σ.Matches P c₀ b c) {src : Operand} (hv : P.read P.bits c src = some v) :
    (σ.read src).Holds P c₀ b v := by
  have hnarrow : ∀ v, P.narrow P.bits v = some v := fun v => if_pos rfl
  cases src with
  | reg r =>
    rw [Program.read, hnarrow] at hv
    rw [← Option.some.inj hv]
    exact h.regs r
  | stack base disp =>
    obtain ⟨off', hoff', hv⟩ := Option.bind_eq_some_iff.mp hv
    rw [hnarrow] at hv
    rw [← Option.some.inj hv]
    show ((σ.slotOf base disp).elim .any σ.cell).Holds P c₀ b (c.stack off')
    cases hσ : σ.slotOf base disp with
    | none => trivial
    | some off =>
      rw [h.slotOf hσ hoff']
      exact h.cells off
  | imm => trivial
  | mem => trivial

end Shape.Matches

/-- An instruction that goes on with the next one. -/
def straight : Instr N → Bool
  | .je _ | .jnz _ | .jmp _ | .tail _ | .call _ | .ret => false
  | _ => true

/-- An instruction without an operand in memory. -/
def own : Instr N → Bool
  | .mov _ (.reg _) (.mem ..) | .mov _ (.mem ..) _ | .lock _ => false
  | _ => true

theorem execOwn_of_exec {i : Instr N} (hi : own i = true)
    (hexec : P.exec n k c m i = some (c', m')) : P.execOwn n k c i = some c' := by
  have hmap : (P.execOwn n k c i).map (fun c => (c, m)) = some (c', m') := by
    cases i with
    | mov w dst src =>
      cases dst with
      | mem => exact nomatch hi
      | reg =>
        cases src with
        | mem => exact nomatch hi
        | _ => exact hexec
      | _ => exact hexec
    | lock => exact nomatch hi
    | _ => exact hexec
  obtain ⟨c'', hown, heq⟩ := Option.map_eq_some_iff.mp hmap
  rw [hown, (Prod.mk.inj heq).1]

/-- A move to a register. -/
theorem next_mov_reg {w : Nat} {src : Operand} (h : σ.Matches P c₀ b c)
    (hnext : next P σ (.mov w (.reg r) src) = some τ)
    (hexec : P.exec n k c m (.mov w (.reg r) src) = some (c', m')) :
    τ.Matches P c₀ b c' ∧ c'.pc = c.pc := by
  have hr : r ≠ .sp := by
    rintro rfl
    exact nomatch hnext
  unfold next at hnext
  dsimp only at hnext
  rw [if_neg hr] at hnext
  rw [← Option.some.inj hnext]
  have hown : ∀ v, P.read w c src = some v → Program.write w c v (.reg r) = some c' →
      (σ.setReg r (copied P σ w src)).Matches P c₀ b c' ∧ c'.pc = c.pc := by
    intro v hv hwrite
    obtain ⟨v', hmerge, rfl⟩ := Option.map_eq_some_iff.mp hwrite
    refine ⟨h.setReg hr ?_, rfl⟩
    unfold copied
    split_ifs with hw
    · obtain ⟨rfl, hw⟩ := hw
      unfold Program.merge at hmerge
      rw [if_pos hw] at hmerge
      rw [← Option.some.inj hmerge]
      exact h.read hv
    · trivial
  have hbind : ∀ o, P.execOwn n k c (.mov w (.reg r) o) = some c' → o = src →
      (σ.setReg r (copied P σ w src)).Matches P c₀ b c' ∧ c'.pc = c.pc := by
    rintro o ho rfl
    obtain ⟨v, hv, hwrite⟩ := Option.bind_eq_some_iff.mp ho
    exact hown v hv hwrite
  cases src with
  | mem base disp =>
    obtain ⟨a, -, heq⟩ := Option.map_eq_some_iff.mp hexec
    rw [← (Prod.mk.inj heq).1]
    refine ⟨h.setReg hr ?_, rfl⟩
    unfold copied
    split_ifs <;> trivial
  | reg | imm | stack => exact hbind _ (execOwn_of_exec rfl hexec) rfl

/-- A move to the stack. -/
theorem next_mov_stack {w disp : Nat} {base : Reg} {src : Operand} (h : σ.Matches P c₀ b c)
    (hnext : next P σ (.mov w (.stack base disp) src) = some τ)
    (hexec : P.exec n k c m (.mov w (.stack base disp) src) = some (c', m')) :
    τ.Matches P c₀ b c' ∧ c'.pc = c.pc := by
  have hbind : (P.read w c src).bind (fun v => Program.write w c v (.stack base disp)) = some c' :=
    execOwn_of_exec rfl hexec
  obtain ⟨v, hv, hwrite⟩ := Option.bind_eq_some_iff.mp hbind
  obtain ⟨off', hoff', rfl⟩ := Option.map_eq_some_iff.mp hwrite
  unfold next at hnext
  dsimp only at hnext
  split at hnext
  · next off hoff =>
    split_ifs at hnext with hneg
    rw [← Option.some.inj hnext, h.slotOf hoff hoff']
    refine ⟨h.setSlot hneg ?_, rfl⟩
    unfold copied
    split_ifs with hw
    · obtain ⟨rfl, -⟩ := hw
      exact h.read hv
    · trivial
  · exact nomatch hnext

/-- Arithmetic. -/
theorem next_arith {op : Arith} {w : Nat} {src : Operand} (h : σ.Matches P c₀ b c)
    (hnext : nextArith σ.flags op w r src = some τ) (hexec : P.execArith op w r src c = some c') :
    τ.Matches P c₀ b c' ∧ c'.pc = c.pc := by
  unfold nextArith at hnext
  by_cases hr : r = .sp
  · subst hr
    rw [if_pos rfl] at hnext
    have hsp : c.regs.get .sp = .slot (b + σ.sp) := h.sp
    have himm : ∀ v, P.readWord w c (.imm v) = some (v % 2 ^ w) := by
      intro v
      show some (v % 2 ^ w % 2 ^ w) = _
      rw [Nat.mod_mod]
    split at hnext
    · next v =>
      unfold Program.execArith at hexec
      rw [if_neg (fun h => nomatch h.1)] at hexec
      simp only [hsp, himm] at hexec
      rw [← Option.some.inj hnext, ← Option.some.inj hexec, Int.add_assoc]
      exact ⟨(h.flags c.zf c.cf).setSp _, rfl⟩
    · next v =>
      unfold Program.execArith at hexec
      rw [if_neg (fun h => nomatch h.1)] at hexec
      simp only [hsp, himm] at hexec
      rw [← Option.some.inj hnext, ← Option.some.inj hexec, Int.add_sub_assoc]
      exact ⟨(h.flags c.zf c.cf).setSp _, rfl⟩
    · exact nomatch hnext
  · rw [if_neg hr] at hnext
    unfold Program.execArith at hexec
    split_ifs at hexec
    · rw [← Option.some.inj hexec]
      exact ⟨h.forget_flags hnext _ _ _, rfl⟩
    · split at hexec
      · rw [← Option.some.inj hexec]
        exact ⟨h.forget_flags hnext _ _ _, rfl⟩
      · rw [← Option.some.inj hexec]
        exact ⟨h.forget_flags hnext _ _ _, rfl⟩
      · rw [← Option.some.inj hexec]
        exact ⟨h.forget_flags hnext _ _ _, rfl⟩
      · exact nomatch hexec

/-- A shift. -/
theorem next_shift {shift : Nat → Nat → Nat × Bool} {w : Nat} {src : Val N}
    (h : σ.Matches P c₀ b c) (hnext : σ.flags.forget r = some τ)
    (hexec : Program.execShift shift w r src c = some c') :
    τ.Matches P c₀ b c' ∧ c'.pc = c.pc := by
  unfold Program.execShift at hexec
  split at hexec
  · rw [← Option.some.inj hexec]
    exact ⟨h.forget_flags hnext _ _ _, rfl⟩
  · exact nomatch hexec

/-- A comparison. -/
theorem next_cmp {w : Nat} {x y : Operand} (h : σ.Matches P c₀ b c)
    (hnext : next P σ (.cmp w x y) = some τ)
    (hexec : P.execOwn n k c (.cmp w x y) = some c') : τ.Matches P c₀ b c' ∧ c'.pc = c.pc := by
  unfold Program.execOwn at hexec
  dsimp only at hexec
  split at hexec
  · next u v hu hv =>
    rw [← Option.some.inj hnext, ← Option.some.inj hexec]
    refine ⟨⟨h.regs, h.cells, h.above, fun hnz => ?_⟩, rfl⟩
    obtain ⟨rfl, hx, rfl⟩ := of_decide_eq_true hnz
    obtain ⟨x', hx', hlow⟩ := Option.bind_eq_some_iff.mp hu
    have hknown := h.read hx'
    rw [hx] at hknown
    obtain ⟨u', rfl, hne⟩ := hknown
    have hv0 : v = 0 := (Option.some.inj hv).symm.trans (by rw [Nat.zero_mod, Nat.zero_mod])
    rw [hv0, ← Option.some.inj hlow]
    exact beq_eq_false_iff_ne.mpr hne
  · cases hexec

theorem next_test {w : Nat} {x y : Operand} (h : σ.Matches P c₀ b c)
    (hnext : next P σ (.test w x y) = some τ)
    (hexec : P.execOwn n k c (.test w x y) = some c') : τ.Matches P c₀ b c' ∧ c'.pc = c.pc := by
  unfold Program.execOwn at hexec
  dsimp only at hexec
  split at hexec
  · rw [← Option.some.inj hnext, ← Option.some.inj hexec]
    exact ⟨h.flags _ _, rfl⟩
  · cases hexec

theorem next_push (h : σ.Matches P c₀ b c) (hnext : next P σ (.push r) = some τ)
    (hexec : P.execOwn n k c (.push r) = some c') : τ.Matches P c₀ b c' ∧ c'.pc = c.pc := by
  unfold next at hnext
  dsimp only at hnext
  split_ifs at hnext with hσ
  obtain ⟨hsp, hword, hr⟩ := hσ
  unfold Program.execOwn at hexec
  simp only [Program.pushVal, h.sp] at hexec
  rw [← Option.some.inj hnext, ← Option.some.inj hexec]
  rw [show b + σ.sp - (P.bits / 8 : Nat) = b + (σ.sp - wordSize P) from Int.add_sub_assoc ..]
  exact ⟨((h.weaken hr).setSp _).setSlot (by omega) (h.regs r), rfl⟩

theorem next_pop (h : σ.Matches P c₀ b c) (hnext : next P σ (.pop r) = some τ)
    (hexec : P.execOwn n k c (.pop r) = some c') : τ.Matches P c₀ b c' ∧ c'.pc = c.pc := by
  unfold next at hnext
  dsimp only at hnext
  split_ifs at hnext with hr
  unfold Program.execOwn at hexec
  simp only [Program.popVal, h.sp, Option.map_some] at hexec
  rw [← Option.some.inj hnext, ← Option.some.inj hexec]
  rw [show b + σ.sp + (P.bits / 8 : Nat) = b + (σ.sp + wordSize P) from Int.add_assoc ..]
  exact ⟨(h.setSp _).setReg hr (h.cells σ.sp), rfl⟩

/-- A write of a register from the low byte of another one. -/
theorem next_byte {f : Nat → Val N} {x : Reg} (h : σ.Matches P c₀ b c)
    (hnext : σ.forget r = some τ)
    (hexec : (match c.regs.get x with
      | .word v => some (Program.setReg c r (f v))
      | _ => none) = some c') : τ.Matches P c₀ b c' ∧ c'.pc = c.pc := by
  split at hexec
  · rw [← Option.some.inj hexec]
    exact ⟨h.forget hnext _, rfl⟩
  · exact nomatch hexec

/-- A locked instruction. -/
theorem next_locked {i : Instr N} (h : σ.Matches P c₀ b c) (hnext : next P σ (.lock i) = some τ)
    (hexec : P.execLocked c m i = some (c', m')) : τ.Matches P c₀ b c' ∧ c'.pc = c.pc := by
  have hax : Reg.ax ≠ .sp := nofun
  have hdx : Reg.dx ≠ .sp := nofun
  unfold Program.execLocked at hexec
  split at hexec
  · split at hexec
    · rw [← (Prod.mk.inj (Option.some.inj hexec)).1]
      exact ⟨h.forget_flags hnext _ _ _, rfl⟩
    · exact nomatch hexec
  · split at hexec
    · dsimp only at hexec
      split_ifs at hexec
      · rw [← (Prod.mk.inj (Option.some.inj hexec)).1]
        rw [← Option.some.inj hnext]
        exact ⟨(h.flags true c.cf).weaken hax, rfl⟩
      · obtain ⟨v, -, heq⟩ := Option.map_eq_some_iff.mp hexec
        rw [← (Prod.mk.inj heq).1]
        exact ⟨h.forget_flags hnext v false c.cf, rfl⟩
    · exact nomatch hexec
  · have hτ : ((σ.setReg .ax .any).setReg .dx .any).flags = τ := Option.some.inj hnext
    split at hexec
    · dsimp only at hexec
      rw [← hτ]
      split_ifs at hexec
      · rw [← (Prod.mk.inj (Option.some.inj hexec)).1]
        exact ⟨((h.weaken hax).weaken hdx).flags true c.cf, rfl⟩
      · rw [← (Prod.mk.inj (Option.some.inj hexec)).1]
        exact ⟨((h.forget (r := .ax) rfl _).forget (r := .dx) rfl _).flags false c.cf, rfl⟩
    · exact nomatch hexec
  · split at hexec
    · rw [← (Prod.mk.inj (Option.some.inj hexec)).1, ← Option.some.inj hnext]
      exact ⟨⟨h.regs, h.cells, h.above, h.nz⟩, rfl⟩
    · exact nomatch hexec
  · exact nomatch hexec

/-- What an instruction makes of the state has the next shape. -/
theorem next_sound {i : Instr N} (h : σ.Matches P c₀ b c) (hi : straight i = true)
    (hnext : next P σ i = some τ) (hexec : P.exec n k c m i = some (c', m')) :
    τ.Matches P c₀ b c' ∧ c'.pc = c.pc := by
  cases i with
  | mov w dst src =>
    cases dst with
    | reg r => exact next_mov_reg h hnext hexec
    | stack base disp => exact next_mov_stack h hnext hexec
    | imm v => exact nomatch hnext
    | mem base disp =>
      rw [← Option.some.inj hnext]
      simp only [Program.exec] at hexec
      split at hexec
      · rw [← (Prod.mk.inj (Option.some.inj hexec)).1]
        exact ⟨h, rfl⟩
      · exact nomatch hexec
  | lock i => exact next_locked h hnext hexec
  | je | jnz | jmp | tail | call | ret => exact nomatch hi
  | arith op w r src => exact next_arith h hnext (execOwn_of_exec rfl hexec)
  | cmp w x y => exact next_cmp h hnext (execOwn_of_exec rfl hexec)
  | test w x y => exact next_test h hnext (execOwn_of_exec rfl hexec)
  | push r => exact next_push h hnext (execOwn_of_exec rfl hexec)
  | pop r => exact next_pop h hnext (execOwn_of_exec rfl hexec)
  | push16 | pop16 | xadd | cmpxchg | cmpxchg8b | bitTest => exact nomatch hnext
  | shl | shr | shld | shrd =>
    have hown := execOwn_of_exec rfl hexec
    unfold Program.execOwn at hown
    dsimp only at hown
    exact next_shift h hnext hown
  | sete | setc | movzx =>
    have hown := execOwn_of_exec rfl hexec
    unfold Program.execOwn at hown
    dsimp only at hown
    exact next_byte h hnext hown
  | mfence | pause =>
    have hc := execOwn_of_exec rfl hexec
    rw [← Option.some.inj hnext, ← Option.some.inj hc]
    exact ⟨h, rfl⟩

/-! ## Calls and returns -/

/-- The state behind a call that started at `c₁`, with the return address at `b₁`. -/
structure Returned (P : Program N) (c₁ : Cpu N) (b₁ : Int) (c : Cpu N) : Prop where
  sp : c.regs.sp = .slot (b₁ + wordSize P)
  regs : ∀ r ∈ savedRegs, c.regs.get r = c₁.regs.get r
  above : ∀ off, b₁ ≤ off → c.stack off = c₁.stack off

theorem lookup_filter (p : Int → Bool) (l : List (Int × Known)) (off : Int) :
    lookup (l.filter fun q => p q.1) off = if p off then lookup l off else .any := by
  induction l with
  | nil => exact (ite_self Known.any).symm
  | cons q l ih =>
    by_cases hq : p q.1
    · rw [List.filter_cons_of_pos (p := fun q : Int × Known => p q.1) hq, lookup_cons, lookup_cons, ih]
      by_cases hoff : off = q.1
      · rw [if_pos hoff, hoff, if_pos hq, if_pos rfl]
      · rw [if_neg hoff, if_neg hoff]
    · rw [List.filter_cons_of_neg (p := fun q : Int × Known => p q.1) hq, ih, lookup_cons]
      by_cases hoff : off = q.1
      · rw [hoff, if_neg hq, if_neg hq]
      · rw [if_neg hoff]

/-- A callee that gives everything back leaves the shape of its caller. -/
theorem Shape.Matches.behindCall {c₁ : Cpu N} {b₁ : Int} (h : σ.Matches P c₀ b c)
    (hsp : σ.sp ≤ 0) (hb₁ : b₁ = b + σ.sp - wordSize P) (hword : 0 < wordSize P)
    (hregs : ∀ r ∈ savedRegs, c₁.regs.get r = c.regs.get r)
    (hstack : ∀ off, b₁ < off → c₁.stack off = c.stack off) (hret : Returned P c₁ b₁ c') :
    (behindCall σ).Matches P c₀ b c' := by
  have hkept : ∀ off, σ.sp ≤ off → c'.stack (b + off) = c.stack (b + off) := fun off hoff =>
    (hret.above _ (by omega)).trans (hstack _ (by omega))
  have hsaved : ∀ r ∈ savedRegs, c'.regs.get r = c.regs.get r := fun r hr =>
    (hret.regs r hr).trans (hregs r hr)
  refine ⟨fun r => ?_, fun off => ?_, fun off hoff => ?_, nofun⟩
  · cases r with
    | sp =>
      show c'.regs.sp = .slot (b + σ.sp)
      rw [hret.sp, hb₁, Int.sub_add_cancel]
    | ax | cx | dx => trivial
    | bx =>
      rw [hsaved .bx (by decide)]
      exact h.regs .bx
    | si =>
      rw [hsaved .si (by decide)]
      exact h.regs .si
    | di =>
      rw [hsaved .di (by decide)]
      exact h.regs .di
    | bp =>
      rw [hsaved .bp (by decide)]
      exact h.regs .bp
  · rw [Shape.cell, StackCheck.behindCall,
      lookup_filter (fun x => decide (σ.sp ≤ x))]
    split_ifs with hoff
    · rw [hkept off (of_decide_eq_true hoff)]
      exact h.cells off
    · trivial
  · rw [hkept off (by omega)]
    exact h.above off hoff

theorem scan_zero {is : List (Instr N)} (his : is ≠ []) (σ₀ : Shape) :
    (scan P σ₀ is)[0]? = some σ₀ := by
  cases is with
  | nil => exact absurd rfl his
  | cons i is =>
    unfold scan
    split <;> rfl

/-- At the entry. -/
theorem start_matches {args : List Int} (hsp : c.regs.sp = .slot b)
    (hargs : ∀ off ∈ args, ∃ w, c.stack (b + off) = .word w ∧ w % 2 ^ P.bits ≠ 0) :
    (Shape.start args).Matches P c b c := by
  refine ⟨fun r => ?_, fun off => ?_, fun off _ => rfl, nofun⟩
  · cases r with
    | sp => exact hsp.trans (congrArg Val.slot (Int.add_zero b).symm)
    | ax | cx | dx => trivial
    | bx | si | di | bp => rfl
  · have hcell : ∀ l : List Int, (∀ x ∈ l, x ∈ args) →
        (lookup (l.map fun x => (x, Known.nonzero)) off).Holds P c b (c.stack (b + off)) := by
      intro l
      induction l with
      | nil => exact fun _ => trivial
      | cons x l ih =>
        intro hl
        rw [List.map_cons, lookup_cons]
        split_ifs with hx
        · rw [hx]
          exact hargs x (hl x List.mem_cons_self)
        · exact ih fun y hy => hl y (List.mem_cons_of_mem _ hy)
    exact hcell args fun _ hx => hx

/-- The state behind a `ret`. -/
theorem returned_of_ret (h : (Shape.start []).Matches P c₀ b c)
    (hexec : P.exec n k c m .ret = some (c', m')) :
    Returned P c₀ b c' ∧ ∀ l, c₀.stack b = .loc l → c'.pc = l := by
  have hown : P.execOwn n k c .ret = some c' := execOwn_of_exec rfl hexec
  have hsp : c.regs.sp = .slot b := h.sp.trans (congrArg Val.slot (Int.add_zero b))
  have habove : ∀ off, b ≤ off → c.stack off = c₀.stack off := by
    intro off hoff
    have habove := h.above (off - b) (by omega)
    rwa [show b + (off - b) = off by omega] at habove
  unfold Program.execOwn Program.popVal at hown
  rw [hsp] at hown
  dsimp only at hown
  split at hown
  · next c₂ l heq =>
    obtain ⟨rfl, hl⟩ := Prod.mk.inj (Option.some.inj heq)
    rw [← Option.some.inj hown]
    refine ⟨⟨rfl, fun r hr => ?_, habove⟩, fun l' hl' => ?_⟩
    · have hkept := h.regs r
      cases r with
      | bx | si | di | bp => exact hkept
      | ax | cx | dx | sp => exact absurd hr (by decide)
    · rw [← habove b (Int.le_refl b), hl] at hl'
      exact Val.loc.inj hl'
  · cases hown

theorem depthAfter_succ {d d' : Nat} (hret : ¬ (P.instrAt c = some .ret ∧ d = 0))
    (h : P.depthAfter (d + 1) c = some d') : ∃ d₁, P.depthAfter d c = some d₁ ∧ d' = d₁ + 1 := by
  unfold Program.depthAfter at h ⊢
  cases hi : P.instrAt c with
  | none =>
    rw [hi] at h
    exact ⟨d, rfl, (Option.some.inj h).symm⟩
  | some i =>
    rw [hi] at h
    cases i with
    | ret =>
      cases d with
      | zero => exact absurd ⟨hi, rfl⟩ hret
      | succ d => exact ⟨d, rfl, (Option.some.inj h).symm⟩
    | call => exact ⟨d + 1, rfl, (Option.some.inj h).symm⟩
    | _ => exact ⟨d, rfl, (Option.some.inj h).symm⟩

theorem exec_of_step (hpc : c.pc = some (n, k)) (hstep : P.step c m = some (c', m')) :
    ∃ i, (P.code n)[k]? = some i ∧ P.instrAt c = some i ∧
      P.exec n (k + 1) { c with pc := some (n, k + 1) } m i = some (c', m') := by
  unfold Program.step at hstep
  rw [hpc] at hstep
  dsimp only at hstep
  split at hstep
  · exact nomatch hstep
  · next i hi =>
    refine ⟨i, hi, ?_, hstep⟩
    rw [Program.instrAt, hpc]
    exact hi

section

variable [DecidableEq N] {ok : List N}

/-- A state inside of a call at `c₀`: in the routine itself, in front of an instruction whose
shape it has, or in a call of its own, behind which the routine goes on. -/
inductive Inside (P : Program N) (ok : List N) : Cpu N → Int → Nat → Cpu N → Prop
  | here {c₀ b c n k σ₀ σ} (hchecked : Checked P ok σ₀ n = true) (hpc : c.pc = some (n, k))
      (hσ : (scan P σ₀ (P.code n))[k]? = some σ) (hmatches : σ.Matches P c₀ b c) :
      Inside P ok c₀ b 0 c
  | called {c₀ b d c c₁ b₁ l} (haddress : c₁.stack b₁ = .loc l)
      (hbehind : ∀ c', Returned P c₁ b₁ c' → c'.pc = l → Inside P ok c₀ b 0 c')
      (hinside : Inside P ok c₁ b₁ d c) : Inside P ok c₀ b (d + 1) c

theorem Inside.of_leAt {σ₀ : Shape} (hchecked : Checked P ok σ₀ n = true)
    (hle : leAt (scan P σ₀ (P.code n)) k σ = true) (h : σ.Matches P c₀ b c)
    (hpc : c.pc = some (n, k)) : Inside P ok c₀ b 0 c := by
  unfold leAt at hle
  split at hle
  · next τ hτ => exact .here hchecked hpc hτ (h.mono hle)
  · exact nomatch hle

/-- The start of a checked routine. -/
theorem Inside.enter {σ₀ : Shape} (hchecked : Checked P ok σ₀ n = true) (hcode : P.code n ≠ [])
    (h : σ₀.Matches P c₀ b c) (hpc : c.pc = some (n, 0)) : Inside P ok c₀ b 0 c :=
  .here hchecked hpc (scan_zero hcode σ₀) h

theorem checkAt_of_checked {σ₀ : Shape} {i : Instr N} (hchecked : Checked P ok σ₀ n = true)
    (hσ : (scan P σ₀ (P.code n))[k]? = some σ) (hi : (P.code n)[k]? = some i) :
    checkAt P ok (scan P σ₀ (P.code n)) k σ i = true := by
  have hk := List.all_eq_true.mp hchecked k
    (List.mem_range.mpr (List.getElem?_eq_some_iff.mp hi).1)
  simp only [hσ, hi] at hk
  exact hk

/-- The call of a checked routine. -/
theorem inside_of_call {σ₀ : Shape} {n' : N} (hchecked : Checked P ok σ₀ n = true)
    (hok : ∀ n ∈ ok, P.code n ≠ [] ∧ Checked P ok (Shape.start []) n = true) (hn' : n' ∈ ok)
    (hsp : σ.sp ≤ 0) (hword : 0 < wordSize P)
    (hle : leAt (scan P σ₀ (P.code n)) k (behindCall σ) = true) (h : σ.Matches P c₀ b c)
    (hexec : P.exec n k c m (.call n') = some (c', m')) : Inside P ok c₀ b 1 c' := by
  have hown : P.execOwn n k c (.call n') = some c' := execOwn_of_exec rfl hexec
  unfold Program.execOwn Program.pushVal at hown
  rw [h.sp] at hown
  obtain ⟨b₁, hb₁⟩ : ∃ b₁, b₁ = b + σ.sp - wordSize P := ⟨_, rfl⟩
  have heq := (Option.some.inj hown).symm
  rw [show b + σ.sp - (P.bits / 8 : Nat) = b₁ from hb₁.symm] at heq
  have haddress : c'.stack b₁ = .loc (some (n, k)) := by
    rw [heq]
    exact if_pos rfl
  have hregs : ∀ r, r ≠ .sp → c'.regs.get r = c.regs.get r := by
    intro r hr
    rw [heq]
    show (c.regs.set _ .sp).get r = _
    rw [regs_get_set, if_neg hr]
  refine .called (l := some (n, k)) haddress (fun c'' hret hpc => ?_)
    (.enter (hok n' hn').2 (hok n' hn').1 ?_ (by rw [heq]))
  · have hsaved : ∀ r ∈ savedRegs, c'.regs.get r = c.regs.get r := by
      intro r hr
      refine hregs r ?_
      rintro rfl
      exact absurd hr (by decide)
    have hstack : ∀ off, b₁ < off → c'.stack off = c.stack off := by
      intro off hoff
      rw [heq]
      exact if_neg (by omega)
    exact .of_leAt hchecked hle (h.behindCall hsp hb₁ hword hsaved hstack hret) hpc
  · refine start_matches ?_ (fun _ hoff => absurd hoff List.not_mem_nil)
    rw [heq]
    rfl

/-- An instruction of the routine itself, other than its `ret`. -/
theorem inside_of_exec {σ₀ : Shape} {i : Instr N} (hchecked : Checked P ok σ₀ n = true)
    (hok : ∀ n ∈ ok, P.code n ≠ [] ∧ Checked P ok (Shape.start []) n = true)
    (hcheck : checkAt P ok (scan P σ₀ (P.code n)) k σ i = true) (h : σ.Matches P c₀ b c)
    (hpc : c.pc = some (n, k + 1)) (hret : i ≠ .ret) (hcall : ∀ n', i ≠ .call n')
    (hexec : P.exec n (k + 1) c m i = some (c', m')) : Inside P ok c₀ b 0 c' := by
  have hstraight (hi : straight i = true)
      (hnext : nextLe P (scan P σ₀ (P.code n)) k σ i = true) : Inside P ok c₀ b 0 c' := by
    unfold nextLe at hnext
    split at hnext
    · next τ hτ =>
      obtain ⟨hmatches, hpc'⟩ := next_sound h hi hτ hexec
      exact .of_leAt hchecked hnext hmatches (hpc'.trans hpc)
    · exact nomatch hnext
  cases i with
  | ret => exact absurd rfl hret
  | call n' => exact absurd rfl (hcall n')
  | je t =>
    have hown : P.execOwn n (k + 1) c (.je t) = some c' := execOwn_of_exec rfl hexec
    unfold checkAt at hcheck
    simp only [Bool.and_eq_true, Bool.or_eq_true] at hcheck
    obtain ⟨htaken, hthrough⟩ := hcheck
    rw [← Option.some.inj hown]
    by_cases hzf : c.zf = true
    · rw [if_pos hzf]
      have hle := htaken.resolve_left fun hnz => by
        rw [h.nz hnz] at hzf
        exact nomatch hzf
      exact .of_leAt hchecked hle (h.pc _) rfl
    · rw [if_neg hzf]
      exact .of_leAt hchecked hthrough h hpc
  | jnz t =>
    have hown : P.execOwn n (k + 1) c (.jnz t) = some c' := execOwn_of_exec rfl hexec
    unfold checkAt at hcheck
    simp only [Bool.and_eq_true] at hcheck
    obtain ⟨htaken, hthrough⟩ := hcheck
    rw [← Option.some.inj hown]
    by_cases hzf : c.zf = true
    · rw [if_pos hzf]
      exact .of_leAt hchecked hthrough h hpc
    · rw [if_neg hzf]
      exact .of_leAt hchecked htaken (h.pc _) rfl
  | jmp t =>
    have hown : P.execOwn n (k + 1) c (.jmp t) = some c' := execOwn_of_exec rfl hexec
    rw [← Option.some.inj hown]
    exact .of_leAt hchecked hcheck (h.pc _) rfl
  | tail n' =>
    have hown : P.execOwn n (k + 1) c (.tail n') = some c' := execOwn_of_exec rfl hexec
    unfold checkAt at hcheck
    simp only [Bool.and_eq_true, decide_eq_true_eq] at hcheck
    rw [← Option.some.inj hown]
    exact .enter (hok n' hcheck.1).2 (hok n' hcheck.1).1 ((h.mono hcheck.2).pc _) rfl
  | _ => exact hstraight rfl hcheck

/-- The `ret` of the routine itself. -/
theorem Inside.ret (h : Inside P ok c₀ b 0 c) (hret : P.instrAt c = some .ret) :
    (Shape.start []).Matches P c₀ b c ∧ ∀ m c' m', P.step c m = some (c', m') →
      Returned P c₀ b c' ∧ ∀ l, c₀.stack b = .loc l → c'.pc = l := by
  cases h with
  | @here _ _ _ n k σ₀ σ hchecked hpc hσ hmatches =>
    have hi : (P.code n)[k]? = some .ret := by
      rw [Program.instrAt, hpc] at hret
      exact hret
    have hcheck := checkAt_of_checked hchecked hσ hi
    have hstart := hmatches.mono hcheck
    refine ⟨hstart, fun m c' m' hstep => ?_⟩
    obtain ⟨i, hi', -, hexec⟩ := exec_of_step hpc hstep
    rw [hi] at hi'
    rw [← Option.some.inj hi'] at hexec
    exact returned_of_ret (hstart.pc _) hexec

/-- One step: a call opens the routine that it calls, and the `ret` of that one goes back. -/
theorem Inside.step {d d' : Nat}
    (hok : ∀ n ∈ ok, P.code n ≠ [] ∧ Checked P ok (Shape.start []) n = true)
    (h : Inside P ok c₀ b d c) (hdepth : P.depthAfter d c = some d')
    (hstep : P.step c m = some (c', m')) : Inside P ok c₀ b d' c' := by
  induction h generalizing d' with
  | @here c₀ b c n k σ₀ σ hchecked hpc hσ hmatches =>
    obtain ⟨i, hi, hat, hexec⟩ := exec_of_step hpc hstep
    have hcheck := checkAt_of_checked hchecked hσ hi
    have hmatches := hmatches.pc (some (n, k + 1))
    unfold Program.depthAfter at hdepth
    rw [hat] at hdepth
    by_cases hcall : ∃ n', i = .call n'
    · obtain ⟨n', rfl⟩ := hcall
      rw [← Option.some.inj hdepth]
      unfold checkAt at hcheck
      simp only [Bool.and_eq_true, decide_eq_true_eq] at hcheck
      obtain ⟨⟨hn', hsp, hword⟩, hle⟩ := hcheck
      exact inside_of_call hchecked hok hn' hsp hword hle hmatches hexec
    · have hret : i ≠ .ret := by
        rintro rfl
        exact nomatch hdepth
      have hzero : d' = 0 := by
        cases i with
        | ret => exact absurd rfl hret
        | call n' => exact absurd ⟨n', rfl⟩ hcall
        | _ => exact (Option.some.inj hdepth).symm
      rw [hzero]
      exact inside_of_exec hchecked hok hcheck hmatches rfl hret
        (fun n' hn' => hcall ⟨n', hn'⟩) hexec
  | @called c₀ b d c c₁ b₁ l haddress hbehind hinside _ ih =>
    by_cases hret : P.instrAt c = some .ret ∧ d = 0
    · obtain ⟨hret, rfl⟩ := hret
      unfold Program.depthAfter at hdepth
      rw [hret] at hdepth
      rw [← Option.some.inj hdepth]
      obtain ⟨hreturned, hpc⟩ := (hinside.ret hret).2 m c' m' hstep
      exact hbehind c' hreturned (hpc _ haddress)
    · obtain ⟨d₁, hd₁, rfl⟩ := depthAfter_succ hret hdepth
      exact .called haddress hbehind (ih hd₁ hstep)

/-- A routine that passes the check with the arguments `args` known not to be zero returns
clean from every call with such arguments. -/
theorem returns_of_checked {args : List Int}
    (hok : ∀ n ∈ ok, P.code n ≠ [] ∧ Checked P ok (Shape.start []) n = true)
    (hcode : P.code n ≠ []) (hchecked : Checked P ok (Shape.start args) n = true)
    (hpc : c₀.pc = some (n, 0)) (hsp : c₀.regs.sp = .slot b)
    (hargs : ∀ off ∈ args, ∃ w, c₀.stack (b + off) = .word w ∧ w % 2 ^ P.bits ≠ 0) :
    P.ReturnsClean c₀ := by
  intro c hvisits hret
  have hinside : ∀ d c, P.Visits c₀ d c → Inside P ok c₀ b d c := by
    intro d c hvisits
    induction hvisits with
    | start => exact .enter hchecked hcode (start_matches hsp hargs) hpc
    | step _ hdepth hstep ih => exact ih.step hok hdepth hstep
  have hstart := ((hinside 0 c hvisits).ret hret).1
  refine ⟨?_, fun off hoff => ?_, fun r hr => ?_⟩
  · rw [hsp, hstart.sp]
    exact congrArg Val.slot (Int.add_zero b)
  · rw [← Val.slot.inj (hsp.symm.trans hoff)]
    have habove := hstart.above 0 (Int.le_refl 0)
    rwa [Int.add_zero] at habove
  · have hkept := hstart.regs r
    cases r with
    | bx | si | di | bp => exact hkept
    | ax | cx | dx | sp => exact absurd hr (by decide)

end

end

end StackCheck

end Lib.Smp
