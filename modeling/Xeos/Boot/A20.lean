import Xeos.Boot.Proc
import Xeos.Lib.Ring

/-!
# Waiting for the keyboard controller

`XEOS.16.a20.enable.keyboard.out` opens the address line A20 through the keyboard controller,
and waits for the controller in front of every command.  The two waits are procedures with the
macros for the start and the end, and their loop goes back to the first line: a poll at which
the controller is busy leaves one frame of the start on the stack, and the end takes one off.

`keyboardOutReturns_iff`: only a controller that is ready at the first poll of every wait lets
the routine return.
-/

namespace Xeos.Boot

open Lib Lib.Real

/-! ## The waits -/

/-- Which buffer of the controller is waited for. -/
inductive Wait
  | input | output

/-- The status for which the loop goes on: the jump after `test al, 0x02` or `test al, 0x01`. -/
def Wait.busy : Wait → UInt8 → Bool
  | .input, status => status &&& 0x02 != 0
  | .output, status => status &&& 0x01 == 0

/-- From the first line to the status in `AL`. -/
def poll (status : UInt8) (c : Cpu) : Cpu :=
  let c := procStart 0 c
  c.setLow .ax status.toNat

/-- `XEOS.16.a20.enable.keyboard.out.wait.in` and `.wait.out` up to their `ret`, for the statuses
that the controller reports one after the other. -/
def keyboardWait (w : Wait) : List UInt8 → Cpu → Option Cpu
  | [], _ => none
  | status :: statuses, c =>
    let c := poll status c
    if w.busy status then keyboardWait w statuses c else some (procEnd c)

/-- The controller is busy for some polls and then ready. -/
structure Timing (w : Wait) where
  busy : List UInt8
  ready : UInt8
  allBusy : ∀ status ∈ busy, w.busy status = true
  isReady : w.busy ready = false

/-- The wait gets to its `ret` in the state `d`, with the stack pointer on the return address and
the registers as they were. -/
def Returns {w : Wait} (t : Timing w) (c d : Cpu) : Prop :=
  keyboardWait w (t.busy ++ [t.ready]) c = some d
    ∧ d.reg = c.reg ∧ d.seg = c.seg ∧ d.peek 2 = c.peek 2

def Neutral {w : Wait} (t : Timing w) (c : Cpu) : Prop := ∃ d, Returns t c d

/-! ## The routine -/

/-- A wait for each of the calls, in the order of the routine. -/
structure Timings where
  input : Fin 6 → Timing .input
  output : Timing .output

/-- The controller is ready at the first poll of every wait. -/
def Timings.Ready (t : Timings) : Prop := (∀ i, (t.input i).busy = []) ∧ t.output.busy = []

/-- A call of a wait that comes back, and what holds behind it. -/
def Called {w : Wait} (t : Timing w) (ret : BitVec 16) (c : Cpu) (next : Cpu → Prop) : Prop :=
  ∃ d, Returns t (c.pushWith 2 ret.toNat) d ∧ next (d.drop 2)

def cli (c : Cpu) : Cpu := c.setFlags (c.flags &&& ~~~0x200#32).toNat

def sti (c : Cpu) : Cpu := c.setFlags (c.flags ||| 0x200#32).toNat

/-- `XEOS.16.a20.enable.keyboard.out` comes back from every wait and gets to its `ret` with the
stack pointer on the return address and the registers as they were.  What goes out to the ports
is the content of `AL`; `port` is the byte that the controller has for its output port. -/
def KeyboardOutReturns (t : Timings) (ret : Fin 7 → BitVec 16) (port : UInt8) (c₀ : Cpu) : Prop :=
  Called (t.input 0) (ret 0) (cli (procStart 0 c₀)) fun c =>
  Called (t.input 1) (ret 1) (c.setLow .ax 0xAD) fun c =>
  Called t.output (ret 2) (c.setLow .ax 0xD0) fun c =>
  Called (t.input 2) (ret 3) ((c.setLow .ax port.toNat).push (.reg .ax)) fun c =>
  Called (t.input 3) (ret 4) (c.setLow .ax 0xD1) fun c =>
  let c := c.pop (.reg .ax)
  Called (t.input 4) (ret 5) (c.setLow .ax (c.low .ax ||| 0x02)) fun c =>
  Called (t.input 5) (ret 6) (c.setLow .ax 0xAE) fun c =>
  let d := procEnd (sti c)
  d.reg = c₀.reg ∧ d.seg = c₀.seg ∧ d.peek 2 = c₀.peek 2

/-! ## One frame too many -/

section Wait

variable {w : Wait} {t : Timing w} {c : Cpu}

/-- The whole wait: the polls one after the other, then one end. -/
theorem keyboardWait_eq (t : Timing w) (c : Cpu) :
    keyboardWait w (t.busy ++ [t.ready]) c
      = some (procEnd (poll t.ready (t.busy.foldl (fun c status => poll status c) c))) := by
  obtain ⟨busy, ready, allBusy, isReady⟩ := t
  dsimp only
  induction busy generalizing c with
  | nil => simp [keyboardWait, isReady]
  | cons status busy ih =>
    have hbusy : w.busy status = true := allBusy status List.mem_cons_self
    rw [List.cons_append, keyboardWait, if_pos hbusy, List.foldl_cons]
    exact ih _ (fun s hs => allBusy s (List.mem_cons_of_mem _ hs))

theorem reg_poll_of_ne {r : Reg} {status : UInt8} (hr : r ≠ .ax) :
    (poll status c).reg r = (procStart 0 c).reg r :=
  Cpu.reg_setReg_of_ne _ _ _ _ hr

theorem seg_poll (status : UInt8) : (poll status c).seg = (procStart 0 c).seg := by
  rw [poll, Cpu.setLow, Cpu.seg_setReg]

theorem mem_poll (status : UInt8) : (poll status c).mem = (procStart 0 c).mem := by
  rw [poll, Cpu.mem_setLow]

/-- A poll leaves the frame pointer on the stack pointer. -/
theorem poll_bp (status : UInt8) (c : Cpu) :
    (poll status c).reg .bp = (poll status c).reg .sp := by
  have hbp : Reg.bp ≠ .ax := nofun
  have hsp : Reg.sp ≠ .ax := nofun
  have hne : Reg.bp ≠ .sp := nofun
  apply BitVec.eq_of_toNat_eq
  rw [reg_poll_of_ne hbp, reg_poll_of_ne hsp, procStart_eq, Cpu.reg_setReg_of_ne _ _ _ _ hne,
    Cpu.reg_setReg, Cpu.reg_setReg]
  omega

/-- After some polls the frame pointer is the stack pointer. -/
theorem polls_bp {statuses : List UInt8} (hne : statuses ≠ []) (c : Cpu) :
    (statuses.foldl (fun c status => poll status c) c).reg .bp
      = (statuses.foldl (fun c status => poll status c) c).reg .sp := by
  rw [← List.dropLast_concat_getLast hne, List.foldl_append]
  exact poll_bp _ _

/-- The frame of the start, wherever the stack pointer is in the segment. -/
theorem procPushed_ringed (c : Cpu) : Ringed c (procPushed c) (procFrame c) := by
  have hflags : Ringed c (procSaved c) [Slot.saved c .flags] :=
    (Ringed.refl c).pushWith (by rw [bytes_nil]; decide) (Slot.value_lt c .flags)
  apply hflags.pushAll
  have hbytes : bytes (procSlots.map (Slot.saved (procSaved c))) + 4 = procBytes := rfl
  have hone : bytes [Slot.saved c .flags] = 4 := rfl
  rw [hone, hbytes]
  decide

/-- The end takes the frame of the last poll off, and no other. -/
theorem procEnd_poll (status : UInt8) (c : Cpu) :
    (procEnd (poll status c)).reg .sp = c.reg .sp
      ∧ (procEnd (poll status c)).reg .bp = c.reg .bp := by
  have hax : Reg.bp ≠ .ax := nofun
  have hne : Reg.bp ≠ .sp := nofun
  have hplain : ∀ t ∈ procSlots.reverse ++ [Slot.flags], t.Plain := by decide
  have hframe : Ringed c ((poll status c).setReg .sp ((poll status c).reg .bp).toNat)
      (procFrame c) := by
    apply (procPushed_ringed c).keep
    · rw [Cpu.seg_setReg, seg_poll, procStart_eq, Cpu.seg_setReg, Cpu.seg_setReg]
    · rw [Cpu.reg_setReg_toNat, reg_poll_of_ne hax, procStart_eq, Cpu.reg_setReg_of_ne _ _ _ _ hne,
        Cpu.reg_setReg_toNat]
    · rw [Cpu.mem_setReg, mem_poll, procStart_eq, Cpu.mem_setReg, Cpu.mem_setReg]
  rw [procFrame_eq] at hframe
  constructor
  · rw [procEnd_eq]
    exact (hframe.popAll hplain).reg_sp
  · rw [procEnd_eq, hframe.reg_popAll hplain hne (Or.inl (by decide))]
    exact Cpu.reg_pushWith_of_ne c .bp _ _ hne

/-- A busy poll loses the frame pointer: the end finds the stack pointer in its place. -/
theorem not_neutral (hbp : c.reg .bp ≠ c.reg .sp) (hbusy : t.busy ≠ []) : ¬ Neutral t c := by
  rintro ⟨d, hd, hreg, -, -⟩
  rw [keyboardWait_eq] at hd
  cases hd
  obtain ⟨hsp, hframe⟩ := procEnd_poll t.ready (t.busy.foldl (fun c status => poll status c) c)
  apply hbp
  rw [← hreg, hsp, hframe, polls_bp hbusy]

/-! ## A controller that is ready -/

/-- The wait for a controller that is ready at the first poll. -/
def readyWait (status : UInt8) (c : Cpu) : Cpu := procEnd (poll status c)

theorem readyWait_eq (status : UInt8) (hroom : procBytes ≤ c.word .sp) :
    readyWait status c = { c with mem := (procStart 0 c).mem } := by
  have hax : Reg.bp ≠ .ax := nofun
  have hend : readyWait status c
      = { c with cr := (poll status c).cr, mem := (poll status c).mem } := by
    apply procEnd_spec hroom (reg_poll_of_ne hax)
    · rw [seg_poll, seg_procStart]
    · intro a _ _
      rw [mem_poll]
  have hcr : (poll status c).cr = c.cr := by
    rw [poll, Cpu.setLow, Cpu.cr_setReg, cr_procStart]
  rw [hend, hcr, mem_poll]

theorem keyboardWait_ready (hready : t.busy = []) :
    keyboardWait w (t.busy ++ [t.ready]) c = some (readyWait t.ready c) := by
  rw [keyboardWait_eq, hready, List.foldl_nil, readyWait]

/-- The top of the stack after a change of the memory elsewhere. -/
theorem peek_of_mem {m : Memory} {n : Nat} (h : ∀ i, i < n → m (c.top + i) = c.mem (c.top + i)) :
    ({ c with mem := m } : Cpu).peek n = c.peek n :=
  Memory.load_congr h

theorem peek_readyWait (status : UInt8) (hroom : procBytes ≤ c.word .sp) :
    (readyWait status c).peek 2 = c.peek 2 := by
  have hmem : ∀ i, (procStart 0 c).mem (c.top + i) = c.mem (c.top + i) :=
    fun i => mem_procStart hroom (Or.inr (Nat.le_add_right _ _))
  rw [readyWait_eq _ hroom]
  exact peek_of_mem (fun i _ => hmem i)

theorem returns_ready (hroom : procBytes ≤ c.word .sp) (hready : t.busy = []) :
    Returns t c (readyWait t.ready c) := by
  refine ⟨keyboardWait_ready hready, ?_, ?_, peek_readyWait _ hroom⟩
  · rw [readyWait_eq _ hroom]
  · rw [readyWait_eq _ hroom]

/-- A wait is neutral just when the controller is ready at once. -/
theorem neutral_iff (hroom : procBytes ≤ c.word .sp) (hbp : c.reg .bp ≠ c.reg .sp) :
    Neutral t c ↔ t.busy = [] := by
  constructor
  · intro h
    by_contra hbusy
    exact not_neutral hbp hbusy h
  · exact fun hready => ⟨_, returns_ready hroom hready⟩

/-! ## The body of the routine -/

/-- A state of the routine, with the words `fs` on the stack below the frame. -/
structure InRoutine (c₀ c : Cpu) (fs : List (Nat × Nat)) : Prop where
  body : InProc 0 c₀ c fs
  above : ∀ a, c₀.top ≤ a → c.mem a = c₀.mem a

namespace InRoutine

variable {c₀ c : Cpu} {fs : List (Nat × Nat)}

theorem start (hroom : procBytes ≤ c₀.word .sp) : InRoutine c₀ (procStart 0 c₀) [] :=
  ⟨InProc.start hroom, fun _ ha => mem_procStart hroom (Or.inr ha)⟩

/-- Code that writes `AL` or the flags. -/
theorem keep {c' : Cpu} (h : InRoutine c₀ c fs) (hss : c'.seg = c.seg)
    (hsp : c'.reg .sp = c.reg .sp) (hbp : c'.reg .bp = c.reg .bp) (hmem : c'.mem = c.mem) :
    InRoutine c₀ c' fs :=
  ⟨h.body.keep (by rw [hss]) hsp hbp (fun a _ _ => by rw [hmem]),
    fun a ha => by rw [hmem, h.above a ha]⟩

theorem cli (h : InRoutine c₀ c fs) : InRoutine c₀ (cli c) fs := h.keep rfl rfl rfl rfl

theorem sti (h : InRoutine c₀ c fs) : InRoutine c₀ (sti c) fs := h.keep rfl rfl rfl rfl

theorem setLow (h : InRoutine c₀ c fs) (v : Nat) : InRoutine c₀ (c.setLow .ax v) fs := by
  have hsp : Reg.sp ≠ .ax := nofun
  have hbp : Reg.bp ≠ .ax := nofun
  exact h.keep (Cpu.seg_setReg _ _ _) (Cpu.reg_setReg_of_ne _ _ _ _ hsp)
    (Cpu.reg_setReg_of_ne _ _ _ _ hbp) (Cpu.mem_setLow _ _ _)

theorem push (h : InRoutine c₀ c fs) (hroom : 4 ≤ c.word .sp) :
    InRoutine c₀ (c.push (.reg .ax)) ((Slot.reg .ax).saved c :: fs) := by
  have htop := h.body.top
  refine ⟨h.body.push hroom rfl, ?_⟩
  intro a ha
  rw [h.body.mem_push (t := .reg .ax) hroom (Or.inr (by omega)), h.above a ha]

theorem popped {c₁ : Cpu} (h : InRoutine c₀ c ((Slot.reg .ax).saved c₁ :: fs)) :
    InRoutine c₀ (c.pop (.reg .ax)) fs := by
  refine ⟨h.body.popped (by decide), ?_⟩
  intro a ha
  rw [Cpu.pop, Slot.mem_assign, Cpu.mem_drop, h.above a ha]

/-- Inside the routine the frame pointer is above the return address of a call. -/
theorem bp_ne_sp (h : InRoutine c₀ c fs) (hroom : 2 ≤ c.word .sp) (ret : BitVec 16) :
    (c.pushWith 2 ret.toNat).reg .bp ≠ (c.pushWith 2 ret.toNat).reg .sp := by
  have hne : Reg.bp ≠ .sp := nofun
  have hpush := h.body.stack.pushWith (h.body.push_room hroom) ret.isLt
  have hbelow := hpush.sp
  have hsp := @procStart_sp c₀ 0 h.body.room
  have hbp := @procStart_bp c₀ 0 h.body.room
  rw [bytes_cons] at hbelow
  rw [Cpu.reg_pushWith_of_ne _ _ _ _ hne, h.body.bp]
  intro heq
  rw [heq] at hbp
  omega

theorem word_pushWith (h : InRoutine c₀ c fs) (hroom : 2 ≤ c.word .sp) (ret : BitVec 16) :
    (c.pushWith 2 ret.toNat).word .sp + 2 = c.word .sp := by
  have hpush := (h.body.stack.pushWith (h.body.push_room hroom) ret.isLt).word
  have hword := h.body.stack.word
  rw [bytes_cons] at hpush
  omega

/-- The routine goes on with the stack that it had. -/
theorem call (h : InRoutine c₀ c fs) (ret : BitVec 16) (status : UInt8)
    (hroom : 2 + procBytes ≤ c.word .sp) :
    InRoutine c₀ (c.call ret (readyWait status)) fs := by
  have hne : Reg.bp ≠ .sp := nofun
  have htop := h.body.top
  have hword := h.word_pushWith (by omega) ret
  have heq := readyWait_eq (c := c.pushWith 2 ret.toNat) status (by omega)
  have hreg := congrArg Cpu.reg heq
  have hseg := congrArg Cpu.seg heq
  dsimp only at hreg hseg
  have hmem : ∀ a, (c.pushWith 2 ret.toNat).top ≤ a →
      (readyWait status (c.pushWith 2 ret.toNat)).mem a = (c.pushWith 2 ret.toNat).mem a := by
    intro a ha
    have hread := congrArg Cpu.mem heq
    dsimp only at hread
    rw [hread]
    exact mem_procStart (by omega) (Or.inr ha)
  have hbelow := (h.body.stack.pushWith (h.body.push_room (n := 2) (by omega)) ret.isLt).top
  have hhere := h.body.stack.top
  rw [bytes_cons] at hbelow
  constructor
  · apply h.body.call (by omega)
    · rw [hseg, Cpu.seg_pushWith]
    · rw [hreg]
    · rw [hreg, Cpu.reg_pushWith_of_ne _ _ _ _ hne]
    · exact fun a ha _ => hmem a ha
  · intro a ha
    rw [Cpu.call, Cpu.mem_drop, hmem a (by omega),
      h.body.stack.mem_pushWith (h.body.push_room (by omega)) (by omega), h.above a ha]

/-- A call of a wait comes back just when the controller is ready at once.  What follows is
equivalent to `P` in every state of the routine. -/
theorem called_iff {w : Wait} {t : Timing w} (h : InRoutine c₀ c fs) (ret : BitVec 16)
    (hroom : 2 + procBytes ≤ c.word .sp) {next : Cpu → Prop} {P : Prop}
    (hnext : ∀ d, InRoutine c₀ d fs → (next d ↔ P)) :
    Called t ret c next ↔ t.busy = [] ∧ P := by
  have hword := h.word_pushWith (by omega) ret
  have hroom' : procBytes ≤ (c.pushWith 2 ret.toNat).word .sp := by omega
  have hafter := hnext _ (h.call ret t.ready hroom)
  constructor
  · rintro ⟨d, hd, hrest⟩
    have hready : t.busy = [] := (neutral_iff hroom' (h.bp_ne_sp (by omega) ret)).mp ⟨d, hd⟩
    have hsame := (returns_ready hroom' hready).1.symm.trans hd.1
    cases hsame
    exact ⟨hready, hafter.mp hrest⟩
  · rintro ⟨hready, hP⟩
    exact ⟨_, returns_ready hroom' hready, hafter.mpr hP⟩

/-- The end of the routine. -/
theorem finish (h : InRoutine c₀ c fs) :
    (procEnd c).reg = c₀.reg ∧ (procEnd c).seg = c₀.seg ∧ (procEnd c).peek 2 = c₀.peek 2 := by
  have habove := h.above
  rw [h.body.finish]
  exact ⟨rfl, rfl, peek_of_mem (fun i _ => habove _ (Nat.le_add_right _ _))⟩

end InRoutine

end Wait

/-! ## The routine -/

/-- What the routine needs of the stack: its own frame, `EAX`, a return address and the frame of a
wait. -/
def keyboardOutBytes : Nat := 102

/-- The routine comes back just when the controller is ready at the first poll of every wait. -/
theorem keyboardOutReturns_iff {t : Timings} {ret : Fin 7 → BitVec 16} {port : UInt8} {c : Cpu}
    (hroom : keyboardOutBytes ≤ c.word .sp) :
    KeyboardOutReturns t ret port c ↔ t.Ready := by
  rw [keyboardOutBytes] at hroom
  have hword : ∀ {d fs}, InRoutine c d fs → bytes fs ≤ 4 → 2 + procBytes ≤ d.word .sp := by
    intro d fs h hfs
    have hsp := h.body.word_sp
    rw [procBytes] at hsp ⊢
    omega
  have hnil : bytes [] ≤ 4 := Nat.zero_le 4
  have h₀ : InRoutine c (cli (procStart 0 c)) [] :=
    (InRoutine.start (by rw [procBytes]; omega)).cli
  have hchain : KeyboardOutReturns t ret port c ↔
      (t.input 0).busy = [] ∧ (t.input 1).busy = [] ∧ t.output.busy = [] ∧ (t.input 2).busy = [] ∧
        (t.input 3).busy = [] ∧ (t.input 4).busy = [] ∧ (t.input 5).busy = [] ∧ True := by
    refine h₀.called_iff _ (hword h₀ hnil) fun c₁ h₁ => ?_
    replace h₁ := h₁.setLow 0xAD
    refine h₁.called_iff _ (hword h₁ hnil) fun c₂ h₂ => ?_
    replace h₂ := h₂.setLow 0xD0
    refine h₂.called_iff _ (hword h₂ hnil) fun c₃ h₃ => ?_
    have hroom₃ := hword (h₃.setLow port.toNat) hnil
    rw [procBytes] at hroom₃
    replace h₃ := (h₃.setLow port.toNat).push (by omega)
    refine h₃.called_iff _ (hword h₃ (Nat.le_refl 4)) fun c₄ h₄ => ?_
    replace h₄ := h₄.setLow 0xD1
    refine h₄.called_iff _ (hword h₄ (Nat.le_refl 4)) fun c₅ h₅ => ?_
    replace h₅ := h₅.popped.setLow ((c₅.pop (.reg .ax)).low .ax ||| 0x02)
    refine h₅.called_iff _ (hword h₅ hnil) fun c₆ h₆ => ?_
    replace h₆ := h₆.setLow 0xAE
    refine h₆.called_iff _ (hword h₆ hnil) fun c₇ h₇ => ?_
    exact iff_of_true h₇.sti.finish trivial
  rw [hchain, Timings.Ready]
  constructor
  · rintro ⟨h0, h1, hout, h2, h3, h4, h5, -⟩
    refine ⟨fun i => ?_, hout⟩
    rcases i with ⟨_ | _ | _ | _ | _ | _ | n, hi⟩
    · exact h0
    · exact h1
    · exact h2
    · exact h3
    · exact h4
    · exact h5
    · omega
  · rintro ⟨hin, hout⟩
    exact ⟨hin 0, hin 1, hout, hin 2, hin 3, hin 4, hin 5, trivial⟩

/-- The waits as they are called, with the frame pointer of the caller above the stack pointer,
and the routine that calls them. -/
theorem keyboardOut_neutral_iff {w : Wait} {t : Timing w} {c : Cpu} {ts : Timings}
    {ret : Fin 7 → BitVec 16} {port : UInt8} {c₀ : Cpu} (hroom : procBytes ≤ c.word .sp)
    (hbp : c.reg .bp ≠ c.reg .sp) (hroom₀ : keyboardOutBytes ≤ c₀.word .sp) :
    (Neutral t c ↔ t.busy = []) ∧ (KeyboardOutReturns ts ret port c₀ ↔ ts.Ready) :=
  ⟨neutral_iff hroom hbp, keyboardOutReturns_iff hroom₀⟩

/-- A stack at `0x7C00`. -/
def a20Cpu : Cpu where
  reg r := if r = .sp then 0x7C00 else 0
  seg _ := 0
  flags := 0
  cr _ := 0
  mem _ := 0

/-- The input buffer is full at one poll. -/
def slowTiming : Timing .input := ⟨[0x02], 0x00, List.forall_mem_singleton.mpr (by decide), by decide⟩

def fastTimings : Timings where
  input _ := ⟨[], 0x00, nofun, by decide⟩
  output := ⟨[], 0x01, nofun, by decide⟩

theorem keyboardOut_neutral_iff_slow :
    ¬ Neutral slowTiming a20Cpu
      ∧ KeyboardOutReturns fastTimings (fun _ => 0x8000) 0xCF a20Cpu := by
  have hiff := @keyboardOut_neutral_iff .input slowTiming a20Cpu fastTimings (fun _ => 0x8000) 0xCF
    a20Cpu (by decide) (by decide) (by decide)
  constructor
  · rw [hiff.1]
    exact List.cons_ne_nil _ _
  · rw [hiff.2]
    exact ⟨fun _ => rfl, rfl⟩

theorem not_neutral_slow :
    ¬ ∀ (w : Wait) (t : Timing w) (c : Cpu), procBytes ≤ c.word .sp → Neutral t c := by
  intro h
  exact not_neutral (t := slowTiming) (c := a20Cpu) (by decide) (List.cons_ne_nil _ _)
    (h .input slowTiming a20Cpu (by decide))

end Xeos.Boot
