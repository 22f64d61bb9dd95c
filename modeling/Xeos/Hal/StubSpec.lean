import Xeos.Hal.Stub

/-!
# What the stubs do

`entry_spec` and `exit_spec` are the two halves of a stub, from any stack: the
words that the first half leaves above the stack pointer of the call, and the
registers that the second half loads from such words.

The results are `resumes_iff`
-/

namespace Xeos.Hal.Stub

open Lib Lib.Stack

namespace Arch

/-- The registers between the arguments and the two pointers, in the order of
the pops. -/
def saved : Arch → List Reg
  | i386 => [.ax, .bx, .cx, .dx, .di, .si]
  | x86_64 => [.ax, .bx, .cx, .dx, .si, .di, .r8, .r9, .r10, .r11, .r12, .r13, .r14, .r15]

theorem mem_named (a : Arch) (r : Reg) : r ∈ a.named ↔ r ∈ a.saved ∨ r = .bp := by
  cases a <;> cases r <;> decide

/-- The registers of the structure in the order of their words. -/
def order (a : Arch) : List Reg := a.saved ++ [.sp, .bp]

/-- The words that the stub pushes for the structure.  The stack pointer is
pushed after the base pointer. -/
def pushed (a : Arch) (m : a.Machine) : List a.Word :=
  a.order.map (Function.update m.reg .sp (below a.slot (m.reg .sp) 1))

/-- The name of the register whose word is the member `r` of the structure. -/
def swap : Arch → Reg → Reg
  | i386, .si => .di
  | i386, .di => .si
  | _, r => r

/-- The words of the arguments of the call. -/
def argumentWords : Arch → Nat
  | i386 => 2
  | x86_64 => 0

theorem vector_word (n : UInt8) {w : Nat} (hw : 8 ≤ w) :
    UInt8.ofNat (BitVec.ofNat w n.toNat).toNat = n := by
  have hn : n.toNat < 2 ^ 8 := n.toNat_lt
  have hle : 2 ^ 8 ≤ 2 ^ w := Nat.pow_le_pow_right (by decide) hw
  rw [BitVec.toNat_ofNat, Nat.mod_eq_of_lt (by omega), UInt8.ofNat_toNat]

theorem slot_pos (a : Arch) : 0 < a.slot := by
  cases a <;> decide

theorem length_pushed (a : Arch) (m : a.Machine) : (a.pushed m).length = a.fields.length := by
  cases a <;> rfl

/-- The pushes of the stub. -/
theorem exec_saves (a : Arch) (m : a.Machine) :
    exec .sp a.slot (.push .bp :: .push .sp :: a.saved.reverse.map .push) m
      = pushAll .sp a.slot (a.pushed m) m := by
  have hsp : Reg.sp ∉ a.saved.reverse := by
    cases a <;> decide
  have hpushed : a.pushed m = a.saved.map m.reg ++ [below a.slot (m.reg .sp) 1, m.reg .bp] := by
    cases a <;> rfl
  rw [exec_cons, exec_cons, exec_pushes _ hsp, List.reverse_reverse, hpushed, pushAll,
    pushAll, List.foldr_append]
  have hregs : a.saved.map ((Instr.push .sp).exec .sp a.slot
      ((Instr.push .bp).exec .sp a.slot m)).reg = a.saved.map m.reg := by
    apply List.map_congr_left
    intro r hr
    have hne : r ≠ .sp := by
      rintro rfl
      exact hsp (List.mem_reverse.mpr hr)
    rw [Instr.exec, push_reg _ hne, Instr.exec, push_reg _ hne]
  rw [hregs]
  simp only [Instr.exec, push_sp]
  rfl

/-- Before the call the structure stands on the stack above the arguments, and
its address and the vector are the arguments. -/
theorem entry_spec (a : Arch) (n : UInt8) {m : a.Machine} {vs : List a.Word}
    (h : Words a.slot m.mem (m.reg .sp) vs)
    (hfit : (a.fields.length + 2 + vs.length) * a.slot < 2 ^ a.width) :
    let m' := exec .sp a.slot (stubEntry n a) m
    let registers := below a.slot (m.reg .sp) a.fields.length
    a.arguments m' = (n, registers) ∧
      m'.reg .sp = below a.slot registers a.argumentWords ∧
      Words a.slot m'.mem registers (a.pushed m ++ vs) := by
  have hlen := a.length_pushed m
  have hwords : Words a.slot (pushAll .sp a.slot (a.pushed m) m).mem
      (below a.slot (m.reg .sp) a.fields.length) (a.pushed m ++ vs) := by
    have hle : (a.fields.length + vs.length) * a.slot
        ≤ (a.fields.length + 2 + vs.length) * a.slot :=
      Nat.mul_le_mul_right a.slot (by omega)
    rw [← hlen, ← pushAll_sp]
    exact pushAll_words _ h a.slot_pos (by rw [hlen]; omega)
  have hsp : (pushAll .sp a.slot (a.pushed m) m).reg .sp
      = below a.slot (m.reg .sp) a.fields.length := by
    rw [pushAll_sp, hlen]
  generalize hm₁ : pushAll .sp a.slot (a.pushed m) m = m₁ at hwords hsp
  rw [← hsp] at hwords
  have hexec : exec .sp a.slot (stubEntry n a) m
      = exec .sp a.slot ((stubEntry n a).drop a.fields.length) m₁ := by
    rw [← hm₁, ← exec_saves, ← exec_append]
    cases a <;> rfl
  simp only [hexec, ← hsp]
  cases a with
  | i386 =>
    -- the two pushes of the arguments
    have hfit' : (2 + (i386.pushed m ++ vs).length) * i386.slot < 2 ^ i386.width := by
      rw [List.length_append, hlen, ← Nat.add_assoc, Nat.add_comm 2]
      exact hfit
    have hpushes : exec .sp i386.slot ((stubEntry n i386).drop i386.fields.length) m₁
        = pushAll .sp i386.slot [BitVec.ofNat 32 n.toNat, m₁.reg .sp] m₁ := rfl
    have hcall := pushAll_words [BitVec.ofNat 32 n.toNat, m₁.reg .sp] hwords i386.slot_pos hfit'
    have hcallsp : (pushAll .sp i386.slot [BitVec.ofNat 32 n.toNat, m₁.reg .sp] m₁).reg .sp
        = below i386.slot (m₁.reg .sp) 2 := pushAll_sp _
    rw [hpushes]
    generalize pushAll .sp i386.slot [BitVec.ofNat 32 n.toNat, m₁.reg .sp] m₁ = m'
      at hcall hcallsp
    obtain ⟨hvector, htail⟩ := words_cons.mp hcall
    obtain ⟨hregisters, hrest⟩ := words_cons.mp htail
    refine ⟨?_, hcallsp, ?_⟩
    · exact congrArg₂ Prod.mk ((congrArg (fun v => UInt8.ofNat (BitVec.toNat v)) hvector).trans
        (vector_word n (by decide))) hregisters
    · rw [wordAt_add, hcallsp, wordAt_below_of_le _ (Nat.le_refl 2), below_zero] at hrest
      exact hrest
  | x86_64 =>
    refine ⟨?_, (below_zero _).symm, hwords⟩
    exact congrArg (·, m₁.reg .sp) (vector_word n (by decide))

/-- After the call the stub loads the registers from the structure, if the stack
pointer in it is the one that was saved. -/
theorem exit_spec (a : Arch) {m : a.Machine} {registers : a.Word} {f : Reg → a.Word}
    {vs : List a.Word} (hsp : m.reg .sp = below a.slot registers a.argumentWords)
    (h : Words a.slot m.mem registers (a.order.map f ++ vs))
    (hf : f .sp = wordAt a.slot registers (a.saved.length + 1)) :
    let m' := exec .sp a.slot a.stubExit m
    m'.mem = m.mem ∧ m'.reg .sp = wordAt a.slot registers a.fields.length ∧
      ∀ r ∈ a.named, m'.reg r = f r := by
  have hsaved : Reg.sp ∉ a.saved := by
    cases a <;> decide
  -- the arguments are popped into a register that is popped again below
  obtain ⟨m₁, hexec, hmem₁, hsp₁⟩ : ∃ m₁ : a.Machine,
      exec .sp a.slot a.stubExit m
        = exec .sp a.slot (a.saved.map .pop ++ [Instr.pop Reg.sp, Instr.pop Reg.bp]) m₁ ∧
      m₁.mem = m.mem ∧ m₁.reg .sp = registers := by
    cases a with
    | i386 =>
      have hexit : i386.stubExit = [Instr.pop Reg.ax, Instr.pop Reg.ax] ++
          (i386.saved.map .pop ++ [Instr.pop Reg.sp, Instr.pop Reg.bp]) := rfl
      refine ⟨exec .sp i386.slot [Instr.pop Reg.ax, Instr.pop Reg.ax] m,
        by rw [hexit, exec_append], rfl, ?_⟩
      rw [exec_cons, exec_cons, exec_nil, pop_sp (by decide), pop_sp (by decide), hsp,
        wordAt_add, argumentWords, wordAt_below_of_le _ (Nat.le_refl 2), below_zero]
    | x86_64 =>
      have hexit : x86_64.stubExit =
          x86_64.saved.map .pop ++ [Instr.pop Reg.sp, Instr.pop Reg.bp] := rfl
      exact ⟨m, by rw [hexit], rfl, by rw [hsp, argumentWords, below_zero]⟩
  subst hsp₁
  rw [← hmem₁, order, List.map_append, List.append_assoc] at h
  obtain ⟨hmem₂, hsp₂, hregs₂, _⟩ := exec_pops a.saved hsaved h
  simp only [hexec, exec_append]
  generalize exec .sp a.slot (a.saved.map .pop) m₁ = m₂ at hmem₂ hsp₂ hregs₂
  -- the pop of the stack pointer continues where it read
  rw [words_append, List.length_map, ← hmem₂, ← hsp₂] at h
  obtain ⟨hpointer, hbase⟩ := words_cons.mp h.2
  have hnext : wordAt a.slot (m₂.reg .sp) 1
      = wordAt a.slot (m₁.reg .sp) (a.saved.length + 1) := by
    rw [hsp₂, wordAt_add]
  have hsp₃ : ((Instr.pop .sp).exec .sp a.slot m₂).reg .sp = wordAt a.slot (m₂.reg .sp) 1 := by
    rw [pop_reg_self h.2, hf, hnext]
  have hwords₃ : Words a.slot ((Instr.pop .sp).exec .sp a.slot m₂).mem
      (((Instr.pop .sp).exec .sp a.slot m₂).reg .sp) (f .bp :: vs) := by
    rw [hsp₃]
    exact hbase
  rw [exec_cons, exec_cons, exec_nil]
  refine ⟨hmem₂.trans hmem₁, ?_, ?_⟩
  · rw [pop_sp (by decide), hsp₃, hnext, wordAt_add]
    cases a <;> rfl
  · intro r hr
    by_cases hbp : r = .bp
    · rw [hbp]
      exact pop_reg_self hwords₃
    · have hin : r ∈ a.saved := ((mem_named a r).mp hr).resolve_right hbp
      have hsp' : r ≠ .sp := by
        rintro rfl
        exact hsaved hin
      rw [pop_reg hbp hsp', pop_reg hsp' hsp', hregs₂ r hin]

/-! ## The structure by name -/

theorem order_nodup (a : Arch) : a.order.Nodup := by
  cases a <;> decide

theorem idxOf_fields (a : Arch) {r : Reg} (hr : r ∈ a.fields) :
    a.fields.idxOf r = a.order.idxOf (a.swap r) ∧ a.swap r ∈ a.order := by
  revert hr
  cases a <;> cases r <;> decide

theorem field_of_words (a : Arch) {mem : a.Mem} {registers : a.Word} {f : Reg → a.Word}
    (h : Words a.slot mem registers (a.order.map f)) {r : Reg} (hr : r ∈ a.fields) :
    a.field mem registers r = f (a.swap r) := by
  obtain ⟨hidx, hin⟩ := a.idxOf_fields hr
  rw [field, hidx]
  exact (words_map_iff a.order_nodup f).mp h _ hin

/-- The words of the structure are its members. -/
theorem words_of_fields (a : Arch) (mem : a.Mem) (registers : a.Word) :
    Words a.slot mem registers (a.order.map fun r => a.field mem registers (a.swap r)) := by
  rw [words_map_iff a.order_nodup]
  intro r hr
  have hswap : a.swap r ∈ a.fields ∧ a.swap (a.swap r) = r := by
    revert hr
    cases a <;> cases r <;> decide
  rw [field, (a.idxOf_fields hswap.1).1, hswap.2]

/-! ## From the interrupt to the call -/

section Enter

variable (a : Arch) (n : UInt8) (c : Context a) (err : Option a.Word)

theorem enter_sp : (a.enter c err).reg .sp
    = below a.slot (a.aligned (c.machine.reg .sp)) (a.frame c err).length := by
  rw [enter, pushAll_sp]
  simp only [Function.update_self]

theorem enter_reg {r : Reg} (hr : r ≠ .sp) : (a.enter c err).reg r = c.machine.reg r := by
  rw [enter, pushAll_reg _ hr]
  exact Function.update_of_ne hr _ _

theorem length_frame : (a.frame c err).length ≤ 6 := by
  cases a <;> cases err <;> simp [frame]

theorem enter_words {vs : List a.Word}
    (h : Words a.slot c.machine.mem (a.aligned (c.machine.reg .sp)) vs)
    (hfit : (6 + vs.length) * a.slot < 2 ^ a.width) :
    Words a.slot (a.enter c err).mem ((a.enter c err).reg .sp) (a.frame c err ++ vs) := by
  have hlen := a.length_frame c err
  have hle : ((a.frame c err).length + vs.length) * a.slot ≤ (6 + vs.length) * a.slot :=
    Nat.mul_le_mul_right a.slot (by omega)
  rw [enter]
  apply pushAll_words _ _ a.slot_pos (by omega)
  simp only [Function.update_self]
  exact h

/-- The address of the structure that the handler is given. -/
def registersAt : a.Word := below a.slot ((a.enter c err).reg .sp) a.fields.length

/-- The words of the structure that the handler is given. -/
def given : Reg → a.Word :=
  Function.update c.machine.reg .sp (below a.slot ((a.enter c err).reg .sp) 1)

/-- The member for the stack pointer is the address of the last word. -/
theorem given_sp :
    a.given c err .sp = wordAt a.slot (a.registersAt c err) (a.saved.length + 1) := by
  have hsub : a.fields.length = a.saved.length + 1 + 1 := by
    cases a <;> rfl
  rw [given, Function.update_self, registersAt, wordAt_below_of_le _ (by omega), hsub,
    Nat.add_sub_cancel_left]

theorem swap_sp : a.swap .sp = .sp := by
  cases a <;> rfl

theorem call_spec {vs : List a.Word}
    (h : Words a.slot c.machine.mem (a.aligned (c.machine.reg .sp)) vs)
    (hfit : (24 + vs.length) * a.slot < 2 ^ a.width) :
    let m := exec .sp a.slot (stubEntry n a) (a.enter c err)
    a.arguments m = (n, a.registersAt c err) ∧
      m.reg .sp = below a.slot (a.registersAt c err) a.argumentWords ∧
      Words a.slot m.mem (a.registersAt c err)
        (a.order.map (a.given c err) ++ (a.frame c err ++ vs)) := by
  have hlen := a.length_frame c err
  have hfields : a.fields.length ≤ 16 := by
    cases a <;> decide
  have hle₁ : (6 + vs.length) * a.slot ≤ (24 + vs.length) * a.slot :=
    Nat.mul_le_mul_right a.slot (by omega)
  have hle₂ : (a.fields.length + 2 + (a.frame c err ++ vs).length) * a.slot
      ≤ (24 + vs.length) * a.slot := by
    apply Nat.mul_le_mul_right
    rw [List.length_append]
    omega
  have hentry := a.entry_spec n (a.enter_words c err h (by omega)) (by omega)
  have hpushed : a.pushed (a.enter c err) = a.order.map (a.given c err) := by
    apply List.map_congr_left
    intro r _
    by_cases hr : r = .sp
    · rw [hr, given, Function.update_self, Function.update_self]
    · rw [given, Function.update_of_ne hr, Function.update_of_ne hr, a.enter_reg c err hr]
  rw [hpushed] at hentry
  exact hentry

end Enter

/-! ## From the call to the end -/

/-- What an interrupt that resumes has done, with the words `vs` and `us` on the
interrupted stack.  The handler ran on the structure; if it left the stack
pointer of the structure alone, then the stub ended on the frame and the words
`vs` with the registers of the structure. -/
theorem resumes_spec {a : Arch} {n : UInt8} {keep : Nat} {f : Handler a} {c c' : Context a}
    {err : Option a.Word} {vs us : List a.Word} (h : a.Resumes n keep f c err c')
    (hstack : Words a.slot c.machine.mem (a.aligned (c.machine.reg .sp)) (vs ++ us))
    (hfit : (24 + (vs ++ us).length) * a.slot < 2 ^ a.width)
    (hkeep : (a.frame c err ++ vs).length ≤ keep) :
    ∃ mem mem' m, f n (a.registersAt c err) mem mem' ∧
      Words a.slot mem (a.registersAt c err)
        (a.order.map (a.given c err) ++ (a.frame c err ++ (vs ++ us))) ∧
      c' = a.iret m c.ss ∧
      (a.field mem' (a.registersAt c err) .sp = a.field mem (a.registersAt c err) .sp →
        m.reg .sp = (a.enter c err).reg .sp ∧
        Words a.slot m.mem (m.reg .sp) (a.frame c err ++ vs) ∧
        ∀ r ∈ a.named, m.reg r = a.field mem' (a.registersAt c err) (a.swap r)) := by
  obtain ⟨m₂, hret, hc'⟩ := h
  obtain ⟨hargs, hsp₁, hwords₁⟩ := a.call_spec n c err hstack hfit
  generalize exec .sp a.slot (stubEntry n a) (a.enter c err) = m₁ at hret hargs hsp₁ hwords₁
  obtain ⟨mem', heffect, hstruct⟩ := hret.effect
  have habove := hret.above
  rw [hargs] at heffect hstruct habove
  refine ⟨m₁.mem, mem', exec .sp a.slot a.stubExit m₂, heffect, hwords₁, hc', ?_⟩
  intro hkept
  have hlen : a.order.length = a.fields.length := by
    cases a <;> rfl
  obtain ⟨hgiven, hrest⟩ := words_append.mp hwords₁
  rw [List.length_map, hlen, ← List.append_assoc] at hrest
  have hkept' := (words_append.mp hrest).1
  -- the stack after the call
  have hwords₂ : Words a.slot m₂.mem (a.registersAt c err)
      (a.order.map (fun r => a.field mem' (a.registersAt c err) (a.swap r))
        ++ (a.frame c err ++ vs)) := by
    rw [words_append, List.length_map, hlen]
    constructor
    · intro i hi
      rw [← a.words_of_fields mem' _ i hi]
      rw [List.length_map, hlen] at hi
      exact hstruct i hi
    · intro i hi
      rw [← hkept' i hi, wordAt_add]
      exact habove (a.fields.length + i) (Nat.le_add_right _ _) (by omega)
  have hsp₂ : m₂.reg .sp = below a.slot (a.registersAt c err) a.argumentWords := by
    rw [hret.calleeSaved .sp (by cases a <;> decide), hsp₁]
  have hpointer : a.field mem' (a.registersAt c err) (a.swap .sp)
      = wordAt a.slot (a.registersAt c err) (a.saved.length + 1) := by
    rw [swap_sp, hkept, a.field_of_words hgiven (by cases a <;> decide), swap_sp, given_sp]
  obtain ⟨hmem₃, hsp₃, hregs₃⟩ := a.exit_spec hsp₂ hwords₂ hpointer
  have htop : wordAt a.slot (a.registersAt c err) a.fields.length = (a.enter c err).reg .sp := by
    rw [registersAt, wordAt_below_of_le _ (Nat.le_refl _), Nat.sub_self, below_zero]
  rw [htop] at hsp₃
  refine ⟨hsp₃, ?_, hregs₃⟩
  rw [hmem₃, hsp₃, ← htop]
  have htail := (words_append.mp hwords₂).2
  rw [List.length_map, hlen] at htail
  exact htail

/-- A handler that may leave the memory as it is may return at once. -/
theorem resumes_self {a : Arch} {n : UInt8} {keep : Nat} {f : Handler a} {c : Context a}
    {err : Option a.Word}
    (h : let m := exec .sp a.slot (stubEntry n a) (a.enter c err)
      f (a.arguments m).1 (a.arguments m).2 m.mem m.mem) :
    ∃ c', a.Resumes n keep f c err c' :=
  ⟨_, _, ⟨⟨_, h, fun _ _ => rfl⟩, fun _ _ _ => rfl, fun _ _ => rfl⟩, rfl⟩

end Arch

end Xeos.Hal.Stub
