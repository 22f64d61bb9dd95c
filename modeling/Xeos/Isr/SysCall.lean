import Xeos.Hal.Transparent
import Xeos.Irq.Dispatch
import Xeos.Lib.Bits

/-!
# System calls

A system call takes three steps.  The C library's `syscall` executes
`int $0x80` and `ret`; the stub of the vector `0x80` builds the register
structure; and `XEOS_ISR_SysCall` finds the number and the arguments, on i386 and
for the sixth argument through the stack pointer in the structure.  That pointer
was pushed in the middle of the stub, so every argument on the stack is read at
an offset that counts the words of the frame.
-/

namespace Xeos.Isr

open Lib Lib.Stack Hal Hal.Stub

/-! ## `XEOS_ISR_SysCall` -/

/-- The variables `sys` and `arg1` to `arg6`. -/
@[ext]
structure Args (a : Arch) where
  sys : BitVec 16
  arg1 : a.Word
  arg2 : a.Word
  arg3 : a.Word
  arg4 : a.Word
  arg5 : a.Word
  arg6 : a.Word

/-- What the routine reads from the saved registers and the interrupted stack. -/
def readArgs : (a : Arch) → a.Mem → a.Word → Args a
  | .i386, mem, registers =>
    let esp := Arch.field .i386 mem registers .sp
    { sys := (mem (wordAt 4 esp 5)).setWidth 16
      arg1 := mem (wordAt 4 esp 6)
      arg2 := mem (wordAt 4 esp 7)
      arg3 := mem (wordAt 4 esp 8)
      arg4 := mem (wordAt 4 esp 9)
      arg5 := mem (wordAt 4 esp 10)
      arg6 := mem (wordAt 4 esp 11) }
  | .x86_64, mem, registers =>
    let rsp := Arch.field .x86_64 mem registers .sp
    { sys := (Arch.field .x86_64 mem registers .di).setWidth 16
      arg1 := Arch.field .x86_64 mem registers .si
      arg2 := Arch.field .x86_64 mem registers .dx
      arg3 := Arch.field .x86_64 mem registers .cx
      arg4 := Arch.field .x86_64 mem registers .r8
      arg5 := Arch.field .x86_64 mem registers .r9
      arg6 := mem (wordAt 8 rsp 8) }

def SYS_munmap : BitVec 16 := 73

def SYS_mmap : BitVec 16 := 197

/-- The system call routines, by the values they may return. -/
structure Routines (a : Arch) where
  munmap : (addr len : a.Word) → BitVec 64 → Prop
  mmap : (addr len : a.Word) → (prot flags fildes : BitVec 32) → (off : BitVec 64) →
    BitVec 64 → Prop

/-- `XEOS_SysCall_munmap` and `XEOS_SysCall_mmap` return 0. -/
def SysCall_routines (a : Arch) : Routines a where
  munmap _ _ ret := ret = 0
  mmap _ _ _ _ _ _ ret := ret = 0

variable {a : Arch}

/-- The switch of the routine.  Its variable `ret` may become `ret`. -/
def Dispatch (routines : Routines a) (args : Args a) (ret : BitVec 64) : Prop :=
  if args.sys = SYS_munmap then routines.munmap args.arg1 args.arg2 ret
  else if args.sys = SYS_mmap then
    routines.mmap args.arg1 args.arg2 (args.arg3.setWidth 32) (args.arg4.setWidth 32)
      (args.arg5.setWidth 32) (args.arg6.setWidth 64) ret
  else ret = 0

/-- `XEOS_ISR_SysCall`.  No routine is given the register structure. -/
def ISR_SysCall (routines : Routines a) : Arch.Handler a := fun _ registers mem mem' =>
  ∃ ret, Dispatch routines (readArgs a mem registers) ret ∧
    a.field mem' registers .ax = ret.setWidth a.width ∧
    ∀ r ∈ a.fields, r ≠ .ax → a.field mem' registers r = a.field mem registers r

/-! ## `syscall` -/

/-- A call `syscall( n, arg1, ..., arg6 )` by the C convention, in the machine
before the call instruction.  The upper half of `rdi` is not defined. -/
def Passes : (a : Arch) → BitVec 32 → Args a → a.Machine → Prop
  | .i386, n, args, m =>
    Words 4 m.mem (m.reg .sp)
      [n, args.arg1, args.arg2, args.arg3, args.arg4, args.arg5, args.arg6]
  | .x86_64, n, args, m =>
    (m.reg .di).setWidth 32 = n ∧ m.reg .si = args.arg1 ∧ m.reg .dx = args.arg2 ∧
      m.reg .cx = args.arg3 ∧ m.reg .r8 = args.arg4 ∧ m.reg .r9 = args.arg5 ∧
      Words 8 m.mem (m.reg .sp) [args.arg6] ∧ (m.reg .sp).toNat % 16 = 0

/-- What the call and the `int` instruction save beside the registers. -/
structure Site (a : Arch) where
  /-- The address after the call instruction. -/
  caller : a.Word
  /-- The address of the `ret` of `syscall`. -/
  ret : a.Word
  cs : a.Word
  flags : a.Word
  ss : a.Word

/-- The context that the `int` of `syscall` interrupts. -/
def Site.context (site : Site a) (m : a.Machine) : Arch.Context a where
  machine := push .sp a.slot site.caller m
  ip := site.ret
  cs := site.cs
  flags := site.flags
  ss := site.ss

/-- The instruction `ret`. -/
def ret (c : Arch.Context a) : Arch.Context a :=
  { c with
    machine := ⟨Function.update c.machine.reg .sp (wordAt a.slot (c.machine.reg .sp) 1),
      c.machine.mem⟩
    ip := c.machine.mem (c.machine.reg .sp) }

theorem ret_sp (c : Arch.Context a) :
    (ret c).machine.reg .sp = wordAt a.slot (c.machine.reg .sp) 1 := by
  simp only [ret, Function.update_self]

theorem ret_reg (c : Arch.Context a) {r : Reg} (hr : r ≠ .sp) :
    (ret c).machine.reg r = c.machine.reg r := by
  simp only [ret, Function.update_of_ne hr]

theorem mem_calleeSaved {r : Reg} (hr : r ∈ a.calleeSaved) :
    r = .sp ∨ (r ∈ a.named ∧ r ≠ .ax) := by
  revert hr
  cases a <;> cases r <;> decide

/-- The arguments that are passed on the stack. -/
def stackArgs : (a : Arch) → BitVec 32 → Args a → List a.Word
  | .i386, n, args => [n, args.arg1, args.arg2, args.arg3, args.arg4, args.arg5, args.arg6]
  | .x86_64, _, args => [args.arg6]

/-- The words from the end of the frame to the return address of `syscall`.  The
alignment of the frame leaves one word free in long mode. -/
def link : (a : Arch) → Site a → a.Machine → List a.Word
  | .i386, site, _ => [site.caller]
  | .x86_64, site, m => [(site.context m).machine.mem (below 8 (m.reg .sp) 2), site.caller]

/-- The words above the register structure that the kernel leaves alone. -/
def linked : Arch → Nat
  | .i386 => 4
  | .x86_64 => 7

/-! ## The interrupted stack -/

theorem toNat_and_not_15 (v : BitVec 64) :
    (v &&& ~~~0xF#64).toNat = v.toNat / 16 * 16 := by
  rw [BitVec.toNat_and]
  exact and_high_mask (k := 4) v.isLt (by decide)

/-- A call pushes one word below an aligned stack pointer, and the frame starts
one word further down. -/
theorem aligned_below {v : BitVec 64} (hv : v.toNat % 16 = 0) :
    Arch.aligned .x86_64 (below 8 v 1) = below 8 v 2 := by
  have hlt := v.isLt
  show (below 8 v 1 &&& ~~~0xF#64) = below 8 v 2
  apply BitVec.eq_of_toNat_eq
  rw [toNat_and_not_15]
  simp only [below, BitVec.toNat_sub, BitVec.toNat_ofNat]
  omega

/-- The stack under the frame. -/
theorem stack_words (site : Site a) {n : BitVec 32} {args : Args a} {m : a.Machine}
    (h : Passes a n args m) :
    Words a.slot (site.context m).machine.mem
      (a.aligned ((site.context m).machine.reg .sp)) (link a site m ++ stackArgs a n args) := by
  cases a with
  | i386 =>
    have hfit : 7 * 4 < 2 ^ 32 := by decide
    simp only [Site.context, push_sp]
    exact Words.store h (by decide) hfit
  | x86_64 =>
    have hfit : 1 * 8 < 2 ^ 64 := by decide
    obtain ⟨_, _, _, _, _, _, hwords, halign⟩ := h
    have hpush : Words 8 (site.context m).machine.mem (below 8 (m.reg .sp) 1)
        [site.caller, args.arg6] := hwords.store (by decide) hfit
    have hsp : (site.context m).machine.reg .sp = below 8 (m.reg .sp) 1 := push_sp _
    rw [hsp, aligned_below halign]
    have hone : wordAt 8 (below 8 (m.reg .sp) 2) 1 = below 8 (m.reg .sp) 1 :=
      wordAt_below_of_le _ (by decide)
    refine words_cons.mpr ⟨rfl, ?_⟩
    rw [← hone] at hpush
    exact hpush

/-- The words that the routine finds through the saved stack pointer. -/
theorem readArgs_spec {c : Arch.Context a} {site : Site a} {n : BitVec 32} {args : Args a}
    {m : a.Machine} (hc : c = site.context m) (h : Passes a n args m) {mem : a.Mem}
    (hwords : Words a.slot mem (a.registersAt c none)
      (a.order.map (a.given c none) ++ (a.frame c none ++ (link a site m ++ stackArgs a n args)))) :
    readArgs a mem (a.registersAt c none) = { args with sys := n.setWidth 16 } := by
  have hfield : ∀ r ∈ a.fields,
      a.field mem (a.registersAt c none) r = a.given c none (a.swap r) :=
    fun r hr => a.field_of_words (words_append.mp hwords).1 hr
  have hsp : a.field mem (a.registersAt c none) .sp
      = wordAt a.slot (a.registersAt c none) (a.saved.length + 1) := by
    rw [hfield .sp (by cases a <;> decide), a.swap_sp, a.given_sp]
  cases a with
  | i386 =>
    -- `esp` is seven words above the structure, and the frame ends three words after it
    simp only [readArgs, hsp]
    apply Args.ext
    · exact congrArg (BitVec.setWidth 16) (hwords.get_add 7 5 (show 12 < 19 by decide))
    · exact hwords.get_add 7 6 (show 13 < 19 by decide)
    · exact hwords.get_add 7 7 (show 14 < 19 by decide)
    · exact hwords.get_add 7 8 (show 15 < 19 by decide)
    · exact hwords.get_add 7 9 (show 16 < 19 by decide)
    · exact hwords.get_add 7 10 (show 17 < 19 by decide)
    · exact hwords.get_add 7 11 (show 18 < 19 by decide)
  | x86_64 =>
    obtain ⟨hdi, hsi, hdx, hcx, h8, h9, _, _⟩ := h
    have hreg : ∀ r ∈ Arch.fields .x86_64, r ≠ .sp →
        Arch.field .x86_64 mem (Arch.registersAt .x86_64 c none) r = m.reg r := by
      intro r hr hne
      rw [hfield r hr, hc]
      exact (Function.update_of_ne hne _ _).trans (push_reg _ hne)
    apply Args.ext
    · simp only [readArgs]
      rw [hreg .di (by decide) (by decide), ← hdi, BitVec.setWidth_setWidth_of_le _ (by decide)]
    · exact (hreg .si (by decide) (by decide)).trans hsi
    · exact (hreg .dx (by decide) (by decide)).trans hdx
    · exact (hreg .cx (by decide) (by decide)).trans hcx
    · exact (hreg .r8 (by decide) (by decide)).trans h8
    · exact (hreg .r9 (by decide) (by decide)).trans h9
    · simp only [readArgs, hsp]
      exact hwords.get_add 15 8 (show 23 < 24 by decide)

/-- Above the frame stands the return address of `syscall`. -/
theorem link_caller (site : Site a) {n : BitVec 32} {args : Args a} {m : a.Machine}
    (h : Passes a n args m) {mem : a.Mem}
    (hwords : Words a.slot mem ((a.enter (site.context m) none).reg .sp)
      (a.frame (site.context m) none ++ link a site m)) :
    mem ((site.context m).machine.reg .sp) = site.caller := by
  have hsp : (site.context m).machine.reg .sp = below a.slot (m.reg .sp) 1 := push_sp _
  rw [Arch.enter_sp, hsp] at hwords
  rw [hsp]
  cases a with
  | i386 =>
    have htop := hwords 3 (show 3 < 4 by decide)
    rw [show (Arch.frame .i386 (site.context m) none).length = 3 from rfl, Arch.aligned,
      wordAt_below_of_le _ (Nat.le_refl 3), below_zero] at htop
    exact htop
  | x86_64 =>
    have htop := hwords 6 (show 6 < 7 by decide)
    obtain ⟨_, _, _, _, _, _, _, halign⟩ := h
    rw [show (Arch.frame .x86_64 (site.context m) none).length = 5 from rfl,
      show Arch.slot .x86_64 = 8 from rfl, aligned_below halign, below_add,
      wordAt_below_of_le _ (by decide)] at htop
    exact htop

/-! ## The whole call -/

/-- The handler functions of the kernel, with the routines of the system calls.
The other functions are parameters. -/
def kernelTable (routines : Routines a) (other : Irq.ISRHandler → Arch.Handler a)
    (t : Idt.Tables Irq.ISRHandler) : Idt.Tables (Arch.Handler a) where
  entries := t.entries
  handlers n := (t.handlers n).map fun
    | .sysCall => ISR_SysCall routines
    | h => other h

theorem kernelTable_sysCall {H : Type} {k : Irq.Kernel H} (hk : Irq.Ready k)
    (routines : Routines a) (other : Irq.ISRHandler → Arch.Handler a) :
    (kernelTable routines other k.idt).handlers 0x80 = some (ISR_SysCall routines) := by
  rw [kernelTable]
  simp only [hk.handlers]
  rfl

theorem fits (site : Site a) {n : BitVec 32} {args : Args a} {m : a.Machine} :
    (24 + (link a site m ++ stackArgs a n args).length) * a.slot < 2 ^ a.width := by
  cases a with
  | i386 => exact (by decide : 128 < 2 ^ 32)
  | x86_64 => exact (by decide : 216 < 2 ^ 64)

/-- The `int` comes back to the `ret` of `syscall`, with the result of the routine
and with every other register as it was. -/
theorem int_spec {n : BitVec 32} {args : Args a} {m : a.Machine} (hpass : Passes a n args m)
    (site : Site a) {routines : Routines a} {t : Idt.Tables (Arch.Handler a)}
    (ht : t.handlers 0x80 = some (ISR_SysCall routines)) {c' : Arch.Context a}
    (h : a.Resumes 0x80 (linked a) (a.HandleISR t) (site.context m) none c') :
    c'.ip = site.ret ∧ c'.machine.reg .sp = (site.context m).machine.reg .sp ∧
      c'.machine.mem (c'.machine.reg .sp) = site.caller ∧
      (∀ r ∈ a.named, r ≠ .ax → c'.machine.reg r = m.reg r) ∧
      ∃ result, Dispatch routines { args with sys := n.setWidth 16 } result ∧
        c'.machine.reg .ax = result.setWidth a.width := by
  have hstack := stack_words site hpass
  have hkeep : (a.frame (site.context m) none ++ link a site m).length ≤ linked a := by
    cases a with
    | i386 => exact Nat.le_refl 4
    | x86_64 => exact Nat.le_refl 7
  obtain ⟨mem, mem', m₃, hf, hwords, rfl, hend⟩ := Arch.resumes_spec h hstack (fits site) hkeep
  have hargs := readArgs_spec rfl hpass hwords
  rw [Arch.HandleISR_some ht] at hf
  obtain ⟨result, hdispatch, hax, hsame⟩ := hf
  rw [hargs] at hdispatch
  obtain ⟨hsp₃, hwords₃, hregs₃⟩ := hend (hsame .sp (by cases a <;> decide) (by decide))
  obtain ⟨hip, _, hsp'⟩ := Arch.iret_of_frame hsp₃ (words_append.mp hwords₃).1
  refine ⟨hip, hsp', ?_, ?_, result, hdispatch, ?_⟩
  · rw [hsp', Arch.iret_mem]
    rw [hsp₃] at hwords₃
    exact link_caller site hpass hwords₃
  · intro r hr hne
    obtain ⟨hnsp, hfield, hswap, hinv⟩ := Arch.swap_named hr
    have hswapax : a.swap r ≠ .ax := by
      cases a <;> cases r <;> revert hne <;> decide
    rw [Arch.iret_reg _ _ hnsp, hregs₃ r hr, hsame _ (Arch.swap_named hswap).2.1 hswapax,
      a.field_of_words (words_append.mp hwords).1 (Arch.swap_named hswap).2.1, hinv,
      Arch.given_named hr]
    exact push_reg _ hnsp
  · have hnamed : Reg.ax ∈ a.named := by
      cases a <;> decide
    have hswap : a.swap .ax = .ax := by
      cases a <;> rfl
    rw [Arch.iret_reg _ _ (by decide), hregs₃ .ax hnamed, hswap, hax]

/-! ## An instance -/

/-- `syscall( SYS_munmap, 0, 0, 0, 0, 0, 0 )`, before the call. -/
def unmapping : Arch.Machine .x86_64 where
  reg r := if r = .di then 73 else if r = .sp then 0x100000 else 0
  mem _ := 0

def unmappingArgs : Args .x86_64 := ⟨0, 0, 0, 0, 0, 0, 0⟩

def unmappingSite : Site .x86_64 := ⟨0x10000, 0x20000, 0x08, 0x202, 0x10⟩

/-- The kernel after the set-up. -/
def started : Irq.Kernel Unit :=
  Irq.XEOS_Main ⟨⟨0x08, 0, .mask⟩, ⟨0x70, 0, .mask⟩⟩ ⟨fun _ => ⟨none, 0, 0⟩, fun _ => none⟩
    fun _ => Irq.HandlerArray.clear

end Xeos.Isr
