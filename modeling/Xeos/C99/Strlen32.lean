import Xeos.C99.Frame
import Xeos.C99.StrlenScan

/-!
# The i386 `strlen`

`_strlen32_sse2` is like its x86-64 counterpart, but that it reads its argument from the stack
again.  `_strlen32` does so as well, at `[ esp + 4 ]`, when it has pushed registers: what it
reads there is the `esi` of the caller.  It also masks four bits for each byte in front of the
string, where a byte has eight.  So it finds the first zero byte from the middle of the bytes
that it should leave out, and takes the misalignment of `esi` for the one of the string.
-/

namespace Xeos.C99.Strlen

open Lib Lib.Asm
open Memcpy64 (UsesSse2)

/-! ## The function with SSE2 -/

/-- In a function without a frame: the argument is above the return address. -/
structure InCall (m : Memory) (s : Nat) (c : Cpu) : Prop extends InBody m c where
  arg : c.stack (c.sp + 4) = .word s

theorem InCall.kept {m : Memory} {s : Nat} {c c' : Cpu} {ws : List Reg} (h : InCall m s c)
    (hkept : Kept ws c c') : InCall m s c' where
  toInBody := h.toInBody.kept hkept
  arg := by rw [hkept.stack, hkept.sp, h.arg]

section Sse2

variable (cpuid : X86.Cpuid) {m : Memory} {s n b : Nat} {c : Cpu}

/-- `.found`, with the end of the string in the block at `b`. -/
theorem found32_returns (hs : StringAt 32 m s n) (h : InCall m s c) (hcx : c.regs.cx = b)
    (hmask : Marks (fun a => m a = 0) s b c.regs.dx) (hle : b ≤ s + n) (hlt : s + n < b + 16) :
    ReturnsLength strlen32 cpuid (sse2 .found) c n := by
  have hsn := hs.lt
  have hdx : c.regs.dx ≠ 0 := hmask.ne_zero hs.nul (Nat.le_add_right s n) hle hlt
  have hbit : lowestBit 32 0 c.regs.dx = s + n - b :=
    hmask.lowestBit_eq hs.nul (Nat.le_add_right s n) hle hlt
      (fun i hi hlt => hs.ne_zero_of_lt hi hlt) (by decide)
  have hbsf : strlen32.Straight cpuid (sse2 .found) 0 1 c (c.setReg .ax (s + n - b)) :=
    .of_exec rfl (exec_bsf rfl hdx hbit)
  have harg : strlen32.Straight cpuid (sse2 .found) 1 2 (c.setReg .ax (s + n - b)) _ :=
    .of_exec rfl (exec_mov_spSlot h.arg (by decide))
  obtain ⟨c', hrun, hax⟩ := strlen32.straight_of cpuid (sse2 .found) 2 4
    ((c.setReg .ax (s + n - b)).setReg .dx s)
    (fun A c' => c'.regs.ax = A.result .sub 32 (s + n - b) (A.result .sub 32 s c.regs.cx))
    _ (fun _ => rfl) fun _ => rfl
  have hbody : InBody m c' := ((h.toInBody.kept (hbsf.kept (by decide))).kept
    (harg.kept (by decide))).kept (hrun.kept (by decide))
  rw [hcx] at hax
  exact ⟨_, .of_ret (.of_straight (by decide) hbsf (.of_straight (by decide) harg
    (.of_straight (by decide) hrun (.of_ret rfl hbody.caller)))),
    hax.trans (difference_difference (Nat.add_sub_cancel' hle) (by omega) hsn),
    hbody.mem.trans h.mem.symm⟩

/-- `.notfound` looks at the next block. -/
theorem notfound32_yields (h : InCall m s c) (hcx : c.regs.cx = b) (hb : b % 16 = 0)
    (hs : s ≤ b + 16) (hlt : b + 16 < 2 ^ 32) :
    ∃ c', InCall m s c' ∧ c'.regs.cx = b + 16 ∧ Marks (fun a => m a = 0) s (b + 16) c'.regs.dx ∧
      strlen32.Yields cpuid (sse2 .notfound) 0 c
        (if c'.regs.dx = 0 then .goto (sse2 .notfound) c' else .next c') := by
  subst hcx
  obtain ⟨c₁, hrun₁, hcx₁, hxmm₁⟩ := strlen32.straight_of cpuid (sse2 .notfound) 0 2 c
    (fun A c' => c'.regs.cx = A.result .add 32 c.regs.cx 16 ∧
      c'.xmms.xmm0 = fun i => c.xmms.xmm0 i ^^^ c.xmms.xmm0 i) _ (fun _ => rfl) fun _ => ⟨rfl, rfl⟩
  have hkept₁ := hrun₁.kept (by decide)
  have hblock : c₁.regs.get .cx = c.regs.cx + 16 := hcx₁.trans (Flags.sum_of_lt hlt)
  have hcmp : strlen32.Straight cpuid (sse2 .notfound) 2 3 c₁ _ :=
    .of_exec rfl (exec_pcmpeqb_mem hblock hlt (by omega))
  obtain ⟨c₂, hrun₂, hdx₂, hflags₂⟩ := strlen32.straight_of cpuid (sse2 .notfound) 3 5
    (c₁.setXmm .xmm0 (Vec.equal (c₁.xmms.get .xmm0) fun i => c₁.mem (c.regs.cx + 16 + i)))
    (fun A c' => c'.regs.dx
        = Vec.signs (Vec.equal c₁.xmms.xmm0 fun i => c₁.mem (c.regs.cx + 16 + i)) 16 ∧
      c'.flags = A.flags .and 32 c'.regs.dx c'.regs.dx) _ (fun _ => rfl) fun _ => ⟨rfl, rfl⟩
  have hkept₂ := (hcmp.kept (by decide)).trans (hrun₂.kept (by decide))
  refine ⟨c₂, (h.kept hkept₁).kept hkept₂, (hkept₂.reg .cx (by decide)).trans hblock, ?_, ?_⟩
  · rw [hdx₂]
    refine Marks.of_equal hs fun j _ => ?_
    rw [hxmm₁, hkept₁.mem, h.mem]
    exact xor_self_eq_iff _ _ _
  · refine .of_straight (by decide) hrun₁ (.of_straight (by decide) hcmp
      (.of_straight (by decide) hrun₂ ?_))
    refine .of_je rfl rfl ?_
    rw [hflags₂, Flags.holds_e_and_self]

/-- From a block in front of the end of the string the search finds it. -/
theorem notfound32_returns (hs : StringAt 32 m s n) (h : InCall m s c) (hcx : c.regs.cx = b)
    (hb : b % 16 = 0) (hle : s ≤ b + 16) (hend : b + 16 ≤ s + n) :
    ReturnsLength strlen32 cpuid (sse2 .notfound) c n := by
  have hsn := hs.lt
  -- the induction is on the number of bytes up to the end
  induction hk : s + n - b using Nat.strong_induction_on generalizing b c with
  | _ k ih =>
    obtain ⟨c', hcall, hcx', hmask, hyields⟩ :=
      notfound32_yields cpuid h hcx hb hle (Nat.lt_of_le_of_lt hend hsn)
    have hmem : c'.mem = c.mem := hcall.mem.trans h.mem.symm
    by_cases hlast : s + n < b + 16 + 16
    · have hdx : c'.regs.dx ≠ 0 := hmask.ne_zero hs.nul (Nat.le_add_right s n) hend hlast
      rw [if_neg hdx] at hyields
      obtain ⟨d, hret, hax, hd⟩ := found32_returns cpuid hs hcall hcx' hmask hend hlast
      exact ⟨d, .of_next hyields rfl hret, hax, hd.trans hmem⟩
    · have hdx : c'.regs.dx = 0 := hmask.eq_zero fun i hi _ hlt => by
        exact hs.ne_zero_of_lt hi (by omega)
      rw [if_pos hdx] at hyields
      obtain ⟨d, hret, hax, hd⟩ :=
        ih (s + n - (b + 16)) (by omega) hcall hcx' (by omega) (by omega) (by omega) rfl
      exact ⟨d, .of_goto hyields hret, hax, hd.trans hmem⟩

/-- The first block, from the boundary in front of the string. -/
theorem entry32_sse2_yields (hs : StringAt 32 m s n) (h : InCall m s c) :
    ∃ c', InCall m s c' ∧ c'.regs.cx = s / 16 * 16 ∧
      Marks (fun a => m a = 0) s (s / 16 * 16) c'.regs.dx ∧
      strlen32.Yields cpuid (sse2 .entry) 0 c
        (if c'.regs.dx = 0 then .next c' else .goto (sse2 .found) c') := by
  have hpos := hs.pos
  have hsn := hs.lt
  have hs32 : s < 2 ^ 32 := by omega
  have hand : alu.result .and 32 s 0xFFFFFFF0 = s / 16 * 16 :=
    and_high_mask (k := 4) (w := 32) hs32 (by decide)
  have harg : strlen32.Straight cpuid (sse2 .entry) 0 1 c (c.setReg .dx s) :=
    .of_exec rfl (exec_mov_spSlot h.arg (by decide))
  obtain ⟨c₁, hrun₁, hdx₁, hflags₁⟩ := strlen32.straight_of cpuid (sse2 .entry) 1 2
    (c.setReg .dx s) (fun A c' => c'.regs.dx = s ∧ c'.flags = A.flags .and 32 s s) _
    (fun _ => rfl) fun _ => ⟨rfl, rfl⟩
  have hnull : c₁.flags.holds .e = false := by
    rw [hflags₁, Flags.holds_e_and_self]
    exact decide_eq_false hpos.ne'
  obtain ⟨c₂, hrun₂, hax₂, hdx₂, hxmm₂⟩ := strlen32.straight_of cpuid (sse2 .entry) 3 6 c₁
    (fun A c' => c'.regs.ax = c₁.regs.dx ∧ c'.regs.dx = A.result .and 32 c₁.regs.dx 0xFFFFFFF0 ∧
      c'.xmms.xmm0 = fun i => c₁.xmms.xmm0 i ^^^ c₁.xmms.xmm0 i)
    _ (fun _ => rfl) fun _ => ⟨rfl, rfl, rfl⟩
  rw [hdx₁] at hax₂ hdx₂
  have hkept₂ := ((harg.kept (by decide)).trans (hrun₁.kept (by decide))).trans
    (hrun₂.kept (by decide))
  have hblock : c₂.regs.get .dx = s / 16 * 16 := hdx₂.trans hand
  have hcmp : strlen32.Straight cpuid (sse2 .entry) 6 7 c₂ _ :=
    .of_exec rfl (exec_pcmpeqb_mem hblock (show s / 16 * 16 < 2 ^ 32 by omega) (by omega))
  obtain ⟨c₃, hrun₃, hcx₃, hdx₃⟩ := strlen32.straight_of cpuid (sse2 .entry) 7 10
    (c₂.setXmm .xmm0 (Vec.equal (c₂.xmms.get .xmm0) fun i => c₂.mem (s / 16 * 16 + i)))
    (fun A c' => c'.regs.cx = A.result .sub 32 c₂.regs.ax c₂.regs.dx ∧
      c'.regs.dx = Vec.signs (Vec.equal c₂.xmms.xmm0 fun i => c₂.mem (s / 16 * 16 + i)) 16)
    _ (fun _ => rfl) fun _ => ⟨rfl, rfl⟩
  obtain ⟨c₄, hrun₄, hax₄⟩ := strlen32.straight_of cpuid (sse2 .entry) 10 13 c₃
    (fun A c' => c'.regs.ax
      = A.shl 32 (A.not 32 (A.result .xor 32 c₃.regs.ax c₃.regs.ax)) (c₃.regs.cx % 32))
    _ (fun _ => rfl) fun _ => rfl
  have hkept₄ := ((hcmp.kept (by decide)).trans (hrun₃.kept (by decide))).trans
    (hrun₄.kept (by decide))
  have hcall₄ := (h.kept hkept₂).kept hkept₄
  have harg' : strlen32.Straight cpuid (sse2 .entry) 13 14 c₄ (c₄.setReg .cx s) :=
    .of_exec rfl (exec_mov_spSlot hcall₄.arg (by decide))
  obtain ⟨c₅, hrun₅, hcx₅, hdx₅, hflags₅⟩ := strlen32.straight_of cpuid (sse2 .entry) 14 16
    (c₄.setReg .cx s)
    (fun A c' => c'.regs.cx = A.result .and 32 s 0xFFFFFFF0 ∧
      c'.regs.dx = A.result .and 32 c₄.regs.dx c₄.regs.ax ∧
      c'.flags = A.flags .and 32 c₄.regs.dx c₄.regs.ax) _ (fun _ => rfl) fun _ => ⟨rfl, rfl, rfl⟩
  have hcount : c₃.regs.cx % 32 = s - s / 16 * 16 := by
    have hdiff : difference 32 s (s / 16 * 16) = s - s / 16 * 16 :=
      Flags.difference_of_le (by omega) hs32
    rw [hcx₃, hax₂, show c₂.regs.dx = s / 16 * 16 from hblock,
      show alu.result .sub 32 s (s / 16 * 16) = _ from hdiff]
    omega
  have hxor : alu.result .xor 32 c₃.regs.ax c₃.regs.ax = 0 := Nat.xor_self _
  have hmask : c₅.regs.dx
      = Vec.signs (Vec.equal c₂.xmms.xmm0 fun i => c₂.mem (s / 16 * 16 + i)) 16
        &&& alu.shl 32 (alu.not 32 0) (s - s / 16 * 16) := by
    have hdx₄ : c₄.regs.dx = c₃.regs.dx := (hrun₄.kept (by decide)).reg .dx (by decide)
    rw [hdx₅, hdx₄, hdx₃, hax₄, hxor, hcount]
    rfl
  refine ⟨c₅, (hcall₄.kept (harg'.kept (by decide))).kept (hrun₅.kept (by decide)),
    hcx₅.trans hand, ?_, ?_⟩
  · rw [hmask]
    refine Marks.masked (by decide) (by omega) fun j _ => ?_
    rw [hxmm₂, hkept₂.mem, h.mem]
    exact xor_self_eq_iff _ _ _
  · refine .of_straight (by decide) harg (.of_straight (by decide) hrun₁ (.of_passed rfl hnull
      (.of_straight (by decide) hrun₂ (.of_straight (by decide) hcmp (.of_straight (by decide)
      hrun₃ (.of_straight (by decide) hrun₄ (.of_straight (by decide) harg'
      (.of_straight (by decide) hrun₅ ?_))))))))
    refine .of_jne rfl rfl ?_
    rw [hflags₅, Flags.holds_ne_and, hdx₅]
    rfl

/-- `_strlen32_sse2` returns the length. -/
theorem strlen32_sse2_returns (hs : StringAt 32 m s n) (h : InCall m s c) :
    ReturnsLength strlen32 cpuid (sse2 .entry) c n := by
  obtain ⟨c', hcall, hcx, hmask, hyields⟩ := entry32_sse2_yields cpuid hs h
  have hmem : c'.mem = c.mem := hcall.mem.trans h.mem.symm
  by_cases hfirst : s + n < s / 16 * 16 + 16
  · have hle : s / 16 * 16 ≤ s + n := by omega
    have hdx : c'.regs.dx ≠ 0 := hmask.ne_zero hs.nul (Nat.le_add_right s n) hle hfirst
    rw [if_neg hdx] at hyields
    obtain ⟨d, hret, hax, hd⟩ := found32_returns cpuid hs hcall hcx hmask hle hfirst
    exact ⟨d, .of_goto hyields hret, hax, hd.trans hmem⟩
  · have hdx : c'.regs.dx = 0 := hmask.eq_zero fun i hi _ hlt => by
      exact hs.ne_zero_of_lt hi (by omega)
    rw [if_pos hdx] at hyields
    obtain ⟨d, hret, hax, hd⟩ := notfound32_returns cpuid hs hcall hcx (by omega)
      (by omega) (by omega)
    exact ⟨d, .of_next hyields rfl hret, hax, hd.trans hmem⟩

end Sse2

/-! ## The function without SSE2 -/

/-- Behind the pushes: the registers of the caller are on the stack, under its return address. -/
structure InFrame (m : Memory) (si : Nat) (c : Cpu) : Prop where
  mem : c.mem = m
  bx : ∃ v, c.stack c.sp = .word v
  si : c.stack (c.sp + 4) = .word si
  di : ∃ v, c.stack (c.sp + 8) = .word v
  caller : c.stack (c.sp + 16) = .caller

/-- In the search with words: the word at `a` is in `ecx`, with some bytes in front of `lo` set,
and its distance from the boundary in front of the string in `eax`. -/
structure InWords32 (m : Memory) (si s lo a : Nat) (c : Cpu) : Prop extends InFrame m si c where
  dx : c.regs.dx = a
  ax : c.regs.ax = a - s / 4 * 4
  marks : ZeroMarks (EndsAt m lo) a 4 c.regs.cx

theorem InFrame.kept {m : Memory} {si : Nat} {c c' : Cpu} {ws : List Reg} (h : InFrame m si c)
    (hkept : Kept ws c c') : InFrame m si c' where
  mem := hkept.mem.trans h.mem
  bx := by rw [hkept.stack, hkept.sp]; exact h.bx
  si := by rw [hkept.stack, hkept.sp, h.si]
  di := by rw [hkept.stack, hkept.sp]; exact h.di
  caller := by rw [hkept.stack, hkept.sp, h.caller]

section Plain

variable (cpuid : X86.Cpuid) {m : Memory} {si s lo n a t : Nat} {c : Cpu}

/-- The test for a zero byte in `ecx`. -/
theorem zeroTest32 (c : Cpu) : ∃ c',
    (∀ out, strlen32.Yields cpuid (plain .scan) 9 c' out →
      strlen32.Yields cpuid (plain .scan) 0 c out) ∧
    c'.flags.holds .ne = !decide (difference 32 c.regs.cx 0x01010101 &&&
      (alu.not 32 c.regs.cx &&& 0x80808080) = 0) ∧ Kept [.di, .bx, .si] c c' := by
  obtain ⟨c₁, hrun₁, hbx₁⟩ := strlen32.straight_of cpuid (plain .scan) 0 3 c
    (fun A c' => c'.regs.bx = A.result .sub 32 c.regs.cx 0x01010101) _ (fun _ => rfl) fun _ => rfl
  obtain ⟨c₂, hrun₂, hsi₂⟩ := strlen32.straight_of cpuid (plain .scan) 3 7 c₁
    (fun A c' => c'.regs.si = A.result .and 32 (A.not 32 c₁.regs.cx) 0x80808080)
    _ (fun _ => rfl) fun _ => rfl
  obtain ⟨c₃, hrun₃, hflags₃⟩ := strlen32.straight_of cpuid (plain .scan) 7 9 c₂
    (fun A c' => c'.flags = A.flags .and 32 (A.result .and 32 c₂.regs.bx c₂.regs.si)
      (A.result .and 32 c₂.regs.bx c₂.regs.si)) _ (fun _ => rfl) fun _ => rfl
  have hcx₁ : c₁.regs.cx = c.regs.cx := (hrun₁.kept (by decide)).reg .cx (by decide)
  have hbx₂ : c₂.regs.bx = c₁.regs.bx := (hrun₂.kept (by decide)).reg .bx (by decide)
  have hkept := ((hrun₁.kept (by decide)).trans (hrun₂.kept (by decide))).trans
    (hrun₃.kept (by decide))
  refine ⟨c₃, fun out hout => .of_straight (by decide) hrun₁ (.of_straight (by decide) hrun₂
    (.of_straight (by decide) hrun₃ hout)), ?_, hkept.mono (by decide)⟩
  rw [hflags₃, Flags.holds_ne_and, Nat.and_self, hbx₂, hbx₁, hsi₂, hcx₁]
  rfl

/-- `.scan` goes to the tests of the bytes, or on with the next word if there is no zero byte. -/
theorem scan32_yields (h : InWords32 m si s lo a c) (hlo : lo ≤ a + 4) (ha : s / 4 * 4 ≤ a)
    (hlt : (∀ i < 4, ¬ EndsAt m lo (a + i)) → a + 4 < 2 ^ 32) :
    (∃ c', InWords32 m si s lo a c' ∧
      strlen32.Yields cpuid (plain .scan) 0 c (.goto (plain .test) c')) ∨
    ((∀ i < 4, ¬ EndsAt m lo (a + i)) ∧ ∃ c', InWords32 m si s lo (a + 4) c' ∧
      strlen32.Yields cpuid (plain .scan) 0 c (.goto (plain .scan) c')) := by
  obtain ⟨c₁, hrun₁, hjump, hkept⟩ := zeroTest32 cpuid c
  have hdx : c₁.regs.dx = a := (hkept.reg .dx (by decide)).trans h.dx
  have hax : c₁.regs.ax = a - s / 4 * 4 := (hkept.reg .ax (by decide)).trans h.ax
  have hcx : c₁.regs.cx = c.regs.cx := hkept.reg .cx (by decide)
  by_cases htest : difference 32 c.regs.cx 0x01010101 &&&
      (alu.not 32 c.regs.cx &&& 0x80808080) = 0
  · rw [decide_eq_true htest] at hjump
    have hnone : ∀ i < 4, ¬ EndsAt m lo (a + i) := by
      intro i hi hend
      exact @zeroTest_ne_zero 4 i _ h.marks.lt hi ((h.marks.zero i hi).mpr hend) htest
    replace hlt := hlt hnone
    obtain ⟨c₂, hrun₂, hax₂, hdx₂, hcx₂⟩ := strlen32.straight_of cpuid (plain .scan) 10 13 c₁
      (fun A c' => c'.regs.ax = A.result .add 32 c₁.regs.ax 4 ∧
        c'.regs.dx = A.result .add 32 c₁.regs.dx 4 ∧
        c'.regs.cx = c₁.mem.load (A.address 32 (A.result .add 32 c₁.regs.dx 4) 0) 4)
      _ (fun _ => rfl) fun _ => ⟨rfl, rfl, rfl⟩
    have hnext : alu.result .add 32 c₁.regs.dx 4 = a + 4 := by
      rw [hdx]
      exact Flags.sum_of_lt hlt
    have hcount : alu.result .add 32 c₁.regs.ax 4 = a + 4 - s / 4 * 4 := by
      have hsum : sum 32 (a - s / 4 * 4) 4 = a - s / 4 * 4 + 4 := Flags.sum_of_lt (by omega)
      rw [hax]
      exact hsum.trans (by omega)
    have haddress : alu.address 32 (a + 4) 0 = a + 4 := Nat.mod_eq_of_lt hlt
    rw [hnext, haddress, hkept.mem, h.mem] at hcx₂
    refine .inr ⟨hnone, c₂, ⟨(h.toInFrame.kept hkept).kept (hrun₂.kept (by decide)),
      hdx₂.trans hnext, hax₂.trans hcount, ?_⟩,
      hrun₁ _ (.of_passed rfl hjump (.of_straight (by decide) hrun₂ (.of_jmp rfl)))⟩
    rw [hcx₂]
    exact zeroMarks_load hlo
  · rw [decide_eq_false htest] at hjump
    refine .inl ⟨c₁, ⟨h.toInFrame.kept hkept, hdx, hax, ?_⟩, hrun₁ _ (.of_taken rfl hjump)⟩
    rw [hcx]
    exact h.marks

/-- `.test` finds the first byte, or goes on with the next word. -/
theorem test32_yields (h : InWords32 m si s lo a c) (hlo : lo ≤ a + 4) (ha : s / 4 * 4 ≤ a)
    (ha32 : a < 2 ^ 32) (hlt : (∀ i < 4, ¬ EndsAt m lo (a + i)) → a + 4 < 2 ^ 32) :
    (∃ j < 4, EndsAt m lo (a + j) ∧ (∀ i < j, ¬ EndsAt m lo (a + i)) ∧
      ∃ c', InFrame m si c' ∧ c'.regs.ax = (a + j - s / 4 * 4) % 2 ^ 32 ∧
        strlen32.Yields cpuid (plain .test) 0 c (.goto (plain .found) c')) ∨
    ((∀ i < 4, ¬ EndsAt m lo (a + i)) ∧ ∃ c', InWords32 m si s lo (a + 4) c' ∧
      strlen32.Yields cpuid (plain .test) 0 c (.goto (plain .scan) c')) := by
  have hroom : c.regs.ax < 2 ^ 32 := by
    rw [h.ax]
    omega
  have hframe : ∀ {k c'}, Counted 32 .cx k c c' → InFrame m si c' := by
    intro k c' hcounted
    refine ⟨hcounted.mem.trans h.mem, ?_, ?_, ?_, ?_⟩ <;> rw [hcounted.stack, hcounted.sp]
    · exact h.bx
    · exact h.si
    · exact h.di
    · exact h.caller
  rcases @run_testBytes 32 4 .cx cpuid c
      [.arith .add 32 .dx (.imm 4), .mov 32 .cx (.mem .dx 0), .jmp (plain .scan)]
      (by decide) (by decide) (by decide) hroom with
    ⟨j, hj, hlow, hzero, c', hcounted, hrun⟩ | ⟨hlow, c', hcounted, hrun⟩
  · refine .inl ⟨j, hj, (h.marks.zero j hj).mp hzero, fun i hi hend => hlow i hi
      ((h.marks.zero i (by omega)).mpr hend), c', hframe hcounted, ?_, hrun⟩
    rw [hcounted.ax, h.ax]
    congr 1
    omega
  · have hnone : ∀ i < 4, ¬ EndsAt m lo (a + i) := by
      intro i hi hend
      exact hlow i hi ((h.marks.zero i hi).mpr hend)
    replace hlt := hlt hnone
    obtain ⟨c₂, hrun₂, hdx₂, hcx₂⟩ := strlen32.straight_of cpuid (plain .test) 15 17 c'
      (fun A c₂ => c₂.regs.dx = A.result .add 32 c'.regs.dx 4 ∧
        c₂.regs.cx = c'.mem.load (A.address 32 (A.result .add 32 c'.regs.dx 4) 0) 4)
      _ (fun _ => rfl) fun _ => ⟨rfl, rfl⟩
    have hkept₂ := hrun₂.kept (by decide)
    have hdx : c'.regs.dx = a := (hcounted.kept .dx (by decide) (by decide)).trans h.dx
    have hax : c₂.regs.ax = c'.regs.ax := hkept₂.reg .ax (by decide)
    have hnext : alu.result .add 32 c'.regs.dx 4 = a + 4 := by
      rw [hdx]
      exact Flags.sum_of_lt hlt
    have haddress : alu.address 32 (a + 4) 0 = a + 4 := Nat.mod_eq_of_lt hlt
    rw [hnext, haddress, hcounted.mem, h.mem] at hcx₂
    have htail : strlen32.Yields cpuid (plain .test) 15 c' (.goto (plain .scan) c₂) :=
      .of_straight (by decide) hrun₂ (.of_jmp rfl)
    refine .inr ⟨hnone, c₂, ⟨(hframe hcounted).kept hkept₂, hdx₂.trans hnext, ?_, ?_⟩,
      hrun.trans htail⟩
    · rw [hax, hcounted.ax, h.ax]
      omega
    · rw [hcx₂]
      exact zeroMarks_load hlo

/-- One of the pops of `.found`. -/
theorem found32_pop {i v : Nat} {r : Reg} (hr : Reg.ax ≠ r)
    (hi : (strlen32.block (plain .found))[i]? = some (.pop r)) (h : c.stack c.sp = .word v) :
    ∃ c', strlen32.Straight cpuid (plain .found) i (i + 1) c c' ∧ c'.sp = c.sp + 4 ∧
      c'.stack = c.stack ∧ c'.mem = c.mem ∧ c'.regs.ax = c.regs.ax :=
  ⟨_, .of_exec hi (exec_pop h), rfl, rfl, rfl, (Regs.get_set _ _ _ .ax).trans (if_neg hr)⟩

/-- `.found` takes the misalignment of the caller's `esi` away. -/
theorem found32_plain_returns (h : InFrame m si c) (hsi : si < 2 ^ 32) :
    ReturnsLength strlen32 cpuid (plain .found) c (difference 32 c.regs.ax (si % 4)) := by
  have hand : alu.result .and 32 si 0xFFFFFFFC = si / 4 * 4 :=
    and_high_mask (k := 2) (w := 32) hsi (by decide)
  have hsub : alu.result .sub 32 si (si / 4 * 4) = si % 4 := by
    have hdiff : difference 32 si (si / 4 * 4) = si - si / 4 * 4 :=
      Flags.difference_of_le (by omega) hsi
    exact hdiff.trans (by omega)
  have harg : strlen32.Straight cpuid (plain .found) 0 1 c (c.setReg .cx si) :=
    .of_exec rfl (exec_mov_spSlot h.si (by decide))
  obtain ⟨c₁, hrun₁, hax₁⟩ := strlen32.straight_of cpuid (plain .found) 1 5 (c.setReg .cx si)
    (fun A c' => c'.regs.ax = A.result .sub 32 c.regs.ax
      (A.result .sub 32 si (A.result .and 32 si 0xFFFFFFFC))) _ (fun _ => rfl) fun _ => rfl
  rw [hand, hsub] at hax₁
  have hframe := (h.kept (harg.kept (by decide))).kept (hrun₁.kept (by decide))
  obtain ⟨bx, hbx⟩ := hframe.bx
  obtain ⟨di, hdi⟩ := hframe.di
  obtain ⟨c₂, hrun₂, hsp₂, hstack₂, hmem₂, hax₂⟩ :=
    found32_pop cpuid (i := 5) (r := .bx) (by decide) rfl hbx
  obtain ⟨c₃, hrun₃, hsp₃, hstack₃, hmem₃, hax₃⟩ :=
    found32_pop cpuid (i := 6) (r := .si) (c := c₂) (by decide) rfl
      (by rw [hstack₂, hsp₂, hframe.si])
  obtain ⟨c₄, hrun₄, hsp₄, hstack₄, hmem₄, hax₄⟩ :=
    found32_pop cpuid (i := 7) (r := .di) (c := c₃) (by decide) rfl
      (by rw [hstack₃, hsp₃, hstack₂, hsp₂, add_assoc, ← hdi]; rfl)
  have hpopBp : strlen32.Straight cpuid (plain .found) 8 9 c₄
      { popped 32 c₄ with bp := c₄.stack c₄.sp } := .of_exec rfl rfl
  have hcaller : c₄.stack (c₄.sp + 4) = .caller := by
    rw [hstack₄, hsp₄, hstack₃, hsp₃, hstack₂, hsp₂, add_assoc, add_assoc, add_assoc,
      ← hframe.caller]
    rfl
  refine ⟨_, .of_ret (.of_straight (by decide) harg (.of_straight (by decide) hrun₁
    (.of_straight (by decide) hrun₂ (.of_straight (by decide) hrun₃ (.of_straight (by decide)
    hrun₄ (.of_straight (by decide) hpopBp (.of_ret rfl hcaller))))))), ?_, ?_⟩
  · exact hax₄.trans (hax₃.trans (hax₂.trans hax₁))
  · exact hmem₄.trans (hmem₃.trans (hmem₂.trans (hframe.mem.trans h.mem.symm)))

/-- The search finds the first zero byte from `lo` on. -/
theorem scan32_returns (h : InWords32 m si s lo a c) (hsi : si < 2 ^ 32) (hlo : lo ≤ a + 4)
    (ha : s / 4 * 4 ≤ a) (ht : EndsAt m lo t) (hfirst : ∀ i < t, ¬ EndsAt m lo i) (hat : a ≤ t)
    (ht32 : t < 2 ^ 32) :
    ReturnsLength strlen32 cpuid (plain .scan) c (difference 32 (t - s / 4 * 4) (si % 4)) := by
  -- the induction is on the number of bytes up to this one
  induction hk : t - a using Nat.strong_induction_on generalizing a c with
  | _ k ih =>
    have hbefore : (∀ i < 4, ¬ EndsAt m lo (a + i)) → a + 4 ≤ t := by
      intro hnone
      by_contra hge
      have hlast : a + (t - a) = t := by omega
      exact hnone (t - a) (by omega) (hlast.symm ▸ ht)
    have hnext : (∀ i < 4, ¬ EndsAt m lo (a + i)) → ∀ {c'}, InWords32 m si s lo (a + 4) c' →
        ReturnsLength strlen32 cpuid (plain .scan) c'
          (difference 32 (t - s / 4 * 4) (si % 4)) := by
      intro hnone c' hwords
      have hle := hbefore hnone
      exact ih (t - (a + 4)) (by omega) hwords (by omega) (by omega) hle rfl
    have hlt : (∀ i < 4, ¬ EndsAt m lo (a + i)) → a + 4 < 2 ^ 32 := fun hnone =>
      Nat.lt_of_le_of_lt (hbefore hnone) ht32
    rcases scan32_yields cpuid h hlo ha hlt with
      ⟨c₁, hwords, hscan⟩ | ⟨hnone, c', hwords, hscan⟩
    · rcases test32_yields cpuid hwords hlo ha (by omega) hlt with
        ⟨j, hj, hend, hlow, c', hframe, hax, htest⟩ | ⟨hnone, c', hwords', htest⟩
      · have hnot : ¬ a + j < t := fun hlt => hfirst _ hlt hend
        have hpos : a + j = t := by
          by_contra hne
          have hlast : a + (t - a) = t := by omega
          exact hlow (t - a) (by omega) (hlast.symm ▸ ht)
        have hax' : c'.regs.ax = t - s / 4 * 4 := by
          rw [hax, hpos, Nat.mod_eq_of_lt (by omega)]
        obtain ⟨d, hret, hdax, hd⟩ := found32_plain_returns cpuid hframe hsi
        rw [hax'] at hdax
        exact ⟨d, .of_goto hscan (.of_goto htest hret), hdax,
          hd.trans (hframe.mem.trans h.mem.symm)⟩
      · obtain ⟨d, hret, hax, hd⟩ := hnext hnone hwords'
        exact ⟨d, .of_goto hscan (.of_goto htest hret), hax,
          hd.trans (hwords'.mem.trans h.mem.symm)⟩
    · obtain ⟨d, hret, hax, hd⟩ := hnext hnone hwords
      exact ⟨d, .of_goto hscan hret, hax, hd.trans (hwords.mem.trans h.mem.symm)⟩

theorem framed32_straight (c : Cpu) :
    strlen32.Straight cpuid (plain .entry) 0 5 c (framed32 c) := by
  rfl

/-- The frame, with the argument in `ecx`. -/
theorem frame32_yields (h : InCall m s c) (hs : s ≠ 0) :
    ∃ c', InFrame m c.regs.si c' ∧ c'.regs.cx = s ∧
      ∀ out, strlen32.Yields cpuid (plain .entry) 8 c' out →
        strlen32.Yields cpuid (plain .entry) 0 c out := by
  have hsp : (framed32 c).sp = c.sp - 16 := by
    show c.sp - 4 - 4 - 4 - 4 = c.sp - 16
    omega
  have hframe : InFrame m c.regs.si (framed32 c) := by
    have hmem : (framed32 c).mem = m := by
      simp only [framed32, push, Cpu.setSlot, h.mem]
    refine ⟨hmem, ⟨c.regs.bx, ?_⟩, ?_, ⟨c.regs.di, ?_⟩, ?_⟩ <;> rw [hsp, stack_framed32]
    · rw [if_pos rfl]
    · rw [if_neg (by omega), if_pos (by omega)]
    · rw [if_neg (by omega), if_neg (by omega), if_pos (by omega)]
    · rw [if_neg (by omega), if_neg (by omega), if_neg (by omega), if_neg (by omega),
        Int.sub_add_cancel, h.caller]
  have harg : (framed32 c).stack (c.sp - 4 + (8 : Nat)) = .word s := by
    rw [stack_framed32, if_neg (by omega), if_neg (by omega), if_neg (by omega),
      if_neg (by omega), ← h.arg]
    congr 1
    omega
  have hload : strlen32.Straight cpuid (plain .entry) 5 6 (framed32 c)
      ((framed32 c).setReg .cx s) :=
    .of_exec rfl (exec_mov_bpSlot rfl harg (by decide))
  obtain ⟨c₂, hrun₂, hcx₂, hflags₂⟩ := strlen32.straight_of cpuid (plain .entry) 6 7
    ((framed32 c).setReg .cx s) (fun A c' => c'.regs.cx = s ∧ c'.flags = A.flags .and 32 s s) _
    (fun _ => rfl) fun _ => ⟨rfl, rfl⟩
  have hnull : c₂.flags.holds .e = false := by
    rw [hflags₂, Flags.holds_e_and_self]
    exact decide_eq_false hs
  exact ⟨c₂, (hframe.kept (hload.kept (by decide))).kept (hrun₂.kept (by decide)), hcx₂,
    fun out hout => .of_straight (by decide) (framed32_straight cpuid c) (.of_straight (by decide) hload
      (.of_straight (by decide) hrun₂ (.of_passed rfl hnull hout)))⟩

/-- The first word, with four bits set for each byte in front of the string. -/
theorem word32_yields {si : Nat} (h : InFrame m si c) (hcx : c.regs.cx = s) (hs32 : s < 2 ^ 32) :
    ∃ c', InWords32 m si s (s / 4 * 4 + (s % 4 + 1) / 2) (s / 4 * 4) c' ∧
      strlen32.Yields cpuid (plain .entry) 8 c (.next c') := by
  subst hcx
  have hand : alu.result .and 32 c.regs.cx 0xFFFFFFFC = c.regs.cx / 4 * 4 :=
    and_high_mask (k := 2) (w := 32) hs32 (by decide)
  have hsub : alu.result .sub 32 c.regs.cx (c.regs.cx / 4 * 4) = c.regs.cx % 4 := by
    have hdiff : difference 32 c.regs.cx (c.regs.cx / 4 * 4) = c.regs.cx - c.regs.cx / 4 * 4 :=
      Flags.difference_of_le (by omega) hs32
    exact hdiff.trans (by omega)
  obtain ⟨c₁, hrun₁, hcx₁, hax₁, hdx₁⟩ := strlen32.straight_of cpuid (plain .entry) 8 12 c
    (fun A c' => c'.regs.cx = A.result .and 32 c.regs.cx 0xFFFFFFFC ∧
      c'.regs.ax = A.result .sub 32 c.regs.cx (A.result .and 32 c.regs.cx 0xFFFFFFFC) ∧
      c'.regs.dx = 4) _ (fun _ => rfl) fun _ => ⟨rfl, rfl, rfl⟩
  rw [hand, hsub] at hax₁
  obtain ⟨c₂, hrun₂, hax₂, hdx₂⟩ := strlen32.straight_of cpuid (plain .entry) 12 14 c₁
    (fun A c' => c'.regs.ax = A.mulLow 32 c₁.regs.ax c₁.regs.dx ∧ c'.regs.dx = c₁.regs.cx)
    _ (fun _ => rfl) fun _ => ⟨rfl, rfl⟩
  obtain ⟨c₃, hrun₃, hax₃, hcx₃⟩ := strlen32.straight_of cpuid (plain .entry) 14 17 c₂
    (fun A c' => c'.regs.ax = A.not 32 (A.result .xor 32 c₂.regs.cx c₂.regs.cx) ∧
      c'.regs.cx = c₂.regs.ax) _ (fun _ => rfl) fun _ => ⟨rfl, rfl⟩
  obtain ⟨c₄, hrun₄, hax₄, hcx₄⟩ := strlen32.straight_of cpuid (plain .entry) 17 20 c₃
    (fun A c' => c'.regs.ax = A.not 32 (A.shl 32 c₃.regs.ax (c₃.regs.cx % 32)) ∧
      c'.regs.cx = c₃.mem.load (A.address 32 c₃.regs.dx 0) 4) _ (fun _ => rfl)
    fun _ => ⟨rfl, rfl⟩
  obtain ⟨c₅, hrun₅, hcx₅, hax₅⟩ := strlen32.straight_of cpuid (plain .entry) 20 22 c₄
    (fun A c' => c'.regs.cx = A.result .or 32 c₄.regs.cx c₄.regs.ax ∧
      c'.regs.ax = A.result .xor 32 c₄.regs.ax c₄.regs.ax) _ (fun _ => rfl) fun _ => ⟨rfl, rfl⟩
  have hkept₅ := (hrun₄.kept (by decide)).trans (hrun₅.kept (by decide))
  have hframe₃ := ((h.kept (hrun₁.kept (by decide))).kept (hrun₂.kept (by decide))).kept
    (hrun₃.kept (by decide))
  have hdx₃ : c₃.regs.dx = c.regs.cx / 4 * 4 :=
    ((hrun₃.kept (by decide)).reg .dx (by decide)).trans (hdx₂.trans (hcx₁.trans hand))
  have hcount : c₃.regs.cx % 32 = 4 * (c.regs.cx % 4) := by
    have hmul : alu.mulLow 32 (c.regs.cx % 4) 4 = c.regs.cx % 4 * 4 :=
      Nat.mod_eq_of_lt (by omega)
    rw [hcx₃, hax₂, hax₁, hdx₁, hmul]
    omega
  have hones : c₄.regs.ax = 2 ^ (4 * (c.regs.cx % 4)) - 1 := by
    have hxor : alu.result .xor 32 c₂.regs.cx c₂.regs.cx = 0 := Nat.xor_self _
    rw [hax₄, hax₃, hxor, hcount]
    exact not_shl_ones (by omega)
  have haddress : alu.address 32 c₃.regs.dx 0 = c.regs.cx / 4 * 4 := by
    rw [hdx₃]
    exact Nat.mod_eq_of_lt (by omega)
  have hword : c₅.regs.cx
      = m.load (c.regs.cx / 4 * 4) 4 ||| (2 ^ (4 * (c.regs.cx % 4)) - 1) := by
    rw [hcx₅, hcx₄, hones, haddress, hframe₃.mem]
    rfl
  refine ⟨c₅, ⟨hframe₃.kept hkept₅, (hkept₅.reg .dx (by decide)).trans hdx₃, ?_, ?_, ?_⟩,
    .of_straight (by decide) hrun₁ (.of_straight (by decide) hrun₂ (.of_straight (by decide) hrun₃
      (.of_straight (by decide) hrun₄ (.of_straight (by decide) hrun₅ (.of_end rfl)))))⟩
  · rw [hax₅, Nat.sub_self]
    exact Nat.xor_self _
  · rw [hword]
    have hlow : 2 ^ (4 * (c.regs.cx % 4)) - 1 < 2 ^ (4 * (c.regs.cx % 4)) :=
      Nat.sub_lt (Nat.two_pow_pos _) Nat.one_pos
    exact Nat.or_lt_two_pow (m.load_lt _ 4)
      (hlow.trans_le (Nat.pow_le_pow_right (by decide) (by omega)))
  · intro i hi
    rw [hword, byte_or_ones_eq_zero_iff, byte_load m hi]
    constructor
    · rintro ⟨hle, hzero⟩
      exact ⟨by omega, UInt8.toNat_inj.mp hzero⟩
    · rintro ⟨hle, hzero⟩
      exact ⟨by omega, congrArg UInt8.toNat hzero⟩

/-- `_strlen32` returns how far the first zero byte from the middle of the bytes in front of the
string is from the boundary, less the misalignment of `esi`. -/
theorem strlen32_plain_returns (h : InCall m s c) (hs : s ≠ 0) (hs32 : s < 2 ^ 32)
    (hsi : c.regs.si < 2 ^ 32) (ht : EndsAt m (s / 4 * 4 + (s % 4 + 1) / 2) t)
    (hfirst : ∀ i < t, ¬ EndsAt m (s / 4 * 4 + (s % 4 + 1) / 2) i) (ht32 : t < 2 ^ 32) :
    ReturnsLength strlen32 cpuid (plain .entry) c
      (difference 32 (t - s / 4 * 4) (c.regs.si % 4)) := by
  obtain ⟨c₁, hframe, hcx, hentry⟩ := frame32_yields cpuid h hs
  obtain ⟨c', hwords, hyields⟩ := word32_yields cpuid hframe hcx hs32
  have hle := ht.1
  obtain ⟨d, hret, hax, hd⟩ := scan32_returns cpuid hwords hsi (by omega) le_rfl ht
    hfirst (by omega) ht32
  exact ⟨d, .of_next (hentry _ hyields) rfl hret, hax, hd.trans (hwords.mem.trans h.mem.symm)⟩

end Plain

/-! ## `strlen` -/

/-- What the plain function needs to be right: the byte in front of the string is not taken for
its end, and `esi` is misaligned like the string; or both errors cancel out. -/
def PlainExact (m : Memory) (s n si : Nat) : Prop :=
  ((s % 4 < 2 ∨ m (s - 1) ≠ 0) ∧ si % 4 = s % 4) ∨
    (2 ≤ s % 4 ∧ m (s - 1) = 0 ∧ n + si % 4 + 1 = s % 4)

section

variable (cpuid : X86.Cpuid) {m : Memory} {s n : Nat} {c : Cpu}

theorem strlen32_plain_iff (hs : StringAt 32 m s n) (h : InCall m s c)
    (hsi : c.regs.si < 2 ^ 32) :
    ReturnsLength strlen32 cpuid (plain .entry) c n ↔ PlainExact m s n c.regs.si := by
  have hpos := hs.pos
  have hsn := hs.lt
  have hval : ∀ t, EndsAt m (s / 4 * 4 + (s % 4 + 1) / 2) t →
      (∀ i < t, ¬ EndsAt m (s / 4 * 4 + (s % 4 + 1) / 2) i) → t ≤ s + n →
      (ReturnsLength strlen32 cpuid (plain .entry) c n ↔
        difference 32 (t - s / 4 * 4) (c.regs.si % 4) = n) := by
    intro t ht hfirst hle
    have hret := strlen32_plain_returns cpuid h (by omega) (by omega) hsi ht hfirst
      (by omega)
    exact ⟨fun hn => hret.unique hn, fun heq => heq ▸ hret⟩
  have hdiff : ∀ k < 2 ^ 32, difference 32 k (c.regs.si % 4) = n ↔
      k = n + c.regs.si % 4 ∨ k + 2 ^ 32 = n + c.regs.si % 4 := by
    intro k hk
    rcases Nat.lt_or_ge k (c.regs.si % 4) with hlt | hge
    · rw [Flags.difference_of_lt hlt (by omega)]
      omega
    · rw [Flags.difference_of_le hge hk]
      omega
  by_cases hgap : s % 4 < 2 ∨ m (s - 1) ≠ 0
  · have hfirst : ∀ i < s + n, ¬ EndsAt m (s / 4 * 4 + (s % 4 + 1) / 2) i := by
      rintro i hi ⟨hlo, hzero⟩
      by_cases his : s ≤ i
      · exact hs.ne_zero_of_lt his hi hzero
      · have hprev : i = s - 1 := by omega
        subst hprev
        rcases hgap with hlt | hne
        · omega
        · exact hne hzero
    rw [hval (s + n) ⟨by omega, hs.nul⟩ hfirst le_rfl, hdiff _ (by omega)]
    constructor
    · intro h
      exact .inl ⟨hgap, by omega⟩
    · rintro (⟨-, heq⟩ | ⟨hle, hzero, -⟩)
      · omega
      · rcases hgap with hlt | hne
        · omega
        · exact absurd hzero hne
  · rw [not_or, not_not] at hgap
    have hfirst : ∀ i < s - 1, ¬ EndsAt m (s / 4 * 4 + (s % 4 + 1) / 2) i := by
      rintro i hi ⟨hlo, -⟩
      omega
    rw [hval (s - 1) ⟨by omega, hgap.2⟩ hfirst (by omega), hdiff _ (by omega)]
    constructor
    · intro h
      exact .inr ⟨by omega, hgap.2, by omega⟩
    · rintro (⟨hlt | hne, -⟩ | ⟨-, -, heq⟩)
      · omega
      · exact absurd hgap.2 hne
      · omega

/-- The dispatch leaves the argument and `esi` as they were. -/
theorem start32_iff (h : InCall m s c) (hstatus : c.status < 2 ^ 32) :
    ∃ c', InCall m s c' ∧ c'.regs.si = c.regs.si ∧
      (ReturnsLength strlen32 cpuid .start c n ↔
        ReturnsLength strlen32 cpuid (.fn (decide (UsesSse2 cpuid c.status)) .entry) c' n) := by
  obtain ⟨c', hsame, hleaves⟩ := @dispatch _ _ Part.entry text32 next cpuid
    _ (Or.inl rfl) hstatus
  have hcall : InCall m s c' := by
    refine ⟨⟨hsame.mem.trans h.mem, ?_⟩, ?_⟩ <;> rw [hsame.stack, hsame.sp]
    · exact h.caller
    · exact h.arg
  refine ⟨c', hcall, hsame.kept .si (by decide), ?_⟩
  unfold ReturnsLength
  rw [hsame.mem]
  exact exists_congr fun d => and_congr_left fun _ => (hleaves .caller d).symm

end

/-- `strlen` returns the length with SSE2, and without it when `_strlen32` happens to. -/
theorem strlen32_exact_iff (cpuid : X86.Cpuid) (m : Memory) (s n : Nat) (hs : StringAt 32 m s n)
    (c : Cpu) (hmem : c.mem = m) (hcaller : c.stack c.sp = .caller)
    (harg : c.stack (c.sp + 4) = .word s) (hsi : c.regs.si < 2 ^ 32) (hstatus : c.status < 2 ^ 32) :
    ReturnsLength strlen32 cpuid .start c n ↔
      UsesSse2 cpuid c.status ∨ PlainExact m s n c.regs.si := by
  obtain ⟨c', hcall, hsi', hstart⟩ := start32_iff cpuid (n := n)
    ⟨⟨hmem, hcaller⟩, harg⟩ hstatus
  rw [hstart]
  by_cases huses : UsesSse2 cpuid c.status
  · rw [decide_eq_true huses]
    exact iff_of_true (strlen32_sse2_returns cpuid hs hcall) (.inl huses)
  · rw [decide_eq_false huses, strlen32_plain_iff cpuid hs hcall (hsi' ▸ hsi), hsi']
    exact ⟨.inr, fun h => h.resolve_left huses⟩

/-- The empty string at an aligned address, and `esi` misaligned. -/
def emptyCpu : Cpu where
  regs := ⟨0, 0, 0, 0, 1, 0, 0, 0, 0, 0, 0, 0, 0, 0⟩
  xmms := ⟨fun _ => 0, fun _ => 0, fun _ => 0, fun _ => 0, fun _ => 0, fun _ => 0, fun _ => 0,
    fun _ => 0⟩
  bp := .word 0
  sp := 0
  stack a := if a = 4 then .word 0x1000 else .caller
  mem := fun _ => 0
  status := 0
  flags := ⟨false, false, false, false⟩

theorem strlen32_exact_iff_empty :
    ReturnsLength strlen32 (fun _ => ⟨0, 0, 0, 0⟩) .start emptyCpu 0 ↔
      UsesSse2 (fun _ => ⟨0, 0, 0, 0⟩) 0 ∨ PlainExact (fun _ => 0) 0x1000 0 1 :=
  strlen32_exact_iff _ (fun _ => 0) 0x1000 0 ⟨by decide, by decide, rfl, by decide⟩ emptyCpu rfl
    rfl rfl (by decide) (by decide)

/-- For this call without SSE2 the length is wrong. -/
theorem not_returnsLength_empty : StringAt 32 (fun _ => 0) 0x1000 0 ∧
    ¬ ReturnsLength strlen32 (fun _ => ⟨0, 0, 0, 0⟩) .start emptyCpu 0 := by
  have hs : StringAt 32 (fun _ => 0) 0x1000 0 := ⟨by decide, by decide, rfl, by decide⟩
  have hplain : ¬ UsesSse2 (fun _ => ⟨0, 0, 0, 0⟩) emptyCpu.status := fun h =>
    h.elim (fun h => absurd h (by decide)) fun h => h.1 rfl
  obtain ⟨c', hcall, hsi, hstart⟩ := start32_iff (fun _ => ⟨0, 0, 0, 0⟩) (n := 0)
    (c := emptyCpu) (m := fun _ => 0) (s := 0x1000) ⟨⟨rfl, rfl⟩, rfl⟩ (by decide)
  have hsi' : c'.regs.si = 1 := hsi
  refine ⟨hs, ?_⟩
  rw [hstart, decide_eq_false hplain, strlen32_plain_iff _ hs hcall (by omega), hsi']
  unfold PlainExact
  omega

end Xeos.C99.Strlen
