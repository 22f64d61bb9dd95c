import Xeos.C99.StrlenScan

/-!
# The x86-64 `strlen`

Both functions begin at the last boundary in front of the string and leave the bytes in front
of it out of account: `_strlen64_sse2` clears their bits in the mask of the comparison, and
`_strlen64` sets them in the word.  So the first byte that either of them finds is the end of
the string.
-/

namespace Xeos.C99.Strlen

open Lib Lib.Asm
open Memcpy64 (UsesSse2)

/-! ## The function with SSE2 -/

/-- In the search with vectors, at the block at `b`. -/
structure InScan (m : Memory) (s b : Nat) (c : Cpu) : Prop extends InBody m c where
  si : c.regs.si = s
  di : c.regs.di = b

section Sse2

variable (cpuid : X86.Cpuid) {m : Memory} {s n b : Nat} {c : Cpu}

/-- `.found`, with the end of the string in the block at `b`. -/
theorem found64_returns (hs : StringAt 64 m s n) (h : InScan m s b c)
    (hmask : Marks (fun a => m a = 0) s b c.regs.dx) (hle : b ≤ s + n) (hlt : s + n < b + 16) :
    ReturnsLength strlen64 cpuid (sse2 .found) c n := by
  have hsn := hs.lt
  have hdx : c.regs.dx ≠ 0 := hmask.ne_zero hs.nul (Nat.le_add_right s n) hle hlt
  have hbit : lowestBit 64 0 c.regs.dx = s + n - b :=
    hmask.lowestBit_eq hs.nul (Nat.le_add_right s n) hle hlt
      (fun i hi hlt => hs.ne_zero_of_lt hi hlt) (by decide)
  have hbsf : strlen64.Straight cpuid (sse2 .found) 0 1 c (c.setReg .ax (s + n - b)) :=
    .of_exec rfl (exec_bsf rfl hdx hbit)
  obtain ⟨c', hrun, hax⟩ := strlen64.straight_of cpuid (sse2 .found) 1 3
    (c.setReg .ax (s + n - b))
    (fun A c' => c'.regs.ax = A.result .sub 64 (s + n - b) (A.result .sub 64 c.regs.si c.regs.di))
    _ (fun _ => rfl) fun _ => rfl
  have hbody : InBody m c' :=
    (h.toInBody.kept (hbsf.kept (by decide))).kept (hrun.kept (by decide))
  rw [h.si, h.di] at hax
  exact ⟨_, .of_ret (.of_straight (by decide) hbsf (.of_straight (by decide) hrun
    (.of_ret rfl hbody.caller))),
    hax.trans (difference_difference (Nat.add_sub_cancel' hle) (by omega) hsn),
    hbody.mem.trans h.mem.symm⟩

/-- `.notfound` looks at the next block. -/
theorem notfound64_yields (h : InScan m s b c) (hb : b % 16 = 0) (hs : s ≤ b + 16)
    (hlt : b + 16 < 2 ^ 64) :
    ∃ c', InScan m s (b + 16) c' ∧ Marks (fun a => m a = 0) s (b + 16) c'.regs.dx ∧
      strlen64.Yields cpuid (sse2 .notfound) 0 c
        (if c'.regs.dx = 0 then .goto (sse2 .notfound) c' else .next c') := by
  obtain ⟨hbody, hsi, rfl⟩ := h
  obtain ⟨c₁, hrun₁, hdi₁, hxmm₁⟩ := strlen64.straight_of cpuid (sse2 .notfound) 0 2 c
    (fun A c' => c'.regs.di = A.result .add 64 c.regs.di 16 ∧
      c'.xmms.xmm0 = fun i => c.xmms.xmm0 i ^^^ c.xmms.xmm0 i) _ (fun _ => rfl) fun _ => ⟨rfl, rfl⟩
  have hkept₁ := hrun₁.kept (by decide)
  have hblock : c₁.regs.get .di = c.regs.di + 16 := hdi₁.trans (Flags.sum_of_lt hlt)
  have hcmp : strlen64.Straight cpuid (sse2 .notfound) 2 3 c₁ _ :=
    .of_exec rfl (exec_pcmpeqb_mem hblock hlt (by omega))
  obtain ⟨c₂, hrun₂, hdx₂, hflags₂⟩ := strlen64.straight_of cpuid (sse2 .notfound) 3 5
    (c₁.setXmm .xmm0 (Vec.equal (c₁.xmms.get .xmm0) fun i => c₁.mem (c.regs.di + 16 + i)))
    (fun A c' => c'.regs.dx
        = Vec.signs (Vec.equal c₁.xmms.xmm0 fun i => c₁.mem (c.regs.di + 16 + i)) 16 ∧
      c'.flags = A.flags .and 64 c'.regs.dx c'.regs.dx) _ (fun _ => rfl) fun _ => ⟨rfl, rfl⟩
  have hkept := (hkept₁.trans (hcmp.kept (by decide))).trans (hrun₂.kept (by decide))
  have hdi₂ : c₂.regs.di = c₁.regs.di :=
    ((hcmp.kept (by decide)).trans (hrun₂.kept (by decide))).reg .di (by decide)
  refine ⟨c₂, ⟨hbody.kept hkept, (hkept.reg .si (by decide)).trans hsi, hdi₂.trans hblock⟩,
    ?_, ?_⟩
  · rw [hdx₂]
    refine Marks.of_equal hs fun j _ => ?_
    rw [hxmm₁, hkept₁.mem, hbody.mem]
    exact xor_self_eq_iff _ _ _
  · refine .of_straight (by decide) hrun₁ (.of_straight (by decide) hcmp
      (.of_straight (by decide) hrun₂ ?_))
    refine .of_je rfl rfl ?_
    rw [hflags₂, Flags.holds_e_and_self]

/-- From a block in front of the end of the string the search finds it. -/
theorem notfound64_returns (hs : StringAt 64 m s n) (h : InScan m s b c) (hb : b % 16 = 0)
    (hle : s ≤ b + 16) (hend : b + 16 ≤ s + n) :
    ReturnsLength strlen64 cpuid (sse2 .notfound) c n := by
  have hsn := hs.lt
  -- the induction is on the number of bytes up to the end
  induction hk : s + n - b using Nat.strong_induction_on generalizing b c with
  | _ k ih =>
    obtain ⟨c', hscan, hmask, hyields⟩ :=
      notfound64_yields cpuid h hb hle (Nat.lt_of_le_of_lt hend hsn)
    have hmem : c'.mem = c.mem := hscan.mem.trans h.mem.symm
    by_cases hlast : s + n < b + 16 + 16
    · have hdx : c'.regs.dx ≠ 0 := hmask.ne_zero hs.nul (Nat.le_add_right s n) hend hlast
      rw [if_neg hdx] at hyields
      obtain ⟨d, hret, hax, hd⟩ := found64_returns cpuid hs hscan hmask hend hlast
      exact ⟨d, .of_next hyields rfl hret, hax, hd.trans hmem⟩
    · have hdx : c'.regs.dx = 0 := hmask.eq_zero fun i hi _ hlt => by
        exact hs.ne_zero_of_lt hi (by omega)
      rw [if_pos hdx] at hyields
      obtain ⟨d, hret, hax, hd⟩ :=
        ih (s + n - (b + 16)) (by omega) hscan (by omega) (by omega) (by omega) rfl
      exact ⟨d, .of_goto hyields hret, hax, hd.trans hmem⟩

/-- The test for `NULL`. -/
theorem null64_passed (sse2 : Bool) (hdi : c.regs.di ≠ 0) :
    ∃ c', Kept [] c c' ∧ ∀ out, strlen64.Yields cpuid (.fn sse2 .entry) 2 c' out →
      strlen64.Yields cpuid (.fn sse2 .entry) 0 c out := by
  obtain ⟨c', hrun, rfl⟩ := strlen64.straight_of cpuid (.fn sse2 .entry) 0 1 c
    (fun A c' => c' = c.setFlags (A.flags .and 64 c.regs.di c.regs.di)) _
    (fun _ => by cases sse2 <;> rfl) fun _ => rfl
  have hnull : (alu.flags .and 64 c.regs.di c.regs.di).holds .e = false := by
    rw [Flags.holds_e_and_self]
    exact decide_eq_false hdi
  refine ⟨c.setFlags (alu.flags .and 64 c.regs.di c.regs.di), (Kept.refl c).setFlags _,
    fun out hout => .of_straight (by decide) hrun ?_⟩
  cases sse2
  · exact .of_passed rfl hnull hout
  · exact .of_passed rfl hnull hout

/-- The first block, from the boundary in front of the string. -/
theorem entry64_sse2_yields (hs : StringAt 64 m s n) (h : InBody m c) (hdi : c.regs.di = s) :
    ∃ c', InScan m s (s / 16 * 16) c' ∧
      Marks (fun a => m a = 0) s (s / 16 * 16) c'.regs.dx ∧
      strlen64.Yields cpuid (sse2 .entry) 2 c
        (if c'.regs.dx = 0 then .next c' else .goto (sse2 .found) c') := by
  have hsn := hs.lt
  subst hdi
  have hs64 : c.regs.di < 2 ^ 64 := by omega
  have hand : alu.result .and 64 c.regs.di 0xFFFFFFFFFFFFFFF0 = c.regs.di / 16 * 16 :=
    and_high_mask (k := 4) (w := 64) hs64 (by decide)
  obtain ⟨c₁, hrun₁, hdi₁, hsi₁, hxmm₁⟩ := strlen64.straight_of cpuid (sse2 .entry) 2 5 c
    (fun A c' => c'.regs.di = A.result .and 64 c.regs.di 0xFFFFFFFFFFFFFFF0 ∧
      c'.regs.si = c.regs.di ∧ c'.xmms.xmm0 = fun i => c.xmms.xmm0 i ^^^ c.xmms.xmm0 i)
    _ (fun _ => rfl) fun _ => ⟨rfl, rfl, rfl⟩
  have hkept₁ := hrun₁.kept (by decide)
  have hblock : c₁.regs.get .di = c.regs.di / 16 * 16 := hdi₁.trans hand
  have hcmp : strlen64.Straight cpuid (sse2 .entry) 5 6 c₁ _ :=
    .of_exec rfl (exec_pcmpeqb_mem hblock
      (show c.regs.di / 16 * 16 < 2 ^ 64 by omega) (by omega))
  obtain ⟨c₂, hrun₂, hdx₂, hcx₂⟩ := strlen64.straight_of cpuid (sse2 .entry) 6 9
    (c₁.setXmm .xmm0 (Vec.equal (c₁.xmms.get .xmm0) fun i => c₁.mem (c.regs.di / 16 * 16 + i)))
    (fun A c' => c'.regs.dx
        = Vec.signs (Vec.equal c₁.xmms.xmm0 fun i => c₁.mem (c.regs.di / 16 * 16 + i)) 16 ∧
      c'.regs.cx = A.result .sub 64 c₁.regs.si c₁.regs.di) _ (fun _ => rfl) fun _ => ⟨rfl, rfl⟩
  obtain ⟨c₃, hrun₃, hdx₃, hflags₃⟩ := strlen64.straight_of cpuid (sse2 .entry) 9 13 c₂
    (fun A c' => c'.regs.dx = A.result .and 64 c₂.regs.dx
        (A.shl 64 (A.not 64 (A.result .xor 64 c₂.regs.ax c₂.regs.ax)) (c₂.regs.cx % 64)) ∧
      c'.flags = A.flags .and 64 c₂.regs.dx
        (A.shl 64 (A.not 64 (A.result .xor 64 c₂.regs.ax c₂.regs.ax)) (c₂.regs.cx % 64)))
    _ (fun _ => rfl) fun _ => ⟨rfl, rfl⟩
  have hcount : c₂.regs.cx % 64 = c.regs.di - c.regs.di / 16 * 16 := by
    have hdiff : difference 64 c.regs.di (c.regs.di / 16 * 16)
        = c.regs.di - c.regs.di / 16 * 16 := Flags.difference_of_le (by omega) hs64
    rw [hcx₂, hsi₁, show c₁.regs.di = c.regs.di / 16 * 16 from hblock,
      show alu.result .sub 64 c.regs.di (c.regs.di / 16 * 16) = _ from hdiff]
    omega
  have hxor : alu.result .xor 64 c₂.regs.ax c₂.regs.ax = 0 := Nat.xor_self _
  rw [hcount, hxor] at hdx₃ hflags₃
  have hkept₂ := ((hcmp.kept (by decide)).trans (hrun₂.kept (by decide))).trans
    (hrun₃.kept (by decide))
  refine ⟨c₃, ⟨(h.kept hkept₁).kept hkept₂, (hkept₂.reg .si (by decide)).trans hsi₁,
    (hkept₂.reg .di (by decide)).trans hblock⟩, ?_, ?_⟩
  · rw [hdx₃, hdx₂]
    refine Marks.masked (by decide) (by omega) fun j _ => ?_
    rw [hxmm₁, hkept₁.mem, h.mem]
    exact xor_self_eq_iff _ _ _
  · refine .of_straight (by decide) hrun₁ (.of_straight (by decide) hcmp
      (.of_straight (by decide) hrun₂ (.of_straight (by decide) hrun₃ ?_)))
    refine .of_jne rfl rfl ?_
    rw [hflags₃, Flags.holds_ne_and, hdx₃]
    rfl

/-- `_strlen64_sse2` returns the length. -/
theorem strlen64_sse2_returns (hs : StringAt 64 m s n) (h : InBody m c) (hdi : c.regs.di = s) :
    ReturnsLength strlen64 cpuid (sse2 .entry) c n := by
  have hnull : c.regs.di ≠ 0 := by
    rw [hdi]
    exact hs.pos.ne'
  obtain ⟨c₀, hkept, hentry⟩ := null64_passed cpuid true hnull
  obtain ⟨c', hscan, hmask, hyields⟩ := entry64_sse2_yields cpuid hs (h.kept hkept)
    ((hkept.reg .di (by decide)).trans hdi)
  have hmem : c'.mem = c.mem := hscan.mem.trans h.mem.symm
  by_cases hfirst : s + n < s / 16 * 16 + 16
  · have hle : s / 16 * 16 ≤ s + n := by omega
    have hdx : c'.regs.dx ≠ 0 := hmask.ne_zero hs.nul (Nat.le_add_right s n) hle hfirst
    rw [if_neg hdx] at hyields
    obtain ⟨d, hret, hax, hd⟩ := found64_returns cpuid hs hscan hmask hle hfirst
    exact ⟨d, .of_goto (hentry _ hyields) hret, hax, hd.trans hmem⟩
  · have hdx : c'.regs.dx = 0 := hmask.eq_zero fun i hi _ hlt => by
      exact hs.ne_zero_of_lt hi (by omega)
    rw [if_pos hdx] at hyields
    obtain ⟨d, hret, hax, hd⟩ := notfound64_returns cpuid hs hscan (by omega)
      (by omega) (by omega)
    exact ⟨d, .of_next (hentry _ hyields) rfl hret, hax, hd.trans hmem⟩

end Sse2

/-! ## The function without SSE2 -/

/-- In the search with words: the word at `a` is in `rdx`, with the bytes in front of the string
set, and its distance from the boundary in front of the string in `rax`. -/
structure InWords (m : Memory) (s a : Nat) (c : Cpu) : Prop extends InBody m c where
  si : c.regs.si = s % 8
  di : c.regs.di = a
  ax : c.regs.ax = a - s / 8 * 8
  marks : ZeroMarks (EndsAt m s) a 8 c.regs.dx

section Plain

variable (cpuid : X86.Cpuid) {m : Memory} {s n a : Nat} {c : Cpu}

/-- The test for a zero byte in `rdx`. -/
theorem zeroTest64 (c : Cpu) : ∃ c',
    (∀ out, strlen64.Yields cpuid (plain .scan) 9 c' out →
      strlen64.Yields cpuid (plain .scan) 0 c out) ∧
    c'.flags.holds .ne = !decide (difference 64 c.regs.dx 0x0101010101010101 &&&
      (alu.not 64 c.regs.dx &&& 0x8080808080808080) = 0) ∧ Kept [.r8, .r9, .r10, .r11] c c' := by
  obtain ⟨c₁, hrun₁, hr8₁, hr9₁, hr10₁, hr11₁⟩ := strlen64.straight_of cpuid (plain .scan) 0 4 c
    (fun _ c' => c'.regs.r8 = c.regs.dx ∧ c'.regs.r9 = c.regs.dx ∧
      c'.regs.r10 = 0x0101010101010101 ∧ c'.regs.r11 = 0x8080808080808080)
    _ (fun _ => rfl) fun _ => ⟨rfl, rfl, rfl, rfl⟩
  obtain ⟨c₂, hrun₂, hr8₂, hr9₂⟩ := strlen64.straight_of cpuid (plain .scan) 4 7 c₁
    (fun A c' => c'.regs.r8 = A.result .sub 64 c₁.regs.r8 c₁.regs.r10 ∧
      c'.regs.r9 = A.result .and 64 (A.not 64 c₁.regs.r9) c₁.regs.r11)
    _ (fun _ => rfl) fun _ => ⟨rfl, rfl⟩
  obtain ⟨c₃, hrun₃, hflags₃⟩ := strlen64.straight_of cpuid (plain .scan) 7 9 c₂
    (fun A c' => c'.flags = A.flags .and 64 (A.result .and 64 c₂.regs.r8 c₂.regs.r9)
      (A.result .and 64 c₂.regs.r8 c₂.regs.r9)) _ (fun _ => rfl) fun _ => rfl
  rw [hr8₁, hr10₁] at hr8₂
  rw [hr9₁, hr11₁] at hr9₂
  have hkept := ((hrun₁.kept (by decide)).trans (hrun₂.kept (by decide))).trans
    (hrun₃.kept (by decide))
  refine ⟨c₃, fun out hout => .of_straight (by decide) hrun₁ (.of_straight (by decide) hrun₂
    (.of_straight (by decide) hrun₃ hout)), ?_, hkept.mono (by decide)⟩
  rw [hflags₃, Flags.holds_ne_and, Nat.and_self, hr8₂, hr9₂]
  rfl

/-- `.scan` goes to the tests of the bytes, or on with the next word if there is no zero byte. -/
theorem scan64_yields (h : InWords m s a c) (hsa : s ≤ a + 8) (ha : s / 8 * 8 ≤ a)
    (hlt : (∀ i < 8, ¬ EndsAt m s (a + i)) → a + 8 < 2 ^ 64) :
    (∃ c', InWords m s a c' ∧ strlen64.Yields cpuid (plain .scan) 0 c (.goto (plain .test) c')) ∨
    ((∀ i < 8, ¬ EndsAt m s (a + i)) ∧ ∃ c', InWords m s (a + 8) c' ∧
      strlen64.Yields cpuid (plain .scan) 0 c (.goto (plain .scan) c')) := by
  obtain ⟨c₁, hrun₁, hjump, hkept⟩ := zeroTest64 cpuid c
  have hdi : c₁.regs.di = a := (hkept.reg .di (by decide)).trans h.di
  have hax : c₁.regs.ax = a - s / 8 * 8 := (hkept.reg .ax (by decide)).trans h.ax
  have hsi : c₁.regs.si = s % 8 := (hkept.reg .si (by decide)).trans h.si
  have hdx : c₁.regs.dx = c.regs.dx := hkept.reg .dx (by decide)
  by_cases htest : difference 64 c.regs.dx 0x0101010101010101 &&&
      (alu.not 64 c.regs.dx &&& 0x8080808080808080) = 0
  · rw [decide_eq_true htest] at hjump
    have hnone : ∀ i < 8, ¬ EndsAt m s (a + i) := by
      intro i hi hend
      exact @zeroTest_ne_zero 8 i _ h.marks.lt hi ((h.marks.zero i hi).mpr hend) htest
    replace hlt := hlt hnone
    obtain ⟨c₂, hrun₂, hax₂, hdi₂, hdx₂⟩ := strlen64.straight_of cpuid (plain .scan) 10 13 c₁
      (fun A c' => c'.regs.ax = A.result .add 64 c₁.regs.ax 8 ∧
        c'.regs.di = A.result .add 64 c₁.regs.di 8 ∧
        c'.regs.dx = c₁.mem.load (A.address 64 (A.result .add 64 c₁.regs.di 8) 0) 8)
      _ (fun _ => rfl) fun _ => ⟨rfl, rfl, rfl⟩
    have hkept₂ := hrun₂.kept (by decide)
    have hnext : alu.result .add 64 c₁.regs.di 8 = a + 8 := by
      rw [hdi]
      exact Flags.sum_of_lt hlt
    have hcount : alu.result .add 64 c₁.regs.ax 8 = a + 8 - s / 8 * 8 := by
      have hsum : sum 64 (a - s / 8 * 8) 8 = a - s / 8 * 8 + 8 := Flags.sum_of_lt (by omega)
      rw [hax]
      exact hsum.trans (by omega)
    have haddress : alu.address 64 (a + 8) 0 = a + 8 := Nat.mod_eq_of_lt hlt
    rw [hnext, haddress, hkept.mem, h.mem] at hdx₂
    refine .inr ⟨hnone, c₂, ⟨(h.toInBody.kept hkept).kept hkept₂,
      (hkept₂.reg .si (by decide)).trans hsi, hdi₂.trans hnext, hax₂.trans hcount, ?_⟩,
      hrun₁ _ (.of_passed rfl hjump (.of_straight (by decide) hrun₂ (.of_jmp rfl)))⟩
    rw [hdx₂]
    exact zeroMarks_load hsa
  · rw [decide_eq_false htest] at hjump
    refine .inl ⟨c₁, ⟨h.toInBody.kept hkept, hsi, hdi, hax, ?_⟩, hrun₁ _ (.of_taken rfl hjump)⟩
    rw [hdx]
    exact h.marks

/-- `.test` finds the first byte, or goes on with the next word. -/
theorem test64_yields (h : InWords m s a c) (hsa : s ≤ a + 8) (ha : s / 8 * 8 ≤ a)
    (ha64 : a < 2 ^ 64) (hlt : (∀ i < 8, ¬ EndsAt m s (a + i)) → a + 8 < 2 ^ 64) :
    (∃ j < 8, EndsAt m s (a + j) ∧ (∀ i < j, ¬ EndsAt m s (a + i)) ∧
      ∃ c', InBody m c' ∧ c'.regs.si = s % 8 ∧
        c'.regs.ax = (a + j - s / 8 * 8) % 2 ^ 64 ∧
        strlen64.Yields cpuid (plain .test) 0 c (.goto (plain .found) c')) ∨
    ((∀ i < 8, ¬ EndsAt m s (a + i)) ∧ ∃ c', InWords m s (a + 8) c' ∧
      strlen64.Yields cpuid (plain .test) 0 c (.goto (plain .scan) c')) := by
  have hroom : c.regs.ax < 2 ^ 64 := by
    rw [h.ax]
    omega
  rcases @run_testBytes 64 8 .dx cpuid c
      [.arith .add 64 .di (.imm 8), .mov 64 .dx (.mem .di 0), .jmp (plain .scan)]
      (by decide) (by decide) (by decide) hroom with
    ⟨j, hj, hlow, hzero, c', hcounted, hrun⟩ | ⟨hlow, c', hcounted, hrun⟩
  · refine .inl ⟨j, hj, (h.marks.zero j hj).mp hzero, fun i hi hend => hlow i hi
      ((h.marks.zero i (by omega)).mpr hend), c', ⟨hcounted.mem.trans h.mem, ?_⟩,
      (hcounted.kept .si (by decide) (by decide)).trans h.si, ?_, hrun⟩
    · rw [hcounted.stack, hcounted.sp, h.caller]
    · rw [hcounted.ax, h.ax]
      congr 1
      omega
  · have hnone : ∀ i < 8, ¬ EndsAt m s (a + i) := by
      intro i hi hend
      exact hlow i hi ((h.marks.zero i hi).mpr hend)
    replace hlt := hlt hnone
    obtain ⟨c₂, hrun₂, hdi₂, hdx₂⟩ := strlen64.straight_of cpuid (plain .test) 31 33 c'
      (fun A c₂ => c₂.regs.di = A.result .add 64 c'.regs.di 8 ∧
        c₂.regs.dx = c'.mem.load (A.address 64 (A.result .add 64 c'.regs.di 8) 0) 8)
      _ (fun _ => rfl) fun _ => ⟨rfl, rfl⟩
    have hkept₂ := hrun₂.kept (by decide)
    have hdi : c'.regs.di = a := (hcounted.kept .di (by decide) (by decide)).trans h.di
    have hsi : c'.regs.si = s % 8 := (hcounted.kept .si (by decide) (by decide)).trans h.si
    have hax : c₂.regs.ax = c'.regs.ax := hkept₂.reg .ax (by decide)
    have hnext : alu.result .add 64 c'.regs.di 8 = a + 8 := by
      rw [hdi]
      exact Flags.sum_of_lt hlt
    have haddress : alu.address 64 (a + 8) 0 = a + 8 := Nat.mod_eq_of_lt hlt
    rw [hnext, haddress, hcounted.mem, h.mem] at hdx₂
    have hbody : InBody m c' := ⟨hcounted.mem.trans h.mem, by
      rw [hcounted.stack, hcounted.sp, h.caller]⟩
    have htail : strlen64.Yields cpuid (plain .test) 31 c' (.goto (plain .scan) c₂) :=
      .of_straight (by decide) hrun₂ (.of_jmp rfl)
    refine .inr ⟨hnone, c₂, ⟨hbody.kept hkept₂, (hkept₂.reg .si (by decide)).trans hsi,
      hdi₂.trans hnext, ?_, ?_⟩, hrun.trans htail⟩
    · rw [hax, hcounted.ax, h.ax]
      omega
    · rw [hdx₂]
      exact zeroMarks_load hsa

/-- `.found`, with the number of bytes from the boundary to the end. -/
theorem found64_plain_returns (h : InBody m c) (hsi : c.regs.si = s % 8)
    (hax : c.regs.ax = s % 8 + n) (hlt : s % 8 + n < 2 ^ 64) :
    ReturnsLength strlen64 cpuid (plain .found) c n := by
  obtain ⟨c', hrun, hax'⟩ := strlen64.straight_of cpuid (plain .found) 0 1 c
    (fun A c' => c'.regs.ax = A.result .sub 64 c.regs.ax c.regs.si) _ (fun _ => rfl) fun _ => rfl
  have hbody := h.kept (hrun.kept (by decide))
  have hdiff : difference 64 (s % 8 + n) (s % 8) = n :=
    (Flags.difference_of_le (Nat.le_add_right _ _) hlt).trans (Nat.add_sub_cancel_left _ _)
  rw [hax, hsi] at hax'
  exact ⟨_, .of_ret (.of_straight (by decide) hrun (.of_ret rfl hbody.caller)),
    hax'.trans hdiff, hbody.mem.trans h.mem.symm⟩

/-- From a word in front of the end of the string, or at it, the search finds it. -/
theorem scan64_returns (hs : StringAt 64 m s n) (h : InWords m s a c) (hsa : s ≤ a + 8)
    (ha : s / 8 * 8 ≤ a) (hend : a ≤ s + n) :
    ReturnsLength strlen64 cpuid (plain .scan) c n := by
  have hsn := hs.lt
  -- the induction is on the number of bytes up to the end
  induction hk : s + n - a using Nat.strong_induction_on generalizing a c with
  | _ k ih =>
    have hbefore : (∀ i < 8, ¬ EndsAt m s (a + i)) → a + 8 ≤ s + n := by
      intro hnone
      by_contra hge
      have hlast : a + (s + n - a) = s + n := by omega
      exact hnone (s + n - a) (by omega) (hlast.symm ▸ ⟨Nat.le_add_right s n, hs.nul⟩)
    have hnext : (∀ i < 8, ¬ EndsAt m s (a + i)) → ∀ {c'}, InWords m s (a + 8) c' →
        ReturnsLength strlen64 cpuid (plain .scan) c' n := by
      intro hnone c' hwords
      have hle := hbefore hnone
      exact ih (s + n - (a + 8)) (by omega) hwords (by omega) (by omega) hle rfl
    have hlt : (∀ i < 8, ¬ EndsAt m s (a + i)) → a + 8 < 2 ^ 64 := fun hnone =>
      Nat.lt_of_le_of_lt (hbefore hnone) hsn
    rcases scan64_yields cpuid h hsa ha hlt with
      ⟨c₁, hwords, hscan⟩ | ⟨hnone, c', hwords, hscan⟩
    · rcases test64_yields cpuid hwords hsa ha (by omega) hlt with
        ⟨j, hj, hat, hfirst, c', hbody, hsi, hax, htest⟩ | ⟨hnone, c', hwords', htest⟩
      · have hnot : ¬ a + j < s + n := fun hlt => hs.not_endsAt hlt hat
        have hpos : a + j = s + n := by
          by_contra hne
          have hlast : a + (s + n - a) = s + n := by omega
          exact hfirst (s + n - a) (by omega)
            (hlast.symm ▸ ⟨Nat.le_add_right s n, hs.nul⟩)
        have hax' : c'.regs.ax = s % 8 + n := by
          rw [hax, Nat.mod_eq_of_lt (by omega)]
          omega
        obtain ⟨d, hret, hdax, hd⟩ :=
          found64_plain_returns cpuid hbody hsi hax' (by omega)
        exact ⟨d, .of_goto hscan (.of_goto htest hret), hdax,
          hd.trans (hbody.mem.trans h.mem.symm)⟩
      · obtain ⟨d, hret, hax, hd⟩ := hnext hnone hwords'
        exact ⟨d, .of_goto hscan (.of_goto htest hret), hax,
          hd.trans (hwords'.mem.trans h.mem.symm)⟩
    · obtain ⟨d, hret, hax, hd⟩ := hnext hnone hwords
      exact ⟨d, .of_goto hscan hret, hax, hd.trans (hwords.mem.trans h.mem.symm)⟩

/-- The first word, with the bytes in front of the string set. -/
theorem entry64_plain_yields (hs : StringAt 64 m s n) (h : InBody m c) (hdi : c.regs.di = s) :
    ∃ c', InWords m s (s / 8 * 8) c' ∧ strlen64.Yields cpuid (plain .entry) 2 c (.next c') := by
  have hsn := hs.lt
  subst hdi
  have hs64 : c.regs.di < 2 ^ 64 := by omega
  have hand : alu.result .and 64 c.regs.di 0xFFFFFFFFFFFFFFF8 = c.regs.di / 8 * 8 :=
    and_high_mask (k := 3) (w := 64) hs64 (by decide)
  have hsub : alu.result .sub 64 c.regs.di (c.regs.di / 8 * 8) = c.regs.di % 8 := by
    have hdiff : difference 64 c.regs.di (c.regs.di / 8 * 8) = c.regs.di - c.regs.di / 8 * 8 :=
      Flags.difference_of_le (by omega) hs64
    exact hdiff.trans (by omega)
  obtain ⟨c₁, hrun₁, hdi₁, hax₁, hsi₁, hcx₁⟩ := strlen64.straight_of cpuid (plain .entry) 2 7 c
    (fun A c' => c'.regs.di = A.result .and 64 c.regs.di 0xFFFFFFFFFFFFFFF8 ∧
      c'.regs.ax = A.result .sub 64 c.regs.di (A.result .and 64 c.regs.di 0xFFFFFFFFFFFFFFF8) ∧
      c'.regs.si = c'.regs.ax ∧ c'.regs.cx = 8) _ (fun _ => rfl) fun _ => ⟨rfl, rfl, rfl, rfl⟩
  rw [hand, hsub] at hax₁
  obtain ⟨c₂, hrun₂, hax₂⟩ := strlen64.straight_of cpuid (plain .entry) 7 8 c₁
    (fun A c' => c'.regs.ax = A.mulLow 64 c₁.regs.ax c₁.regs.cx) _ (fun _ => rfl) fun _ => rfl
  obtain ⟨c₃, hrun₃, hax₃, hcx₃⟩ := strlen64.straight_of cpuid (plain .entry) 8 11 c₂
    (fun A c' => c'.regs.ax = A.not 64 (A.result .xor 64 c₂.regs.cx c₂.regs.cx) ∧
      c'.regs.cx = c₂.regs.ax) _ (fun _ => rfl) fun _ => ⟨rfl, rfl⟩
  obtain ⟨c₄, hrun₄, hax₄, hdx₄⟩ := strlen64.straight_of cpuid (plain .entry) 11 14 c₃
    (fun A c' => c'.regs.ax = A.not 64 (A.shl 64 c₃.regs.ax (c₃.regs.cx % 64)) ∧
      c'.regs.dx = c₃.mem.load (A.address 64 c₃.regs.di 0) 8) _ (fun _ => rfl)
    fun _ => ⟨rfl, rfl⟩
  obtain ⟨c₅, hrun₅, hdx₅, hax₅⟩ := strlen64.straight_of cpuid (plain .entry) 14 16 c₄
    (fun A c' => c'.regs.dx = A.result .or 64 c₄.regs.dx c₄.regs.ax ∧
      c'.regs.ax = A.result .xor 64 c₄.regs.ax c₄.regs.ax) _ (fun _ => rfl) fun _ => ⟨rfl, rfl⟩
  have hkept₃ := (hrun₂.kept (by decide)).trans (hrun₃.kept (by decide))
  have hkept₅ := (hrun₄.kept (by decide)).trans (hrun₅.kept (by decide))
  have hbody₃ := (h.kept (hrun₁.kept (by decide))).kept hkept₃
  have hdi₃ : c₃.regs.di = c.regs.di / 8 * 8 :=
    (hkept₃.reg .di (by decide)).trans (hdi₁.trans hand)
  have hcount : c₃.regs.cx % 64 = 8 * (c.regs.di % 8) := by
    have hmul : alu.mulLow 64 (c.regs.di % 8) 8 = c.regs.di % 8 * 8 :=
      Nat.mod_eq_of_lt (by omega)
    rw [hcx₃, hax₂, hax₁, hcx₁, hmul]
    omega
  have hones : c₄.regs.ax = 2 ^ (8 * (c.regs.di % 8)) - 1 := by
    have hxor : alu.result .xor 64 c₂.regs.cx c₂.regs.cx = 0 := Nat.xor_self _
    rw [hax₄, hax₃, hxor, hcount]
    exact not_shl_ones (by omega)
  have haddress : alu.address 64 c₃.regs.di 0 = c.regs.di / 8 * 8 := by
    rw [hdi₃]
    exact Nat.mod_eq_of_lt (by omega)
  have hword : c₅.regs.dx
      = m.load (c.regs.di / 8 * 8) 8 ||| (2 ^ (8 * (c.regs.di % 8)) - 1) := by
    rw [hdx₅, hdx₄, hones, haddress, hbody₃.mem]
    rfl
  refine ⟨c₅, ⟨hbody₃.kept hkept₅, ?_, (hkept₅.reg .di (by decide)).trans hdi₃, ?_, ?_, ?_⟩,
    .of_straight (by decide) hrun₁ (.of_straight (by decide) hrun₂ (.of_straight (by decide) hrun₃
      (.of_straight (by decide) hrun₄ (.of_straight (by decide) hrun₅ (.of_end rfl)))))⟩
  · exact (hkept₅.reg .si (by decide)).trans ((hkept₃.reg .si (by decide)).trans
      (hsi₁.trans hax₁))
  · rw [hax₅, Nat.sub_self]
    exact Nat.xor_self _
  · rw [hword]
    have hlow : 2 ^ (8 * (c.regs.di % 8)) - 1 < 2 ^ (8 * (c.regs.di % 8)) :=
      Nat.sub_lt (Nat.two_pow_pos _) Nat.one_pos
    exact Nat.or_lt_two_pow (m.load_lt _ 8)
      (hlow.trans_le (Nat.pow_le_pow_right (by decide) (by omega)))
  · intro i hi
    rw [hword, byte_or_ones_eq_zero_iff, byte_load m hi]
    constructor
    · rintro ⟨hle, hzero⟩
      exact ⟨by omega, UInt8.toNat_inj.mp hzero⟩
    · rintro ⟨hle, hzero⟩
      exact ⟨by omega, congrArg UInt8.toNat hzero⟩

/-- `_strlen64` returns the length. -/
theorem strlen64_plain_returns (hs : StringAt 64 m s n) (h : InBody m c) (hdi : c.regs.di = s) :
    ReturnsLength strlen64 cpuid (plain .entry) c n := by
  have hnull : c.regs.di ≠ 0 := by
    rw [hdi]
    exact hs.pos.ne'
  obtain ⟨c₀, hkept, hentry⟩ := null64_passed cpuid false hnull
  obtain ⟨c', hwords, hyields⟩ := entry64_plain_yields cpuid hs (h.kept hkept)
    ((hkept.reg .di (by decide)).trans hdi)
  obtain ⟨d, hret, hax, hd⟩ := scan64_returns cpuid hs hwords (by omega) le_rfl
    (by omega)
  exact ⟨d, .of_next (hentry _ hyields) rfl hret, hax,
    hd.trans (hwords.mem.trans h.mem.symm)⟩

end Plain

/-! ## `strlen` -/

/-- Both functions return the length of the string, and so does `strlen`, whatever its cached
flag and the processor say. -/
theorem strlen64_exact (cpuid : X86.Cpuid) (m : Memory) (s n : Nat) (hs : StringAt 64 m s n)
    (c : Cpu) (hmem : c.mem = m) (hdi : c.regs.di = s) (hcaller : c.stack c.sp = .caller)
    (hstatus : c.status < 2 ^ 64) :
    (∀ sse2, ReturnsLength strlen64 cpuid (.fn sse2 .entry) c n) ∧
      ReturnsLength strlen64 cpuid .start c n := by
  have hboth : ∀ sse2 {c : Cpu}, InBody m c → c.regs.di = s →
      ReturnsLength strlen64 cpuid (.fn sse2 .entry) c n := by
    intro sse2 c h hdi
    cases sse2
    · exact strlen64_plain_returns cpuid hs h hdi
    · exact strlen64_sse2_returns cpuid hs h hdi
  refine ⟨fun sse2 => hboth sse2 ⟨hmem, hcaller⟩ hdi, ?_⟩
  obtain ⟨c', hsame, hleaves⟩ := @dispatch _ _ Part.entry text64 next cpuid
    _ (Or.inr rfl) hstatus
  obtain ⟨d, hret, hax, hd⟩ := hboth (decide (UsesSse2 cpuid c.status)) (c := c')
    ⟨hsame.mem.trans hmem, by rw [hsame.stack, hsame.sp, hcaller]⟩
    ((hsame.kept .di (by decide)).trans hdi)
  exact ⟨d, (hleaves _ _).mp hret, hax, hd.trans hsame.mem⟩

/-- The string `A` at an odd address. -/
def letterMemory : Memory := fun a => if a = 0x1003 then 0x41 else 0

def letterCpu : Cpu where
  regs := ⟨0, 0, 0, 0, 0, 0x1003, 0, 0, 0, 0, 0, 0, 0, 0⟩
  xmms := ⟨fun _ => 0, fun _ => 0, fun _ => 0, fun _ => 0, fun _ => 0, fun _ => 0, fun _ => 0,
    fun _ => 0⟩
  bp := .word 0
  sp := 0
  stack _ := .caller
  mem := letterMemory
  status := 2 ^ 64 - 1
  flags := ⟨false, false, false, false⟩

theorem strlen64_exact_letter :
    (∀ sse2, ReturnsLength strlen64 (fun _ => ⟨0, 0, 0, 0⟩) (.fn sse2 .entry) letterCpu 1) ∧
      ReturnsLength strlen64 (fun _ => ⟨0, 0, 0, 0⟩) .start letterCpu 1 :=
  strlen64_exact _ letterMemory 0x1003 1 ⟨by decide, by decide, rfl, by decide⟩ letterCpu rfl
    rfl rfl (by decide)

end Xeos.C99.Strlen
