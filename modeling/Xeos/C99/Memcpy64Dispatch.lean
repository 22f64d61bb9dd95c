import Mathlib.Data.Nat.Bitwise
import Xeos.C99.Memcpy64Plain
import Xeos.C99.Memcpy64Sse2

/-!
# The dispatch of the x86-64 `memcpy`

`memcpy` chooses one of the two paths by the cached flag, and asks `cpuid` when
the flag holds neither 0 nor 1.  Both paths leave the same memory.  The return
value is the destination on the SSE2 path, and on the other one only when the
last quadword that went through `r8` happens to be the destination, or when no
quadword was moved.
-/

namespace Xeos.C99.Memcpy64

open Lib Lib.Memory Lib.X86

/-- Bit 26 of `edx` for leaf 1. -/
def hasSse2 (cpuid : Cpuid) : Bool := (cpuid 1).edx.testBit 26

/-- The flag and `cpuid` select `_memcpy64_sse2`. -/
def UsesSse2 (cpuid : Cpuid) (flag : Nat) : Prop :=
  flag = 1 ∨ (flag ≠ 0 ∧ hasSse2 cpuid = true)

instance (cpuid : Cpuid) (flag : Nat) : Decidable (UsesSse2 cpuid flag) :=
  inferInstanceAs (Decidable (flag = 1 ∨ (flag ≠ 0 ∧ hasSse2 cpuid = true)))

/-- The memory after the dispatch, where the flag may have been set. -/
def dispatched (cpuid : Cpuid) (status : Nat) (m : Memory) : Memory :=
  if m.load status 8 = 1 ∨ m.load status 8 = 0 then m
  else m.store status 8 (if hasSse2 cpuid then 1 else 0)

/-- The arguments of a call in their registers, and the flag apart from both
ranges. -/
structure Called (status d s n : Nat) (c : Cpu) : Prop where
  rdi : c.reg .rdi = d
  rsi : c.reg .rsi = s
  rdx : c.reg .rdx = n
  status_le : status + 8 ≤ 2 ^ 64
  status_dst : status + 8 ≤ d ∨ d + n ≤ status
  status_src : status + 8 ≤ s ∨ s + n ≤ status

section Dispatch

variable {cpuid : Cpuid} {status : Nat} {d s n : Nat} {c : Cpu}

theorem Called.at_ (h : Called status d s n c) (hr : Ranges d s n) {c' : Cpu}
    (hreg : ∀ r, r = .rdi ∨ r = .rsi ∨ r = .rdx → c'.reg r = c.reg r) :
    At c'.mem d s n 0 c' := by
  refine ⟨⟨?_, ?_, ?_⟩, (copy_zero _ _ _ _).symm, Nat.zero_le n⟩
  · rw [hreg _ (by simp), h.rdi, Nat.add_zero, Nat.mod_eq_of_lt hr.dst_lt]
  · rw [hreg _ (by simp), h.rsi, Nat.add_zero, Nat.mod_eq_of_lt hr.src_lt]
  · rw [hreg _ (by simp), h.rdx, Nat.sub_zero]

/-- The comparisons with the cached flag. -/
theorem start_run (cpuid : Cpuid) (h : Called status d s n c) :
    ∃ c', c'.reg = c.reg ∧ c'.mem = c.mem ∧
      runBlock cpuid ((program status).block .start) c
        = if c.mem.load status 8 = 1 then .goto .memcpy64Sse2 c'
          else if c.mem.load status 8 = 0 then .goto .memcpy64 c' else .next c' := by
  have hstatus := h.status_le
  have haddr : ∀ c' : Cpu, c'.address none status = status :=
    fun c' => Nat.mod_eq_of_lt (by omega)
  have hlt : c.mem.load status 8 < 2 ^ 64 := load_lt _ _ _
  have hcmp1 : exec (L := Label) cpuid (.cmp 64 (.mem none status) (.imm 1)) c
      = .next (c.setFlagsSub 64 (c.mem.load status 8) 1) := by
    rw [exec, Cpu.read_mem, haddr]
    rfl
  have he1 := Cpu.holds_e_setFlagsSub c hlt (show 1 < 2 ^ 64 by decide)
  generalize hc1 : c.setFlagsSub 64 (c.mem.load status 8) 1 = c1 at hcmp1 he1
  have hreg1 : c1.reg = c.reg := by rw [← hc1, Cpu.setFlagsSub_reg]
  have hmem1 : c1.mem = c.mem := by rw [← hc1, Cpu.setFlagsSub_mem]
  have hcmp2 : exec (L := Label) cpuid (.cmp 64 (.mem none status) (.imm 0)) c1
      = .next (c1.setFlagsSub 64 (c.mem.load status 8) 0) := by
    rw [exec, Cpu.read_mem, haddr, hmem1]
    rfl
  have he2 := Cpu.holds_e_setFlagsSub c1 hlt (show 0 < 2 ^ 64 by decide)
  generalize hc2 : c1.setFlagsSub 64 (c.mem.load status 8) 0 = c2 at hcmp2 he2
  have hreg2 : c2.reg = c.reg := by rw [← hc2, Cpu.setFlagsSub_reg, hreg1]
  have hmem2 : c2.mem = c.mem := by rw [← hc2, Cpu.setFlagsSub_mem, hmem1]
  have hblock : (program status).block .start
      = [.cmp 64 (.mem none status) (.imm 1), .jcc .e .memcpy64Sse2,
          .cmp 64 (.mem none status) (.imm 0), .jcc .e .memcpy64] := rfl
  rw [hblock, runBlock_cons hcmp1, runBlock, exec, he1]
  by_cases h1 : c.mem.load status 8 = 1
  · refine ⟨c1, hreg1, hmem1, ?_⟩
    rw [decide_eq_true h1, if_pos rfl, if_pos h1]
  · refine ⟨c2, hreg2, hmem2, ?_⟩
    rw [decide_eq_false h1, if_neg Bool.false_ne_true, if_neg h1]
    simp only
    rw [runBlock_cons hcmp2, jcc_run, he2]
    by_cases h0 : c.mem.load status 8 = 0
    · rw [decide_eq_true h0, if_pos rfl, if_pos h0]
    · rw [decide_eq_false h0, if_neg Bool.false_ne_true, if_neg h0]

theorem and_bit26 (x : Nat) :
    (x % 2 ^ 32 % 2 ^ 32 &&& 0x4000000 % 2 ^ 32) = 0 ↔ x.testBit 26 = false := by
  rw [show 0x4000000 % 2 ^ 32 = 2 ^ 26 by decide, Nat.mod_mod, Nat.and_two_pow,
    Nat.testBit_mod_two_pow]
  cases x.testBit 26 with
  | false => simp
  | true => simp

/-- The question to `cpuid`, with the arguments it would destroy in `r8` and
`r9`. -/
theorem check_run (cpuid : Cpuid) (status : Nat) (hrdx : c.reg .rdx = n) (hn : n < 2 ^ 64) :
    ∃ c', runBlock cpuid ((program status).block .check) c
        = (if hasSse2 cpuid then .next c' else .goto .fail c') ∧
      c'.reg .r9 = n ∧ c'.reg .rdi = c.reg .rdi ∧ c'.reg .rsi = c.reg .rsi ∧
      c'.mem = c.mem := by
  have hmov1 : exec (L := Label) cpuid (.mov 64 .r8 .rcx) c
      = .next (c.setReg .r8 (c.reg .rcx % 2 ^ 64 % 2 ^ 64)) := rfl
  generalize hc1 : c.setReg .r8 (c.reg .rcx % 2 ^ 64 % 2 ^ 64) = c1 at hmov1
  have hmov2 : exec (L := Label) cpuid (.mov 64 .r9 .rdx) c1 = .next (c1.setReg .r9 n) := by
    have hrdx1 : c1.reg .rdx = n := by simp [← hc1, hrdx]
    rw [exec, Cpu.read_reg, hrdx1, Nat.mod_eq_of_lt hn, Cpu.write_reg_64, Nat.mod_eq_of_lt hn]
  generalize hc2 : c1.setReg .r9 n = c2 at hmov2
  have hmov3 : exec (L := Label) cpuid (.mov 64 .rax (.imm 1)) c2
      = .next (c2.setReg .rax 1) := rfl
  generalize hc3 : c2.setReg .rax 1 = c3 at hmov3
  have hcpuid : exec (L := Label) cpuid .cpuid c3
      = .next ((((c3.setReg .rax ((cpuid 1).eax % 2 ^ 32)).setReg .rbx
          ((cpuid 1).ebx % 2 ^ 32)).setReg .rcx ((cpuid 1).ecx % 2 ^ 32)).setReg .rdx
          ((cpuid 1).edx % 2 ^ 32)) := by
    have hrax : c3.reg .rax = 1 := by simp [← hc3]
    rw [exec, hrax]
    rfl
  generalize hc4 : (((c3.setReg .rax ((cpuid 1).eax % 2 ^ 32)).setReg .rbx
    ((cpuid 1).ebx % 2 ^ 32)).setReg .rcx ((cpuid 1).ecx % 2 ^ 32)).setReg .rdx
    ((cpuid 1).edx % 2 ^ 32) = c4 at hcpuid
  have htest : exec (L := Label) cpuid (.test 32 .rdx (.imm 0x4000000)) c4
      = .next (c4.setFlagsLogic 32
          ((cpuid 1).edx % 2 ^ 32 % 2 ^ 32 &&& 0x4000000 % 2 ^ 32)) := by
    have hrdx4 : c4.reg .rdx = (cpuid 1).edx % 2 ^ 32 := by simp [← hc4]
    rw [exec, Cpu.read_reg, Cpu.read_imm, hrdx4]
  generalize hv : (cpuid 1).edx % 2 ^ 32 % 2 ^ 32 &&& 0x4000000 % 2 ^ 32 = v at htest
  have hbit : v = 0 ↔ hasSse2 cpuid = false := by
    rw [← hv]
    exact and_bit26 _
  refine ⟨c4.setFlagsLogic 32 v, ?_, ?_, ?_, ?_, ?_⟩
  · have hblock : (program status).block .check
        = [.mov 64 .r8 .rcx, .mov 64 .r9 .rdx, .mov 64 .rax (.imm 1), .cpuid,
            .test 32 .rdx (.imm 0x4000000), .jcc .e .fail] := rfl
    rw [hblock, runBlock_cons hmov1, runBlock_cons hmov2, runBlock_cons hmov3,
      runBlock_cons hcpuid, runBlock_cons htest, jcc_run, Cpu.holds_e_setFlagsLogic]
    cases hs : hasSse2 cpuid with
    | false => rw [decide_eq_true (hbit.mpr hs), if_pos rfl, if_neg Bool.false_ne_true]
    | true =>
      have hne : v ≠ 0 := fun h0 => by
        rw [hbit.mp h0] at hs
        exact Bool.false_ne_true hs
      rw [decide_eq_false hne, if_neg Bool.false_ne_true, if_pos rfl]
  · simp [← hc4, ← hc3, ← hc2]
  · simp [← hc4, ← hc3, ← hc2, ← hc1]
  · simp [← hc4, ← hc3, ← hc2, ← hc1]
  · simp [← hc4, ← hc3, ← hc2, ← hc1]

/-- The blocks `.ok` and `.fail`, which set the flag and restore the length. -/
theorem setStatus_run (cpuid : Cpuid) (target : Label) {v : Nat} (hv : v < 2 ^ 64)
    (hstatus : status + 8 ≤ 2 ^ 64) (hr9 : c.reg .r9 = n) (hn : n < 2 ^ 64) :
    ∃ c', runBlock cpuid [.mov 64 .rcx .r8, .mov 64 .rdx .r9,
        .mov 64 (.mem none status) (.imm v), .jmp target] c = .goto target c' ∧
      c'.reg .rdx = n ∧ c'.reg .rdi = c.reg .rdi ∧ c'.reg .rsi = c.reg .rsi ∧
      c'.mem = c.mem.store status 8 v := by
  have hmov1 : exec (L := Label) cpuid (.mov 64 .rcx .r8) c
      = .next (c.setReg .rcx (c.reg .r8 % 2 ^ 64 % 2 ^ 64)) := rfl
  generalize hc1 : c.setReg .rcx (c.reg .r8 % 2 ^ 64 % 2 ^ 64) = c1 at hmov1
  have hmov2 : exec (L := Label) cpuid (.mov 64 .rdx .r9) c1 = .next (c1.setReg .rdx n) := by
    have hr91 : c1.reg .r9 = n := by simp [← hc1, hr9]
    rw [exec, Cpu.read_reg, hr91, Nat.mod_eq_of_lt hn, Cpu.write_reg_64, Nat.mod_eq_of_lt hn]
  generalize hc2 : c1.setReg .rdx n = c2 at hmov2
  have hmov3 : exec (L := Label) cpuid (.mov 64 (.mem none status) (.imm v)) c2
      = .next (c2.setMem (c2.mem.store status 8 v)) := by
    have haddr : c2.address none status = status := Nat.mod_eq_of_lt (by omega)
    rw [exec, Cpu.read_imm, Cpu.write_mem, haddr, Nat.mod_eq_of_lt hv]
  refine ⟨c2.setMem (c2.mem.store status 8 v), ?_, ?_, ?_, ?_, ?_⟩
  · rw [runBlock_cons hmov1, runBlock_cons hmov2, runBlock_cons hmov3]
    rfl
  · simp [← hc2]
  · simp [← hc2, ← hc1]
  · simp [← hc2, ← hc1]
  · simp [← hc2, ← hc1]

/-! ## The whole function -/

/-- What a call returns. -/
def result (cpuid : Cpuid) (status : Nat) (m : Memory) (d s n : Nat) : Nat :=
  if UsesSse2 cpuid (m.load status 8) then d else plainResult (dispatched cpuid status m) d s n

theorem result_of_sse2 (s n : Nat) {m : Memory} (h : UsesSse2 cpuid (m.load status 8)) :
    result cpuid status m d s n = d := by
  unfold result
  exact if_pos h

theorem result_of_plain (d s n : Nat) {m : Memory} (h : ¬ UsesSse2 cpuid (m.load status 8)) :
    result cpuid status m d s n = plainResult (dispatched cpuid status m) d s n := by
  unfold result
  exact if_neg h

theorem dispatched_of_known {m : Memory} (h : m.load status 8 = 1 ∨ m.load status 8 = 0) :
    dispatched cpuid status m = m := by
  unfold dispatched
  exact if_pos h

theorem dispatched_of_unknown {m : Memory} (h1 : m.load status 8 ≠ 1)
    (h0 : m.load status 8 ≠ 0) :
    dispatched cpuid status m = m.store status 8 (if hasSse2 cpuid then 1 else 0) := by
  unfold dispatched
  exact if_neg fun h => h.elim h1 h0

/-- The flag is known: one of the two paths runs on the memory as it is. -/
theorem memcpy_ends_of_known (cpuid : Cpuid) (hr : Ranges d s n) (h : Called status d s n c)
    (hflag : c.mem.load status 8 = 1 ∨ c.mem.load status 8 = 0) :
    ∃ c', (program status).Ends cpuid .start c c' ∧
      Copied (dispatched cpuid status c.mem) d s n (result cpuid status c.mem d s n) c' := by
  obtain ⟨c1, hreg1, hmem1, hstart⟩ := start_run cpuid h
  have hat : At c1.mem d s n 0 c1 := h.at_ hr fun r _ => congrFun hreg1 r
  have hdisp : dispatched cpuid status c.mem = c.mem := dispatched_of_known hflag
  by_cases h1 : c.mem.load status 8 = 1
  · rw [if_pos h1] at hstart
    obtain ⟨c', hends, hcopied⟩ := memcpy64Sse2_ends hr hat
    rw [result_of_sse2 s n (Or.inl h1), hdisp, ← hmem1]
    exact ⟨c', .of_goto hstart hends, hcopied⟩
  · have h0 : c.mem.load status 8 = 0 := hflag.resolve_left h1
    have hplain : ¬ UsesSse2 cpuid (c.mem.load status 8) :=
      fun hsse => hsse.elim h1 fun hne => hne.1 h0
    rw [if_neg h1, if_pos h0] at hstart
    obtain ⟨c', hends, hcopied⟩ := memcpy64_ends hr hat
    rw [result_of_plain d s n hplain, hdisp, ← hmem1]
    exact ⟨c', .of_goto hstart hends, hcopied⟩

/-- The flag is not known: `cpuid` is asked, and the flag is set. -/
theorem memcpy_ends_of_unknown (cpuid : Cpuid) (hr : Ranges d s n) (h : Called status d s n c)
    (h1 : c.mem.load status 8 ≠ 1) (h0 : c.mem.load status 8 ≠ 0) :
    ∃ c', (program status).Ends cpuid .start c c' ∧
      Copied (dispatched cpuid status c.mem) d s n (result cpuid status c.mem d s n) c' := by
  have hlength := hr.length
  have hn : n < 2 ^ 64 := by omega
  obtain ⟨c1, hreg1, hmem1, hstart⟩ := start_run cpuid h
  rw [if_neg h1, if_neg h0] at hstart
  have hrdx1 : c1.reg .rdx = n := (congrFun hreg1 .rdx).trans h.rdx
  obtain ⟨c2, hcheck, hr9, hrdi2, hrsi2, hmem2⟩ :=
    check_run cpuid status hrdx1 hn
  have hargs : ∀ c3 : Cpu, c3.reg .rdx = n → c3.reg .rdi = c2.reg .rdi →
      c3.reg .rsi = c2.reg .rsi → At c3.mem d s n 0 c3 := by
    intro c3 hrdx hrdi hrsi
    apply h.at_ hr
    intro r hr
    rcases hr with rfl | rfl | rfl
    · rw [hrdi, hrdi2, hreg1]
    · rw [hrsi, hrsi2, hreg1]
    · rw [hrdx, h.rdx]
  cases hs : hasSse2 cpuid with
  | true =>
    rw [hs, if_pos rfl] at hcheck
    obtain ⟨c3, hok, hrdx, hrdi, hrsi, hmem3⟩ := setStatus_run cpuid .memcpy64Sse2
      (show 1 < 2 ^ 64 by decide) h.status_le hr9 hn
    obtain ⟨c', hends, hcopied⟩ := memcpy64Sse2_ends hr (hargs c3 hrdx hrdi hrsi)
    rw [result_of_sse2 s n (Or.inr ⟨h0, hs⟩), dispatched_of_unknown h1 h0, hs, if_pos rfl,
      ← hmem1, ← hmem2, ← hmem3]
    exact ⟨c', .of_next hstart rfl (.of_next hcheck rfl (.of_goto hok hends)), hcopied⟩
  | false =>
    rw [hs, if_neg Bool.false_ne_true] at hcheck
    obtain ⟨c3, hfail, hrdx, hrdi, hrsi, hmem3⟩ := setStatus_run cpuid .memcpy64
      (show 0 < 2 ^ 64 by decide) h.status_le hr9 hn
    have hplain : ¬ UsesSse2 cpuid (c.mem.load status 8) := by
      intro hsse
      rcases hsse with hone | ⟨_, hbit⟩
      · exact h1 hone
      · rw [hs] at hbit
        exact Bool.false_ne_true hbit
    obtain ⟨c', hends, hcopied⟩ := memcpy64_ends hr (hargs c3 hrdx hrdi hrsi)
    rw [result_of_plain d s n hplain, dispatched_of_unknown h1 h0, hs, if_neg Bool.false_ne_true,
      ← hmem1, ← hmem2, ← hmem3]
    exact ⟨c', .of_next hstart rfl (.of_goto hcheck (.of_goto hfail hends)), hcopied⟩

/-- `memcpy` returns, with the memory of the copy. -/
theorem memcpy_ends (cpuid : Cpuid) (hr : Ranges d s n) (h : Called status d s n c) :
    ∃ c', (program status).Ends cpuid .start c c' ∧
      Copied (dispatched cpuid status c.mem) d s n (result cpuid status c.mem d s n) c' := by
  by_cases hflag : c.mem.load status 8 = 1 ∨ c.mem.load status 8 = 0
  · exact memcpy_ends_of_known cpuid hr h hflag
  · have h1 : c.mem.load status 8 ≠ 1 := fun heq => hflag (Or.inl heq)
    have h0 : c.mem.load status 8 ≠ 0 := fun heq => hflag (Or.inr heq)
    exact memcpy_ends_of_unknown cpuid hr h h1 h0

/-- The dispatch changes nothing but the flag. -/
theorem dispatched_of_not_mem (cpuid : Cpuid) (status : Nat) (m : Memory) {a : Nat}
    (h : a < status ∨ status + 8 ≤ a) : dispatched cpuid status m a = m a := by
  unfold dispatched
  split
  · rfl
  · exact store_of_not_mem m _ h

/-- The specification of a call: the bytes are copied, no other memory but the
flag changes, and `rax` holds the destination. -/
structure Correct (status : Nat) (m : Memory) (d s n : Nat) (c' : Cpu) : Prop where
  copied : ∀ i, i < n → c'.mem (d + i) = m (s + i)
  frame : ∀ a, (a < d ∨ d + n ≤ a) → (a < status ∨ status + 8 ≤ a) → c'.mem a = m a
  rax : c'.reg .rax = d

/-- A copy in the memory after the dispatch meets the specification, but for the
return value. -/
theorem Copied.correct {r : Nat} {c' : Cpu} (hcalled : Called status d s n c)
    (h : Copied (dispatched cpuid status c.mem) d s n r c') (hr : r = d) :
    Correct status c.mem d s n c' := by
  have hsrc := hcalled.status_src
  refine ⟨?_, ?_, h.2.trans hr⟩
  · intro i hi
    rw [h.1, copy_of_mem _ _ (by omega), Nat.add_sub_cancel_left]
    exact dispatched_of_not_mem cpuid status c.mem (by omega)
  · intro a hdst hflag
    rw [h.1, copy_of_not_mem _ _ hdst]
    exact dispatched_of_not_mem cpuid status c.mem hflag

theorem plainResult_dispatched (h : Called status d s n c) :
    plainResult (dispatched cpuid status c.mem) d s n = plainResult c.mem d s n := by
  have hsrc := h.status_src
  have hhead : head s n ≤ n := Nat.min_le_left _ _
  unfold plainResult r8AtEnd
  by_cases hlt : n - head s n < 8
  · rw [if_pos hlt, if_pos hlt]
  · rw [if_neg hlt, if_neg hlt]
    apply load_congr
    intro i hi
    apply dispatched_of_not_mem
    have hlast : lastQword (n - head s n) + 8 ≤ n - head s n := by
      unfold lastQword
      split <;> omega
    omega

end Dispatch

/-- `memcpy` meets its specification exactly on the SSE2 path, or when the other
one moves no quadword, or when the quadword that is left in `r8` happens to be the
destination. -/
theorem memcpy_correct_iff (cpuid : Cpuid) (status d s n : Nat) (c : Cpu) (hr : Ranges d s n)
    (h : Called status d s n c) :
    (∃ c', (program status).Ends cpuid .start c c' ∧ Correct status c.mem d s n c') ↔
      UsesSse2 cpuid (c.mem.load status 8) ∨ n - head s n < 8 ∨
        c.mem.load (s + head s n + lastQword (n - head s n)) 8 = d := by
  have hresult : result cpuid status c.mem d s n = d ↔
      UsesSse2 cpuid (c.mem.load status 8) ∨ n - head s n < 8 ∨
        c.mem.load (s + head s n + lastQword (n - head s n)) 8 = d := by
    unfold result
    rw [plainResult_dispatched h]
    unfold plainResult r8AtEnd
    by_cases hsse : UsesSse2 cpuid (c.mem.load status 8)
    · rw [if_pos hsse]
      simp [hsse]
    · rw [if_neg hsse]
      by_cases hlt : n - head s n < 8
      · rw [if_pos hlt]
        simp [hlt]
      · rw [if_neg hlt]
        simp [hsse, hlt]
  obtain ⟨c', hends, hcopied⟩ := memcpy_ends cpuid hr h
  rw [← hresult]
  constructor
  · intro hcorrect
    obtain ⟨c'', hends', hspec⟩ := hcorrect
    rw [← hcopied.2, hends.unique hends']
    exact hspec.rax
  · intro heq
    exact ⟨c', hends, hcopied.correct h heq⟩

/-- A call that copies eight zero bytes on a processor whose flag says that it has
no SSE2. -/
def zeroCall : Cpu where
  reg := fun r => match r with
    | .rdi => 0x2000
    | .rsi => 0x1000
    | .rdx => 8
    | _ => 0
  xmm := fun _ => 0
  mem := fun _ => 0
  cf := false
  zf := false
  sf := false
  of := false

theorem ranges_zeroCall : Ranges 0x2000 0x1000 8 :=
  ⟨by decide, by decide, by decide, by decide, by decide, by decide, by decide, by decide⟩

theorem called_zeroCall : Called 0x3000 0x2000 0x1000 8 zeroCall :=
  ⟨rfl, rfl, rfl, by decide, by decide, by decide⟩

theorem memcpy_correct_iff_zeroCall :
    (∃ c', (program 0x3000).Ends (fun _ => ⟨0, 0, 0, 0⟩) .start zeroCall c' ∧
        Correct 0x3000 zeroCall.mem 0x2000 0x1000 8 c') ↔
      UsesSse2 (fun _ => ⟨0, 0, 0, 0⟩) (zeroCall.mem.load 0x3000 8) ∨ 8 - head 0x1000 8 < 8 ∨
        zeroCall.mem.load (0x1000 + head 0x1000 8 + lastQword (8 - head 0x1000 8)) 8 = 0x2000 :=
  memcpy_correct_iff _ 0x3000 0x2000 0x1000 8 zeroCall ranges_zeroCall called_zeroCall

/-- The call returns zero and not the destination. -/
theorem not_correct_zeroCall :
    ¬ ∃ c', (program 0x3000).Ends (fun _ => ⟨0, 0, 0, 0⟩) .start zeroCall c' ∧
      Correct 0x3000 zeroCall.mem 0x2000 0x1000 8 c' := by
  intro h
  obtain ⟨c', hends, hcorrect⟩ := h
  obtain ⟨c'', hends', hcopied⟩ :=
    memcpy_ends (fun _ => ⟨0, 0, 0, 0⟩) ranges_zeroCall called_zeroCall
  have hrax := hcorrect.rax
  rw [hends.unique hends', hcopied.2] at hrax
  revert hrax
  decide

end Xeos.C99.Memcpy64
