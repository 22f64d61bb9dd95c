import Xeos.C99.Memcpy64
import Xeos.Lib.Bits

/-!
# The groups of instructions of the x86-64 `memcpy`

One lemma for each group of `Xeos.C99.Memcpy64`, in terms of the number `k` of
bytes that are copied.  Every group that copies takes the memory of a forward copy
of `k` bytes to that of a longer one.
-/

namespace Xeos.C99.Memcpy64

open Lib Lib.Memory Lib.X86

/-- The three registers that both functions count with, after `k` of `n` bytes. -/
structure Pointers (d s n k : Nat) (c : Cpu) : Prop where
  rdi : c.reg .rdi = (d + k) % 2 ^ 64
  rsi : c.reg .rsi = (s + k) % 2 ^ 64
  rdx : c.reg .rdx = n - k

/-- Two pointers that are not `NULL`, and two ranges of a signed length that lie in
the address space and apart from each other. -/
structure Ranges (d s n : Nat) : Prop where
  dst_pos : 0 < d
  src_pos : 0 < s
  dst_lt : d < 2 ^ 64
  src_lt : s < 2 ^ 64
  dst : d + n ≤ 2 ^ 64
  src : s + n ≤ 2 ^ 64
  length : n < 2 ^ 63
  apart : d + n ≤ s ∨ s + n ≤ d

/-- The state after `k` of the `n` bytes: the pointers, and the memory of a forward
copy. -/
structure At (m : Memory) (d s n k : Nat) (c : Cpu) : Prop where
  pointers : Pointers d s n k c
  mem : c.mem = copy m m d s k
  le : k ≤ n

/-- The memory of the copy, and `r` as the return value. -/
def Copied (m : Memory) (d s n r : Nat) (c : Cpu) : Prop :=
  c.mem = copy m m d s n ∧ c.reg .rax = r

section Groups

variable {cpuid : Cpuid} {m : Memory} {d s n k : Nat} {c : Cpu}

theorem Pointers.rsi_address (h : Pointers d s n k c) (disp : Nat) (hr : Ranges d s n)
    (hdisp : k + disp < n) : c.address (some .rsi) disp = s + k + disp := by
  have hsrc := hr.src
  rw [Cpu.address_some, h.rsi, Nat.mod_add_mod]
  exact Nat.mod_eq_of_lt (by omega)

theorem Pointers.rdi_address (h : Pointers d s n k c) (disp : Nat) (hr : Ranges d s n)
    (hdisp : k + disp < n) : c.address (some .rdi) disp = d + k + disp := by
  have hdst := hr.dst
  rw [Cpu.address_some, h.rdi, Nat.mod_add_mod]
  exact Nat.mod_eq_of_lt (by omega)

theorem Pointers.congr {c' : Cpu} (h : Pointers d s n k c)
    (hreg : ∀ r, r = .rdi ∨ r = .rsi ∨ r = .rdx → c'.reg r = c.reg r) : Pointers d s n k c' :=
  ⟨(hreg .rdi (by simp)).trans h.rdi, (hreg .rsi (by simp)).trans h.rsi,
    (hreg .rdx (by simp)).trans h.rdx⟩

/-- A change of the flags keeps the state. -/
theorem At.setFlags {c' : Cpu} (h : At m d s n k c) (hreg : c'.reg = c.reg)
    (hmem : c'.mem = c.mem) : At m d s n k c' :=
  ⟨h.pointers.congr fun r _ => congrFun hreg r, hmem.trans h.mem, h.le⟩

theorem advance_run (cpuid : Cpuid) (a : Nat) (h : Pointers d s n k c) (hr : Ranges d s n)
    (ha : k + a ≤ n) :
    ∃ c', runBlock cpuid (advance a) c = .next c' ∧ Pointers d s n (k + a) c' ∧
      c'.mem = c.mem ∧ c'.reg .r8 = c.reg .r8 ∧ c'.reg .rcx = c.reg .rcx := by
  have hlength := hr.length
  refine ⟨_, rfl, ?_, rfl, rfl, rfl⟩
  constructor
  · simp [h.rdi]
    omega
  · simp [h.rsi]
    omega
  · simp [h.rdx, Cpu.difference]
    omega

theorem readXmm_run (h : Pointers d s n k c) (hr : Ranges d s n)
    (hmem : c.mem = copy m m d s k) (haligned : (s + k) % 16 = 0) {count : Nat}
    (hcount : k + 16 * count ≤ n) :
    ∃ c', runBlock cpuid (readXmm count) c = .next c' ∧ c'.reg = c.reg ∧ c'.mem = c.mem ∧
      ∀ i, i < count → c'.xmm i = m.load (s + k + 16 * i) 16 := by
  induction count with
  | zero => exact ⟨c, rfl, rfl, rfl, fun i hi => absurd hi (Nat.not_lt_zero i)⟩
  | succ count ih =>
    obtain ⟨c', hrun, hreg, hmem', hxmm⟩ := ih (by omega)
    have haddr : c'.address (some .rsi) (16 * count) = s + k + 16 * count :=
      (h.congr (fun r _ => congrFun hreg r)).rsi_address _ hr (by omega)
    have hload : c'.mem.load (s + k + 16 * count) 16 = m.load (s + k + 16 * count) 16 := by
      have hapart := hr.apart
      rw [hmem', hmem]
      exact load_copy_of_disjoint m m (by omega)
    refine ⟨c'.setXmm count (m.load (s + k + 16 * count) 16), ?_, hreg, hmem', ?_⟩
    · rw [readXmm, List.range_succ, List.map_append, ← readXmm, runBlock_append hrun]
      have hzero : (s + k + 16 * count) % 16 = 0 := by omega
      simp only [List.map_cons, List.map_nil, runBlock, exec, haddr, hzero, hload, bne_self_eq_false,
        Bool.and_false, Bool.false_eq_true, if_false]
    · intro i hi
      rw [Cpu.setXmm_xmm]
      split
      · next heq => rw [heq]
      · exact hxmm i (by omega)

theorem writeXmm_run (h : Pointers d s n k c) (hr : Ranges d s n)
    (hmem : c.mem = copy m m d s k) {aligned : Bool}
    (haligned : aligned = true → (d + k) % 16 = 0) {count : Nat}
    (hcount : k + 16 * count ≤ n)
    (hxmm : ∀ i, i < count → c.xmm i = m.load (s + k + 16 * i) 16) :
    ∃ c', runBlock cpuid (writeXmm aligned count) c = .next c' ∧ c'.reg = c.reg ∧
      c'.mem = copy m m d s (k + 16 * count) ∧ c'.xmm = c.xmm := by
  induction count with
  | zero => exact ⟨c, rfl, rfl, hmem, rfl⟩
  | succ count ih =>
    obtain ⟨c', hrun, hreg, hmem', hxmm'⟩ := ih (by omega) (fun i hi => hxmm i (by omega))
    have haddr : c'.address (some .rdi) (16 * count) = d + k + 16 * count :=
      (h.congr (fun r _ => congrFun hreg r)).rdi_address _ hr (by omega)
    have hcheck : (aligned && (d + k + 16 * count) % 16 != 0) = false := by
      cases aligned with
      | false => rfl
      | true =>
        have hzero : (d + k + 16 * count) % 16 = 0 := by
          have := haligned rfl
          omega
        rw [hzero]
        rfl
    have hstore : c'.mem.store (d + k + 16 * count) 16 (c'.xmm count)
        = copy m m d s (k + 16 * (count + 1)) := by
      rw [hmem', hxmm', hxmm count (Nat.lt_succ_self count), store_load, Nat.add_assoc d,
        Nat.add_assoc s, copy_append, Nat.mul_succ, Nat.add_assoc]
    refine ⟨c'.setMem (copy m m d s (k + 16 * (count + 1))), ?_, hreg, rfl, hxmm'⟩
    rw [writeXmm, List.range_succ, List.map_append, ← writeXmm, runBlock_append hrun]
    simp only [List.map_cons, List.map_nil, runBlock, exec, haddr, hcheck, Bool.false_eq_true,
      if_false, hstore]

theorem exec_readQword (cpuid : Cpuid) (r : Reg) (disp : Nat) (h : Pointers d s n k c)
    (hr : Ranges d s n) {j : Nat}
    (hmem : c.mem = copy m m d s j) (hj : j ≤ n) (hdisp : k + disp + 8 ≤ n) :
    exec (L := Label) cpuid (.mov 64 (.reg r) (.mem (some .rsi) disp)) c
      = .next (c.setReg r (m.load (s + k + disp) 8)) := by
  have hapart := hr.apart
  have hload : c.mem.load (s + k + disp) 8 = m.load (s + k + disp) 8 := by
    rw [hmem]
    exact load_copy_of_disjoint m m (by omega)
  have hlt : m.load (s + k + disp) 8 < 2 ^ 64 := load_lt m _ 8
  rw [exec, Cpu.read_mem, h.rsi_address _ hr (by omega), hload, Cpu.write_reg_64,
    Nat.mod_eq_of_lt hlt]

theorem exec_writeQword (cpuid : Cpuid) (r : Reg) (disp : Nat) (h : Pointers d s n k c)
    (hr : Ranges d s n)
    (hmem : c.mem = copy m m d s (k + disp)) (hreg : c.reg r = m.load (s + k + disp) 8)
    (hdisp : k + disp + 8 ≤ n) :
    exec (L := Label) cpuid (.mov 64 (.mem (some .rdi) disp) (.reg r)) c
      = .next (c.setMem (copy m m d s (k + (disp + 8)))) := by
  have hlt : m.load (s + k + disp) 8 < 2 ^ 64 := load_lt m _ 8
  rw [exec, Cpu.write_mem, Cpu.read_reg, h.rdi_address _ hr (by omega), hreg,
    Nat.mod_eq_of_lt hlt, hmem, store_load, Nat.add_assoc d, Nat.add_assoc s, copy_append,
    Nat.add_assoc k]

/-- Changes of the scratch registers and of the memory leave the pointers. -/
theorem Pointers.frame {c' : Cpu} (h : Pointers d s n k c)
    (hreg : ∀ r, r ∉ [Reg.r8, Reg.r9, Reg.r10, Reg.r11] → c'.reg r = c.reg r) :
    Pointers d s n k c' :=
  h.congr fun r hr => hreg r (by rcases hr with rfl | rfl | rfl <;> decide)

theorem moveQword_run (h : Pointers d s n k c) (hr : Ranges d s n)
    (hmem : c.mem = copy m m d s k) (hk : k + 8 ≤ n) :
    ∃ c', runBlock cpuid moveQword c = .next c' ∧ Pointers d s n k c' ∧
      c'.mem = copy m m d s (k + 8) ∧ c'.reg .r8 = m.load (s + k) 8 := by
  have hread := exec_readQword cpuid .r8 0 h hr hmem (by omega) hk
  rw [Nat.add_zero] at hread
  have h1 : Pointers d s n k (c.setReg .r8 (m.load (s + k) 8)) :=
    h.frame fun r hne => if_neg fun heq => hne (by rw [heq]; decide)
  have hr8 : (c.setReg .r8 (m.load (s + k) 8)).reg .r8 = m.load (s + k) 8 := by simp
  have hwrite := exec_writeQword cpuid .r8 0 h1 hr hmem hr8 hk
  refine ⟨(c.setReg .r8 (m.load (s + k) 8)).setMem (copy m m d s (k + 8)), ?_, ?_, rfl, hr8⟩
  · rw [moveQword, runBlock_cons hread, runBlock_cons hwrite]
    rfl
  · exact h1.frame fun r _ => rfl

/-- The four reads come first, so each of them reads the memory of the start. -/
theorem moveQwords_run (cpuid : Cpuid) (off : Nat) (h : Pointers d s n k c) (hr : Ranges d s n)
    (hmem : c.mem = copy m m d s (k + off)) (hk : k + off + 32 ≤ n) :
    ∃ c', runBlock cpuid (moveQwords off) c = .next c' ∧ Pointers d s n k c' ∧
      c'.mem = copy m m d s (k + (off + 32)) ∧ c'.reg .r8 = m.load (s + k + off) 8 := by
  -- the reads
  have hread0 := exec_readQword cpuid .r8 off h hr hmem (by omega) (by omega)
  generalize hc1 : c.setReg .r8 (m.load (s + k + off) 8) = c1 at hread0
  have hp1 : Pointers d s n k c1 := by
    rw [← hc1]
    exact h.frame fun r hne => if_neg fun heq => hne (by rw [heq]; decide)
  have hmem1 : c1.mem = copy m m d s (k + off) := by rw [← hc1]; exact hmem
  have hread1 := exec_readQword cpuid .r9 (off + 8) hp1 hr hmem1 (by omega) (by omega)
  generalize hc2 : c1.setReg .r9 (m.load (s + k + (off + 8)) 8) = c2 at hread1
  have hp2 : Pointers d s n k c2 := by
    rw [← hc2]
    exact hp1.frame fun r hne => if_neg fun heq => hne (by rw [heq]; decide)
  have hmem2 : c2.mem = copy m m d s (k + off) := by rw [← hc2]; exact hmem1
  have hread2 := exec_readQword cpuid .r10 (off + 16) hp2 hr hmem2 (by omega) (by omega)
  generalize hc3 : c2.setReg .r10 (m.load (s + k + (off + 16)) 8) = c3 at hread2
  have hp3 : Pointers d s n k c3 := by
    rw [← hc3]
    exact hp2.frame fun r hne => if_neg fun heq => hne (by rw [heq]; decide)
  have hmem3 : c3.mem = copy m m d s (k + off) := by rw [← hc3]; exact hmem2
  have hread3 := exec_readQword cpuid .r11 (off + 24) hp3 hr hmem3 (by omega) (by omega)
  generalize hc4 : c3.setReg .r11 (m.load (s + k + (off + 24)) 8) = c4 at hread3
  have hp4 : Pointers d s n k c4 := by
    rw [← hc4]
    exact hp3.frame fun r hne => if_neg fun heq => hne (by rw [heq]; decide)
  have hmem4 : c4.mem = copy m m d s (k + off) := by rw [← hc4]; exact hmem3
  have hr8 : c4.reg .r8 = m.load (s + k + off) 8 := by simp [← hc4, ← hc3, ← hc2, ← hc1]
  have hr9 : c4.reg .r9 = m.load (s + k + (off + 8)) 8 := by simp [← hc4, ← hc3, ← hc2]
  have hr10 : c4.reg .r10 = m.load (s + k + (off + 16)) 8 := by simp [← hc4, ← hc3]
  have hr11 : c4.reg .r11 = m.load (s + k + (off + 24)) 8 := by simp [← hc4]
  -- the writes
  have hwrite0 := exec_writeQword cpuid .r8 off hp4 hr hmem4 hr8 (by omega)
  have hwrite1 : exec (L := Label) cpuid (.mov 64 (.mem (some .rdi) (off + 8)) .r9)
      (c4.setMem (copy m m d s (k + (off + 8))))
        = .next (c4.setMem (copy m m d s (k + (off + 16)))) :=
    exec_writeQword cpuid .r9 (off + 8) (hp4.frame fun r _ => rfl) hr rfl hr9 (by omega)
  have hwrite2 : exec (L := Label) cpuid (.mov 64 (.mem (some .rdi) (off + 16)) .r10)
      (c4.setMem (copy m m d s (k + (off + 16))))
        = .next (c4.setMem (copy m m d s (k + (off + 24)))) :=
    exec_writeQword cpuid .r10 (off + 16) (hp4.frame fun r _ => rfl) hr rfl hr10 (by omega)
  have hwrite3 : exec (L := Label) cpuid (.mov 64 (.mem (some .rdi) (off + 24)) .r11)
      (c4.setMem (copy m m d s (k + (off + 24))))
        = .next (c4.setMem (copy m m d s (k + (off + 32)))) :=
    exec_writeQword cpuid .r11 (off + 24) (hp4.frame fun r _ => rfl) hr rfl hr11 (by omega)
  refine ⟨c4.setMem (copy m m d s (k + (off + 32))), ?_, hp4.frame fun r _ => rfl, rfl, hr8⟩
  rw [moveQwords, runBlock_cons hread0, runBlock_cons hread1, runBlock_cons hread2,
    runBlock_cons hread3, runBlock_cons hwrite0, runBlock_cons hwrite1, runBlock_cons hwrite2,
    runBlock_cons hwrite3]
  rfl

/-- With no byte left the group leaves for the return. -/
theorem moveByte_run_done (cpuid : Cpuid) (h : Pointers d s n n c) (exit : Label) :
    runBlock cpuid (moveByte exit) c = .goto exit (c.setFlagsLogic 64 0) := by
  have hrdx : c.reg .rdx % 2 ^ 64 = 0 := by
    rw [h.rdx, Nat.sub_self, Nat.zero_mod]
  have htest : exec (L := Label) cpuid (.test 64 .rdx .rdx) c = .next (c.setFlagsLogic 64 0) := by
    rw [exec, Cpu.read_reg, hrdx, Nat.and_self]
  rw [moveByte, runBlock_cons htest]
  rfl

theorem moveByte_run (cpuid : Cpuid) (h : Pointers d s n k c) (hr : Ranges d s n)
    (hmem : c.mem = copy m m d s k) (hk : k < n) (exit : Label) :
    ∃ c', runBlock cpuid (moveByte exit) c = .next c' ∧ Pointers d s n (k + 1) c' ∧
      c'.mem = copy m m d s (k + 1) ∧ c'.reg .r8 = c.reg .r8 ∧
      c'.reg .rcx = Cpu.difference 64 (c.reg .rcx % 2 ^ 64) 1 % 2 ^ 64 := by
  have hapart := hr.apart
  have hlength := hr.length
  have hrdx : c.reg .rdx % 2 ^ 64 = n - k := by
    rw [h.rdx]
    exact Nat.mod_eq_of_lt (by omega)
  -- the test falls through
  have htest : exec (L := Label) cpuid (.test 64 .rdx .rdx) c
      = .next (c.setFlagsLogic 64 (n - k)) := by
    rw [exec, Cpu.read_reg, hrdx, Nat.and_self]
  have hjump : exec cpuid (.jcc .e exit) (c.setFlagsLogic 64 (n - k))
      = .next (c.setFlagsLogic 64 (n - k)) := by
    rw [exec, Cpu.holds_e_setFlagsLogic, decide_eq_false (by omega), if_neg Bool.false_ne_true]
  generalize hc0 : c.setFlagsLogic 64 (n - k) = c0 at htest hjump
  have hp0 : Pointers d s n k c0 := by rw [← hc0]; exact h.frame fun r _ => rfl
  have hmem0 : c0.mem = copy m m d s k := by rw [← hc0]; exact hmem
  -- the byte goes through `al`
  have hload : c0.mem.load (s + k) 1 = m.load (s + k) 1 := by
    rw [hmem0]
    exact load_copy_of_disjoint m m (by omega)
  have hbyte : m.load (s + k) 1 < 2 ^ 8 := load_lt m (s + k) 1
  have hsrc : c0.address (some .rsi) 0 = s + k := hp0.rsi_address 0 hr (by omega)
  have hread : exec (L := Label) cpuid (.mov 8 .rax (.mem (some .rsi) 0)) c0
      = .next (c0.setReg .rax (c0.reg .rax / 2 ^ 8 * 2 ^ 8 + m.load (s + k) 1)) := by
    rw [exec, Cpu.read_mem, hsrc, show 8 / 8 = 1 from rfl, hload, Cpu.write_reg_8,
      Nat.mod_eq_of_lt hbyte]
  generalize hc1 : c0.setReg .rax (c0.reg .rax / 2 ^ 8 * 2 ^ 8 + m.load (s + k) 1) = c1 at hread
  have hp1 : Pointers d s n k c1 := by
    rw [← hc1]
    exact hp0.congr fun r hr => if_neg fun heq => by rcases hr with rfl | rfl | rfl <;> cases heq
  have hmem1 : c1.mem = copy m m d s k := by rw [← hc1]; exact hmem0
  have hal : c1.reg .rax % 2 ^ 8 = m.load (s + k) 1 := by
    rw [← hc1, Cpu.setReg_reg, if_pos rfl]
    omega
  have hdst : c1.address (some .rdi) 0 = d + k := hp1.rdi_address 0 hr (by omega)
  have hwrite : exec (L := Label) cpuid (.mov 8 (.mem (some .rdi) 0) .rax) c1
      = .next (c1.setMem (copy m m d s (k + 1))) := by
    rw [exec, Cpu.read_reg, hal, Cpu.write_mem, hdst, show 8 / 8 = 1 from rfl, hmem1, store_load,
      copy_append]
  -- the pointers and the counters
  have hp2 : Pointers d s n k (c1.setMem (copy m m d s (k + 1))) := hp1.frame fun r _ => rfl
  obtain ⟨c3, hadvance, hp3, hmem3, hr8, hrcx⟩ := advance_run cpuid 1 hp2 hr (by omega)
  refine ⟨(c3.setReg .rcx (Cpu.difference 64 (c3.reg .rcx % 2 ^ 64) 1 % 2 ^ 64)).setFlagsSub 64
    (c3.reg .rcx % 2 ^ 64) 1, ?_, ?_, hmem3, ?_, ?_⟩
  · rw [moveByte, runBlock_cons htest, runBlock_cons hjump, runBlock_cons hread,
      runBlock_cons hwrite]
    exact runBlock_append hadvance
  · exact hp3.congr fun r hr => by rcases hr with rfl | rfl | rfl <;> rfl
  · have hkeep : c3.reg .r8 = c1.reg .r8 := hr8
    simp [hkeep, ← hc1, ← hc0]
  · have hkeep : c3.reg .rcx = c1.reg .rcx := hrcx
    simp [hkeep, ← hc1, ← hc0]

/-- The group leaves in `rcx` the distance to the next multiple of `a`, and its
comparison finds an unaligned pointer. -/
theorem misaligned_run (cpuid : Cpuid) {r : Reg} (hne : r ≠ .rax) {a j v : Nat} (ha : a = 2 ^ j)
    (hj : j < 64) (hv : c.reg r = v) (hlt : v < 2 ^ 64) :
    ∃ c', runBlock cpuid (misaligned (.reg r) a) c = .next c' ∧
      (∀ r', r' ≠ .rax → r' ≠ .rcx → c'.reg r' = c.reg r') ∧ c'.mem = c.mem ∧
      c'.reg .rcx = a - v % a ∧ c'.holds .ne = decide (v % a ≠ 0) := by
  have hapos : 0 < a := by rw [ha]; exact Nat.pow_pos (by omega)
  have ha64 : a < 2 ^ 64 := by rw [ha]; exact Nat.pow_lt_pow_right (by omega) hj
  have hmask : v &&& (2 ^ 64 - a) = v / a * a := by
    rw [ha]
    exact and_high_mask hlt (by omega)
  have hmod : v / a * a + v % a = v := Nat.div_add_mod' v a
  have hmodlt : v % a < a := Nat.mod_lt v hapos
  -- the remainder and the distance
  have hsub : Cpu.difference 64 v (v / a * a) = v % a := by
    unfold Cpu.difference
    omega
  have hdist : Cpu.difference 64 a (v % a) = a - v % a := by
    unfold Cpu.difference
    omega
  have hfit : (2 ^ 64 - a) % 2 ^ 64 = 2 ^ 64 - a := Nat.mod_eq_of_lt (by omega)
  have hv' : c.reg r % 2 ^ 64 = v := by rw [hv, Nat.mod_eq_of_lt hlt]
  have hround : v / a * a % 2 ^ 64 = v / a * a := Nat.mod_eq_of_lt (by omega)
  have hrest : v % a % 2 ^ 64 = v % a := Nat.mod_eq_of_lt (by omega)
  have hgap : (a - v % a) % 2 ^ 64 = a - v % a := Nat.mod_eq_of_lt (by omega)
  have hmov1 : exec (L := Label) cpuid (.mov 64 .rax (.reg r)) c = .next (c.setReg .rax v) := by
    rw [exec, Cpu.read_reg, hv', Cpu.write_reg_64, Nat.mod_eq_of_lt hlt]
  generalize hc1 : c.setReg .rax v = c1 at hmov1
  have hmov2 : exec (L := Label) cpuid (.mov 64 .rcx (.reg r)) c1
      = .next (c1.setReg .rcx v) := by
    rw [exec, Cpu.read_reg, ← hc1, Cpu.setReg_reg, if_neg hne, hv', Cpu.write_reg_64,
      Nat.mod_eq_of_lt hlt]
  generalize hc2 : c1.setReg .rcx v = c2 at hmov2
  have hand : exec (L := Label) cpuid (.and 64 .rcx (.imm (2 ^ 64 - a))) c2
      = .next ((c2.setReg .rcx (v / a * a)).setFlagsLogic 64 (v / a * a)) := by
    rw [exec, Cpu.read_reg, Cpu.read_imm, ← hc2, Cpu.setReg_reg, if_pos rfl,
      Nat.mod_eq_of_lt hlt, hfit, hmask, Cpu.write_reg_64, hround]
  generalize hc3 : (c2.setReg .rcx (v / a * a)).setFlagsLogic 64 (v / a * a) = c3 at hand
  have hsub1 : exec (L := Label) cpuid (.sub 64 .rax .rcx) c3
      = .next ((c3.setReg .rax (v % a)).setFlagsSub 64 v (v / a * a)) := by
    have hrax : c3.reg .rax = v := by simp [← hc3, ← hc2, ← hc1]
    have hrcx : c3.reg .rcx = v / a * a := by simp [← hc3]
    rw [exec, Cpu.read_reg, Cpu.read_reg, hrax, hrcx, Nat.mod_eq_of_lt hlt, hround, hsub,
      Cpu.write_reg_64, hrest]
  generalize hc4 : (c3.setReg .rax (v % a)).setFlagsSub 64 v (v / a * a) = c4 at hsub1
  have hmov3 : exec (L := Label) cpuid (.mov 64 .rcx (.imm a)) c4 = .next (c4.setReg .rcx a) := by
    rw [exec, Cpu.read_imm, Nat.mod_eq_of_lt ha64, Cpu.write_reg_64, Nat.mod_eq_of_lt ha64]
  generalize hc5 : c4.setReg .rcx a = c5 at hmov3
  have hsub2 : exec (L := Label) cpuid (.sub 64 .rcx .rax) c5
      = .next ((c5.setReg .rcx (a - v % a)).setFlagsSub 64 a (v % a)) := by
    have hrcx : c5.reg .rcx = a := by simp [← hc5]
    have hrax : c5.reg .rax = v % a := by simp [← hc5, ← hc4]
    rw [exec, Cpu.read_reg, Cpu.read_reg, hrax, hrcx, Nat.mod_eq_of_lt ha64, hrest, hdist,
      Cpu.write_reg_64, hgap]
  generalize hc6 : (c5.setReg .rcx (a - v % a)).setFlagsSub 64 a (v % a) = c6 at hsub2
  have hrcx6 : c6.reg .rcx = a - v % a := by simp [← hc6]
  have hcmp : exec (L := Label) cpuid (.cmp 64 .rcx (.imm a)) c6
      = .next (c6.setFlagsSub 64 (a - v % a) a) := by
    rw [exec, Cpu.read_reg, Cpu.read_imm, hrcx6, hgap, Nat.mod_eq_of_lt ha64]
  refine ⟨c6.setFlagsSub 64 (a - v % a) a, ?_, ?_, ?_, hrcx6, ?_⟩
  · rw [misaligned, runBlock_cons hmov1, runBlock_cons hmov2, runBlock_cons hand,
      runBlock_cons hsub1, runBlock_cons hmov3, runBlock_cons hsub2, runBlock_cons hcmp]
    rfl
  · intro r' hrax hrcx
    simp [← hc6, ← hc5, ← hc4, ← hc3, ← hc2, ← hc1, hrax, hrcx]
  · simp [← hc6, ← hc5, ← hc4, ← hc3, ← hc2, ← hc1]
  · rw [Cpu.holds_ne_setFlagsSub _ (by omega) ha64, decide_eq_decide]
    omega

/-- With two pointers that are not `NULL` the tests fall through. -/
theorem checkNull_run (cpuid : Cpuid) (hd : c.reg .rdi = d) (hs : c.reg .rsi = s) (hd0 : d ≠ 0)
    (hs0 : s ≠ 0) (hd64 : d < 2 ^ 64) (hs64 : s < 2 ^ 64) (exit : Label) :
    ∃ c', runBlock cpuid (checkNull exit) c = .next c' ∧ c'.reg .r8 = d ∧
      (∀ r, r ≠ .r8 → c'.reg r = c.reg r) ∧ c'.mem = c.mem := by
  have hmov : exec (L := Label) cpuid (.mov 64 .r8 .rdi) c = .next (c.setReg .r8 d) := by
    rw [exec, Cpu.read_reg, hd, Nat.mod_eq_of_lt hd64, Cpu.write_reg_64, Nat.mod_eq_of_lt hd64]
  have htest1 : exec (L := Label) cpuid (.test 64 .rdi .rdi) (c.setReg .r8 d)
      = .next ((c.setReg .r8 d).setFlagsLogic 64 d) := by
    have hrdi : (c.setReg .r8 d).reg .rdi = d := by simp [hd]
    rw [exec, Cpu.read_reg, hrdi, Nat.mod_eq_of_lt hd64, Nat.and_self]
  have hjump1 : exec cpuid (.jcc .e exit) ((c.setReg .r8 d).setFlagsLogic 64 d)
      = .next ((c.setReg .r8 d).setFlagsLogic 64 d) := by
    simp [exec, hd0]
  have htest2 : exec (L := Label) cpuid (.test 64 .rsi .rsi) ((c.setReg .r8 d).setFlagsLogic 64 d)
      = .next (((c.setReg .r8 d).setFlagsLogic 64 d).setFlagsLogic 64 s) := by
    have hrsi : ((c.setReg .r8 d).setFlagsLogic 64 d).reg .rsi = s := by simp [hs]
    rw [exec, Cpu.read_reg, hrsi, Nat.mod_eq_of_lt hs64, Nat.and_self]
  have hjump2 : exec cpuid (.jcc .e exit) (((c.setReg .r8 d).setFlagsLogic 64 d).setFlagsLogic 64 s)
      = .next (((c.setReg .r8 d).setFlagsLogic 64 d).setFlagsLogic 64 s) := by
    simp [exec, hs0]
  refine ⟨((c.setReg .r8 d).setFlagsLogic 64 d).setFlagsLogic 64 s, ?_, by simp, ?_, rfl⟩
  · rw [checkNull, runBlock_cons hmov, runBlock_cons htest1, runBlock_cons hjump1,
      runBlock_cons htest2, runBlock_cons hjump2]
    rfl
  · intro r hr
    simp [hr]

/-- The test that skips a loop when fewer than `a` bytes are left. -/
theorem cmpBelow_run (cpuid : Cpuid) (h : Pointers d s n k c) (hr : Ranges d s n) {a : Nat}
    (ha : a < 2 ^ 64) (target : Label) :
    runBlock cpuid [.cmp 64 .rdx (.imm a), .jcc .b target] c
      = if n - k < a then .goto target (c.setFlagsSub 64 (n - k) a)
        else .next (c.setFlagsSub 64 (n - k) a) := by
  have hlength := hr.length
  have hrdx : c.reg .rdx % 2 ^ 64 = n - k := by
    rw [h.rdx]
    exact Nat.mod_eq_of_lt (by omega)
  have hcmp : exec (L := Label) cpuid (.cmp 64 .rdx (.imm a)) c
      = .next (c.setFlagsSub 64 (n - k) a) := by
    rw [exec, Cpu.read_reg, Cpu.read_imm, hrdx, Nat.mod_eq_of_lt ha]
  rw [runBlock_cons hcmp, runBlock, exec, Cpu.holds_b_setFlagsSub]
  by_cases hlt : n - k < a
  · rw [decide_eq_true hlt, if_pos rfl, if_pos hlt]
  · rw [decide_eq_false hlt, if_neg Bool.false_ne_true, if_neg hlt]
    rfl

/-- The test that repeats a loop while at least `a` bytes are left.  It is a
signed one, so it needs a length below `2 ^ 63`. -/
theorem cmpGe_run (cpuid : Cpuid) (h : Pointers d s n k c) (hr : Ranges d s n) {a : Nat}
    (ha : a < 2 ^ 63) (target : Label) :
    runBlock cpuid [.cmp 64 .rdx (.imm a), .jcc .ge target] c
      = if a ≤ n - k then .goto target (c.setFlagsSub 64 (n - k) a)
        else .next (c.setFlagsSub 64 (n - k) a) := by
  have hlength := hr.length
  have hrdx : c.reg .rdx % 2 ^ 64 = n - k := by
    rw [h.rdx]
    exact Nat.mod_eq_of_lt (by omega)
  have hcmp : exec (L := Label) cpuid (.cmp 64 .rdx (.imm a)) c
      = .next (c.setFlagsSub 64 (n - k) a) := by
    rw [exec, Cpu.read_reg, Cpu.read_imm, hrdx, Nat.mod_eq_of_lt (show a < 2 ^ 64 by omega)]
  have hge : (c.setFlagsSub 64 (n - k) a).holds .ge = decide (a ≤ n - k) :=
    Cpu.holds_ge_setFlagsSub c (show n - k < 2 ^ 63 by omega) ha (by omega)
  rw [runBlock_cons hcmp, runBlock, exec, hge]
  by_cases hle : a ≤ n - k
  · rw [decide_eq_true hle, if_pos rfl, if_pos hle]
  · rw [decide_eq_false hle, if_neg Bool.false_ne_true, if_neg hle]
    rfl

/-- The body of the loops that align the source: a byte, and the test of the
number of bytes to the next multiple. -/
theorem alignByte_run (cpuid : Cpuid) (h : At m d s n k c) (hr : Ranges d s n) (hk : k < n)
    (exit aligned self : Label) (hpos : 0 < c.reg .rcx) (hlt : c.reg .rcx < 2 ^ 64) :
    ∃ c', runBlock cpuid
        (moveByte exit ++ [Instr.test 64 .rcx .rcx, .jcc .e aligned, .jmp self]) c
          = .goto (if c.reg .rcx = 1 then aligned else self) c' ∧
      At m d s n (k + 1) c' ∧ c'.reg .r8 = c.reg .r8 ∧ c'.reg .rcx = c.reg .rcx - 1 := by
  obtain ⟨c1, hrun, hp1, hmem1, hr8, hrcx⟩ := moveByte_run cpuid h.pointers hr h.mem hk exit
  have hrcx1 : c1.reg .rcx = c.reg .rcx - 1 := by
    rw [hrcx]
    unfold Cpu.difference
    omega
  have htest : exec (L := Label) cpuid (.test 64 .rcx .rcx) c1
      = .next (c1.setFlagsLogic 64 (c.reg .rcx - 1)) := by
    rw [exec, Cpu.read_reg, hrcx1, Nat.mod_eq_of_lt (show c.reg .rcx - 1 < 2 ^ 64 by omega),
      Nat.and_self]
  have hat1 : At m d s n (k + 1) (c1.setFlagsLogic 64 (c.reg .rcx - 1)) :=
    ⟨hp1.frame fun r _ => rfl, hmem1, hk⟩
  refine ⟨c1.setFlagsLogic 64 (c.reg .rcx - 1), ?_, hat1, hr8, hrcx1⟩
  rw [runBlock_append hrun, runBlock_cons htest, runBlock, exec, Cpu.holds_e_setFlagsLogic]
  by_cases hone : c.reg .rcx = 1
  · rw [if_pos hone, decide_eq_true (show c.reg .rcx - 1 = 0 by omega), if_pos rfl]
  · rw [if_neg hone, decide_eq_false (show ¬ c.reg .rcx - 1 = 0 by omega),
      if_neg Bool.false_ne_true]
    rfl

/-- The start of both functions. -/
theorem entry_run (cpuid : Cpuid) (h : At m d s n 0 c) (hr : Ranges d s n) {a j : Nat}
    (ha : a = 2 ^ j) (hj : j < 64) (exit : Label) :
    ∃ c', runBlock cpuid (checkNull exit ++ misaligned .rsi a) c = .next c' ∧
      At m d s n 0 c' ∧ c'.reg .r8 = d ∧ c'.reg .rcx = a - s % a ∧
      c'.holds .ne = decide (s % a ≠ 0) := by
  have hd : c.reg .rdi = d := by
    rw [h.pointers.rdi]
    exact Nat.mod_eq_of_lt hr.dst_lt
  have hs : c.reg .rsi = s := by
    rw [h.pointers.rsi]
    exact Nat.mod_eq_of_lt hr.src_lt
  obtain ⟨c1, hrun1, hr8, hreg1, hmem1⟩ := checkNull_run cpuid hd hs (Nat.ne_of_gt hr.dst_pos)
    (Nat.ne_of_gt hr.src_pos) hr.dst_lt hr.src_lt exit
  obtain ⟨c2, hrun2, hreg2, hmem2, hrcx, hne⟩ := misaligned_run cpuid
    (show Reg.rsi ≠ .rax by decide) ha hj ((hreg1 .rsi (by decide)).trans hs) hr.src_lt
  refine ⟨c2, ?_, ⟨?_, hmem2.trans (hmem1.trans h.mem), h.le⟩, ?_, hrcx, hne⟩
  · rw [runBlock_append hrun1]
    exact hrun2
  · apply h.pointers.congr
    intro r hr
    rcases hr with rfl | rfl | rfl
    · rw [hreg2 _ (by decide) (by decide), hreg1 _ (by decide)]
    · rw [hreg2 _ (by decide) (by decide), hreg1 _ (by decide)]
    · rw [hreg2 _ (by decide) (by decide), hreg1 _ (by decide)]
  · rw [hreg2 _ (by decide) (by decide), hr8]

/-- The return of both functions hands out `r8`. -/
theorem ret_run (cpuid : Cpuid) {r : Nat} (hr8 : c.reg .r8 = r) (hlt : r < 2 ^ 64) :
    runBlock (L := Label) cpuid [.mov 64 .rax .r8, .ret] c = .ret (c.setReg .rax r) := by
  have hmov : exec (L := Label) cpuid (.mov 64 .rax .r8) c = .next (c.setReg .rax r) := by
    rw [exec, Cpu.read_reg, hr8, Nat.mod_eq_of_lt hlt, Cpu.write_reg_64, Nat.mod_eq_of_lt hlt]
  rw [runBlock_cons hmov]
  rfl

/-- A jump on a condition, at the end of a block. -/
theorem jcc_run (cpuid : Cpuid) (cond : Cond) (target : Label) (c : Cpu) :
    runBlock cpuid [.jcc cond target] c = if c.holds cond then .goto target c else .next c := by
  rw [runBlock, exec]
  by_cases hc : c.holds cond = true
  · rw [if_pos hc]
  · rw [if_neg hc]
    rfl

end Groups

end Xeos.C99.Memcpy64
