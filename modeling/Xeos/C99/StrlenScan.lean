import Xeos.C99.Strlen
import Xeos.Lib.Scan

/-!
# The string and the tests of its bytes

What the four functions of the assembly `strlen` share: the string that they are called with,
and the tests for a zero byte with which `_strlen32` and `_strlen64` look at the bytes of one
word in turn.
-/

namespace Xeos.C99.Strlen

open Lib Lib.Asm

/-- The string at `s` has the length `n`, and ends below the top of a memory with addresses of
`w` bits. -/
structure StringAt (w : Nat) (m : Memory) (s n : Nat) : Prop where
  pos : 0 < s
  lt : s + n < 2 ^ w
  nul : m (s + n) = 0
  nonzero : ∀ i < n, m (s + i) ≠ 0

theorem StringAt.ne_zero_of_lt {w : Nat} {m : Memory} {s n i : Nat} (h : StringAt w m s n)
    (hle : s ≤ i) (hlt : i < s + n) : m i ≠ 0 := by
  have hi := h.nonzero (i - s) (by omega)
  rwa [Nat.add_sub_cancel' hle] at hi

/-- What both searches look for: a zero byte that is not in front of the string. -/
def EndsAt (m : Memory) (s a : Nat) : Prop := s ≤ a ∧ m a = 0

/-- In front of its end there is no end of the string. -/
theorem StringAt.not_endsAt {w : Nat} {m : Memory} {s n i : Nat} (hs : StringAt w m s n)
    (h : i < s + n) : ¬ EndsAt m s i :=
  fun hend => hs.ne_zero_of_lt hend.1 h hend.2

/-- A word that lies behind the start of the string. -/
theorem zeroMarks_load {m : Memory} {s a k : Nat} (hle : s ≤ a) :
    ZeroMarks (EndsAt m s) a k (m.load a k) where
  lt := by
    rw [pow_mul]
    exact m.load_lt a k
  zero i hi := by
    rw [byte_load m hi]
    constructor
    · intro h
      exact ⟨by omega, UInt8.toNat_inj.mp h⟩
    · rintro ⟨-, h⟩
      exact congrArg UInt8.toNat h

/-- A comparison with the zero that `pxor` makes. -/
theorem xor_self_eq_iff (x : Vec) (j : Nat) (y : UInt8) : x j ^^^ x j = y ↔ y = 0 := by
  rw [UInt8.xor_self, eq_comm]

/-- The state in the body of a function: it has not written to the memory, and the stack
pointer stands at the return address. -/
structure InBody (m : Memory) (c : Cpu) : Prop where
  mem : c.mem = m
  caller : c.stack c.sp = .caller

theorem InBody.kept {m : Memory} {c c' : Cpu} {ws : List Reg} (h : InBody m c)
    (hkept : Kept ws c c') : InBody m c' where
  mem := hkept.mem.trans h.mem
  caller := by rw [hkept.stack, hkept.sp, h.caller]

/-- The call returns the length, and leaves the memory alone. -/
def ReturnsLength (p : Program (Label Part)) (cpuid : X86.Cpuid) (l : Label Part) (c : Cpu)
    (n : Nat) : Prop :=
  ∃ c', p.Ends cpuid l c c' ∧ c'.regs.ax = n ∧ c'.mem = c.mem

/-- A call returns one value. -/
theorem ReturnsLength.unique {p : Program (Label Part)} {cpuid : X86.Cpuid} {l : Label Part}
    {c : Cpu} {n n' : Nat} (h : ReturnsLength p cpuid l c n) (h' : ReturnsLength p cpuid l c n') :
    n = n' := by
  obtain ⟨d, hd, rfl, -⟩ := h
  obtain ⟨d', hd', rfl, -⟩ := h'
  rw [(hd.unique hd').2]

/-! ## The tests of the bytes of a word -/

/-- A run over the tests of `k` bytes of the word in `r` that found none. -/
structure Counted (w : Nat) (r : Reg) (k : Nat) (c c' : Cpu) : Prop where
  ax : c'.regs.ax = (c.regs.ax + k) % 2 ^ w
  kept : ∀ q, q ≠ .ax → q ≠ r → c'.regs.get q = c.regs.get q
  mem : c'.mem = c.mem
  stack : c'.stack = c.stack
  sp : c'.sp = c.sp
  bp : c'.bp = c.bp

section TestBytes

variable {w n k k' : Nat} {r : Reg} (cpuid : X86.Cpuid) {c c' c'' : Cpu}
  (rest : List (Instr (Label Part)))

theorem Counted.trans (h : Counted w r k c c') (h' : Counted w r k' c' c'') :
    Counted w r (k + k') c c'' where
  ax := by rw [h'.ax, h.ax, Nat.mod_add_mod, Nat.add_assoc]
  kept q hax hr := (h'.kept q hax hr).trans (h.kept q hax hr)
  mem := h'.mem.trans h.mem
  stack := h'.stack.trans h.stack
  sp := h'.sp.trans h.sp
  bp := h'.bp.trans h.bp

theorem and_0xFF (v : Nat) : v &&& 0xFF = byte v 0 := by
  rw [byte_zero]
  exact Nat.and_two_pow_sub_one_eq_mod v 8

theorem imm_0xFF (hw : 8 ≤ w) : ((0xFF : Int) % (2 ^ w : Nat)).toNat = 0xFF := by
  have hle : 2 ^ 8 ≤ 2 ^ w := Nat.pow_le_pow_right (by decide) hw
  have hmod : 0xFF % 2 ^ w = 0xFF := Nat.mod_eq_of_lt (by omega)
  exact congrArg Int.toNat (congrArg Nat.cast hmod)

/-- One test. -/
theorem run_testByte (hw : 32 ≤ w) (hr : r ≠ .ax) (hx : c.regs.ax < 2 ^ w) :
    (byte (c.regs.get r) 0 = 0 ∧ ∃ c', Counted w r 0 c c' ∧
      run alu w cpuid (testByte w r ++ rest) c = .goto (plain .found) c') ∨
    (byte (c.regs.get r) 0 ≠ 0 ∧ ∃ c', Counted w r 1 c c' ∧ c'.regs.get r = c.regs.get r ∧
      run alu w cpuid (testByte w r ++ rest) c = run alu w cpuid rest c') := by
  have htest : exec (L := Label Part) alu w c cpuid (.test w (.reg r) (.imm 0xFF))
      = .next (c.setFlags (Flags.logic w (byte (c.regs.get r) 0))) := by
    simp only [exec, Asm.read, narrow, if_true, imm_0xFF (show 8 ≤ w by omega), Option.bind_some,
      Option.map_some, Outcome.ofOption, ← and_0xFF]
    rfl
  have hjump : ∀ c : Cpu, exec (L := Label Part) alu w c cpuid (.jcc .e (plain .found))
      = if c.flags.zf then .goto (plain .found) c else .next c := fun _ => rfl
  by_cases hzero : byte (c.regs.get r) 0 = 0
  · have hzf : (c.setFlags (Flags.logic w (byte (c.regs.get r) 0))).flags.zf = true :=
      decide_eq_true hzero
    refine .inl ⟨hzero, c.setFlags (Flags.logic w (byte (c.regs.get r) 0)),
      ⟨(Nat.mod_eq_of_lt hx).symm, fun _ _ _ => rfl, rfl, rfl, rfl, rfl⟩, ?_⟩
    rw [testByte, List.cons_append, List.cons_append, run_match, htest]
    dsimp only
    rw [run_match, hjump, if_pos hzf]
  · have hinc : exec (L := Label Part) alu w
        (c.setFlags (Flags.logic w (byte (c.regs.get r) 0))) cpuid (.inc w .ax)
        = .next ((c.setReg .ax (sum w c.regs.ax 1)).setFlags
            { Flags.add w c.regs.ax 1 with cf := false }) := by
      rw [exec, narrow, if_pos rfl]
      rfl
    have hne : ¬ (c.setFlags (Flags.logic w (byte (c.regs.get r) 0))).flags.zf = true :=
      fun h => hzero (of_decide_eq_true h)
    refine .inr ⟨hzero, (c.setReg .ax (sum w c.regs.ax 1)).setFlags
      { Flags.add w c.regs.ax 1 with cf := false },
      ⟨rfl, fun q hax _ => ?_, rfl, rfl, rfl, rfl⟩, ?_, ?_⟩
    · exact (Regs.get_set _ _ _ _).trans (if_neg hax)
    · exact (Regs.get_set _ _ _ _).trans (if_neg hr)
    · rw [testByte, List.cons_append, List.cons_append, run_match, htest]
      dsimp only
      rw [run_match, hjump, if_neg hne]
      dsimp only
      rw [List.cons_append, run_match, hinc, List.nil_append]

/-- The tests find the first zero byte of the word, or there is none. -/
theorem run_testBytes (hw : 32 ≤ w) (hr : r ≠ .ax) (hn : 0 < n)
    (hx : c.regs.ax < 2 ^ w) :
    (∃ j < n, (∀ i < j, byte (c.regs.get r) i ≠ 0) ∧ byte (c.regs.get r) j = 0 ∧
      ∃ c', Counted w r j c c' ∧
        run alu w cpuid (testBytes w r n ++ rest) c = .goto (plain .found) c') ∨
    ((∀ i < n, byte (c.regs.get r) i ≠ 0) ∧
      ∃ c', Counted w r n c c' ∧
        run alu w cpuid (testBytes w r n ++ rest) c = run alu w cpuid rest c') := by
  induction n generalizing c with
  | zero => exact absurd hn (Nat.lt_irrefl 0)
  | succ n ih =>
    cases n with
    | zero =>
      rcases run_testByte cpuid rest hw hr hx with
        ⟨hzero, c', hcounted, hrun⟩ | ⟨hne, c', hcounted, -, hrun⟩
      · exact .inl ⟨0, Nat.one_pos, fun i hi => absurd hi (Nat.not_lt_zero i), hzero, c',
          hcounted, hrun⟩
      · refine .inr ⟨fun i hi => ?_, c', hcounted, hrun⟩
        rwa [Nat.lt_one_iff.mp hi]
    | succ n =>
      have hsplit : testBytes w r (n + 1 + 1) ++ rest
          = testByte w r ++ (Instr.shr w r 8 :: (testBytes w r (n + 1) ++ rest)) := by
        have htests : testBytes w r (n + 1 + 1)
            = testByte w r ++ [Instr.shr w r 8] ++ testBytes w r (n + 1) := rfl
        rw [htests, List.append_assoc, List.append_assoc, List.singleton_append]
      rw [hsplit]
      rcases run_testByte cpuid (.shr w r 8 :: (testBytes w r (n + 1) ++ rest))
        hw hr hx with ⟨hzero, c', hcounted, hrun⟩ | ⟨hne, c', hcounted, hsame, hrun⟩
      · exact .inl ⟨0, by omega, fun i hi => absurd hi (Nat.not_lt_zero i), hzero, c', hcounted,
          hrun⟩
      · -- the next byte comes to the low end
        have hshr : exec (L := Label Part) alu w c' cpuid (.shr w r 8)
            = .next (c'.setReg r (c.regs.get r / 256)) := by
          rw [exec, narrow, if_pos rfl, hsame]
          rfl
        have hword : (c'.setReg r (c.regs.get r / 256)).regs.get r = c.regs.get r / 256 :=
          (Regs.get_set _ _ _ _).trans (if_pos rfl)
        have hax : (c'.setReg r (c.regs.get r / 256)).regs.ax = (c.regs.ax + 1) % 2 ^ w :=
          ((Regs.get_set _ _ _ .ax).trans (if_neg hr.symm)).trans hcounted.ax
        have hshifted : Counted w r 1 c (c'.setReg r (c.regs.get r / 256)) :=
          ⟨hax, fun q hqax hq => ((Regs.get_set _ _ _ _).trans (if_neg hq)).trans
            (hcounted.kept q hqax hq), hcounted.mem, hcounted.stack, hcounted.sp, hcounted.bp⟩
        have hall : ∀ {j : Nat}, (∀ i < j, byte (c.regs.get r / 256) i ≠ 0) →
            ∀ i < 1 + j, byte (c.regs.get r) i ≠ 0 := by
          intro j hj i hi
          cases i with
          | zero => exact hne
          | succ i =>
            rw [← byte_div]
            exact hj i (by omega)
        have hnext := ih (c := c'.setReg r (c.regs.get r / 256)) (Nat.succ_pos n)
          (hax ▸ Nat.mod_lt _ (Nat.two_pow_pos w))
        rw [hword] at hnext
        rw [hrun, run_match, hshr]
        dsimp only
        rcases hnext with ⟨j, hj, hlow, hzero, d, hd, hrun'⟩ | ⟨hlow, d, hd, hrun'⟩
        · rw [byte_div] at hzero
          refine .inl ⟨1 + j, by omega, hall hlow, ?_, d, hshifted.trans hd, hrun'⟩
          rwa [Nat.add_comm]
        · rw [Nat.add_comm (n + 1) 1]
          exact .inr ⟨hall hlow, d, hshifted.trans hd, hrun'⟩

end TestBytes

end Xeos.C99.Strlen
