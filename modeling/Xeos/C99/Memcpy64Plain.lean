import Xeos.C99.Memcpy64Copy

/-!
# The path of the x86-64 `memcpy` without SSE2

`_memcpy64` saves the destination in `r8` and then moves the quadwords through
`r8`.  The return therefore hands out the quadword that was last read through
`r8`, unless no quadword was moved at all.  `plainResult` is that value.
-/

namespace Xeos.C99.Memcpy64

open Lib Lib.Memory Lib.X86

/-- The offset of the last quadword that the loops over 128, 64 and 8 bytes read
through `r8`, for `rest` bytes.  A pass over 64 bytes reads its first and its
fifth quadword that way. -/
def lastQword (rest : Nat) : Nat :=
  if 8 ≤ rest % 64 then 8 * (rest / 8) - 8 else 64 * (rest / 64) - 32

/-- The value of `r8` at the end, from its value `r8` with `k` bytes copied and
the source aligned. -/
def r8AtEnd (m : Memory) (s n k r8 : Nat) : Nat :=
  if n - k < 8 then r8 else m.load (s + k + lastQword (n - k)) 8

/-- The number of bytes that are copied one by one at the start. -/
def head (s n : Nat) : Nat := min n ((8 - s % 8) % 8)

/-- What `_memcpy64` returns. -/
def plainResult (m : Memory) (d s n : Nat) : Nat := r8AtEnd m s n (head s n) d

/-- The assertion at each label of `_memcpy64`, with `r` for the result. -/
def plainAt (m : Memory) (d s n r : Nat) : Label → Cpu → Prop
  | .memcpy64, c => At m d s n 0 c ∧ r = plainResult m d s n
  | .sourceNotaligned, c => ∃ k, At m d s n k c ∧ c.reg .r8 = d ∧ 0 < c.reg .rcx ∧
      k + c.reg .rcx = (8 - s % 8) % 8 ∧ r = plainResult m d s n
  | .sourceAligned, c => ∃ k, At m d s n k c ∧ r = r8AtEnd m s n k (c.reg .r8)
  | .sourceDestAligned128, c => ∃ k, At m d s n k c ∧ r = r8AtEnd m s n k (c.reg .r8) ∧
      k + 128 ≤ n
  | .sourceDestAligned64, c => ∃ k, At m d s n k c ∧ r = r8AtEnd m s n k (c.reg .r8)
  | .sourceDestAligned8, c => ∃ k, At m d s n k c ∧ r = r8AtEnd m s n k (c.reg .r8) ∧
      n < k + 64
  | .copyEnd, c => ∃ k, At m d s n k c ∧ c.reg .r8 = r
  | .ret, c => At m d s n n c ∧ c.reg .r8 = r
  | _, _ => False

/-- The order of the labels while the number of bytes stays the same. -/
def plainRank : Label → Nat
  | .memcpy64 => 7
  | .sourceNotaligned => 6
  | .sourceAligned => 5
  | .sourceDestAligned128 => 4
  | .sourceDestAligned64 => 3
  | .sourceDestAligned8 => 2
  | .copyEnd => 1
  | _ => 0

def plainMeasure (l : Label) (c : Cpu) : Nat := c.reg .rdx * 16 + plainRank l

section Plain

variable {cpuid : Cpuid} {status : Nat} {m : Memory} {d s n k r : Nat} {c : Cpu}

/-! ## The quadword that stays in `r8` -/

theorem r8AtEnd_8 {r8 : Nat} (hk : k + 8 ≤ n) (hshort : n < k + 64)
    (hr8 : r8 = m.load (s + k) 8) (old : Nat) :
    r8AtEnd m s n (k + 8) r8 = r8AtEnd m s n k old := by
  unfold r8AtEnd lastQword
  rw [if_neg (show ¬ n - k < 8 by omega), if_pos (show 8 ≤ (n - k) % 64 by omega)]
  by_cases hlt : n - (k + 8) < 8
  · rw [if_pos hlt, hr8]
    congr 1
    omega
  · rw [if_neg hlt, if_pos (show 8 ≤ (n - (k + 8)) % 64 by omega)]
    congr 1
    omega

/-- A pass over `a` bytes, a multiple of 64, whose last read through `r8` is the
quadword 32 bytes before its end. -/
theorem r8AtEnd_64 {r8 a : Nat} (ha : a = 64 ∨ a = 128) (hk : k + a ≤ n)
    (hr8 : r8 = m.load (s + k + (a - 32)) 8) (old : Nat) :
    r8AtEnd m s n (k + a) r8 = r8AtEnd m s n k old := by
  unfold r8AtEnd lastQword
  rw [if_neg (show ¬ n - k < 8 by omega)]
  by_cases hlt : n - (k + a) < 8
  · rw [if_pos hlt, if_neg (show ¬ 8 ≤ (n - k) % 64 by omega), hr8]
    congr 1
    omega
  · rw [if_neg hlt]
    by_cases hmod : 8 ≤ (n - k) % 64
    · rw [if_pos hmod, if_pos (show 8 ≤ (n - (k + a)) % 64 by omega)]
      congr 1
      omega
    · rw [if_neg hmod, if_neg (show ¬ 8 ≤ (n - (k + a)) % 64 by omega)]
      congr 1
      omega

/-! ## The labels -/

theorem plain_dest128 (hr : Ranges d s n) (h : At m d s n k c)
    (hres : r = r8AtEnd m s n k (c.reg .r8)) (hk : k + 128 ≤ n) :
    (program status).Progresses cpuid (plainAt m d s n r) plainMeasure (Copied m d s n r)
      .sourceDestAligned128 c := by
  obtain ⟨c1, hrun1, hp1, hmem1, _⟩ := moveQwords_run cpuid 0 h.pointers hr h.mem (by omega)
  obtain ⟨c2, hrun2, hp2, hmem2, _⟩ := moveQwords_run cpuid 32 hp1 hr hmem1 (by omega)
  obtain ⟨c3, hrun3, hp3, hmem3, _⟩ := moveQwords_run cpuid 64 hp2 hr hmem2 (by omega)
  obtain ⟨c4, hrun4, hp4, hmem4, hr84⟩ := moveQwords_run cpuid 96 hp3 hr hmem3 (by omega)
  obtain ⟨c5, hrun5, hp5, hmem5, hr85, _⟩ := advance_run cpuid 128 hp4 hr hk
  have htest := cmpGe_run cpuid hp5 hr (show 128 < 2 ^ 63 by decide) .sourceDestAligned128
  have hrun : runBlock cpuid ((program status).block .sourceDestAligned128) c
      = runBlock cpuid [.cmp 64 .rdx (.imm 128), .jcc .ge .sourceDestAligned128] c5 := by
    simp only [program, block, List.append_assoc]
    rw [runBlock_append hrun1, runBlock_append hrun2, runBlock_append hrun3,
      runBlock_append hrun4, runBlock_append hrun5]
  have hat5 : At m d s n (k + 128) c5 := ⟨hp5, hmem5.trans hmem4, hk⟩
  have hat : At m d s n (k + 128) (c5.setFlagsSub 64 (n - (k + 128)) 128) :=
    hat5.setFlags (Cpu.setFlagsSub_reg _ _ _ _) (Cpu.setFlagsSub_mem _ _ _ _)
  have hres' : r = r8AtEnd m s n (k + 128)
      ((c5.setFlagsSub 64 (n - (k + 128)) 128).reg .r8) := by
    rw [Cpu.setFlagsSub_reg, r8AtEnd_64 (Or.inr rfl) hk (hr85.trans hr84) (c.reg .r8)]
    exact hres
  have hrdx := h.pointers.rdx
  have hrdx' := hat.pointers.rdx
  by_cases hle : 128 ≤ n - (k + 128)
  · rw [htest, if_pos hle] at hrun
    refine .of_goto hrun ⟨k + 128, hat, hres', by omega⟩ ?_
    unfold plainMeasure
    omega
  · rw [htest, if_neg hle] at hrun
    refine .of_next hrun rfl ⟨k + 128, hat, hres'⟩ ?_
    unfold plainMeasure
    rw [hrdx, hrdx']
    show (n - (k + 128)) * 16 + 3 < (n - k) * 16 + 4
    omega

theorem plain_dest64 (hr : Ranges d s n) (h : At m d s n k c)
    (hres : r = r8AtEnd m s n k (c.reg .r8)) :
    (program status).Progresses cpuid (plainAt m d s n r) plainMeasure (Copied m d s n r)
      .sourceDestAligned64 c := by
  have htest := cmpBelow_run cpuid h.pointers hr (show 64 < 2 ^ 64 by decide) .sourceDestAligned8
  have hflags : At m d s n k (c.setFlagsSub 64 (n - k) 64) :=
    h.setFlags (Cpu.setFlagsSub_reg _ _ _ _) (Cpu.setFlagsSub_mem _ _ _ _)
  have hle := h.le
  by_cases hlt : n - k < 64
  · rw [if_pos hlt] at htest
    have hrun : runBlock cpuid ((program status).block .sourceDestAligned64) c
        = .goto .sourceDestAligned8 (c.setFlagsSub 64 (n - k) 64) := by
      simp only [program, block, List.append_assoc]
      exact runBlock_append_of_goto htest
    refine .of_goto hrun ⟨k, hflags, hres, by omega⟩ ?_
    show c.reg .rdx * 16 + 2 < c.reg .rdx * 16 + 3
    omega
  · rw [if_neg hlt] at htest
    obtain ⟨c1, hrun1, hp1, hmem1, _⟩ :=
      moveQwords_run cpuid 0 hflags.pointers hr hflags.mem (by omega)
    obtain ⟨c2, hrun2, hp2, hmem2, hr82⟩ := moveQwords_run cpuid 32 hp1 hr hmem1 (by omega)
    obtain ⟨c3, hrun3, hp3, hmem3, hr83, _⟩ := advance_run cpuid 64 hp2 hr (by omega)
    have hrun : runBlock cpuid ((program status).block .sourceDestAligned64) c
        = .goto .sourceDestAligned64 c3 := by
      simp only [program, block, List.append_assoc]
      rw [runBlock_append htest, runBlock_append hrun1, runBlock_append hrun2,
        runBlock_append hrun3]
      rfl
    refine .of_goto hrun ⟨k + 64, ⟨hp3, hmem3.trans hmem2, by omega⟩, ?_⟩ ?_
    · rw [r8AtEnd_64 (Or.inl rfl) (by omega) (hr83.trans hr82) (c.reg .r8)]
      exact hres
    · unfold plainMeasure
      rw [hp3.rdx, h.pointers.rdx]
      omega

theorem plain_dest8 (hr : Ranges d s n) (h : At m d s n k c)
    (hres : r = r8AtEnd m s n k (c.reg .r8)) (hshort : n < k + 64) :
    (program status).Progresses cpuid (plainAt m d s n r) plainMeasure (Copied m d s n r)
      .sourceDestAligned8 c := by
  have htest := cmpBelow_run cpuid h.pointers hr (show 8 < 2 ^ 64 by decide) .copyEnd
  have hflags : At m d s n k (c.setFlagsSub 64 (n - k) 8) :=
    h.setFlags (Cpu.setFlagsSub_reg _ _ _ _) (Cpu.setFlagsSub_mem _ _ _ _)
  have hle := h.le
  by_cases hlt : n - k < 8
  · rw [if_pos hlt] at htest
    have hrun : runBlock cpuid ((program status).block .sourceDestAligned8) c
        = .goto .copyEnd (c.setFlagsSub 64 (n - k) 8) := by
      simp only [program, block, List.append_assoc]
      exact runBlock_append_of_goto htest
    rw [r8AtEnd, if_pos hlt] at hres
    refine .of_goto hrun ⟨k, hflags, hres.symm⟩ ?_
    show c.reg .rdx * 16 + 1 < c.reg .rdx * 16 + 2
    omega
  · rw [if_neg hlt] at htest
    obtain ⟨c1, hrun1, hp1, hmem1, hr81⟩ :=
      moveQword_run hflags.pointers hr hflags.mem (by omega)
    obtain ⟨c2, hrun2, hp2, hmem2, hr82, _⟩ := advance_run cpuid 8 hp1 hr (by omega)
    have hrun : runBlock cpuid ((program status).block .sourceDestAligned8) c
        = .goto .sourceDestAligned8 c2 := by
      simp only [program, block, List.append_assoc]
      rw [runBlock_append htest, runBlock_append hrun1, runBlock_append hrun2]
      rfl
    refine .of_goto hrun ⟨k + 8, ⟨hp2, hmem2.trans hmem1, by omega⟩, ?_, by omega⟩ ?_
    · rw [r8AtEnd_8 (by omega) hshort (hr82.trans hr81) (c.reg .r8)]
      exact hres
    · unfold plainMeasure
      rw [hp2.rdx, h.pointers.rdx]
      omega

theorem plain_sourceAligned (hr : Ranges d s n) (h : At m d s n k c)
    (hres : r = r8AtEnd m s n k (c.reg .r8)) :
    (program status).Progresses cpuid (plainAt m d s n r) plainMeasure (Copied m d s n r)
      .sourceAligned c := by
  have htest := cmpBelow_run cpuid h.pointers hr (show 128 < 2 ^ 64 by decide)
    .sourceDestAligned64
  have hflags : At m d s n k (c.setFlagsSub 64 (n - k) 128) :=
    h.setFlags (Cpu.setFlagsSub_reg _ _ _ _) (Cpu.setFlagsSub_mem _ _ _ _)
  have hle := h.le
  by_cases hlt : n - k < 128
  · rw [if_pos hlt] at htest
    refine .of_goto htest ⟨k, hflags, hres⟩ ?_
    show c.reg .rdx * 16 + 3 < c.reg .rdx * 16 + 5
    omega
  · rw [if_neg hlt] at htest
    refine .of_next htest rfl ⟨k, hflags, hres, by omega⟩ ?_
    show c.reg .rdx * 16 + 4 < c.reg .rdx * 16 + 5
    omega

theorem plain_copyEnd (hr : Ranges d s n) (h : At m d s n k c) (hr8 : c.reg .r8 = r) :
    (program status).Progresses cpuid (plainAt m d s n r) plainMeasure (Copied m d s n r)
      .copyEnd c := by
  rcases Nat.eq_or_lt_of_le h.le with heq | hlt
  · subst heq
    have hdone := moveByte_run_done cpuid h.pointers .ret
    refine .of_goto (runBlock_append_of_goto hdone) ⟨h.setFlags rfl rfl, hr8⟩ ?_
    show c.reg .rdx * 16 + 0 < c.reg .rdx * 16 + 1
    omega
  · obtain ⟨c', hrun, hp, hmem, hr8', _⟩ := moveByte_run cpuid h.pointers hr h.mem hlt .ret
    have hall : runBlock cpuid ((program status).block .copyEnd) c = .goto .copyEnd c' :=
      runBlock_append hrun
    refine .of_goto hall ⟨k + 1, ⟨hp, hmem, hlt⟩, hr8'.trans hr8⟩ ?_
    unfold plainMeasure
    rw [hp.rdx, h.pointers.rdx]
    omega

theorem plain_sourceNotaligned (hr : Ranges d s n) (h : At m d s n k c) (hr8 : c.reg .r8 = d)
    (hpos : 0 < c.reg .rcx) (hsum : k + c.reg .rcx = (8 - s % 8) % 8)
    (hres : r = plainResult m d s n) :
    (program status).Progresses cpuid (plainAt m d s n r) plainMeasure (Copied m d s n r)
      .sourceNotaligned c := by
  have hmod : (8 - s % 8) % 8 < 8 := Nat.mod_lt _ (by omega)
  rcases Nat.eq_or_lt_of_le h.le with heq | hlt
  · -- the bytes end before the source is aligned, and no quadword is moved
    subst heq
    have hd : r = d := by
      rw [hres, plainResult, r8AtEnd, if_pos (by unfold head; omega)]
    have hdone := moveByte_run_done cpuid h.pointers .ret
    refine .of_goto (runBlock_append_of_goto hdone) ⟨h.setFlags rfl rfl, hr8.trans hd.symm⟩ ?_
    show c.reg .rdx * 16 + 0 < c.reg .rdx * 16 + 6
    omega
  · obtain ⟨c', hrun, hat, hr8', hrcx⟩ := alignByte_run cpuid h hr hlt .ret .sourceAligned
      .sourceNotaligned hpos (by omega)
    have hrdx := h.pointers.rdx
    have hrdx' := hat.pointers.rdx
    by_cases hone : c.reg .rcx = 1
    · rw [if_pos hone] at hrun
      refine .of_goto hrun ⟨k + 1, hat, ?_⟩ ?_
      · rw [hres, plainResult, hr8', hr8]
        congr 1
        unfold head
        omega
      · show c'.reg .rdx * 16 + 5 < c.reg .rdx * 16 + 6
        omega
    · rw [if_neg hone] at hrun
      refine .of_goto hrun ⟨k + 1, hat, hr8'.trans hr8, by omega, by omega, hres⟩ ?_
      show c'.reg .rdx * 16 + 6 < c.reg .rdx * 16 + 6
      omega

theorem plain_entry (hr : Ranges d s n) (h : At m d s n 0 c) (hres : r = plainResult m d s n) :
    (program status).Progresses cpuid (plainAt m d s n r) plainMeasure (Copied m d s n r)
      .memcpy64 c := by
  obtain ⟨c', hrun, hat, hr8, hrcx, hne⟩ := entry_run cpuid h hr (show 8 = 2 ^ 3 by decide)
    (by decide) .ret
  have hrdx := h.pointers.rdx
  have hrdx' := hat.pointers.rdx
  have hblock : runBlock cpuid ((program status).block .memcpy64) c
      = if c'.holds .ne then .goto .sourceNotaligned c' else .next c' := by
    show runBlock cpuid (checkNull .ret ++ misaligned .rsi 8 ++ _) c = _
    rw [runBlock_append hrun, jcc_run]
  rw [hne] at hblock
  by_cases hmod : s % 8 = 0
  · rw [decide_eq_false (not_not.mpr hmod), if_neg Bool.false_ne_true] at hblock
    refine .of_next hblock rfl ⟨0, hat, ?_⟩ ?_
    · rw [hres, plainResult, hr8]
      congr 1
      unfold head
      omega
    · show c'.reg .rdx * 16 + 5 < c.reg .rdx * 16 + 7
      omega
  · rw [decide_eq_true hmod, if_pos rfl] at hblock
    refine .of_goto hblock ⟨0, hat, hr8, by omega, by omega, hres⟩ ?_
    show c'.reg .rdx * 16 + 6 < c.reg .rdx * 16 + 7
    omega

/-- Every block of `_memcpy64` keeps the assertions. -/
theorem plain_progresses (hr : Ranges d s n) (hlt : r < 2 ^ 64) (l : Label) (c : Cpu)
    (h : plainAt m d s n r l c) :
    (program status).Progresses cpuid (plainAt m d s n r) plainMeasure (Copied m d s n r) l c := by
  cases l with
  | memcpy64 =>
    obtain ⟨hat, hres⟩ := h
    exact plain_entry hr hat hres
  | sourceNotaligned =>
    obtain ⟨k, hat, hr8, hpos, hsum, hres⟩ := h
    exact plain_sourceNotaligned hr hat hr8 hpos hsum hres
  | sourceAligned =>
    obtain ⟨k, hat, hres⟩ := h
    exact plain_sourceAligned hr hat hres
  | sourceDestAligned128 =>
    obtain ⟨k, hat, hres, hk⟩ := h
    exact plain_dest128 hr hat hres hk
  | sourceDestAligned64 =>
    obtain ⟨k, hat, hres⟩ := h
    exact plain_dest64 hr hat hres
  | sourceDestAligned8 =>
    obtain ⟨k, hat, hres, hshort⟩ := h
    exact plain_dest8 hr hat hres hshort
  | copyEnd =>
    obtain ⟨k, hat, hr8⟩ := h
    exact plain_copyEnd hr hat hr8
  | ret =>
    obtain ⟨hat, hr8⟩ := h
    exact .of_ret (ret_run cpuid hr8 hlt) ⟨hat.mem, by simp⟩
  | _ => exact h.elim

theorem plainResult_lt (hd : d < 2 ^ 64) : plainResult m d s n < 2 ^ 64 := by
  unfold plainResult r8AtEnd
  split
  · exact hd
  · exact load_lt m _ 8

/-- `_memcpy64` copies, and returns the quadword that `r8` holds at the end. -/
theorem memcpy64_ends (hr : Ranges d s n) (h : At m d s n 0 c) :
    ∃ c', (program status).Ends cpuid .memcpy64 c c' ∧
      Copied m d s n (plainResult m d s n) c' :=
  Program.ends_of_assertions (plainAt m d s n (plainResult m d s n)) plainMeasure
    (Copied m d s n (plainResult m d s n))
    (fun l c => plain_progresses hr (plainResult_lt hr.dst_lt) l c) ⟨h, rfl⟩

end Plain

end Xeos.C99.Memcpy64
