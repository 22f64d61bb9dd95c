import Xeos.C99.Memcpy64Copy

/-!
# The SSE2 path of the x86-64 `memcpy`

`sse2At` gives the assertion at each label of `_memcpy64_sse2`, and `sse2Rank`
orders the labels between two changes of the byte count.  `r8` holds the
destination from the start to the return.
-/

namespace Xeos.C99.Memcpy64

open Lib Lib.Memory Lib.X86

/-- The source is aligned, and the destination too where `aligned` says so. -/
structure DestAt (m : Memory) (d s n k : Nat) (aligned : Bool) (c : Cpu) : Prop where
  at_ : At m d s n k c
  r8 : c.reg .r8 = d
  src : (s + k) % 16 = 0
  dst : aligned = true → (d + k) % 16 = 0

/-- The assertion at each label of `_memcpy64_sse2`. -/
def sse2At (m : Memory) (d s n : Nat) : Label → Cpu → Prop
  | .memcpy64Sse2, c => At m d s n 0 c
  | .sse2SourceNotaligned, c => ∃ k, At m d s n k c ∧ c.reg .r8 = d ∧
      0 < c.reg .rcx ∧ c.reg .rcx < 16 ∧ (s + k + c.reg .rcx) % 16 = 0
  | .sse2SourceAligned, c => ∃ k, DestAt m d s n k false c
  | .sse2Dest aligned, c => ∃ k, DestAt m d s n k aligned c
  | .sse2Dest128 aligned, c => ∃ k, DestAt m d s n k aligned c ∧ k + 128 ≤ n
  | .sse2Dest64 aligned, c => ∃ k, DestAt m d s n k aligned c
  | .sse2Dest16 aligned, c => ∃ k, DestAt m d s n k aligned c
  | .sse2CopyEnd, c => ∃ k, At m d s n k c ∧ c.reg .r8 = d
  | .sse2Ret, c => At m d s n n c ∧ c.reg .r8 = d
  | _, _ => False

/-- The order of the labels while the number of bytes stays the same. -/
def sse2Rank : Label → Nat
  | .memcpy64Sse2 => 8
  | .sse2SourceNotaligned => 7
  | .sse2SourceAligned => 6
  | .sse2Dest _ => 5
  | .sse2Dest128 _ => 4
  | .sse2Dest64 _ => 3
  | .sse2Dest16 _ => 2
  | .sse2CopyEnd => 1
  | _ => 0

def sse2Measure (l : Label) (c : Cpu) : Nat := c.reg .rdx * 16 + sse2Rank l

section Sse2

variable {cpuid : Cpuid} {status : Nat} {m : Memory} {d s n k : Nat} {c : Cpu}

theorem DestAt.setFlags {aligned : Bool} {c' : Cpu} (h : DestAt m d s n k aligned c)
    (hreg : c'.reg = c.reg) (hmem : c'.mem = c.mem) : DestAt m d s n k aligned c' :=
  ⟨h.at_.setFlags hreg hmem, (congrFun hreg .r8).trans h.r8, h.src, h.dst⟩

/-- One pass of a loop over `count` registers. -/
theorem moveXmm_run (cpuid : Cpuid) {aligned : Bool} (h : DestAt m d s n k aligned c)
    (hr : Ranges d s n) {count : Nat} (hcount : k + 16 * count ≤ n) (rest : List (Instr Label)) :
    ∃ c', runBlock cpuid
        (readXmm count ++ (writeXmm aligned count ++ (advance (16 * count) ++ rest))) c
          = runBlock cpuid rest c' ∧
      DestAt m d s n (k + 16 * count) aligned c' := by
  obtain ⟨c1, hrun1, hreg1, hmem1, hxmm1⟩ :=
    readXmm_run h.at_.pointers hr h.at_.mem h.src hcount
  have hp1 : Pointers d s n k c1 := h.at_.pointers.congr fun r _ => congrFun hreg1 r
  obtain ⟨c2, hrun2, hreg2, hmem2, _⟩ :=
    writeXmm_run hp1 hr (hmem1.trans h.at_.mem) h.dst hcount hxmm1
  have hp2 : Pointers d s n k c2 := hp1.congr fun r _ => congrFun hreg2 r
  obtain ⟨c3, hrun3, hp3, hmem3, hr8, _⟩ := advance_run cpuid (16 * count) hp2 hr hcount
  have hsrc := h.src
  refine ⟨c3, ?_, ⟨hp3, hmem3.trans hmem2, hcount⟩, ?_, by omega, ?_⟩
  · rw [runBlock_append hrun1, runBlock_append hrun2, runBlock_append hrun3]
  · rw [hr8, hreg2, hreg1]
    exact h.r8
  · intro haligned
    have hdst := h.dst haligned
    omega

/-- The loops over 64 and over 16 bytes, which test before each pass. -/
theorem sse2_loop (hr : Ranges d s n) {aligned : Bool} (count : Nat) (self below : Label)
    (hcount : 0 < count ∧ count ≤ 4)
    (hblock : block status self = [Instr.cmp 64 .rdx (.imm (16 * count)), .jcc .b below]
      ++ readXmm count ++ writeXmm aligned count ++ advance (16 * count) ++ [Instr.jmp self])
    (hself : ∀ c k, DestAt m d s n k aligned c → sse2At m d s n self c)
    (hbelow : ∀ c k, DestAt m d s n k aligned c → sse2At m d s n below c)
    (hrank : sse2Rank below < sse2Rank self) (h : DestAt m d s n k aligned c) :
    (program status).Progresses cpuid (sse2At m d s n) sse2Measure (Copied m d s n d) self c := by
  have htest := cmpBelow_run cpuid h.at_.pointers hr (show 16 * count < 2 ^ 64 by omega) below
  have hflags : DestAt m d s n k aligned (c.setFlagsSub 64 (n - k) (16 * count)) :=
    h.setFlags rfl rfl
  have hrdx := h.at_.pointers.rdx
  by_cases hlt : n - k < 16 * count
  · rw [if_pos hlt] at htest
    have hrun : runBlock cpuid ((program status).block self) c
        = .goto below (c.setFlagsSub 64 (n - k) (16 * count)) := by
      show runBlock cpuid (block status self) c = _
      rw [hblock]
      simp only [List.append_assoc]
      exact runBlock_append_of_goto htest
    refine .of_goto hrun (hbelow _ k hflags) ?_
    show c.reg .rdx * 16 + sse2Rank below < c.reg .rdx * 16 + sse2Rank self
    omega
  · rw [if_neg hlt] at htest
    obtain ⟨c', hpass, hdest⟩ := moveXmm_run cpuid hflags hr
      (show k + 16 * count ≤ n by have := h.at_.le; omega) [.jmp self]
    have hrun : runBlock cpuid ((program status).block self) c = .goto self c' := by
      show runBlock cpuid (block status self) c = _
      rw [hblock]
      simp only [List.append_assoc]
      rw [runBlock_append htest, hpass]
      rfl
    refine .of_goto hrun (hself c' _ hdest) ?_
    show c'.reg .rdx * 16 + sse2Rank self < c.reg .rdx * 16 + sse2Rank self
    have hrdx' := hdest.at_.pointers.rdx
    have hle := hdest.at_.le
    omega

theorem sse2_dest128 (hr : Ranges d s n) {aligned : Bool} (h : DestAt m d s n k aligned c)
    (hk : k + 128 ≤ n) :
    (program status).Progresses cpuid (sse2At m d s n) sse2Measure (Copied m d s n d)
      (.sse2Dest128 aligned) c := by
  obtain ⟨c', hpass, hdest⟩ := moveXmm_run cpuid h hr (show k + 16 * 8 ≤ n from hk)
    [.cmp 64 .rdx (.imm 128), .jcc .ge (.sse2Dest128 aligned)]
  have htest := cmpGe_run cpuid hdest.at_.pointers hr (show 128 < 2 ^ 63 by decide)
    (.sse2Dest128 aligned)
  have hrun : runBlock cpuid ((program status).block (.sse2Dest128 aligned)) c
      = runBlock cpuid [.cmp 64 .rdx (.imm 128), .jcc .ge (.sse2Dest128 aligned)] c' := by
    simp only [program, block, List.append_assoc]
    exact hpass
  have hflags : DestAt m d s n (k + 16 * 8) aligned (c'.setFlagsSub 64 (n - (k + 16 * 8)) 128) :=
    hdest.setFlags (Cpu.setFlagsSub_reg _ _ _ _) (Cpu.setFlagsSub_mem _ _ _ _)
  have hrdx := h.at_.pointers.rdx
  have hrdx' : (c'.setFlagsSub 64 (n - (k + 16 * 8)) 128).reg .rdx = n - (k + 16 * 8) :=
    hflags.at_.pointers.rdx
  by_cases hle : 128 ≤ n - (k + 16 * 8)
  · rw [htest, if_pos hle] at hrun
    refine .of_goto hrun ⟨k + 16 * 8, hflags, by omega⟩ ?_
    unfold sse2Measure
    omega
  · rw [htest, if_neg hle] at hrun
    refine .of_next hrun rfl ⟨k + 16 * 8, hflags⟩ ?_
    unfold sse2Measure
    rw [hrdx, hrdx']
    show (n - (k + 16 * 8)) * 16 + 3 < (n - k) * 16 + 4
    omega

theorem sse2_dest (hr : Ranges d s n) {aligned : Bool} (h : DestAt m d s n k aligned c) :
    (program status).Progresses cpuid (sse2At m d s n) sse2Measure (Copied m d s n d)
      (.sse2Dest aligned) c := by
  have htest := cmpBelow_run cpuid h.at_.pointers hr (show 128 < 2 ^ 64 by decide)
    (.sse2Dest64 aligned)
  have hflags : DestAt m d s n k aligned (c.setFlagsSub 64 (n - k) 128) := h.setFlags rfl rfl
  have hle := h.at_.le
  by_cases hlt : n - k < 128
  · rw [if_pos hlt] at htest
    refine .of_goto htest ⟨k, hflags⟩ ?_
    show c.reg .rdx * 16 + 3 < c.reg .rdx * 16 + 5
    omega
  · rw [if_neg hlt] at htest
    refine .of_next htest rfl ⟨k, hflags, by omega⟩ ?_
    show c.reg .rdx * 16 + 4 < c.reg .rdx * 16 + 5
    omega

theorem sse2_copyEnd (hr : Ranges d s n) (h : At m d s n k c) (hr8 : c.reg .r8 = d) :
    (program status).Progresses cpuid (sse2At m d s n) sse2Measure (Copied m d s n d)
      .sse2CopyEnd c := by
  rcases Nat.eq_or_lt_of_le h.le with heq | hlt
  · subst heq
    have hdone := moveByte_run_done cpuid h.pointers .sse2Ret
    refine .of_goto (runBlock_append_of_goto hdone) ⟨h.setFlags rfl rfl, hr8⟩ ?_
    show c.reg .rdx * 16 + 0 < c.reg .rdx * 16 + 1
    omega
  · obtain ⟨c', hrun, hp, hmem, hr8', _⟩ :=
      moveByte_run cpuid h.pointers hr h.mem hlt .sse2Ret
    have hall : runBlock cpuid ((program status).block .sse2CopyEnd) c
        = .goto .sse2CopyEnd c' := runBlock_append hrun
    refine .of_goto hall ⟨k + 1, ⟨hp, hmem, hlt⟩, hr8'.trans hr8⟩ ?_
    unfold sse2Measure
    rw [hp.rdx, h.pointers.rdx]
    omega

theorem sse2_sourceNotaligned (hr : Ranges d s n) (h : At m d s n k c) (hr8 : c.reg .r8 = d)
    (hpos : 0 < c.reg .rcx) (hlt16 : c.reg .rcx < 16) (hmod : (s + k + c.reg .rcx) % 16 = 0) :
    (program status).Progresses cpuid (sse2At m d s n) sse2Measure (Copied m d s n d)
      .sse2SourceNotaligned c := by
  rcases Nat.eq_or_lt_of_le h.le with heq | hlt
  · subst heq
    have hdone := moveByte_run_done cpuid h.pointers .sse2Ret
    refine .of_goto (runBlock_append_of_goto hdone) ⟨h.setFlags rfl rfl, hr8⟩ ?_
    show c.reg .rdx * 16 + 0 < c.reg .rdx * 16 + 7
    omega
  · obtain ⟨c', hrun, hat, hr8', hrcx⟩ := alignByte_run cpuid h hr hlt .sse2Ret
      .sse2SourceAligned .sse2SourceNotaligned hpos (by omega)
    have hrdx := h.pointers.rdx
    have hrdx' := hat.pointers.rdx
    by_cases hone : c.reg .rcx = 1
    · rw [if_pos hone] at hrun
      refine .of_goto hrun ⟨k + 1, hat, hr8'.trans hr8, by omega, nofun⟩ ?_
      show c'.reg .rdx * 16 + 6 < c.reg .rdx * 16 + 7
      omega
    · rw [if_neg hone] at hrun
      refine .of_goto hrun ⟨k + 1, hat, hr8'.trans hr8, by omega, by omega, by omega⟩ ?_
      show c'.reg .rdx * 16 + 7 < c.reg .rdx * 16 + 7
      omega

theorem sse2_sourceAligned (h : DestAt m d s n k false c) :
    (program status).Progresses cpuid (sse2At m d s n) sse2Measure (Copied m d s n d)
      .sse2SourceAligned c := by
  have hlt : (d + k) % 2 ^ 64 < 2 ^ 64 := Nat.mod_lt _ (by omega)
  obtain ⟨c', hrun, hreg, hmem, _, hne⟩ := misaligned_run cpuid (show Reg.rdi ≠ .rax by decide)
    (show 16 = 2 ^ 4 by decide) (by decide) h.at_.pointers.rdi hlt
  have hat : At m d s n k c' := by
    refine ⟨h.at_.pointers.congr ?_, hmem.trans h.at_.mem, h.at_.le⟩
    intro r hr
    rcases hr with rfl | rfl | rfl
    · exact hreg _ (by decide) (by decide)
    · exact hreg _ (by decide) (by decide)
    · exact hreg _ (by decide) (by decide)
  have hr8 : c'.reg .r8 = d := (hreg .r8 (by decide) (by decide)).trans h.r8
  have hrdx := h.at_.pointers.rdx
  have hrdx' := hat.pointers.rdx
  have hblock : runBlock cpuid ((program status).block .sse2SourceAligned) c
      = if c'.holds .ne then .goto (.sse2Dest false) c' else .next c' := by
    show runBlock cpuid (misaligned .rdi 16 ++ _) c = _
    rw [runBlock_append hrun, jcc_run]
  rw [hne] at hblock
  by_cases hmod : (d + k) % 2 ^ 64 % 16 = 0
  · rw [decide_eq_false (not_not.mpr hmod), if_neg Bool.false_ne_true] at hblock
    refine .of_next hblock rfl ⟨k, hat, hr8, h.src, fun _ => by omega⟩ ?_
    show c'.reg .rdx * 16 + 5 < c.reg .rdx * 16 + 6
    omega
  · rw [decide_eq_true hmod, if_pos rfl] at hblock
    refine .of_goto hblock ⟨k, hat, hr8, h.src, nofun⟩ ?_
    show c'.reg .rdx * 16 + 5 < c.reg .rdx * 16 + 6
    omega

theorem sse2_entry (hr : Ranges d s n) (h : At m d s n 0 c) :
    (program status).Progresses cpuid (sse2At m d s n) sse2Measure (Copied m d s n d)
      .memcpy64Sse2 c := by
  obtain ⟨c', hrun, hat, hr8, hrcx, hne⟩ := entry_run cpuid h hr (show 16 = 2 ^ 4 by decide)
    (by decide) .sse2Ret
  have hrdx := h.pointers.rdx
  have hrdx' := hat.pointers.rdx
  have hblock : runBlock cpuid ((program status).block .memcpy64Sse2) c
      = if c'.holds .ne then .goto .sse2SourceNotaligned c' else .next c' := by
    show runBlock cpuid (checkNull .sse2Ret ++ misaligned .rsi 16 ++ _) c = _
    rw [runBlock_append hrun, jcc_run]
  rw [hne] at hblock
  by_cases hmod : s % 16 = 0
  · rw [decide_eq_false (not_not.mpr hmod), if_neg Bool.false_ne_true] at hblock
    refine .of_next hblock rfl ⟨0, hat, hr8, hmod, nofun⟩ ?_
    show c'.reg .rdx * 16 + 6 < c.reg .rdx * 16 + 8
    omega
  · rw [decide_eq_true hmod, if_pos rfl] at hblock
    refine .of_goto hblock ⟨0, hat, hr8, by omega, by omega, by omega⟩ ?_
    show c'.reg .rdx * 16 + 7 < c.reg .rdx * 16 + 8
    omega

theorem sse2_ret (hr : Ranges d s n) (h : At m d s n n c) (hr8 : c.reg .r8 = d) :
    (program status).Progresses cpuid (sse2At m d s n) sse2Measure (Copied m d s n d) .sse2Ret c :=
  .of_ret (ret_run cpuid hr8 hr.dst_lt) ⟨h.mem, by simp⟩

/-- Every block of `_memcpy64_sse2` keeps the assertions. -/
theorem sse2_progresses (hr : Ranges d s n) (l : Label) (c : Cpu) (h : sse2At m d s n l c) :
    (program status).Progresses cpuid (sse2At m d s n) sse2Measure (Copied m d s n d) l c := by
  cases l with
  | memcpy64Sse2 => exact sse2_entry hr h
  | sse2SourceNotaligned =>
    obtain ⟨k, hat, hr8, hpos, hlt, hmod⟩ := h
    exact sse2_sourceNotaligned hr hat hr8 hpos hlt hmod
  | sse2SourceAligned =>
    obtain ⟨k, hdest⟩ := h
    exact sse2_sourceAligned hdest
  | sse2Dest aligned =>
    obtain ⟨k, hdest⟩ := h
    exact sse2_dest hr hdest
  | sse2Dest128 aligned =>
    obtain ⟨k, hdest, hk⟩ := h
    exact sse2_dest128 hr hdest hk
  | sse2Dest64 aligned =>
    obtain ⟨k, hdest⟩ := h
    exact sse2_loop hr 4 (.sse2Dest64 aligned) (.sse2Dest16 aligned) (by decide) rfl
      (fun c k h => ⟨k, h⟩) (fun c k h => ⟨k, h⟩) (Nat.lt_succ_self 2) hdest
  | sse2Dest16 aligned =>
    obtain ⟨k, hdest⟩ := h
    exact sse2_loop hr 1 (.sse2Dest16 aligned) .sse2CopyEnd (by decide) rfl
      (fun c k h => ⟨k, h⟩) (fun c k h => ⟨k, h.at_, h.r8⟩) (Nat.lt_succ_self 1) hdest
  | sse2CopyEnd =>
    obtain ⟨k, hat, hr8⟩ := h
    exact sse2_copyEnd hr hat hr8
  | sse2Ret =>
    obtain ⟨hat, hr8⟩ := h
    exact sse2_ret hr hat hr8
  | _ => exact h.elim

/-- `_memcpy64_sse2` copies and returns the destination. -/
theorem memcpy64Sse2_ends (hr : Ranges d s n) (h : At m d s n 0 c) :
    ∃ c', (program status).Ends cpuid .memcpy64Sse2 c c' ∧ Copied m d s n d c' :=
  Program.ends_of_assertions (sse2At m d s n) sse2Measure (Copied m d s n d)
    (fun l c => sse2_progresses hr l c) (show sse2At m d s n .memcpy64Sse2 c from h)

end Sse2

end Xeos.C99.Memcpy64
