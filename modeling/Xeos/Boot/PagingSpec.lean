import Xeos.Boot.PagingTables

/-!
# The page tables of the boot loader, executed

What the code of each set-up does to the memory and to the registers, and from
it `setupPaging_spec`: the tables map the first twelve megabytes to themselves,
nothing else of the memory is written, and the registers come back.
-/

namespace Xeos.Boot

open Lib Lib.Real PageTable Stage2

/-! ## The loops -/

theorem setEntries_spec {c : Cpu} {stride n : Nat} (hcx : c.word .cx = n) (hn : 0 < n)
    (hdi : (c.reg .di).toNat + stride * n ≤ 2 ^ 16) (hbx : (c.reg .bx).toNat + 2 ^ 12 * n < 2 ^ 32)
    (hstride : 0 < stride) :
    SameBut [.bx, .di, .cx] c (setEntries stride c) ∧
      (setEntries stride c).mem
        = link c.mem (16 * (c.seg .ds).toNat + (c.reg .di).toNat) stride (c.reg .bx).toNat n := by
  have hrounds : (if c.word .cx = 0 then 2 ^ 16 else c.word .cx) = n := by
    rw [if_neg (by omega), hcx]
  rw [setEntries, Cpu.loopCx, hrounds]
  have hinv := forLoop_inv (fun _ => Cpu.countDown fun c =>
      let c := c.store 4 .ds (c.reg .di).toNat (c.reg .bx).toNat
      let c := c.setReg .bx ((c.reg .bx).toNat + 0x1000)
      c.setReg .di ((c.reg .di).toNat + stride)) n c
    (fun k t => SameBut [.bx, .di, .cx] c t ∧
      (t.reg .di).toNat = (c.reg .di).toNat + stride * k ∧
      (t.reg .bx).toNat = (c.reg .bx).toNat + 2 ^ 12 * k ∧
      t.mem = link c.mem (16 * (c.seg .ds).toNat + (c.reg .di).toNat) stride
        (c.reg .bx).toNat k)
    ⟨SameBut.refl c, rfl, rfl, rfl⟩ ?_
  · exact ⟨hinv.1, hinv.2.2.2⟩
  rintro k t hk ⟨hsame, htdi, htbx, hmem⟩
  have hle : stride * k + stride ≤ stride * n := by
    rw [← Nat.mul_succ]
    exact Nat.mul_le_mul_left stride hk
  have hsucc : stride * (k + 1) = stride * k + stride := Nat.mul_succ stride k
  have hdx : Reg.di ≠ Reg.cx := nofun
  have hbc : Reg.bx ≠ Reg.cx := nofun
  have hbd : Reg.bx ≠ Reg.di := nofun
  have hdb : Reg.di ≠ Reg.bx := nofun
  refine ⟨?_, ?_, ?_, ?_⟩
  · refine hsame.trans ?_
    exact (((SameBut.store _ _ _ _).trans (SameBut.setReg (by simp) _)).trans
      (SameBut.setReg (by simp) _)).trans (SameBut.setWord (by simp) _)
  · simp only [Cpu.countDown]
    rw [Cpu.reg_setWord_of_ne _ _ _ _ hdx, Cpu.reg_setReg, Cpu.reg_setReg_of_ne _ _ _ _ hdb,
      Cpu.reg_store, htdi]
    omega
  · simp only [Cpu.countDown]
    rw [Cpu.reg_setWord_of_ne _ _ _ _ hbc, Cpu.reg_setReg_of_ne _ _ _ _ hbd, Cpu.reg_setReg,
      Cpu.reg_store, htbx]
    omega
  · have hlinear : t.linear .ds (t.reg .di).toNat
        = 16 * (c.seg .ds).toNat + (c.reg .di).toNat + stride * k := by
      rw [hsame.linear, Cpu.linear, htdi]
      omega
    simp only [Cpu.countDown, Cpu.mem_setWord, Cpu.mem_setReg, Cpu.mem_store]
    rw [hlinear, htbx, hmem, link, link, forLoop_succ]

/-! ## The set-ups -/

/-- The registers that the set-ups change. -/
def setupRegs : List Reg := [.ax, .bx, .cx, .di]

/-- What a set-up does: it loads `CR3` and writes the tables. -/
structure SetUp (cr3 : BitVec 32) (tables : Memory → Memory) (c c' : Cpu) : Prop where
  same : SameBut setupRegs (c.setCr 3 cr3) c'
  mem : c'.mem = tables c.mem

section SetUp

variable {c : Cpu}

/-- Setting registers of the list. -/
theorem sameBut_setupRegs {c' : Cpu} (hreg : ∀ r, r ≠ .ax → r ≠ .bx → r ≠ .cx → r ≠ .di →
    c'.reg r = c.reg r) (hseg : c'.seg = c.seg) (hflags : c'.flags = c.flags)
    (hcr : c'.cr = c.cr) : SameBut setupRegs c c' := by
  refine ⟨?_, hseg, hflags, hcr⟩
  intro r hr
  simp only [setupRegs, List.mem_cons, List.not_mem_nil, or_false, not_or] at hr
  exact hreg r hr.1 hr.2.1 hr.2.2.1 hr.2.2.2

theorem SetUp.next {cr3 : BitVec 32} {tables tables' : Memory → Memory} {c' c'' : Cpu}
    (h : SetUp cr3 tables c c') (hsame : SameBut setupRegs c' c'')
    (hmem : c''.mem = tables' c'.mem) : SetUp cr3 (fun m => tables' (tables m)) c c'' :=
  ⟨h.same.trans hsame, by rw [hmem, h.mem]⟩

/-- The clearing of the tables, from the offset `off` of the segment. -/
theorem clear_spec {c₁ : Cpu} {cr3 : BitVec 32} (off n : Nat)
    (hsame : SameBut setupRegs (c.setCr 3 cr3) c₁) (hmem : c₁.mem = c.mem)
    (hdf : c.flags.getLsbD 10 = false) (hes : (c.seg .es).toNat = 0x1000)
    (hax : c₁.reg .ax = 0) (hdi : c₁.word .di = off) (hcx : c₁.word .cx = n)
    (hfits : off + 4 * n ≤ 2 ^ 16) (hoff : off < 2 ^ 16) :
    SetUp cr3 (fun m => m.fill (0x10000 + off) (4 * n) 0) c (c₁.rep Cpu.stosd) := by
  have hflags : c₁.flags = c.flags := hsame.flags
  have hseg : c₁.seg = c.seg := hsame.seg
  obtain ⟨hrep, hfill⟩ := rep_stosd (by rw [hflags]; exact hdf) hax (by rw [hdi, hcx]; exact hfits)
  constructor
  · apply hsame.trans
    apply SameBut.mono hrep
    decide
  · rw [hfill, hmem, hdi, hcx, Cpu.linear, hseg, hes, Nat.mod_eq_of_lt hoff]

theorem setupClear_spec (hdf : c.flags.getLsbD 10 = false) (hes : (c.seg .es).toNat = 0x1000) :
    SetUp 0x12000 (fun m => m.fill 0x12000 0x4000 0) c (setupClear c) := by
  apply clear_spec 0x2000 0x1000 _ _ hdf hes
  · simp [Cpu.setReg]
  · simp
  · simp
  · omega
  · omega
  · apply sameBut_setupRegs
    · intro r hax hbx hcx hdi
      simp [hax, hcx, hdi, Cpu.setCr]
    · rfl
    · rfl
    · simp [Cpu.setCr, Cpu.setReg]
  · rfl

theorem setupLink_spec (hds : (c.seg .ds).toNat = 0x1000) :
    SameBut setupRegs c (setupLink c) ∧
      (setupLink c).mem = link c.mem 0x12000 4 0x13003 3 ∧
      (setupLink c).word .cx = 3072 ∧ ((setupLink c).reg .di).toNat = 0x3000 ∧
      ((setupLink c).reg .bx).toNat = 3 := by
  refine ⟨?_, ?_, ?_, ?_, ?_⟩
  · apply sameBut_setupRegs
    · intro r hax hbx hcx hdi
      simp [setupLink, hbx, hcx, hdi]
    · rfl
    · rfl
    · rfl
  · simp [setupLink, Cpu.linear, hds, link, forLoop]
  · simp [setupLink]
  · simp [setupLink]
  · simp [setupLink]

/-- The loop of a set-up. -/
theorem setupEntries_spec {n : Nat} (hds : (c.seg .ds).toNat = 0x1000)
    (hcx : c.word .cx = 3072) (hdi : (c.reg .di).toNat = 0x3000) (hbx : (c.reg .bx).toNat = 3)
    (hstride : n ≤ 16) (hpos : 0 < n) :
    SameBut setupRegs c (setEntries n c) ∧
      (setEntries n c).mem = link c.mem 0x13000 n 3 3072 := by
  obtain ⟨hsame, hmem⟩ :=
    setEntries_spec (c := c) hcx (by omega) (by rw [hdi]; omega) (by rw [hbx]; omega) hpos
  rw [hds, hdi, hbx] at hmem
  exact ⟨hsame.mono (by decide), hmem⟩

theorem setup_spec (hdf : c.flags.getLsbD 10 = false) (hds : (c.seg .ds).toNat = 0x1000)
    (hes : (c.seg .es).toNat = 0x1000) : SetUp 0x12000 tables32 c (setup c) := by
  have hclear := setupClear_spec hdf hes
  have hds₁ : ((setupClear c).seg .ds).toNat = 0x1000 := by
    rw [hclear.same.seg]
    exact hds
  obtain ⟨hsame, hmem, hcx, hdi, hbx⟩ := setupLink_spec hds₁
  obtain ⟨hloop, hentries⟩ := setupEntries_spec (n := 4) (by rw [hsame.seg]; exact hds₁)
    hcx hdi hbx (by omega) (by omega)
  exact (hclear.next hsame hmem).next hloop hentries

theorem setupPdt_spec (hds : (c.seg .ds).toNat = 0x1000) (hdi : (c.reg .di).toNat = 0x2000) :
    SameBut setupRegs c (setupPdt c) ∧
      (setupPdt c).mem = link c.mem 0x12000 8 0x13003 6 ∧
      (setupPdt c).word .cx = 3072 ∧ ((setupPdt c).reg .di).toNat = 0x3000 ∧
      ((setupPdt c).reg .bx).toNat = 3 := by
  refine ⟨?_, ?_, ?_, ?_, ?_⟩
  · apply sameBut_setupRegs
    · intro r hax hbx hcx hdi
      simp [setupPdt, hbx, hcx, hdi]
    · simp [setupPdt]
    · simp [setupPdt]
    · simp [setupPdt]
  · simp [setupPdt, Cpu.linear, hds, hdi, link, forLoop]
  · simp [setupPdt]
  · simp [setupPdt, hdi]
  · simp [setupPdt]

/-- The directory and the page tables of a set-up with PAE. -/
theorem setupPdtEntries_spec (hds : (c.seg .ds).toNat = 0x1000)
    (hdi : (c.reg .di).toNat = 0x2000) :
    SameBut setupRegs c (setEntries 8 (setupPdt c)) ∧
      (setEntries 8 (setupPdt c)).mem = tablesPdt c.mem := by
  obtain ⟨hsame, hmem, hcx, hdi', hbx⟩ := setupPdt_spec hds hdi
  obtain ⟨hloop, hentries⟩ := setupEntries_spec (n := 8) (by rw [hsame.seg]; exact hds)
    hcx hdi' hbx (by omega) (by omega)
  refine ⟨hsame.trans hloop, ?_⟩
  rw [hentries, hmem, tablesPdt]

theorem setupPae32Clear_spec (hdf : c.flags.getLsbD 10 = false)
    (hes : (c.seg .es).toNat = 0x1000) :
    SetUp 0x11000 (fun m => m.fill 0x11000 0x8000 0) c (setupPae32Clear c) := by
  apply clear_spec 0x1000 0x2000 _ _ hdf hes
  · simp [Cpu.setReg]
  · simp
  · simp
  · omega
  · omega
  · apply sameBut_setupRegs
    · intro r hax hbx hcx hdi
      simp [hax, hcx, hdi, Cpu.setCr]
    · rfl
    · rfl
    · simp [Cpu.setCr, Cpu.setReg]
  · rfl

theorem setupPae32Link_spec (hds : (c.seg .ds).toNat = 0x1000) :
    SameBut setupRegs c (setupPae32Link c) ∧
      (setupPae32Link c).mem = link c.mem 0x11000 8 0x12001 1 ∧
      ((setupPae32Link c).reg .di).toNat = 0x2000 := by
  refine ⟨?_, ?_, ?_⟩
  · apply sameBut_setupRegs
    · intro r hax hbx hcx hdi
      simp [setupPae32Link, hax, hdi]
    · rfl
    · rfl
    · rfl
  · simp [setupPae32Link, Cpu.linear, hds, link, forLoop]
  · simp [setupPae32Link]

theorem setupPae32_spec (hdf : c.flags.getLsbD 10 = false) (hds : (c.seg .ds).toNat = 0x1000)
    (hes : (c.seg .es).toNat = 0x1000) : SetUp 0x11000 tablesPae32 c (setupPae32 c) := by
  have hclear := setupPae32Clear_spec hdf hes
  have hds₁ : ((setupPae32Clear c).seg .ds).toNat = 0x1000 := by
    rw [hclear.same.seg]
    exact hds
  obtain ⟨hsame, hmem, hdi⟩ := setupPae32Link_spec hds₁
  obtain ⟨hloop, hentries⟩ := setupPdtEntries_spec (by rw [hsame.seg]; exact hds₁) hdi
  exact (hclear.next hsame hmem).next hloop hentries

theorem setupPae64Clear_spec (hdf : c.flags.getLsbD 10 = false)
    (hes : (c.seg .es).toNat = 0x1000) :
    SetUp 0x10000 (fun m => m.fill 0x10000 0x9000 0) c (setupPae64Clear c) := by
  apply clear_spec 0 0x2400 _ _ hdf hes
  · simp [Cpu.setReg]
  · simp
  · simp
  · omega
  · omega
  · apply sameBut_setupRegs
    · intro r hax hbx hcx hdi
      simp [hax, hcx, hdi, Cpu.setCr]
    · rfl
    · rfl
    · simp [Cpu.setCr, Cpu.setReg]
  · rfl

theorem setupPae64Link_spec (hds : (c.seg .ds).toNat = 0x1000) :
    SameBut setupRegs c (setupPae64Link c) ∧
      (setupPae64Link c).mem = link (link c.mem 0x10000 8 0x11003 1) 0x11000 8 0x12003 1 ∧
      ((setupPae64Link c).reg .di).toNat = 0x2000 := by
  refine ⟨?_, ?_, ?_⟩
  · apply sameBut_setupRegs
    · intro r hax hbx hcx hdi
      simp [setupPae64Link, hax, hdi]
    · rfl
    · rfl
    · rfl
  · simp [setupPae64Link, Cpu.linear, hds, link, forLoop]
  · simp [setupPae64Link]

theorem setupPae64_spec (hdf : c.flags.getLsbD 10 = false) (hds : (c.seg .ds).toNat = 0x1000)
    (hes : (c.seg .es).toNat = 0x1000) : SetUp 0x10000 tablesPae64 c (setupPae64 c) := by
  have hclear := setupPae64Clear_spec hdf hes
  have hds₁ : ((setupPae64Clear c).seg .ds).toNat = 0x1000 := by
    rw [hclear.same.seg]
    exact hds
  obtain ⟨hsame, hmem, hdi⟩ := setupPae64Link_spec hds₁
  obtain ⟨hloop, hentries⟩ := setupPdtEntries_spec (by rw [hsame.seg]; exact hds₁) hdi
  refine ⟨(hclear.same.trans hsame).trans hloop, ?_⟩
  rw [setupPae64, hentries, hmem, hclear.mem, tablesPae64]

end SetUp

/-! ## The check for PAE -/

/-- The result of the check. -/
def paeResult (cpuid : BitVec 32 → Leaf) : Nat := if hasPae cpuid then 1 else 0

theorem and_pae_eq_zero (x : BitVec 32) : x &&& 0x40 = 0 ↔ x.getLsbD 6 = false := by
  have hbit : (0x40 : BitVec 32) = BitVec.twoPow 32 6 := by decide
  rw [hbit, BitVec.and_twoPow]
  cases x.getLsbD 6 <;> decide

theorem execCpuid_dx (cpuid : BitVec 32 → Leaf) (c : Cpu) :
    (execCpuid cpuid (c.setReg .ax 0x01)).reg .dx = (cpuid 0x01).edx := by
  have hax : (c.setReg .ax 0x01).reg .ax = 0x01 := Cpu.reg_setReg_toNat c .ax 0x01
  rw [execCpuid, hax, Cpu.reg_setReg_toNat]

theorem cpuPae_eq {cpuid : BitVec 32 → Leaf} {c : Cpu} (hroom : procBytes ≤ c.word .sp) :
    cpuPae cpuid c = ({ c with mem := (procStart 0 c).mem } : Cpu).setWord .ax (paeResult cpuid) := by
  obtain ⟨b, hb⟩ : ∃ b, b = (execCpuid cpuid ((procStart 0 c).setReg .ax 0x01)).setReg .dx
      ((execCpuid cpuid ((procStart 0 c).setReg .ax 0x01)).reg .dx &&& 0x40).toNat := ⟨_, rfl⟩
  have hdef : cpuPae cpuid c
      = if b.reg .dx = 0 then (procEnd b).setWord .ax 0 else (procEnd b).setWord .ax 0x01 := by
    rw [hb]
    rfl
  have hbody : InProc 0 c b [] := by
    rw [hb]
    exact (InProc.start hroom).keep (by simp [execCpuid]) (by simp [execCpuid])
      (by simp [execCpuid]) (fun a _ _ => by simp [execCpuid])
  have hdx : b.reg .dx = (cpuid 0x01).edx &&& 0x40 := by
    rw [hb, Cpu.reg_setReg_toNat, execCpuid_dx]
  have hcr : b.cr = c.cr := by
    rw [hb]
    simp [execCpuid, cr_procStart]
  have hmem : b.mem = (procStart 0 c).mem := by
    rw [hb]
    simp [execCpuid]
  rw [hdef, hbody.finish, hdx, hcr, hmem, paeResult, hasPae]
  by_cases hpae : (cpuid 0x01).edx.getLsbD 6 = true
  · have hne : ¬ (cpuid 0x01).edx &&& 0x40 = 0 := by
      rw [and_pae_eq_zero, hpae]
      decide
    rw [if_neg hne, if_pos hpae]
  · have heq : (cpuid 0x01).edx &&& 0x40 = 0 :=
      (and_pae_eq_zero _).mpr (Bool.eq_false_iff.mpr hpae)
    rw [if_pos heq, if_neg hpae]

/-- The call of the check from a procedure. -/
theorem call_cpuPae (cpuid : BitVec 32 → Leaf) (ret : BitVec 16) {locals : Nat} {c₀ c : Cpu}
    {fs : List (Nat × Nat)} (h : InProc locals c₀ c fs) (hroom : procBytes + 2 ≤ c.word .sp) :
    InProc locals c₀ (c.call ret (cpuPae cpuid)) fs ∧
      SameBut [.ax] c (c.call ret (cpuPae cpuid)) ∧
      (c.call ret (cpuPae cpuid)).word .ax = paeResult cpuid ∧
      ∀ a, a + (procBytes + 2) < c.top ∨ c.top ≤ a →
        (c.call ret (cpuPae cpuid)).mem a = c.mem a := by
  have hpush := h.stack.pushWith (h.push_room (n := 2) (by omega)) ret.isLt
  have hword := hpush.word
  have hword' := h.stack.word
  have htop := hpush.top
  have htop' := h.stack.top
  rw [bytes_cons] at hword htop
  dsimp only at hword htop
  have hpae := @cpuPae_eq cpuid (c.pushWith 2 ret.toNat) (by omega)
  have hax : Reg.sp ≠ Reg.ax := nofun
  have hbpax : Reg.bp ≠ Reg.ax := nofun
  have hbpsp : Reg.bp ≠ Reg.sp := nofun
  have hkeep : InProc locals c₀ (c.call ret (cpuPae cpuid)) fs := by
    apply h.call (by omega)
    · rw [hpae, Cpu.seg_setWord]
      rfl
    · rw [hpae, Cpu.reg_setWord_of_ne _ _ _ _ hax]
    · rw [hpae, Cpu.reg_setWord_of_ne _ _ _ _ hbpax]
      change (c.pushWith 2 ret.toNat).reg .bp = c.reg .bp
      rw [Cpu.reg_pushWith_of_ne _ _ _ _ hbpsp]
    · intro a hle _
      rw [hpae, Cpu.mem_setWord]
      dsimp only
      rw [mem_procStart (by omega) (Or.inr hle)]
  refine ⟨hkeep, ⟨?_, ?_, ?_, ?_⟩, ?_, ?_⟩
  · intro r hr
    have hrax : r ≠ .ax := fun heq => hr (heq ▸ List.mem_cons_self)
    by_cases hrsp : r = .sp
    · subst hrsp
      apply BitVec.eq_of_toNat_eq
      have h1 := hkeep.stack.sp
      have h2 := h.stack.sp
      omega
    · rw [Cpu.call, Cpu.reg_drop_of_ne _ _ _ hrsp, hpae, Cpu.reg_setWord_of_ne _ _ _ _ hrax]
      change (c.pushWith 2 ret.toNat).reg r = c.reg r
      rw [Cpu.reg_pushWith_of_ne _ _ _ _ hrsp]
  · rw [Cpu.call, Cpu.seg_drop, hpae, Cpu.seg_setWord]
    rfl
  · rw [Cpu.call, Cpu.flags_drop, hpae, Cpu.flags_setWord]
    rfl
  · rw [Cpu.call, Cpu.cr_drop, hpae, Cpu.cr_setWord]
    rfl
  · have hle : paeResult cpuid ≤ 1 := by
      rw [paeResult]
      split <;> omega
    rw [Cpu.call, Cpu.word_drop_of_ne _ _ _ hax.symm, hpae, Cpu.word_setWord]
    omega
  · intro a ha
    rw [Cpu.call, Cpu.mem_drop, hpae, Cpu.mem_setWord]
    dsimp only
    rw [mem_procStart (by omega) (by omega),
      h.stack.mem_pushWith (h.push_room (by omega)) (by omega)]

/-! ## The whole procedure -/

/-- The bytes of stack that the procedure uses: its frame, four words, the return
address and the frame of the check. -/
def pagingStack : Nat := 2 * procBytes + 8

/-- What the caller sees to.  The stack is apart from the tables and from the
variable, the direction flag is clear, and a processor without PAE has no such
bit in `CR4`. -/
structure PagingReady (cpuid : BitVec 32 → Leaf) (longMode : Nat) (c : Cpu) : Prop where
  room : pagingStack ≤ c.word .sp
  direction : c.flags.getLsbD 10 = false
  tables : c.top ≤ 0x10000 ∨ 0x19000 + pagingStack ≤ c.top
  variable_ : c.linear .ds longMode + pagingStack < c.top ∨ c.top ≤ c.linear .ds longMode
  cr4 : hasPae cpuid = false → (c.cr 4).getLsbD 5 = false

/-- The state when one of the set-ups is chosen. -/
structure Chosen (cpuid : BitVec 32 → Leaf) (long : Nat) (c d : Cpu) : Prop where
  stack : ∃ p q : Cpu, p.word .ax = paeResult cpuid ∧ q.word .ax = long ∧
    InProc 0 c d [Slot.saved p (.word .ax), Slot.saved q (.word .ax), Slot.saved c (.seg .es),
      Slot.saved c (.seg .ds)]
  ax : d.word .ax = paeResult cpuid
  ds : (d.seg .ds).toNat = 0x1000
  es : (d.seg .es).toNat = 0x1000
  flags : d.flags = c.flags
  cr : ∀ n, n ≠ 0 → d.cr n = c.cr n
  mem : ∀ a, a + pagingStack < c.top ∨ c.top ≤ a → d.mem a = c.mem a

/-- The three words that are saved first. -/
theorem setupSave_spec {cpuid : BitVec 32 → Leaf} {longMode : Nat} {c c₁ c₂ : Cpu}
    (h : PagingReady cpuid longMode c)
    (h₁ : c₁ = ((procStart 0 c).push (.seg .ds)).push (.seg .es))
    (h₂ : c₂ = (c₁.setWord .ax 0).setLow .ax ((c₁.setWord .ax 0).load 1 .ds longMode)) :
    InProc 0 c c₂ [Slot.saved c (.seg .es), Slot.saved c (.seg .ds)] ∧
      c₂.word .ax = c.load 1 .ds longMode ∧ c₂.flags = c.flags ∧ c₂.cr = c.cr ∧
      ∀ a, a + (procBytes + 4) < c.top ∨ c.top ≤ a → c₂.mem a = c.mem a := by
  have hroom := h.room
  rw [pagingStack] at hroom
  have hsize : ∀ x : Seg, (Slot.seg x).size = 2 := fun _ => rfl
  have hsaved : ∀ x : Seg, (Slot.saved c (.seg x)).1 = 2 := fun _ => rfl
  have hstart : InProc 0 c (procStart 0 c) [] := InProc.start (by omega)
  have hword := hstart.word_sp
  have htop := hstart.top
  have hds := hstart.push (t := .seg .ds) (w := c) (by rw [hsize]; rw [bytes_nil] at hword; omega)
    (by rw [Slot.value, Slot.value, seg_procStart])
  have hword₁ := hds.word_sp
  have htop₁ := hds.top
  have hes := hds.push (t := .seg .es) (w := c)
    (by rw [hsize]; rw [bytes_cons, bytes_nil, hsaved] at hword₁; omega)
    (by rw [Slot.value, Slot.value, Cpu.push, Cpu.seg_pushWith, seg_procStart])
  have htop₂ := hes.top
  rw [← h₁] at hes htop₂
  have hmem : ∀ a, a + (procBytes + 4) < c.top ∨ c.top ≤ a → c₁.mem a = c.mem a := by
    intro a ha
    rw [bytes_nil] at htop
    rw [bytes_cons, bytes_nil, hsaved] at htop₁
    rw [h₁, hds.mem_push (by rw [hsize]; rw [bytes_cons, bytes_nil, hsaved] at hword₁; omega)
      (by rw [hsize]; omega), hstart.mem_push (by rw [hsize]; rw [bytes_nil] at hword; omega)
      (by rw [hsize]; omega), mem_procStart (by omega) (by omega)]
  have hseg : c₁.seg = c.seg := by
    rw [h₁, Cpu.push, Cpu.seg_pushWith, Cpu.push, Cpu.seg_pushWith, seg_procStart]
  have hload : (c₁.setWord .ax 0).load 1 .ds longMode = c.load 1 .ds longMode := by
    rw [Cpu.load, Cpu.load, Cpu.mem_setWord]
    have hlinear : (c₁.setWord .ax 0).linear .ds longMode = c.linear .ds longMode := by
      rw [Cpu.linear, Cpu.seg_setWord, hseg, Cpu.linear]
    rw [hlinear]
    apply Memory.load_congr
    intro i hi
    have hapart := h.variable_
    rw [pagingStack] at hapart
    exact hmem _ (by omega)
  have hbyte : c.load 1 .ds longMode < 256 := Memory.load_lt _ _ 1
  rw [hload] at h₂
  refine ⟨?_, ?_, ?_, ?_, ?_⟩
  · rw [h₂]
    exact hes.keep (by simp [Cpu.setLow]) (by simp [Cpu.setLow]) (by simp [Cpu.setLow])
      (fun a _ _ => by simp [Cpu.setLow])
  · rw [h₂, Cpu.setLow, Cpu.word_setReg, Cpu.reg_setWord]
    omega
  · rw [h₂, Cpu.setLow, Cpu.flags_setReg, Cpu.flags_setWord, h₁, Cpu.push, Cpu.flags_pushWith,
      Cpu.push, Cpu.flags_pushWith, flags_procStart]
  · rw [h₂, Cpu.setLow, Cpu.cr_setReg, Cpu.cr_setWord, h₁, Cpu.push, Cpu.cr_pushWith,
      Cpu.push, Cpu.cr_pushWith, cr_procStart]
  · intro a ha
    rw [h₂]
    simp only [Cpu.setLow, Cpu.mem_setReg, Cpu.mem_setWord]
    exact hmem a ha

/-- The segments of the tables, and the paging bit cleared. -/
theorem setupSegments_spec {c₃ c₄ : Cpu} {c : Cpu} {fs : List (Nat × Nat)}
    (h : InProc 0 c c₃ fs) (hcr : c₃.cr = c.cr)
    (h₄ : c₄ = ((c₃.setWord .ax 0x1000).setSeg .ds ((c₃.setWord .ax 0x1000).word .ax)).setSeg .es
      (((c₃.setWord .ax 0x1000).setSeg .ds ((c₃.setWord .ax 0x1000).word .ax)).word .ax)) (v w : Nat)
    (x : BitVec 32) :
    InProc 0 c (((c₄.setReg .ax v).setReg .ax w).setCr 0 x) fs ∧
      ((((c₄.setReg .ax v).setReg .ax w).setCr 0 x).seg .ds).toNat = 0x1000 ∧
      ((((c₄.setReg .ax v).setReg .ax w).setCr 0 x).seg .es).toNat = 0x1000 ∧
      (((c₄.setReg .ax v).setReg .ax w).setCr 0 x).flags = c₃.flags ∧
      (∀ n, n ≠ 0 → (((c₄.setReg .ax v).setReg .ax w).setCr 0 x).cr n = c.cr n) ∧
      (((c₄.setReg .ax v).setReg .ax w).setCr 0 x).mem = c₃.mem := by
  have hds : Seg.ds ≠ Seg.es := nofun
  have hss : Seg.ss ≠ Seg.es := nofun
  have hss' : Seg.ss ≠ Seg.ds := nofun
  have hsp : Reg.sp ≠ Reg.ax := nofun
  have hbp : Reg.bp ≠ Reg.ax := nofun
  have hax : (c₃.setWord .ax 0x1000).word .ax = 0x1000 := Cpu.word_setWord c₃ .ax 0x1000
  have hmod : 0x1000 % 2 ^ 16 = 0x1000 := Nat.mod_eq_of_lt (by omega)
  have hseg : (((c₄.setReg .ax v).setReg .ax w).setCr 0 x).seg = c₄.seg := rfl
  have hreg : ∀ r, r ≠ .ax → (((c₄.setReg .ax v).setReg .ax w).setCr 0 x).reg r = c₃.reg r := by
    intro r hr
    have hcr : (((c₄.setReg .ax v).setReg .ax w).setCr 0 x).reg r
        = ((c₄.setReg .ax v).setReg .ax w).reg r := rfl
    rw [hcr, Cpu.reg_setReg_of_ne _ _ _ _ hr, Cpu.reg_setReg_of_ne _ _ _ _ hr, h₄,
      Cpu.reg_setSeg, Cpu.reg_setSeg, Cpu.reg_setWord_of_ne _ _ _ _ hr]
  have hmem : (((c₄.setReg .ax v).setReg .ax w).setCr 0 x).mem = c₃.mem := by
    rw [h₄]
    rfl
  refine ⟨h.keep ?_ (hreg _ hsp) (hreg _ hbp) (fun a _ _ => by rw [hmem]), ?_, ?_, ?_, ?_, hmem⟩
  · rw [hseg, h₄, Cpu.seg_setSeg_of_ne _ _ _ _ hss, Cpu.seg_setSeg_of_ne _ _ _ _ hss',
      Cpu.seg_setWord]
  · rw [hseg, h₄, Cpu.seg_setSeg_of_ne _ _ _ _ hds, Cpu.seg_setSeg, hax, hmod]
  · rw [hseg, h₄, Cpu.seg_setSeg, Cpu.word_setSeg, hax, hmod]
  · rw [h₄]
    rfl
  · intro n hn
    have hupdate : (((c₄.setReg .ax v).setReg .ax w).setCr 0 x).cr = Function.update c₄.cr 0 x := rfl
    rw [hupdate, Function.update_of_ne hn, h₄, Cpu.cr_setSeg, Cpu.cr_setSeg, Cpu.cr_setWord, hcr]

theorem setupChoose_spec {cpuid : BitVec 32 → Leaf} {longMode : Nat} (ret : BitVec 16) {c : Cpu}
    (h : PagingReady cpuid longMode c) :
    Chosen cpuid (c.load 1 .ds longMode) c (setupChoose cpuid longMode ret c) := by
  have hroom := h.room
  rw [pagingStack] at hroom
  obtain ⟨c₁, h₁⟩ : ∃ c₁, c₁ = ((procStart 0 c).push (.seg .ds)).push (.seg .es) := ⟨_, rfl⟩
  obtain ⟨c₂, h₂⟩ : ∃ c₂, c₂ = (c₁.setWord .ax 0).setLow .ax
    ((c₁.setWord .ax 0).load 1 .ds longMode) := ⟨_, rfl⟩
  obtain ⟨hsave, hbyte, hflags, hcr, hmem⟩ := setupSave_spec h h₁ h₂
  obtain ⟨c₃, h₃⟩ : ∃ c₃, c₃ = c₂.push (.word .ax) := ⟨_, rfl⟩
  obtain ⟨c₄, h₄⟩ : ∃ c₄, c₄ = ((c₃.setWord .ax 0x1000).setSeg .ds
      ((c₃.setWord .ax 0x1000).word .ax)).setSeg .es
      (((c₃.setWord .ax 0x1000).setSeg .ds ((c₃.setWord .ax 0x1000).word .ax)).word .ax) :=
    ⟨_, rfl⟩
  obtain ⟨c₅, h₅⟩ : ∃ c₅, c₅ = c₄.setReg .ax (c₄.cr 0).toNat := ⟨_, rfl⟩
  obtain ⟨c₆, h₆⟩ : ∃ c₆, c₆ = (c₅.setReg .ax (c₅.reg .ax &&& 0x7FFFFFFF).toNat).setCr 0
      ((c₅.setReg .ax (c₅.reg .ax &&& 0x7FFFFFFF).toNat).reg .ax) := ⟨_, rfl⟩
  have hdef : setupChoose cpuid longMode ret c
      = (c₆.call ret (cpuPae cpuid)).push (.word .ax) := by
    rw [h₆, h₅, h₄, h₃, h₂, h₁]
    rfl
  have hsize : (Slot.word .ax).size = 2 := rfl
  have hbytes : bytes [Slot.saved c (.seg .es), Slot.saved c (.seg .ds)] = 4 := rfl
  have hword := hsave.word_sp
  have htop := hsave.top
  rw [hbytes] at hword htop
  -- the byte of the 64 bits mode
  have hlong := hsave.push (t := .word .ax) (w := c₂) (by rw [hsize]; omega) rfl
  have hmem₃ : ∀ a, a + (procBytes + 6) < c.top ∨ c.top ≤ a → c₃.mem a = c.mem a := by
    intro a ha
    rw [h₃, hsave.mem_push (by rw [hsize]; omega) (by rw [hsize]; omega), hmem a (by omega)]
  rw [← h₃] at hlong
  have hcr₃ : c₃.cr = c.cr := by
    rw [h₃, Cpu.push, Cpu.cr_pushWith, hcr]
  have hflags₃ : c₃.flags = c.flags := by
    rw [h₃, Cpu.push, Cpu.flags_pushWith, hflags]
  -- the segments of the tables
  obtain ⟨hseg, hds, hes, hflags₆, hcr₆, hmem₆⟩ := setupSegments_spec hlong hcr₃ h₄
    (c₄.cr 0).toNat (c₅.reg .ax &&& 0x7FFFFFFF).toNat
    ((c₅.setReg .ax (c₅.reg .ax &&& 0x7FFFFFFF).toNat).reg .ax)
  rw [← h₅, ← h₆] at hseg hds hes hflags₆ hcr₆ hmem₆
  have hbytes₆ : bytes [Slot.saved c₂ (.word .ax), Slot.saved c (.seg .es),
    Slot.saved c (.seg .ds)] = 6 := rfl
  have hword₆ := hseg.word_sp
  have htop₆ := hseg.top
  rw [hbytes₆] at hword₆ htop₆
  -- the check and its result
  obtain ⟨hcall, hsame, hresult, hmem₇⟩ :=
    call_cpuPae cpuid ret hseg (by omega)
  have hword₇ := hcall.word_sp
  have htop₇ := hcall.top
  rw [hbytes₆] at hword₇ htop₇
  have hpush := hcall.push (t := .word .ax) (w := c₆.call ret (cpuPae cpuid))
    (by rw [hsize]; omega) rfl
  have hne : Reg.ax ≠ Reg.sp := by simp
  rw [hdef]
  constructor
  · exact ⟨_, c₂, hresult, hbyte, hpush⟩
  · rw [Cpu.push, Cpu.word_pushWith_of_ne _ _ _ _ hne, hresult]
  · rw [Cpu.push, Cpu.seg_pushWith, hsame.seg, hds]
  · rw [Cpu.push, Cpu.seg_pushWith, hsame.seg, hes]
  · rw [Cpu.push, Cpu.flags_pushWith, hsame.flags, hflags₆, hflags₃]
  · intro n hn
    rw [Cpu.push, Cpu.cr_pushWith, hsame.cr, hcr₆ n hn]
  · intro a ha
    rw [pagingStack] at ha
    rw [hcall.mem_push (by rw [hsize]; omega) (by rw [hsize]; omega), hmem₇ a (by omega), hmem₆,
      hmem₃ a (by omega)]

/-! ## The tables -/

theorem tablesPdt_of_not_mem {m : Memory} {a : Nat} (ha : a < 0x12000 ∨ 0x19000 ≤ a) :
    tablesPdt m a = m a := by
  rw [tablesPdt, link_of_not_mem (by omega) (by omega), link_of_not_mem (by omega) (by omega)]

/-- A set-up, by its mode: what it loads into `CR3`, and its tables. -/
structure Builds (p : Paging) (cr3 : BitVec 32) (tables : Memory → Memory) : Prop where
  identity : ∀ m, Identity (tables m) p.levels (p.root cr3.toNat) 0 mapped
  frame : ∀ m a, a < p.first ∨ p.last ≤ a → tables m a = m a
  chain : Chain p.levels p.bits
  fits : mapped ≤ 2 ^ p.bits
  bounds : 0x10000 ≤ p.first ∧ p.last ≤ 0x19000

theorem builds_paging32 : Builds paging32 0x12000 tables32 where
  identity := identity_tables32
  frame m a ha := by
    dsimp only [paging32] at ha
    rw [tables32, link_of_not_mem (by omega) (by omega), link_of_not_mem (by omega) (by omega),
      Memory.fill_of_not_mem _ _ (by omega)]
  chain := ⟨rfl, rfl, rfl⟩
  fits := by decide
  bounds := by decide

theorem builds_pagingPae32 : Builds pagingPae32 0x11000 tablesPae32 where
  identity := identity_tablesPae32
  frame m a ha := by
    dsimp only [pagingPae32] at ha
    rw [tablesPae32, tablesPdt_of_not_mem (by omega), link_of_not_mem (by omega) (by omega),
      Memory.fill_of_not_mem _ _ (by omega)]
  chain := ⟨rfl, rfl, rfl, rfl⟩
  fits := by decide
  bounds := by decide

theorem builds_pagingPae64 : Builds pagingPae64 0x10000 tablesPae64 where
  identity := identity_tablesPae64
  frame m a ha := by
    dsimp only [pagingPae64] at ha
    rw [tablesPae64, tablesPdt_of_not_mem (by omega), link_of_not_mem (by omega) (by omega),
      link_of_not_mem (by omega) (by omega), Memory.fill_of_not_mem _ _ (by omega)]
  chain := ⟨rfl, rfl, rfl, rfl, rfl⟩
  fits := by decide
  bounds := by decide

theorem Builds.walk {p : Paging} {cr3 : BitVec 32} {tables : Memory → Memory}
    (h : Builds p cr3 tables) (m : Memory) {a : Nat} (ha : a < 2 ^ p.bits) :
    PageTable.walk (tables m) p.levels (p.root cr3.toNat) a true
      = if a < 0xC00000 then some (a, true) else none :=
  walk_identity h.chain (h.identity m) (Nat.dvd_zero _) (by decide) (by decide) (Nat.zero_le _)
    (by omega)

/-! ## The end -/

/-- A word on the stack is the saved value of any segment register. -/
theorem exists_saved_seg {v : Nat} (hv : v < 2 ^ 16) (c : Cpu) (s : Seg) :
    ∃ p : Cpu, ((2, v) : Nat × Nat) = Slot.saved p (.seg s) := by
  refine ⟨c.setSeg s v, ?_⟩
  have hvalue : (Slot.seg s).value (c.setSeg s v) = v := by
    rw [Slot.value, Cpu.seg_setSeg, Nat.mod_eq_of_lt hv]
  rw [Slot.saved, hvalue]
  rfl

theorem exists_saved_word {v : Nat} (hv : v < 2 ^ 16) (c : Cpu) (r : Reg) :
    ∃ p : Cpu, ((2, v) : Nat × Nat) = Slot.saved p (.word r) ∧ p.word r = v := by
  have hword : (c.setWord r v).word r = v := by
    rw [Cpu.word_setWord, Nat.mod_eq_of_lt hv]
  refine ⟨c.setWord r v, ?_, hword⟩
  rw [Slot.saved, Slot.value, hword]
  rfl

/-- The state before the end, when three words are left, of which the first is
the result of the check. -/
theorem setupDone_spec {cpuid : BitVec 32 → Leaf} {c d p q r : Cpu} {fs : List (Nat × Nat)}
    (h : InProc 0 c d (Slot.saved p (.word .ax) :: Slot.saved q (.seg .es) ::
      Slot.saved r (.seg .ds) :: fs)) (hp : p.word .ax = paeResult cpuid) :
    (setupDone d).reg = c.reg ∧ (setupDone d).seg = c.seg ∧ (setupDone d).flags = c.flags ∧
      (setupDone d).mem = d.mem ∧ (∀ n, n ≠ 4 → (setupDone d).cr n = d.cr n) ∧
      (setupDone d).cr 4 = if hasPae cpuid then d.cr 4 ||| 0x20 else d.cr 4 := by
  obtain ⟨d₁, h₁⟩ : ∃ d₁, d₁ = d.pop (.word .ax) := ⟨_, rfl⟩
  obtain ⟨d₂, h₂⟩ : ∃ d₂, d₂ = (if d₁.word .ax = 0x01 then
      ((d₁.setReg .ax (d₁.cr 4).toNat).setReg .ax
        ((d₁.setReg .ax (d₁.cr 4).toNat).reg .ax ||| 0x20).toNat).setCr 4
        (((d₁.setReg .ax (d₁.cr 4).toNat).setReg .ax
          ((d₁.setReg .ax (d₁.cr 4).toNat).reg .ax ||| 0x20).toNat).reg .ax)
      else d₁) := ⟨_, rfl⟩
  have hdef : setupDone d = procEnd ((d₂.pop (.seg .es)).pop (.seg .ds)) := by
    rw [h₂, h₁]
    rfl
  have hpop := h.popped (by decide)
  have hpopped := h.stack.pop
  have hax : d₁.word .ax = paeResult cpuid := by
    rw [h₁, hpopped, Slot.assign, Slot.value, Cpu.word_setWord, hp,
      Nat.mod_eq_of_lt (by rw [paeResult]; split <;> omega)]
  have hmem₁ : d₁.mem = d.mem := by
    rw [h₁, hpopped, Slot.mem_assign, Cpu.mem_drop]
  have hcr₁ : d₁.cr = d.cr := by
    rw [h₁, hpopped, Slot.cr_assign, Cpu.cr_drop]
  rw [← h₁] at hpop
  have hkeep : InProc 0 c d₂ (Slot.saved q (.seg .es) :: Slot.saved r (.seg .ds) :: fs) ∧
      d₂.mem = d.mem ∧ (∀ n, n ≠ 4 → d₂.cr n = d.cr n) ∧
      d₂.cr 4 = if hasPae cpuid then d.cr 4 ||| 0x20 else d.cr 4 := by
    rw [hax, paeResult] at h₂
    by_cases hpae : hasPae cpuid = true
    · rw [if_pos hpae, if_pos rfl] at h₂
      rw [if_pos hpae]
      have hreg : ∀ r, r ≠ .ax → d₂.reg r = d₁.reg r := by
        intro r hr
        rw [h₂]
        have hcr : ∀ (e : Cpu) x, (e.setCr 4 x).reg r = e.reg r := fun _ _ => rfl
        rw [hcr, Cpu.reg_setReg_of_ne _ _ _ _ hr, Cpu.reg_setReg_of_ne _ _ _ _ hr]
      have hsp : Reg.sp ≠ Reg.ax := by simp
      have hbp : Reg.bp ≠ Reg.ax := by simp
      have hmem₂ : d₂.mem = d₁.mem := by
        rw [h₂]
        rfl
      have hupdate : ∀ (e : Cpu) x, (e.setCr 4 x).cr = Function.update e.cr 4 x :=
        fun _ _ => rfl
      refine ⟨hpop.keep (by rw [h₂]; rfl) (hreg _ hsp) (hreg _ hbp) (fun a _ _ => by rw [hmem₂]),
        hmem₂.trans hmem₁, ?_, ?_⟩
      · intro n hn
        rw [h₂, hupdate, Function.update_of_ne hn, Cpu.cr_setReg, Cpu.cr_setReg, hcr₁]
      · rw [h₂, hupdate, Function.update_self, Cpu.reg_setReg_toNat, Cpu.reg_setReg_toNat, hcr₁]
    · rw [if_neg hpae, if_neg (by omega)] at h₂
      rw [if_neg hpae, h₂]
      exact ⟨hpop, hmem₁, fun n _ => by rw [hcr₁], by rw [hcr₁]⟩
  obtain ⟨hin, hmem₂, hcr₂, hcr4⟩ := hkeep
  have hes := hin.popped (by decide)
  have hds := hes.popped (by decide)
  have hend := hds.finish
  have hmem₃ : ((d₂.pop (.seg .es)).pop (.seg .ds)).mem = d₂.mem := by
    rw [hes.stack.pop, Slot.mem_assign, Cpu.mem_drop, hin.stack.pop, Slot.mem_assign, Cpu.mem_drop]
  have hcr₃ : ((d₂.pop (.seg .es)).pop (.seg .ds)).cr = d₂.cr := by
    rw [hes.stack.pop, Slot.cr_assign, Cpu.cr_drop, hin.stack.pop, Slot.cr_assign, Cpu.cr_drop]
  rw [hdef, hend, hmem₃, hcr₃]
  exact ⟨rfl, rfl, rfl, hmem₂, hcr₂, hcr4⟩

/-! ## The set-up that is chosen -/

/-- The state after the set-up of the mode. -/
structure Built (cpuid : BitVec 32 → Leaf) (long : Nat) (c e : Cpu) : Prop where
  stack : ∃ p q r : Cpu, ∃ fs, p.word .ax = paeResult cpuid ∧
    InProc 0 c e (Slot.saved p (.word .ax) :: Slot.saved q (.seg .es) ::
      Slot.saved r (.seg .ds) :: fs)
  tables : ∃ tables m, Builds (pagingOf cpuid long) (e.cr 3) tables ∧ e.mem = tables m ∧
    ∀ a, a + pagingStack < c.top ∨ c.top ≤ a → m a = c.mem a
  cr : ∀ n, n ≠ 0 → n ≠ 3 → e.cr n = c.cr n

/-- A set-up leaves the stack alone. -/
theorem SetUp.inProc {cpuid : BitVec 32 → Leaf} {longMode : Nat} {c d e : Cpu}
    {fs : List (Nat × Nat)} {p : Paging} {cr3 : BitVec 32} {tables : Memory → Memory}
    (h : SetUp cr3 tables d e) (hready : PagingReady cpuid longMode c) (hbuilds : Builds p cr3 tables)
    (hd : InProc 0 c d fs) (hfs : bytes fs ≤ 8) : InProc 0 c e fs := by
  have htop := hd.top
  have htables := hready.tables
  have hfirst := hbuilds.bounds.1
  have hlast := hbuilds.bounds.2
  rw [pagingStack] at htables
  have hsp : Reg.sp ∉ setupRegs := by decide
  have hbp : Reg.bp ∉ setupRegs := by decide
  apply hd.keep
  · rw [h.same.seg]
    rfl
  · exact h.same.reg _ hsp
  · exact h.same.reg _ hbp
  · intro a hle hlt
    rw [h.mem, hbuilds.frame _ _ (by omega)]

theorem SetUp.cr {c e : Cpu} {cr3 : BitVec 32} {tables : Memory → Memory}
    (h : SetUp cr3 tables c e) : e.cr 3 = cr3 ∧ ∀ n, n ≠ 3 → e.cr n = c.cr n := by
  have hupdate : (c.setCr 3 cr3).cr = Function.update c.cr 3 cr3 := rfl
  refine ⟨?_, fun n hn => ?_⟩
  · rw [h.same.cr, hupdate, Function.update_self]
  · rw [h.same.cr, hupdate, Function.update_of_ne hn]

theorem setup_built {cpuid : BitVec 32 → Leaf} {longMode : Nat} {c d : Cpu}
    (hready : PagingReady cpuid longMode c) (h : Chosen cpuid (c.load 1 .ds longMode) c d)
    (hpae : hasPae cpuid = false) : Built cpuid (c.load 1 .ds longMode) c (setup d) := by
  obtain ⟨p, q, hp, hq, hin⟩ := h.stack
  have hsetup : SetUp 0x12000 tables32 d (setup d) :=
    setup_spec (by rw [h.flags]; exact hready.direction) h.ds h.es
  have hbody := hsetup.inProc hready builds_paging32 hin (Nat.le_refl 8)
  obtain ⟨hcr3, hcr⟩ := hsetup.cr
  constructor
  · -- the word of the 64 bits mode is still there, and is popped as `ES`
    obtain ⟨q', hq'⟩ := exists_saved_seg (q.word_lt .ax) c .es
    obtain ⟨r', hr'⟩ := exists_saved_seg (c.seg .es).isLt c .ds
    have hlong : Slot.saved q (.word .ax) = Slot.saved q' (.seg .es) := by
      rw [← hq']
      rfl
    have hes : Slot.saved c (.seg .es) = Slot.saved r' (.seg .ds) := by
      rw [← hr']
      rfl
    rw [hlong, hes] at hbody
    exact ⟨p, q', r', _, hp, hbody⟩
  · refine ⟨tables32, d.mem, ?_, hsetup.mem, h.mem⟩
    rw [pagingOf, hpae, hcr3]
    exact builds_paging32
  · intro n hn hn'
    rw [hcr n hn', h.cr n hn]

theorem setupPae_built {cpuid : BitVec 32 → Leaf} {longMode : Nat} {c d : Cpu}
    (hready : PagingReady cpuid longMode c) (h : Chosen cpuid (c.load 1 .ds longMode) c d)
    (hpae : hasPae cpuid = true) : Built cpuid (c.load 1 .ds longMode) c (setupPae d) := by
  obtain ⟨p, q, hp, hq, hin⟩ := h.stack
  obtain ⟨d₁, h₁⟩ : ∃ d₁, d₁ = d.pop (.word .ax) := ⟨_, rfl⟩
  obtain ⟨d₂, h₂⟩ : ∃ d₂, d₂ = d₁.pop (.word .bx) := ⟨_, rfl⟩
  obtain ⟨d₃, h₃⟩ : ∃ d₃, d₃ = d₂.push (.word .ax) := ⟨_, rfl⟩
  have hdef : setupPae d = if d₃.word .bx = 0x01 then setupPae64 d₃ else setupPae32 d₃ := by
    rw [h₃, h₂, h₁]
    rfl
  have hax : Reg.ax ≠ Reg.bx := nofun
  have hbx : Reg.bx ≠ Reg.sp := nofun
  have hasp : Reg.ax ≠ Reg.sp := nofun
  -- the two words, and the first one put back
  have hpop₁ := hin.popped (by decide)
  have heq₁ := hin.stack.pop
  rw [← h₁] at hpop₁ heq₁
  obtain ⟨q', hq', hlong⟩ := exists_saved_word (q.word_lt .ax) c .bx
  have hsaved : Slot.saved q (.word .ax) = Slot.saved q' (.word .bx) := hq'
  rw [hsaved] at hpop₁
  have hpop₂ := hpop₁.popped (by decide)
  have heq₂ := hpop₁.stack.pop
  rw [← h₂] at hpop₂ heq₂
  have hword := hpop₂.word_sp
  have hbytes : bytes [Slot.saved c (.seg .es), Slot.saved c (.seg .ds)] = 4 := rfl
  have hsize : (Slot.word .ax).size = 2 := rfl
  have hroom := hready.room
  have htop₂ := hpop₂.top
  rw [hbytes] at hword htop₂
  rw [pagingStack] at hroom
  have hpush := hpop₂.push (t := .word .ax) (w := d₂) (by rw [hsize]; omega) rfl
  have hmem₂ : d₂.mem = d.mem := by
    rw [heq₂, Slot.mem_assign, Cpu.mem_drop, heq₁, Slot.mem_assign, Cpu.mem_drop]
  have hmem₃ : ∀ a, a + pagingStack < c.top ∨ c.top ≤ a → d₃.mem a = c.mem a := by
    intro a ha
    have hle := ha
    rw [pagingStack] at hle
    rw [h₃, hpop₂.mem_push (by rw [hsize]; omega) (by rw [hsize]; omega), hmem₂, h.mem a ha]
  have hax₂ : d₂.word .ax = paeResult cpuid := by
    rw [heq₂, Slot.assign, Cpu.word_setWord_of_ne _ _ _ _ hax, Cpu.word_drop_of_ne _ _ _ hasp, heq₁,
      Slot.assign, Slot.value, Cpu.word_setWord, hp,
      Nat.mod_eq_of_lt (by rw [paeResult]; split <;> omega)]
  have hbx₃ : d₃.word .bx = c.load 1 .ds longMode := by
    rw [h₃, Cpu.push, Cpu.word_pushWith_of_ne _ _ _ _ hbx, heq₂, Slot.assign, Slot.value,
      Cpu.word_setWord, hlong, hq]
    exact Nat.mod_eq_of_lt (hq ▸ q.word_lt .ax)
  have hseg : d₃.seg = d.seg := by
    rw [h₃, Cpu.push, Cpu.seg_pushWith, heq₂, Slot.assign, Cpu.seg_setWord, Cpu.seg_drop, heq₁,
      Slot.assign, Cpu.seg_setWord, Cpu.seg_drop]
  have hflags : d₃.flags = c.flags := by
    rw [h₃, Cpu.push, Cpu.flags_pushWith, heq₂, Slot.assign, Cpu.flags_setWord, Cpu.flags_drop,
      heq₁, Slot.assign, Cpu.flags_setWord, Cpu.flags_drop, h.flags]
  have hcr : d₃.cr = d.cr := by
    rw [h₃, Cpu.push, Cpu.cr_pushWith, heq₂, Slot.assign, Cpu.cr_setWord, Cpu.cr_drop, heq₁,
      Slot.assign, Cpu.cr_setWord, Cpu.cr_drop]
  rw [← h₃] at hpush
  have hsix : bytes [Slot.saved d₂ (.word .ax), Slot.saved c (.seg .es), Slot.saved c (.seg .ds)]
      ≤ 8 := Nat.le_add_right 6 2
  have hbuilt : ∀ {e : Cpu} {cr3 : BitVec 32} {tables : Memory → Memory},
      SetUp cr3 tables d₃ e → Builds (pagingOf cpuid (c.load 1 .ds longMode)) cr3 tables →
      Built cpuid (c.load 1 .ds longMode) c e := by
    intro e cr3 tables hsetup hbuilds
    obtain ⟨hcr3, hother⟩ := hsetup.cr
    constructor
    · exact ⟨d₂, c, c, [], hax₂, hsetup.inProc hready hbuilds hpush hsix⟩
    · refine ⟨tables, d₃.mem, ?_, hsetup.mem, hmem₃⟩
      rw [hcr3]
      exact hbuilds
    · intro n hn hn'
      rw [hother n hn', hcr, h.cr n hn]
  have hdf : d₃.flags.getLsbD 10 = false := by rw [hflags, hready.direction]
  have hds : (d₃.seg .ds).toNat = 0x1000 := by rw [hseg, h.ds]
  have hes : (d₃.seg .es).toNat = 0x1000 := by rw [hseg, h.es]
  rw [hdef, hbx₃]
  by_cases hmode : c.load 1 .ds longMode = 0x01
  · rw [if_pos hmode]
    apply hbuilt (setupPae64_spec hdf hds hes)
    rw [pagingOf, hpae, if_pos rfl, if_pos hmode]
    exact builds_pagingPae64
  · rw [if_neg hmode]
    apply hbuilt (setupPae32_spec hdf hds hes)
    rw [pagingOf, hpae, if_pos rfl, if_neg hmode]
    exact builds_pagingPae32

/-- The boot page tables: they map the first twelve megabytes to themselves and
nothing else, only they and the stack are written, the PAE bit of `CR4` says
whether PAE is available, and the registers come back. -/
theorem setupPaging_spec {cpuid : BitVec 32 → Leaf} {longMode : Nat} (ret : BitVec 16) {c : Cpu}
    (h : PagingReady cpuid longMode c) :
    (∀ a, a < 2 ^ (pagingOf cpuid (c.load 1 .ds longMode)).bits →
      PageTable.walk (setupPaging cpuid longMode ret c).mem
          (pagingOf cpuid (c.load 1 .ds longMode)).levels
          ((pagingOf cpuid (c.load 1 .ds longMode)).root
            ((setupPaging cpuid longMode ret c).cr 3).toNat) a true
        = if a < 0xC00000 then some (a, true) else none) ∧
      (∀ a, (a + pagingStack < c.top ∨ c.top ≤ a) →
        (a < (pagingOf cpuid (c.load 1 .ds longMode)).first ∨
          (pagingOf cpuid (c.load 1 .ds longMode)).last ≤ a) →
        (setupPaging cpuid longMode ret c).mem a = c.mem a) ∧
      ((setupPaging cpuid longMode ret c).cr 4).getLsbD 5 = hasPae cpuid ∧
      (setupPaging cpuid longMode ret c).reg = c.reg ∧
      (setupPaging cpuid longMode ret c).seg = c.seg := by
  have hchosen := setupChoose_spec ret h
  obtain ⟨e, he⟩ : ∃ e, e = (if (setupChoose cpuid longMode ret c).word .ax = 0x01 then
      setupPae (setupChoose cpuid longMode ret c) else setup (setupChoose cpuid longMode ret c)) :=
    ⟨_, rfl⟩
  have hdef : setupPaging cpuid longMode ret c = setupDone e := by
    rw [he]
    rfl
  have hbuilt : Built cpuid (c.load 1 .ds longMode) c e := by
    rw [he, hchosen.ax, paeResult]
    by_cases hpae : hasPae cpuid = true
    · rw [if_pos hpae, if_pos rfl]
      exact setupPae_built h hchosen hpae
    · rw [if_neg hpae, if_neg (by omega)]
      exact setup_built h hchosen (Bool.eq_false_iff.mpr hpae)
  obtain ⟨p, q, r, fs, hp, hin⟩ := hbuilt.stack
  obtain ⟨tables, m, hbuilds, hmem, hframe⟩ := hbuilt.tables
  obtain ⟨hreg, hseg, -, hmemDone, hcr, hcr4⟩ := setupDone_spec hin hp
  rw [hdef, hcr 3 (by decide), hmemDone, hreg, hseg, hmem, hcr4]
  refine ⟨fun a ha => hbuilds.walk m ha, ?_, ?_, rfl, rfl⟩
  · intro a hstack htables
    rw [hbuilds.frame m a htables, hframe a hstack]
  · rw [hbuilt.cr 4 (by decide) (by decide)]
    by_cases hpae : hasPae cpuid = true
    · rw [if_pos hpae, hpae, BitVec.getLsbD_or]
      have hbit : (0x20 : BitVec 32).getLsbD 5 = true := by decide
      rw [hbit, Bool.or_true]
    · rw [if_neg hpae, Bool.eq_false_iff.mpr hpae]
      exact h.cr4 (Bool.eq_false_iff.mpr hpae)

/-- A processor with PAE, and the state with the stack below the boot sector and
the variable behind it. -/
def leafPae : BitVec 32 → Leaf := fun _ => ⟨0, 0, 0, 0x40⟩

def bootCpu : Cpu where
  reg _ := 0x7C00
  seg _ := 0
  flags := 0
  cr _ := 0
  mem _ := 1

/-- The video memory is mapped to itself for the kernel of 64 bits. -/
theorem setupPaging_spec_video :
    PageTable.walk (setupPaging leafPae 0x8000 0 bootCpu).mem
      (pagingOf leafPae (bootCpu.load 1 .ds 0x8000)).levels
      ((pagingOf leafPae (bootCpu.load 1 .ds 0x8000)).root
        ((setupPaging leafPae 0x8000 0 bootCpu).cr 3).toNat) 0xB8000 true
      = some (0xB8000, true) := by
  have hready : PagingReady leafPae 0x8000 bootCpu := by
    refine ⟨by decide, by decide, Or.inl (by decide), Or.inr (by decide), ?_⟩
    intro hpae
    exact absurd hpae (by decide)
  have hbits : 0xB8000 < 2 ^ (pagingOf leafPae (bootCpu.load 1 .ds 0x8000)).bits := by decide
  have hwalk := (setupPaging_spec 0 hready).1 0xB8000 hbits
  rwa [if_pos (by decide)] at hwalk

end Xeos.Boot
