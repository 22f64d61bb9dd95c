import Xeos.Boot.Elf

/-!
# The entry point of the kernel

What `XEOS.16.elf.32.checkHeader` and `XEOS.16.elf.64.checkHeader` do with the header that they
accept.  Both take `DS` from the stack before they store the entry point in their variable.  The
check for 64 bits has not pushed it: it takes the low word of the saved `EBP`, so the entry point
goes to the variable when that word is zero, `checkHeader_handsOver_iff`.
-/

namespace Xeos.Boot

open Lib Lib.Real

/-! ## The contract -/

/-- The stack below the return address, as far as the check uses it. -/
def OnStack (c : Cpu) (a : Nat) : Prop := c.top ≤ a + elfStack ∧ a < c.top

/-- The bytes of the variable. -/
def InEntry (entry a : Nat) : Prop := entry ≤ a ∧ a < entry + 4

/-- The check hands over the entry point: it is in `EDI`, nothing but the variable and the stack
is written, and `DS`, `ES`, `EBP` and the stack pointer are back. -/
structure HandsOver (entry : Nat) (c d : Cpu) : Prop where
  edi : (d.reg .di).toNat = c.mem.load (16 * c.word .si + eEntry) 4
  mem : ∀ a, ¬ OnStack c a → ¬ InEntry entry a → d.mem a = c.mem a
  ds : d.seg .ds = c.seg .ds
  es : d.seg .es = c.seg .es
  bp : d.reg .bp = c.reg .bp
  sp : d.reg .sp = c.reg .sp

/-- The data segment is zero and the variable is in it, apart from the stack. -/
structure EntryReady (entry : Nat) (c : Cpu) : Prop where
  ds : c.seg .ds = 0
  fits : entry + 4 ≤ 2 ^ 16
  stack : entry + 4 + elfStack ≤ c.top ∨ c.top ≤ entry

/-- The bytes that the check gives back: the ones outside its stack, and the saved `EBP`, `DS` and
`ES` in the frame of the start. -/
def GivenBack (c : Cpu) (a : Nat) : Prop :=
  ¬ OnStack c a ∨ (c.top ≤ a + 28 ∧ a + 24 < c.top) ∨ (c.top ≤ a + 40 ∧ a + 36 < c.top)

/-- The variable has the entry point already, and so has the place that the check for 64 bits
writes, as far as it is given back. -/
def Coincides (entry : Nat) (c : Cpu) : Prop :=
  ∀ i, i < 4 → c.mem (entry + i) = c.mem (16 * c.word .si + eEntry + i) ∧
    (GivenBack c (16 * c.word .bp + entry + i) →
      (procStart 0 c).mem (16 * c.word .bp + entry + i) = c.mem (16 * c.word .si + eEntry + i))

/-! ## The end of a procedure with a changed frame -/

/-- The slots of the frame above the lowest one. -/
def frameSlots : List Slot :=
  [.seg .gs, .seg .fs, .seg .es, .seg .ds, .reg .di, .reg .si, .reg .bp, .skip .sp, .reg .bx,
    .reg .dx, .reg .cx, .reg .ax, .flags]

/-- The values that the memory has for the slots of a frame whose lowest one is at `a`. -/
def frameValues (m : Memory) (a : Nat) : Cpu where
  reg
    | .di => BitVec.ofNat 32 (m.load (a + 12) 4)
    | .si => BitVec.ofNat 32 (m.load (a + 16) 4)
    | .bp => BitVec.ofNat 32 (m.load (a + 20) 4)
    | .sp => BitVec.ofNat 32 (m.load (a + 24) 4)
    | .bx => BitVec.ofNat 32 (m.load (a + 28) 4)
    | .dx => BitVec.ofNat 32 (m.load (a + 32) 4)
    | .cx => BitVec.ofNat 32 (m.load (a + 36) 4)
    | .ax => BitVec.ofNat 32 (m.load (a + 40) 4)
  seg
    | .gs => BitVec.ofNat 16 (m.load (a + 4) 2)
    | .fs => BitVec.ofNat 16 (m.load (a + 6) 2)
    | .es => BitVec.ofNat 16 (m.load (a + 8) 2)
    | .ds => BitVec.ofNat 16 (m.load (a + 10) 2)
    | .ss => 0
  flags := BitVec.ofNat 32 (m.load (a + 44) 4)
  cr _ := 0
  mem := m

theorem frame_frameValues (m : Memory) (a : Nat) :
    Frame m (a + 4) (frameSlots.map (Slot.saved (frameValues m a))) := by
  have hword : ∀ b, m.load b 2 = (BitVec.ofNat 16 (m.load b 2)).toNat := by
    intro b
    exact (Nat.mod_eq_of_lt (m.load_lt b 2)).symm
  have hdword : ∀ b, m.load b 4 = (BitVec.ofNat 32 (m.load b 4)).toNat := by
    intro b
    exact (Nat.mod_eq_of_lt (m.load_lt b 4)).symm
  exact ⟨hword _, hword _, hword _, hword _, hdword _, hdword _, hdword _, hdword _, hdword _,
    hdword _, hdword _, hdword _, hdword _, trivial⟩

theorem bytes_frame (w : Cpu) (v : Nat) :
    bytes ((4, v) :: frameSlots.map (Slot.saved w)) = procBytes := by
  simp only [frameSlots, List.map, Slot.saved, Slot.size, bytes_cons, bytes_nil, procBytes,
    Nat.reduceAdd, Nat.add_zero]

/-- What the end takes out of the frame, whatever happened to it. -/
theorem procEnd_frame {c c' : Cpu} {locals : Nat} (hroom : procBytes ≤ c.word .sp)
    (hbp : c'.reg .bp = (procStart locals c).reg .bp) (hss : c'.seg .ss = c.seg .ss) :
    (procEnd c').reg .sp = c.reg .sp
      ∧ (procEnd c').reg .bp = BitVec.ofNat 32 (c'.mem.load (c.top - 28) 4)
      ∧ (procEnd c').seg .ds = BitVec.ofNat 16 (c'.mem.load (c.top - 38) 2)
      ∧ (procEnd c').seg .es = BitVec.ofNat 16 (c'.mem.load (c.top - 40) 2)
      ∧ (procEnd c').mem = c'.mem := by
  obtain ⟨d, hd⟩ : ∃ d, d = c'.setReg .sp (c'.reg .bp).toNat := ⟨_, rfl⟩
  have hsp := procPushed_sp hroom
  have hstart := @procStart_bp c locals hroom
  have hdss : d.seg .ss = c.seg .ss := by rw [hd, Cpu.seg_setReg, hss]
  have hdmem : d.mem = c'.mem := by rw [hd, Cpu.mem_setReg]
  have hdsp : (d.reg .sp).toNat + procBytes = (c.reg .sp).toNat := by
    rw [hd, Cpu.reg_setReg_toNat, hbp]
    exact hstart
  have hdtop : d.top + procBytes = c.top := by
    simp only [Cpu.top, Cpu.linear, Cpu.word, hdss, procBytes] at hdsp hroom ⊢
    omega
  have hplain : ∀ t ∈ frameSlots, t.Plain := by decide
  have hframe : Stacked c d ((4, c'.mem.load d.top 4) ::
      (frameSlots.map (Slot.saved (frameValues c'.mem d.top)) ++ [])) := by
    have hbytes := bytes_frame (frameValues c'.mem d.top) (c'.mem.load d.top 4)
    rw [List.append_nil]
    refine ⟨hdss, by rw [hbytes]; exact hroom, by rw [hbytes]; exact hdsp, ?_, ?_⟩
    · rw [hdmem]
    · rw [hdmem]
      exact frame_frameValues c'.mem d.top
  have hne : Reg.sp ≠ .bp := by simp
  have hpop : Stacked c (d.pop (.reg .bp))
      (frameSlots.map (Slot.saved (frameValues c'.mem d.top)) ++ []) := by
    apply hframe.drop.keep
    · rw [Cpu.pop, Slot.assign, Cpu.seg_setReg]
      rfl
    · rw [Cpu.pop, Slot.assign, Cpu.reg_setReg_of_ne _ _ _ _ hne]
      rfl
    · intro a _ _
      rw [Cpu.pop, Slot.mem_assign]
      rfl
  have hend : procEnd c' = (d.pop (.reg .bp)).popAll frameSlots := by
    rw [procEnd_eq, hd]
    rfl
  have hbpsp : Reg.bp ≠ .sp := by simp
  have h28 : c.top - 28 = d.top + 20 := by rw [procBytes] at hdtop; omega
  have h38 : c.top - 38 = d.top + 10 := by rw [procBytes] at hdtop; omega
  have h40 : c.top - 40 = d.top + 8 := by rw [procBytes] at hdtop; omega
  rw [hend, h28, h38, h40]
  have hback := (hpop.popAll hplain).sp
  rw [bytes_nil, Nat.add_zero] at hback
  refine ⟨BitVec.eq_of_toNat_eq hback, ?_, ?_, ?_, ?_⟩
  · exact hpop.reg_popAll hplain hbpsp (Or.inl (by decide))
  · exact hpop.seg_popAll hplain (Or.inl (by decide))
  · exact hpop.seg_popAll hplain (Or.inl (by decide))
  · rw [hpop.mem_popAll hplain, Cpu.pop, Slot.mem_assign, Cpu.mem_drop, hdmem]

/-! ## The state at `.success` -/

theorem Check.run_same (k : Check) (c : Cpu) :
    SameBut [.ax] c (k.run c).1 ∧ (k.run c).1.mem = c.mem := by
  rw [Check.run]
  dsimp only
  split
  · refine ⟨(SameBut.setReg (by simp) _).trans (SameBut.setLow (by simp) _), ?_⟩
    rw [Cpu.mem_setLow, Cpu.mem_setReg]
  · refine ⟨(SameBut.setReg (by simp) _).trans (SameBut.setWord (by simp) _), ?_⟩
    rw [Cpu.mem_setWord, Cpu.mem_setReg]

theorem runChecks_same (ks : List Check) (code : Nat) (c : Cpu) :
    SameBut [.ax] c (runChecks ks code c).1 ∧ (runChecks ks code c).1.mem = c.mem := by
  induction ks generalizing code c with
  | nil => exact ⟨SameBut.refl c, rfl⟩
  | cons k ks ih =>
    obtain ⟨hsame, hmem⟩ := k.run_same c
    obtain ⟨hrest, hrestmem⟩ := ih (code + 1) (k.run c).1
    rw [runChecks_cons]
    split
    · exact ⟨hsame.trans hrest, hrestmem.trans hmem⟩
    · exact ⟨hsame, hmem⟩

/-- The checks have all held: `DS:SI` is the header, and the stack is that of `c`. -/
structure AtSuccess (c d : Cpu) : Prop where
  ds : (d.seg .ds).toNat = c.word .si
  si : d.word .si = 0
  mem : d.mem = c.mem
  sp : d.reg .sp = c.reg .sp
  bp : d.reg .bp = c.reg .bp
  seg : ∀ s, s ≠ .ds → d.seg s = c.seg s

theorem elfLocate_success (c : Cpu) : AtSuccess c (elfLocate c) := by
  have hax : Reg.si ≠ .ax := nofun
  have hat := atHeader_elfLocate c
  refine ⟨?_, hat.1.si, hat.1.mem, ?_, ?_, ?_⟩
  · have hds := hat.1.ds
    omega
  all_goals
    obtain ⟨d, hd⟩ : ∃ d, d = (c.setWord .ax (c.word .si)).setSeg .ds
      ((c.setWord .ax (c.word .si)).word .si) := ⟨_, rfl⟩
    have hdef : elfLocate c = (d.setWord .ax 0).setWord .si ((d.setWord .ax 0).word .ax) := by
      rw [hd]
      rfl
    rw [hdef]
  · rw [Cpu.reg_setWord_of_ne _ _ _ _ (by decide), Cpu.reg_setWord_of_ne _ _ _ _ (by decide), hd,
      Cpu.reg_setSeg, Cpu.reg_setWord_of_ne _ _ _ _ (by decide)]
  · rw [Cpu.reg_setWord_of_ne _ _ _ _ (by decide), Cpu.reg_setWord_of_ne _ _ _ _ (by decide), hd,
      Cpu.reg_setSeg, Cpu.reg_setWord_of_ne _ _ _ _ (by decide)]
  · intro s hs
    rw [Cpu.seg_setWord, Cpu.seg_setWord, hd, Cpu.seg_setSeg_of_ne _ _ _ _ hs, Cpu.seg_setWord]

theorem AtSuccess.same {rs : List Reg} {c d d' : Cpu} (h : AtSuccess c d) (hsame : SameBut rs d d')
    (hmem : d'.mem = d.mem) (hsi : d'.word .si = 0) (hsp : .sp ∉ rs) (hbp : .bp ∉ rs) :
    AtSuccess c d' where
  ds := by rw [hsame.seg, h.ds]
  si := hsi
  mem := hmem.trans h.mem
  sp := (hsame.reg _ hsp).trans h.sp
  bp := (hsame.reg _ hbp).trans h.bp
  seg s hs := by rw [hsame.seg, h.seg s hs]

theorem elfChecks_success {signature : Nat} {ks : List Check} {c : Cpu}
    (hdf : c.flags.getLsbD 10 = false) (hfits : signature + 4 ≤ 2 ^ 16)
    (hmagic : c.mem.load (16 * (c.seg .es).toNat + signature) 4 = 0x464C457F)
    (hcode : (elfChecks signature ks c).2 = 0) : AtSuccess c (elfChecks signature ks c).1 := by
  obtain ⟨hat, hflags, hes⟩ := atHeader_elfLocate c
  obtain ⟨hsame, hmem, -⟩ := @elfMagic_spec signature _ _ _ hat
    (by rw [hflags, hdf]) hfits (by rw [hes, hmagic])
  have hdef : elfChecks signature ks c = if (elfMagic signature (elfLocate c)).2 then
      runChecks ks 2 ((elfMagic signature (elfLocate c)).1.setWord .si 0)
    else ((elfMagic signature (elfLocate c)).1, 1) := rfl
  rw [hdef] at hcode ⊢
  split_ifs at hcode ⊢
  obtain ⟨hrun, hrunmem⟩ :=
    runChecks_same ks 2 ((elfMagic signature (elfLocate c)).1.setWord .si 0)
  have hset : SameBut [.si, .di, .cx] (elfLocate c)
      ((elfMagic signature (elfLocate c)).1.setWord .si 0) :=
    hsame.trans (SameBut.setWord (by simp) 0)
  have hclear : ((elfMagic signature (elfLocate c)).1.setWord .si 0).word .si = 0 :=
    Cpu.word_setWord _ _ _
  have hlocate := (elfLocate_success c).same hset
    (by rw [Cpu.mem_setWord, hmem, hat.mem]) hclear (by simp) (by simp)
  exact hlocate.same hrun hrunmem (by rw [hrun.word (by simp), hclear]) (by simp) (by simp)

/-! ## The entry point -/

/-- The entry point of the header, its low half in a file for 64 bits. -/
def entryPoint (c : Cpu) : Nat := c.mem.load (16 * c.word .si + eEntry) 4

/-- From the end of the procedure on. -/
def elfReturn (entry : Nat) (c : Cpu) : Cpu :=
  let c := procEnd c
  let c := c.setReg .di (c.load 4 .ds entry)
  c.setWord .ax 0

section Accept

variable {signature entry : Nat} {c : Cpu}

/-- The frame of the start has the registers. -/
theorem frame_procStart (hroom : procBytes ≤ c.word .sp) :
    BitVec.ofNat 32 ((procStart 0 c).mem.load (c.top - 28) 4) = c.reg .bp
      ∧ BitVec.ofNat 16 ((procStart 0 c).mem.load (c.top - 38) 2) = c.seg .ds
      ∧ BitVec.ofNat 16 ((procStart 0 c).mem.load (c.top - 40) 2) = c.seg .es := by
  have hss : (procStart 0 c).seg .ss = c.seg .ss := by rw [seg_procStart]
  obtain ⟨-, hbp, hds, hes, -⟩ := procEnd_frame (c := c) hroom rfl hss
  have hspec := procEnd_spec (c := c) hroom rfl hss (fun _ _ _ => rfl)
  have hreg := congrArg Cpu.reg hspec
  have hseg := congrArg Cpu.seg hspec
  dsimp only at hreg hseg
  rw [← hbp, ← hds, ← hes, hreg, hseg]
  exact ⟨rfl, rfl, rfl⟩

/-- Two memories that load the same word have the same bytes there. -/
theorem byte_of_load {m m' : Memory} {b n : Nat} (h : m.load b n = m'.load b n) {a : Nat}
    (ha : b ≤ a ∧ a < b + n) : m a = m' a := by
  obtain ⟨i, rfl⟩ := Nat.exists_eq_add_of_le ha.1
  rw [← Memory.load_byte m (show i < n by omega), ← Memory.load_byte m' (show i < n by omega), h]

theorem load_of_ofNat {m m' : Memory} {a n w : Nat} (hw : 256 ^ n = 2 ^ w)
    (h : BitVec.ofNat w (m.load a n) = BitVec.ofNat w (m'.load a n)) :
    m.load a n = m'.load a n := by
  have hlt := m.load_lt a n
  have hlt' := m'.load_lt a n
  rw [hw] at hlt hlt'
  have hnat := congrArg BitVec.toNat h
  rw [BitVec.toNat_ofNat, BitVec.toNat_ofNat, Nat.mod_eq_of_lt hlt, Nat.mod_eq_of_lt hlt'] at hnat
  exact hnat

/-- What the return makes of the memory that the body leaves. -/
theorem elfReturn_iff {d : Cpu} (hroom : procBytes ≤ c.word .sp) (hentry : EntryReady entry c)
    (hbp : d.reg .bp = (procStart 0 c).reg .bp) (hss : d.seg .ss = c.seg .ss) :
    HandsOver entry c (elfReturn entry d) ↔
      d.mem.load entry 4 = entryPoint c ∧
        ∀ a, GivenBack c a → ¬ InEntry entry a → d.mem a = (procStart 0 c).mem a := by
  have hfits := hentry.fits
  have hstack := hentry.stack
  have hax : Reg.di ≠ .ax := nofun
  have hlt := d.mem.load_lt entry 4
  have hzero : (c.seg .ds).toNat = 0 := by
    rw [hentry.ds]
    rfl
  have htop : 48 ≤ c.top := Nat.le_trans hroom (by
    rw [Cpu.top, Cpu.linear, Nat.mod_eq_of_lt (c.word_lt .sp)]
    omega)
  obtain ⟨hsp, hbp', hds, hes, hmem⟩ := procEnd_frame hroom hbp hss
  obtain ⟨hbp₀, hds₀, hes₀⟩ := frame_procStart hroom
  have hreg : ∀ r, r ≠ .ax → r ≠ .di → (elfReturn entry d).reg r = (procEnd d).reg r := by
    intro r hr hr'
    rw [elfReturn, Cpu.reg_setWord_of_ne _ _ _ _ hr, Cpu.reg_setReg_of_ne _ _ _ _ hr']
  have hseg : (elfReturn entry d).seg = (procEnd d).seg := by
    rw [elfReturn, Cpu.seg_setWord, Cpu.seg_setReg]
  have hedi : (procEnd d).seg .ds = c.seg .ds →
      ((elfReturn entry d).reg .di).toNat = d.mem.load entry 4 := by
    intro hback
    rw [elfReturn, Cpu.reg_setWord_of_ne _ _ _ _ hax, Cpu.reg_setReg, Cpu.load, hmem, Cpu.linear,
      hback, hzero, Nat.mul_zero, Nat.zero_add, Nat.mod_eq_of_lt (show entry < 2 ^ 16 by omega)]
    exact Nat.mod_eq_of_lt hlt
  constructor
  · intro h
    have hloads : d.mem.load (c.top - 28) 4 = (procStart 0 c).mem.load (c.top - 28) 4
        ∧ d.mem.load (c.top - 38) 2 = (procStart 0 c).mem.load (c.top - 38) 2
        ∧ d.mem.load (c.top - 40) 2 = (procStart 0 c).mem.load (c.top - 40) 2 := by
      refine ⟨load_of_ofNat (w := 32) (by decide) ?_, load_of_ofNat (w := 16) (by decide) ?_,
        load_of_ofNat (w := 16) (by decide) ?_⟩
      · rw [hbp₀, ← hbp', ← h.bp, hreg _ (by decide) (by decide)]
      · rw [hds₀, ← hds, ← h.ds, hseg]
      · rw [hes₀, ← hes, ← h.es, hseg]
    refine ⟨by rw [← hedi (by rw [← hseg, h.ds]), h.edi, entryPoint], ?_⟩
    intro a ha hout
    rcases ha with hoff | hframe | hsegs
    · have hback : d.mem a = c.mem a := by
        rw [← h.mem a hoff hout, elfReturn, Cpu.mem_setWord, Cpu.mem_setReg, hmem]
      rw [hback, mem_procStart hroom]
      rw [OnStack, elfStack] at hoff
      omega
    · exact byte_of_load hloads.1 (by omega)
    · by_cases hlow : a + 38 < c.top
      · exact byte_of_load hloads.2.2 (by omega)
      · exact byte_of_load hloads.2.1 (by omega)
  · rintro ⟨hvalue, hkept⟩
    have hsame : ∀ n k, (c.top ≤ c.top - k + 28 ∧ c.top - k + n ≤ c.top - 24) ∨
        (c.top ≤ c.top - k + 40 ∧ c.top - k + n ≤ c.top - 36) →
        d.mem.load (c.top - k) n = (procStart 0 c).mem.load (c.top - k) n := by
      intro n k hslot
      apply Memory.load_congr
      intro i hi
      apply hkept
      · right
        omega
      · rw [InEntry]
        rw [elfStack, procBytes] at hstack
        omega
    have hback : (procEnd d).seg .ds = c.seg .ds := by
      rw [hds, hsame 2 38 (by omega), hds₀]
    refine ⟨by rw [hedi hback, hvalue, entryPoint], ?_, by rw [hseg, hback], ?_, ?_, ?_⟩
    · intro a hoff hout
      rw [elfReturn, Cpu.mem_setWord, Cpu.mem_setReg, hmem, hkept a (Or.inl hoff) hout,
        mem_procStart hroom]
      rw [OnStack, elfStack] at hoff
      omega
    · rw [hseg, hes, hsame 2 40 (by omega), hes₀]
    · rw [hreg _ (by decide) (by decide), hbp', hsame 4 28 (by omega), hbp₀]
    · rw [hreg _ (by decide) (by decide), hsp]

/-- From `.success` up to the end of the procedure. -/
def elfStore (entry : Nat) (c : Cpu) : Cpu :=
  let c := c.setReg .ax (c.load 4 .ds (c.word .si + eEntry))
  let c := c.pop (.seg .ds)
  c.store 4 .ds entry (c.reg .ax).toNat

theorem elfAccept_eq (entry : Nat) (d : Cpu) :
    (elfAccept entry d).setWord .ax 0 = elfReturn entry (elfStore entry d) := rfl

/-- The entry point goes to the segment that is on the top of the stack. -/
theorem elfStore_spec {b d : Cpu} (h : AtSuccess b d) (hfits : entry < 2 ^ 16) :
    (elfStore entry d).mem = b.mem.store (16 * b.peek 2 + entry) 4 (entryPoint b)
      ∧ (elfStore entry d).reg .bp = b.reg .bp ∧ (elfStore entry d).seg .ss = b.seg .ss := by
  have hax : Reg.bp ≠ .ax := nofun
  have hsp : Reg.bp ≠ .sp := nofun
  have hspax : Reg.sp ≠ .ax := nofun
  have haxsp : Reg.ax ≠ .sp := nofun
  have hssds : Seg.ss ≠ .ds := nofun
  have hvalue : d.load 4 .ds (d.word .si + eEntry) = entryPoint b := by
    rw [Cpu.load, Cpu.linear, h.ds, h.si, h.mem, entryPoint, Nat.zero_add]
    rfl
  obtain ⟨e, he⟩ : ∃ e, e = d.setReg .ax (entryPoint b) := ⟨_, rfl⟩
  have hemem : e.mem = b.mem := by rw [he, Cpu.mem_setReg, h.mem]
  have heax : (e.reg .ax).toNat = entryPoint b := by
    rw [he, Cpu.reg_setReg]
    exact Nat.mod_eq_of_lt (b.mem.load_lt _ 4)
  have hpeek : e.peek 2 = b.peek 2 := by
    rw [Cpu.peek, Cpu.peek, hemem, Cpu.top, Cpu.top, Cpu.linear, Cpu.linear, Cpu.word, Cpu.word, he,
      Cpu.seg_setReg, h.seg _ hssds, Cpu.reg_setReg_of_ne _ _ _ _ hspax, h.sp]
  have hlt : b.peek 2 < 2 ^ 16 := b.mem.load_lt _ 2
  have hdef : elfStore entry d
      = (e.pop (.seg .ds)).store 4 .ds entry ((e.pop (.seg .ds)).reg .ax).toNat := by
    rw [elfStore, hvalue, ← he]
  have hpop : e.pop (.seg .ds) = (e.drop 2).setSeg .ds (b.peek 2) := by
    rw [← hpeek]
    rfl
  rw [hdef, hpop, Cpu.mem_store, Cpu.reg_store, Cpu.seg_store, Cpu.reg_setSeg, Cpu.linear,
    Cpu.seg_setSeg, Nat.mod_eq_of_lt hlt, Nat.mod_eq_of_lt hfits, Cpu.mem_setSeg, Cpu.mem_drop,
    Cpu.reg_drop_of_ne _ _ _ haxsp, Cpu.reg_drop_of_ne _ _ _ hsp, hemem, heax,
    Cpu.seg_setSeg_of_ne _ _ _ _ hssds, Cpu.seg_drop, he, Cpu.seg_setReg,
    Cpu.reg_setReg_of_ne _ _ _ _ hax]
  exact ⟨rfl, h.bp, h.seg _ hssds⟩

/-- The header is read as the caller has it. -/
theorem entryPoint_congr (h : ElfReady signature c) {b : Cpu} (hsi : b.word .si = c.word .si)
    (hmem : ∀ a, a + elfStack < c.top ∨ c.top ≤ a → b.mem a = c.mem a) :
    entryPoint b = entryPoint c := by
  have hheader := h.header
  rw [entryPoint, entryPoint, hsi]
  apply Memory.load_congr
  intro i hi
  apply hmem
  rw [eEntry]
  omega

/-- A state with the registers of the entry gets to `.success` with the code zero. -/
theorem success_of_same (h : ElfReady signature c) {b : Cpu} {fileClass machine : Nat}
    (hflags : b.flags = c.flags) (hseg : b.seg = c.seg)
    (hmem : ∀ a, a + elfStack < c.top ∨ c.top ≤ a → b.mem a = c.mem a)
    (hcode : (elfChecks signature (headerChecks fileClass machine) b).2 = 0) :
    AtSuccess b (elfChecks signature (headerChecks fileClass machine) b).1 := by
  have hsignature := h.signature
  apply elfChecks_success (by rw [hflags, h.direction]) h.fits _ hcode
  rw [hseg, ← h.magic]
  apply Memory.load_congr
  intro i hi
  exact hmem _ (by omega)

theorem elf32CheckHeader_handsOver (h : ElfReady signature c) (hentry : EntryReady entry c)
    (haccept : (elf32CheckHeader signature entry c).word .ax = 0) :
    HandsOver entry c (elf32CheckHeader signature entry c) := by
  have hroom := h.room
  rw [elfStack] at hroom
  obtain ⟨b, hb⟩ : ∃ b, b = (procStart 0 c).push (.seg .ds) := ⟨_, rfl⟩
  have hsize : (Slot.seg .ds).size = 2 := rfl
  have hstart : InProc 0 c (procStart 0 c) [] := InProc.start (by omega)
  have hword := hstart.word_sp
  have htop := hstart.top
  rw [bytes_nil] at hword htop
  have hss : Reg.si ≠ Reg.sp := by simp
  have hsb : Reg.si ≠ Reg.bp := by simp
  have hbp : Reg.bp ≠ Reg.sp := by simp
  have hbody : InProc 0 c b [(Slot.seg .ds).saved (procStart 0 c)] := by
    rw [hb]
    exact hstart.push (by rw [hsize]; omega) rfl
  have hpush : ∀ a, a + 2 < c.top - procBytes ∨ c.top - procBytes ≤ a →
      b.mem a = (procStart 0 c).mem a := by
    intro a ha
    rw [hb, hstart.mem_push (by rw [hsize]; omega) (by rw [hsize]; omega)]
  have hflags : b.flags = c.flags := by rw [hb, Cpu.push, Cpu.flags_pushWith, flags_procStart]
  have hseg : b.seg = c.seg := by rw [hb, Cpu.push, Cpu.seg_pushWith, seg_procStart]
  have hsi : b.word .si = c.word .si := by
    rw [hb, Cpu.push, Cpu.word_pushWith_of_ne _ _ _ _ hss, Cpu.word, reg_procStart hss hsb, Cpu.word]
  have hmem : ∀ a, a + elfStack < c.top ∨ c.top ≤ a → b.mem a = c.mem a := by
    intro a ha
    rw [elfStack] at ha
    rw [hpush a (by omega), mem_procStart (by omega) (by omega)]
  have hcode := elfChecks_of_same h 0x01 0x03 hflags hseg hsi hmem
  rw [← elf32Checks, ← @elf32CheckHeader_ax signature entry c h, haccept] at hcode
  have hdef : elf32CheckHeader signature entry c
      = elfReturn entry (elfStore entry (elfChecks signature elf32Checks b).1) := by
    have hbranch : elf32CheckHeader signature entry c
        = if (elfChecks signature elf32Checks b).2 = 0 then
            (elfAccept entry (elfChecks signature elf32Checks b).1).setWord .ax 0
          else (procEnd ((elfChecks signature elf32Checks b).1.pop (.seg .ds))).setWord .ax
            (elfChecks signature elf32Checks b).2 := by
      rw [hb]
      rfl
    rw [hbranch, if_pos hcode, elfAccept_eq]
  have hfits := hentry.fits
  have hstack := hentry.stack
  rw [elfStack] at hstack
  have hsuccess : AtSuccess b (elfChecks signature elf32Checks b).1 :=
    success_of_same h hflags hseg hmem hcode
  obtain ⟨hstore, hstorebp, hstoress⟩ := @elfStore_spec entry _ _ hsuccess (by omega)
  have hpeek : b.peek 2 = 0 := by
    rw [show b.peek 2 = Slot.value (procStart 0 c) (.seg .ds) from hbody.stack.peek, Slot.value,
      seg_procStart, hentry.ds]
    rfl
  rw [hpeek, Nat.mul_zero, Nat.zero_add, entryPoint_congr h hsi hmem] at hstore
  rw [hdef, elfReturn_iff (by omega) hentry (hstorebp.trans hbody.bp) (by rw [hstoress, hseg]),
    hstore]
  constructor
  · exact (Memory.load_store _ _ _ _).trans (Nat.mod_eq_of_lt (c.mem.load_lt _ 4))
  · intro a ha hout
    rw [Memory.store_of_not_mem _ _ (by rw [InEntry] at hout; omega)]
    apply hpush
    simp only [GivenBack, OnStack, elfStack, procBytes] at ha ⊢
    omega

/-- In the body of the check for 64 bits the top of the stack is the saved `EBP`. -/
theorem peek_procStart (hroom : procBytes ≤ c.word .sp) : (procStart 0 c).peek 2 = c.word .bp := by
  have hne : Reg.bp ≠ .sp := nofun
  have hframe := (procPushed_stacked hroom).frame
  have hload : (procPushed c).mem.load (procPushed c).top 4 = ((procSaved c).reg .bp).toNat :=
    hframe.1
  have hlow := (procPushed c).mem.load_mod (procPushed c).top 2 2
  have hsaved : (procSaved c).reg .bp = c.reg .bp := Cpu.reg_pushWith_of_ne _ _ _ _ hne
  have hsp : (procStart 0 c).reg .sp = (procPushed c).reg .sp := by
    apply BitVec.eq_of_toNat_eq
    rw [procStart_eq, Cpu.reg_setReg]
    omega
  have htop : (procStart 0 c).top = (procPushed c).top := by
    rw [Cpu.top, Cpu.top, Cpu.linear, Cpu.linear, Cpu.word, Cpu.word, hsp, procStart_eq,
      Cpu.seg_setReg, Cpu.seg_setReg]
  rw [Cpu.peek, htop, procStart_eq, Cpu.mem_setReg, Cpu.mem_setReg, ← hlow, hload, hsaved]
  rfl

/-- Where the store of the check for 64 bits does no harm. -/
theorem store_iff (hroom : procBytes + 2 ≤ c.word .sp) (hentry : EntryReady entry c) :
    (((procStart 0 c).mem.store (16 * c.word .bp + entry) 4 (entryPoint c)).load entry 4
        = entryPoint c ∧
      ∀ a, GivenBack c a → ¬ InEntry entry a →
        (procStart 0 c).mem.store (16 * c.word .bp + entry) 4 (entryPoint c) a
          = (procStart 0 c).mem a) ↔
      c.word .bp = 0 ∨ Coincides entry c := by
  have hstack := hentry.stack
  rw [elfStack] at hstack
  have hvalue : ∀ i, i < 4 →
      UInt8.ofNat (entryPoint c / 256 ^ i) = c.mem (16 * c.word .si + eEntry + i) :=
    fun i hi => Memory.load_byte c.mem hi
  have hvar : ∀ i, i < 4 → (procStart 0 c).mem (entry + i) = c.mem (entry + i) := by
    intro i hi
    exact mem_procStart (by omega) (by omega)
  obtain ⟨m, hm⟩ : ∃ m, m = (procStart 0 c).mem := ⟨_, rfl⟩
  rw [Coincides, ← hm]
  rw [← hm] at hvar
  by_cases hzero : c.word .bp = 0
  · refine iff_of_true ⟨?_, ?_⟩ (Or.inl hzero)
    · rw [hzero, Nat.mul_zero, Nat.zero_add]
      exact (Memory.load_store _ _ _ _).trans (Nat.mod_eq_of_lt (c.mem.load_lt _ 4))
    · intro a _ hout
      rw [InEntry] at hout
      exact Memory.store_of_not_mem _ _ (by omega)
  · have hat : ∀ i, i < 4 → m.store (16 * c.word .bp + entry) 4 (entryPoint c)
        (16 * c.word .bp + entry + i) = c.mem (16 * c.word .si + eEntry + i) := by
      intro i hi
      rw [← hvalue i hi, Memory.store, if_pos (by omega), Nat.add_sub_cancel_left]
    rw [Memory.load_store_of_disjoint _ _ (by omega)]
    constructor
    · rintro ⟨hload, hkept⟩
      refine Or.inr fun i hi => ⟨?_, fun hplace => ?_⟩
      · rw [← hvar i hi, ← hvalue i hi, ← hload, Memory.load_byte _ hi]
      · rw [← hat i hi, hkept _ hplace (by rw [InEntry]; omega)]
    · intro h
      have hbytes := h.resolve_left hzero
      constructor
      · apply Memory.load_congr
        intro i hi
        rw [hvar i hi, (hbytes i hi).1]
      · intro a ha _
        by_cases hin : 16 * c.word .bp + entry ≤ a ∧ a < 16 * c.word .bp + entry + 4
        · obtain ⟨i, rfl⟩ := Nat.exists_eq_add_of_le hin.1
          rw [hat i (by omega), (hbytes i (by omega)).2 ha]
        · exact Memory.store_of_not_mem _ _ (by omega)

theorem elf64CheckHeader_handsOver_iff (h : ElfReady signature c) (hentry : EntryReady entry c)
    (haccept : (elf64CheckHeader signature entry c).word .ax = 0) :
    HandsOver entry c (elf64CheckHeader signature entry c) ↔
      c.word .bp = 0 ∨ Coincides entry c := by
  have hroom := h.room
  rw [elfStack] at hroom
  obtain ⟨b, hb⟩ : ∃ b, b = procStart 0 c := ⟨_, rfl⟩
  have hss : Reg.si ≠ Reg.sp := by simp
  have hsb : Reg.si ≠ Reg.bp := by simp
  have hflags : b.flags = c.flags := by rw [hb, flags_procStart]
  have hseg : b.seg = c.seg := by rw [hb, seg_procStart]
  have hsi : b.word .si = c.word .si := by rw [hb, Cpu.word, reg_procStart hss hsb, Cpu.word]
  have hmem : ∀ a, a + elfStack < c.top ∨ c.top ≤ a → b.mem a = c.mem a := by
    intro a ha
    rw [elfStack] at ha
    rw [hb, mem_procStart (by omega) (by omega)]
  have hcode := elfChecks_of_same h 0x02 0x3E hflags hseg hsi hmem
  rw [← elf64Checks, ← @elf64CheckHeader_ax signature entry c h, haccept] at hcode
  have hdef : elf64CheckHeader signature entry c
      = elfReturn entry (elfStore entry (elfChecks signature elf64Checks b).1) := by
    have hbranch : elf64CheckHeader signature entry c
        = if (elfChecks signature elf64Checks b).2 = 0 then
            (elfAccept entry (elfChecks signature elf64Checks b).1).setWord .ax 0
          else (procEnd (elfChecks signature elf64Checks b).1).setWord .ax
            (elfChecks signature elf64Checks b).2 := by
      rw [hb]
      rfl
    rw [hbranch, if_pos hcode, elfAccept_eq]
  have hfits := hentry.fits
  have hstack := hentry.stack
  rw [elfStack] at hstack
  have hsuccess : AtSuccess b (elfChecks signature elf64Checks b).1 :=
    success_of_same h hflags hseg hmem hcode
  obtain ⟨hstore, hstorebp, hstoress⟩ := @elfStore_spec entry _ _ hsuccess (by omega)
  have hpeek : b.peek 2 = c.word .bp := by rw [hb, peek_procStart (by omega)]
  rw [hpeek, entryPoint_congr h hsi hmem] at hstore
  rw [hdef, elfReturn_iff (by omega) hentry (hstorebp.trans (by rw [hb])) (by rw [hstoress, hseg]),
    hstore, hb]
  exact store_iff hroom hentry

/-- The entry point is handed over by the check for 32 bits, and by the one for 64 bits when the
low word of `EBP` is zero, or when the two places that it takes for the variable have it already. -/
theorem checkHeader_handsOver_iff (k : ElfClass) (h : ElfReady signature c)
    (hentry : EntryReady entry c) (haccept : (k.checkHeader signature entry c).word .ax = 0) :
    HandsOver entry c (k.checkHeader signature entry c) ↔
      k = .elf32 ∨ c.word .bp = 0 ∨ Coincides entry c := by
  cases k with
  | elf32 => exact iff_of_true (elf32CheckHeader_handsOver h hentry haccept) (Or.inl rfl)
  | elf64 =>
    have hne : ElfClass.elf64 ≠ .elf32 := nofun
    rw [or_iff_right hne]
    exact elf64CheckHeader_handsOver_iff h hentry haccept

end Accept

/-- A header of a file for 64 bits with the entry point `0x100000`. -/
def kernelHeader : List UInt8 :=
  [0x7F, 0x45, 0x4C, 0x46, 2, 1, 1, 0, 0, 0, 0, 0, 0, 0, 0, 0, 2, 0, 0x3E, 0, 1, 0, 0, 0,
    0, 0, 0x10, 0]

def kernelHeaderCpu : Cpu where
  reg r := if r = .si then 0x1000 else 0x7000
  seg _ := 0
  flags := 0
  cr _ := 0
  mem a := if 0x10000 ≤ a then kernelHeader.getD (a - 0x10000) 0 else
    if a < 0x7C04 then kernelHeader.getD (a - 0x7C00) 0 else 0

theorem kernelHeaderCpu_ready : ElfReady 0x7C00 kernelHeaderCpu where
  direction := by decide
  room := by decide
  fits := by decide
  magic := by decide
  signature := Or.inr (by decide)
  header := Or.inr (by decide)

theorem kernelHeaderCpu_entry : EntryReady 0x7D00 kernelHeaderCpu where
  ds := rfl
  fits := by decide
  stack := Or.inr (by decide)

theorem kernelHeader_accepted :
    (ElfClass.elf64.checkHeader 0x7C00 0x7D00 kernelHeaderCpu).word .ax = 0 := by
  rw [checkHeader_ax .elf64 kernelHeaderCpu_ready]
  decide

theorem kernelHeader_not_coincides : ¬ Coincides 0x7D00 kernelHeaderCpu := by
  intro h
  exact absurd (h 2 (by decide)).1 (by decide)

theorem checkHeader_handsOver_iff_kernelHeader :
    ¬ HandsOver 0x7D00 kernelHeaderCpu
      (ElfClass.elf64.checkHeader 0x7C00 0x7D00 kernelHeaderCpu) := by
  rw [checkHeader_handsOver_iff .elf64 kernelHeaderCpu_ready kernelHeaderCpu_entry
    kernelHeader_accepted]
  rintro (hclass | hbp | hsame)
  · exact nomatch hclass
  · exact absurd hbp (by decide)
  · exact kernelHeader_not_coincides hsame

/-- An accepted header of which the entry point does not arrive. -/
theorem not_handsOver_kernelHeader :
    ¬ ∀ (k : ElfClass) (signature entry : Nat) (c : Cpu), ElfReady signature c →
      EntryReady entry c → (k.checkHeader signature entry c).word .ax = 0 →
        HandsOver entry c (k.checkHeader signature entry c) := by
  intro h
  have hover := h .elf64 0x7C00 0x7D00 kernelHeaderCpu kernelHeaderCpu_ready kernelHeaderCpu_entry
    kernelHeader_accepted
  rcases (elf64CheckHeader_handsOver_iff kernelHeaderCpu_ready kernelHeaderCpu_entry
    kernelHeader_accepted).mp hover with hbp | hsame
  · exact absurd hbp (by decide)
  · exact kernelHeader_not_coincides hsame

end Xeos.Boot
