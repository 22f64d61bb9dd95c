import Xeos.Boot.Proc

/-!
# The check of the kernel's ELF header

`XEOS.16.elf.32.checkHeader` and `XEOS.16.elf.64.checkHeader`.  Both compare the
magic number with `rep cmpsb` and then one field after the other, and both leave
with the number of the check that fails.  They differ in the values, and in that
the one for 32 bits saves `DS` on the stack of its body.  The one for 64 bits
only takes it from there, when the header is valid.

The check of `EI_VERSION` reads the byte of `EI_DATA` once more, and the check
of `e_version` reads a half of it.
-/

namespace Xeos.Boot

open Lib Lib.Real

/-! ## The procedures -/

/-- The fields of both header structures. -/
def eType : Nat := 16
def eMachine : Nat := 18
def eVersion : Nat := 20
def eEntry : Nat := 24

/-- The comparison of one field of the header with a value. -/
structure Check where
  offset : Nat
  bytes : Nat
  value : Nat
deriving DecidableEq, Repr

/-- `DS:SI` becomes the location of the file. -/
def elfLocate (c : Cpu) : Cpu :=
  let c := c.setWord .ax (c.word .si)
  let c := c.setSeg .ds (c.word .si)
  let c := c.setWord .ax 0
  c.setWord .si (c.word .ax)

/-- `.e_ident.magic`. -/
def elfMagic (signature : Nat) (c : Cpu) : Cpu × Bool :=
  let c := c.setWord .di signature
  let c := c.setWord .cx 0x04
  c.repe Cpu.cmpsb (c.word .cx)

/-- One of the checks after the magic number. -/
def Check.run (k : Check) (c : Cpu) : Cpu × Bool :=
  let c := c.setReg .ax 0
  let v := c.load k.bytes .ds (c.word .si + k.offset)
  if k.bytes = 1 then
    let c := c.setLow .ax v
    (c, c.low .ax == k.value)
  else
    let c := c.setWord .ax v
    (c, c.word .ax == k.value)

/-- The checks in their order, the first one with the result code `code`, and
the result code of the one that fails. -/
def runChecks : List Check → Nat → Cpu → Cpu × Nat
  | [], _, c => (c, 0)
  | k :: ks, code, c =>
    let (c, equal) := k.run c
    if equal then runChecks ks (code + 1) c else (c, code)

/-- Up to the label of the failed check or to `.success`. -/
def elfChecks (signature : Nat) (ks : List Check) (c : Cpu) : Cpu × Nat :=
  let (c, equal) := elfMagic signature (elfLocate c)
  if equal then runChecks ks 2 (c.setWord .si 0) else (c, 1)

/-- The checks from `.e_ident.class` to `.e_version`. -/
def headerChecks (fileClass machine : Nat) : List Check :=
  [⟨4, 1, fileClass⟩, ⟨5, 1, 0x01⟩, ⟨5, 1, 0x01⟩, ⟨eType, 2, 0x02⟩, ⟨eMachine, 2, machine⟩,
    ⟨eVersion, 2, 0x01⟩]

def elf32Checks : List Check := headerChecks 0x01 0x03

def elf64Checks : List Check := headerChecks 0x02 0x3E

/-- `.success`, up to the result code.  In the check for 64 bits nothing was pushed,
and the pop takes the low word of the saved `EBP`. -/
def elfAccept (entry : Nat) (c : Cpu) : Cpu :=
  let c := c.setReg .ax (c.load 4 .ds (c.word .si + eEntry))
  let c := c.pop (.seg .ds)
  let c := c.store 4 .ds entry (c.reg .ax).toNat
  let c := procEnd c
  c.setReg .di (c.load 4 .ds entry)

/-- `XEOS.16.elf.32.checkHeader`.  The signature and the entry point are the
variables at `signature` and `entry`. -/
def elf32CheckHeader (signature entry : Nat) (c : Cpu) : Cpu :=
  let c := procStart 0 c
  let c := c.push (.seg .ds)
  let (c, code) := elfChecks signature elf32Checks c
  if code = 0 then (elfAccept entry c).setWord .ax 0
  else
    let c := c.pop (.seg .ds)
    (procEnd c).setWord .ax code

/-- `XEOS.16.elf.64.checkHeader`. -/
def elf64CheckHeader (signature entry : Nat) (c : Cpu) : Cpu :=
  let c := procStart 0 c
  let (c, code) := elfChecks signature elf64Checks c
  if code = 0 then (elfAccept entry c).setWord .ax 0 else (procEnd c).setWord .ax code

/-! ## The header -/

/-- A check of the header at `base`. -/
def Check.Holds (m : Memory) (base : Nat) (k : Check) : Prop :=
  m.load (base + k.offset) k.bytes = k.value

instance (m : Memory) (base : Nat) (k : Check) : Decidable (k.Holds m base) :=
  inferInstanceAs (Decidable (_ = _))

/-- The number of the first check of the list that does not hold, where the
first one has the number `code`, or zero. -/
def firstFailing (m : Memory) (base : Nat) : List Check → Nat → Nat
  | [], _ => 0
  | k :: ks, code => if k.Holds m base then firstFailing m base ks (code + 1) else code

def magicCheck : Check := ⟨0, 4, 0x464C457F⟩

/-- The checks that make a valid header of the class and the machine. -/
def validChecks (fileClass machine : Nat) : List Check :=
  [magicCheck, ⟨4, 1, fileClass⟩, ⟨5, 1, 0x01⟩, ⟨6, 1, 0x01⟩, ⟨eType, 2, 0x02⟩,
    ⟨eMachine, 2, machine⟩, ⟨eVersion, 4, 0x01⟩]

/-! ## What the checks find -/

theorem firstFailing_cons (m : Memory) (base : Nat) (k : Check) (ks : List Check) (code : Nat) :
    firstFailing m base (k :: ks) code =
      if k.Holds m base then firstFailing m base ks (code + 1) else code := rfl

theorem firstFailing_lt (m : Memory) (base : Nat) (ks : List Check) {code : Nat} (hcode : 0 < code) :
    firstFailing m base ks code < code + ks.length := by
  induction ks generalizing code with
  | nil => exact Nat.lt_of_lt_of_le hcode (Nat.le_add_right _ _)
  | cons k ks ih =>
    have hrest := ih (show 0 < code + 1 by omega)
    rw [firstFailing_cons, List.length_cons]
    split <;> omega

theorem firstFailing_eq_zero_iff (m : Memory) (base : Nat) (ks : List Check) {code : Nat}
    (hcode : 0 < code) : firstFailing m base ks code = 0 ↔ ∀ k ∈ ks, k.Holds m base := by
  induction ks generalizing code with
  | nil => exact ⟨fun _ k hk => absurd hk List.not_mem_nil, fun _ => rfl⟩
  | cons k ks ih =>
    rw [firstFailing_cons, List.forall_mem_cons]
    by_cases hk : k.Holds m base
    · rw [if_pos hk, ih (Nat.succ_pos code)]
      exact ⟨fun hall => ⟨hk, hall⟩, fun hall => hall.2⟩
    · rw [if_neg hk]
      exact ⟨fun h => absurd h (Nat.ne_of_gt hcode), fun hall => absurd hall.1 hk⟩

/-- The state at the checks: `DS:SI` is the header at `base`. -/
structure AtHeader (base : Nat) (m : Memory) (c : Cpu) : Prop where
  ds : 16 * (c.seg .ds).toNat = base
  si : c.word .si = 0
  mem : c.mem = m

theorem Check.run_spec {k : Check} {c : Cpu} {base : Nat} {m : Memory} (h : AtHeader base m c)
    (hoff : k.offset < 2 ^ 16) (hbytes : k.bytes = 1 ∨ k.bytes = 2) :
    AtHeader base m (k.run c).1 ∧ ((k.run c).2 = true ↔ k.Holds m base) := by
  have hne : Reg.si ≠ Reg.ax := nofun
  have hload : (c.setReg .ax 0).load k.bytes .ds ((c.setReg .ax 0).word .si + k.offset)
      = m.load (base + k.offset) k.bytes := by
    rw [Cpu.load, Cpu.mem_setReg, Cpu.linear, Cpu.seg_setReg, h.ds, Cpu.word_setReg_of_ne _ _ _ _ hne,
      h.si, Nat.zero_add, Nat.mod_eq_of_lt hoff, h.mem]
  have hlt := Memory.load_lt m (base + k.offset) k.bytes
  have hkeep : ∀ d, SameBut [.ax] c d → d.mem = c.mem → AtHeader base m d := by
    intro d hsame hmem
    exact ⟨by rw [hsame.seg, h.ds], by rw [hsame.word (by simp), h.si], by rw [hmem, h.mem]⟩
  rw [Check.run, Check.Holds]
  dsimp only
  rw [hload]
  rcases hbytes with hone | htwo
  · rw [hone] at hlt ⊢
    rw [if_pos rfl]
    refine ⟨hkeep _ ((SameBut.setReg (by simp) _).trans (SameBut.setLow (by simp) _)) ?_, ?_⟩
    · rw [Cpu.mem_setLow, Cpu.mem_setReg]
    · rw [beq_iff_eq, Cpu.low_setLow, Nat.mod_eq_of_lt (by omega)]
  · rw [htwo] at hlt ⊢
    rw [if_neg (by omega)]
    refine ⟨hkeep _ ((SameBut.setReg (by simp) _).trans (SameBut.setWord (by simp) _)) ?_, ?_⟩
    · rw [Cpu.mem_setWord, Cpu.mem_setReg]
    · rw [beq_iff_eq, Cpu.word_setWord, Nat.mod_eq_of_lt (by omega)]

theorem runChecks_cons (k : Check) (ks : List Check) (code : Nat) (c : Cpu) :
    runChecks (k :: ks) code c
      = if (k.run c).2 then runChecks ks (code + 1) (k.run c).1 else ((k.run c).1, code) := rfl

theorem runChecks_spec {ks : List Check} {c : Cpu} {base : Nat} {m : Memory}
    (h : AtHeader base m c) (hks : ∀ k ∈ ks, k.offset < 2 ^ 16 ∧ (k.bytes = 1 ∨ k.bytes = 2))
    (code : Nat) : (runChecks ks code c).2 = firstFailing m base ks code := by
  induction ks generalizing c code with
  | nil => rfl
  | cons k ks ih =>
    obtain ⟨hoff, hbytes⟩ := hks k List.mem_cons_self
    obtain ⟨hnext, hiff⟩ := Check.run_spec h hoff hbytes
    rw [runChecks_cons, firstFailing_cons]
    by_cases hk : k.Holds m base
    · rw [if_pos hk, if_pos (hiff.mpr hk)]
      exact ih hnext (fun k' hk' => hks k' (List.mem_cons_of_mem k hk')) (code + 1)
    · rw [if_neg hk, if_neg (mt hiff.mp hk)]

/-- The comparison of the first four bytes. -/
theorem elfMagic_spec {signature base : Nat} {m : Memory} {c : Cpu} (h : AtHeader base m c)
    (hdf : c.flags.getLsbD 10 = false) (hfits : signature + 4 ≤ 2 ^ 16)
    (hmagic : m.load (16 * (c.seg .es).toNat + signature) 4 = 0x464C457F) :
    SameBut [.si, .di, .cx] c (elfMagic signature c).1 ∧ (elfMagic signature c).1.mem = m ∧
      ((elfMagic signature c).2 = true ↔ magicCheck.Holds m base) := by
  obtain ⟨d, hd⟩ : ∃ d, d = (c.setWord .di signature).setWord .cx 0x04 := ⟨_, rfl⟩
  have hsame : SameBut [.si, .di, .cx] c d := by
    rw [hd]
    exact (SameBut.setWord (by simp) _).trans (SameBut.setWord (by simp) _)
  have hmem : d.mem = m := by
    rw [hd, Cpu.mem_setWord, Cpu.mem_setWord, h.mem]
  have hsd : Reg.si ≠ Reg.di := nofun
  have hsc : Reg.si ≠ Reg.cx := nofun
  have hdc : Reg.di ≠ Reg.cx := nofun
  have hcx : d.word .cx = 4 := by
    rw [hd, Cpu.word_setWord]
    rfl
  have hsi : d.word .si = 0 := by
    rw [hd, Cpu.word_setWord_of_ne _ _ _ _ hsc, Cpu.word_setWord_of_ne _ _ _ _ hsd, h.si]
  have hdi : d.word .di = signature := by
    rw [hd, Cpu.word_setWord_of_ne _ _ _ _ hdc, Cpu.word_setWord, Nat.mod_eq_of_lt (by omega)]
  have hdef : elfMagic signature c = d.repe Cpu.cmpsb 4 := by
    rw [← hcx, hd]
    rfl
  obtain ⟨hrun, hmem', hiff⟩ := repe_cmpsb (c := d) (n := 4) (by rw [hsame.flags, hdf]) (by omega)
    (by omega)
  have hfrom : d.linear .ds (d.word .si) = base := by
    rw [Cpu.linear, hsame.seg, h.ds, hsi]
    rfl
  have hto : d.linear .es (d.word .di) = 16 * (c.seg .es).toNat + signature := by
    rw [Cpu.linear, hsame.seg, hdi, Nat.mod_eq_of_lt (by omega)]
  rw [hdef]
  refine ⟨hsame.trans hrun, hmem'.trans hmem, hiff.trans ?_⟩
  rw [hfrom, hto, hmem, Check.Holds, magicCheck, Nat.add_zero, ← hmagic]
  constructor
  · exact fun hall => Memory.load_congr hall
  · intro heq i hi
    rw [← Memory.load_byte m hi, ← Memory.load_byte m hi, heq]

/-- The state in front of the checks. -/
theorem atHeader_elfLocate (c : Cpu) :
    AtHeader (16 * c.word .si) c.mem (elfLocate c) ∧ (elfLocate c).flags = c.flags ∧
      (elfLocate c).seg .es = c.seg .es := by
  have hsa : Reg.si ≠ Reg.ax := nofun
  have hes : Seg.es ≠ Seg.ds := nofun
  obtain ⟨d, hd⟩ : ∃ d, d = (c.setWord .ax (c.word .si)).setSeg .ds
    ((c.setWord .ax (c.word .si)).word .si) := ⟨_, rfl⟩
  have hdef : elfLocate c = (d.setWord .ax 0).setWord .si ((d.setWord .ax 0).word .ax) := by
    rw [hd]
    rfl
  have hlt := c.word_lt .si
  rw [hdef]
  refine ⟨⟨?_, ?_, ?_⟩, ?_, ?_⟩
  · rw [Cpu.seg_setWord, Cpu.seg_setWord, hd, Cpu.seg_setSeg, Cpu.word_setWord_of_ne _ _ _ _ hsa,
      Nat.mod_eq_of_lt hlt]
  · rw [Cpu.word_setWord, Cpu.word_setWord]
    rfl
  · rw [Cpu.mem_setWord, Cpu.mem_setWord, hd, Cpu.mem_setSeg, Cpu.mem_setWord]
  · rw [Cpu.flags_setWord, Cpu.flags_setWord, hd, Cpu.flags_setSeg, Cpu.flags_setWord]
  · rw [Cpu.seg_setWord, Cpu.seg_setWord, hd, Cpu.seg_setSeg_of_ne _ _ _ _ hes, Cpu.seg_setWord]

/-- All the checks find the first one that fails. -/
theorem elfChecks_spec {signature : Nat} {ks : List Check} {c : Cpu}
    (hdf : c.flags.getLsbD 10 = false) (hfits : signature + 4 ≤ 2 ^ 16)
    (hmagic : c.mem.load (16 * (c.seg .es).toNat + signature) 4 = 0x464C457F)
    (hks : ∀ k ∈ ks, k.offset < 2 ^ 16 ∧ (k.bytes = 1 ∨ k.bytes = 2)) :
    (elfChecks signature ks c).2 = firstFailing c.mem (16 * c.word .si) (magicCheck :: ks) 1 := by
  obtain ⟨hat, hflags, hes⟩ := atHeader_elfLocate c
  obtain ⟨hsame, hmem, hiff⟩ := @elfMagic_spec signature _ _ _ hat
    (by rw [hflags, hdf]) hfits (by rw [hes, hmagic])
  have hdef : elfChecks signature ks c = if (elfMagic signature (elfLocate c)).2 then
      runChecks ks 2 ((elfMagic signature (elfLocate c)).1.setWord .si 0)
    else ((elfMagic signature (elfLocate c)).1, 1) := rfl
  rw [hdef, firstFailing_cons]
  by_cases hk : magicCheck.Holds c.mem (16 * c.word .si)
  · rw [if_pos hk, if_pos (hiff.mpr hk)]
    apply runChecks_spec _ hks
    refine ⟨?_, Cpu.word_setWord _ _ _, ?_⟩
    · rw [Cpu.seg_setWord, hsame.seg, hat.ds]
    · rw [Cpu.mem_setWord, hmem]
  · rw [if_neg hk, if_neg (mt hiff.mp hk)]

/-! ## The result -/

/-- The two classes of files. -/
inductive ElfClass
  | elf32 | elf64
deriving DecidableEq, Repr

namespace ElfClass

/-- The values of `EI_CLASS` and `e_machine`. -/
def fileClass : ElfClass → Nat
  | elf32 => 0x01
  | elf64 => 0x02

def machine : ElfClass → Nat
  | elf32 => 0x03
  | elf64 => 0x3E

def checkHeader : ElfClass → Nat → Nat → Cpu → Cpu
  | elf32 => elf32CheckHeader
  | elf64 => elf64CheckHeader

end ElfClass

/-- The bytes of stack below the return address. -/
def elfStack : Nat := procBytes + 2

/-- What the caller sees to.  The signature is in the segment `ES`, and the stack
is apart from it and from the header. -/
structure ElfReady (signature : Nat) (c : Cpu) : Prop where
  direction : c.flags.getLsbD 10 = false
  room : elfStack ≤ c.word .sp
  fits : signature + 4 ≤ 2 ^ 16
  magic : c.mem.load (16 * (c.seg .es).toNat + signature) 4 = 0x464C457F
  signature : 16 * (c.seg .es).toNat + signature + 4 + elfStack ≤ c.top ∨
    c.top ≤ 16 * (c.seg .es).toNat + signature
  header : 16 * c.word .si + 64 + elfStack ≤ c.top ∨ c.top ≤ 16 * c.word .si

/-- Checks of the first 64 bytes that agree on two memories. -/
theorem firstFailing_congr {m m' : Memory} {base : Nat} {ks : List Check}
    (heq : ∀ i, i < 64 → m' (base + i) = m (base + i))
    (hks : ∀ k ∈ ks, k.offset + k.bytes ≤ 64) (code : Nat) :
    firstFailing m' base ks code = firstFailing m base ks code := by
  induction ks generalizing code with
  | nil => rfl
  | cons k ks ih =>
    have hfits := hks k List.mem_cons_self
    have hload : m'.load (base + k.offset) k.bytes = m.load (base + k.offset) k.bytes := by
      apply Memory.load_congr
      intro i hi
      rw [Nat.add_assoc]
      exact heq _ (by omega)
    have hrest := ih (fun k' hk' => hks k' (List.mem_cons_of_mem k hk')) (code + 1)
    have hiff : k.Holds m' base ↔ k.Holds m base := by rw [Check.Holds, Check.Holds, hload]
    rw [firstFailing_cons, firstFailing_cons, hrest]
    simp only [hiff]

/-- The checks from a state whose memory agrees with that at the entry. -/
theorem elfChecks_of_same {signature : Nat} {c d : Cpu} (h : ElfReady signature c)
    (fileClass machine : Nat) (hflags : d.flags = c.flags) (hseg : d.seg = c.seg)
    (hsi : d.word .si = c.word .si)
    (hmem : ∀ a, a + elfStack < c.top ∨ c.top ≤ a → d.mem a = c.mem a) :
    (elfChecks signature (headerChecks fileClass machine) d).2
      = firstFailing c.mem (16 * c.word .si) (magicCheck :: headerChecks fileClass machine) 1 := by
  have hheader := h.header
  have hsignature := h.signature
  have hmagic : d.mem.load (16 * (d.seg .es).toNat + signature) 4 = 0x464C457F := by
    rw [hseg, ← h.magic]
    apply Memory.load_congr
    intro i hi
    exact hmem _ (by omega)
  rw [elfChecks_spec (by rw [hflags, h.direction]) h.fits hmagic, hsi]
  · apply firstFailing_congr
    · intro i hi
      exact hmem _ (by omega)
    · simp [magicCheck, headerChecks, eType, eMachine, eVersion]
  · simp [headerChecks, eType, eMachine, eVersion]

/-- The last instruction sets the result code. -/
theorem word_setWord_result {code : Nat} {c d : Cpu} (hcode : code < 2 ^ 16) :
    (if code = 0 then c.setWord .ax 0 else d.setWord .ax code).word .ax = code := by
  split
  · next hzero =>
    rw [Cpu.word_setWord, hzero]
    rfl
  · rw [Cpu.word_setWord, Nat.mod_eq_of_lt hcode]

theorem elf32CheckHeader_ax {signature entry : Nat} {c : Cpu} (h : ElfReady signature c) :
    (elf32CheckHeader signature entry c).word .ax
      = firstFailing c.mem (16 * c.word .si) (magicCheck :: elf32Checks) 1 := by
  have hroom := h.room
  rw [elfStack] at hroom
  obtain ⟨d, hd⟩ : ∃ d, d = (procStart 0 c).push (.seg .ds) := ⟨_, rfl⟩
  have hsize : (Slot.seg .ds).size = 2 := rfl
  have hstart : InProc 0 c (procStart 0 c) [] := InProc.start (by omega)
  have hword := hstart.word_sp
  have htop := hstart.top
  rw [bytes_nil] at hword htop
  have hss : Reg.si ≠ Reg.sp := nofun
  have hsb : Reg.si ≠ Reg.bp := nofun
  have hcode := elfChecks_of_same (d := d) h 0x01 0x03
    (by rw [hd, Cpu.push, Cpu.flags_pushWith, flags_procStart])
    (by rw [hd, Cpu.push, Cpu.seg_pushWith, seg_procStart])
    (by rw [hd, Cpu.push, Cpu.word_pushWith_of_ne _ _ _ _ hss, Cpu.word, reg_procStart hss hsb,
      Cpu.word])
    (fun a ha => by
      rw [elfStack] at ha
      rw [hd, hstart.mem_push (by rw [hsize]; omega) (by rw [hsize]; omega),
        mem_procStart (by omega) (by omega)])
  have hlt := firstFailing_lt c.mem (16 * c.word .si) (magicCheck :: elf32Checks) Nat.one_pos
  have hdef : elf32CheckHeader signature entry c
      = if (elfChecks signature elf32Checks d).2 = 0 then
          (elfAccept entry (elfChecks signature elf32Checks d).1).setWord .ax 0
        else (procEnd ((elfChecks signature elf32Checks d).1.pop (.seg .ds))).setWord .ax
          (elfChecks signature elf32Checks d).2 := by
    rw [hd]
    rfl
  rw [hdef, elf32Checks, hcode]
  exact word_setWord_result (Nat.lt_trans hlt (by decide))

theorem elf64CheckHeader_ax {signature entry : Nat} {c : Cpu} (h : ElfReady signature c) :
    (elf64CheckHeader signature entry c).word .ax
      = firstFailing c.mem (16 * c.word .si) (magicCheck :: elf64Checks) 1 := by
  have hroom := h.room
  rw [elfStack] at hroom
  obtain ⟨d, hd⟩ : ∃ d, d = procStart 0 c := ⟨_, rfl⟩
  have hss : Reg.si ≠ Reg.sp := nofun
  have hsb : Reg.si ≠ Reg.bp := nofun
  have hcode := elfChecks_of_same (d := d) h 0x02 0x3E (by rw [hd, flags_procStart])
    (by rw [hd, seg_procStart]) (by rw [hd, Cpu.word, reg_procStart hss hsb, Cpu.word])
    (fun a ha => by
      rw [elfStack] at ha
      rw [hd, mem_procStart (by omega) (by omega)])
  have hlt := firstFailing_lt c.mem (16 * c.word .si) (magicCheck :: elf64Checks) Nat.one_pos
  have hdef : elf64CheckHeader signature entry c
      = if (elfChecks signature elf64Checks d).2 = 0 then
          (elfAccept entry (elfChecks signature elf64Checks d).1).setWord .ax 0
        else (procEnd (elfChecks signature elf64Checks d).1).setWord .ax
          (elfChecks signature elf64Checks d).2 := by
    rw [hd]
    rfl
  rw [hdef, elf64Checks, hcode]
  exact word_setWord_result (Nat.lt_trans hlt (by decide))

theorem checkHeader_ax {signature entry : Nat} {c : Cpu} (k : ElfClass)
    (h : ElfReady signature c) : (k.checkHeader signature entry c).word .ax
      = firstFailing c.mem (16 * c.word .si) (magicCheck :: headerChecks k.fileClass k.machine)
          1 := by
  cases k with
  | elf32 => exact elf32CheckHeader_ax h
  | elf64 => exact elf64CheckHeader_ax h

/-- Where the checks of the code and those of a valid header find the same. -/
theorem firstFailing_header_iff (m : Memory) (base fileClass machine : Nat) :
    firstFailing m base (magicCheck :: headerChecks fileClass machine) 1
        = firstFailing m base (validChecks fileClass machine) 1 ↔
      ((∀ k ∈ (validChecks fileClass machine).take 3, k.Holds m base) →
        Check.Holds m base ⟨6, 1, 0x01⟩) ∧
      ((∀ k ∈ (validChecks fileClass machine).take 6, k.Holds m base) →
        Check.Holds m base ⟨eVersion, 2, 0x01⟩ → Check.Holds m base ⟨eVersion, 4, 0x01⟩) := by
  -- the half of a version that is one
  have hhalf : Check.Holds m base ⟨eVersion, 4, 0x01⟩ → Check.Holds m base ⟨eVersion, 2, 0x01⟩ := by
    intro hword
    have hmod := m.load_mod (base + eVersion) 2 2
    rw [Check.Holds] at hword ⊢
    dsimp only at hword ⊢
    rw [hword] at hmod
    omega
  simp only [validChecks, headerChecks, firstFailing, List.take, List.forall_mem_cons,
    List.not_mem_nil, false_implies, implies_true, and_true]
  by_cases hmagic : magicCheck.Holds m base
  case neg => simp only [hmagic, if_false, false_and, false_implies, and_self]
  by_cases hclass : Check.Holds m base ⟨4, 1, fileClass⟩
  case neg => simp only [hmagic, hclass, if_false, false_and, and_false, false_implies, and_self]
  by_cases hdata : Check.Holds m base ⟨5, 1, 0x01⟩
  case neg => simp only [hmagic, hclass, hdata, if_false, false_and, and_false, false_implies, and_self]
  simp only [hmagic, hclass, hdata, if_true, true_and, true_implies]
  by_cases hversion : Check.Holds m base ⟨6, 1, 0x01⟩
  case neg =>
    simp only [hversion, if_false, false_and, iff_false]
    split_ifs <;> decide
  simp only [hversion, if_true, true_and]
  by_cases htype : Check.Holds m base ⟨eType, 2, 0x02⟩
  case neg => simp only [htype, if_false, false_and, false_implies]
  by_cases hmachine : Check.Holds m base ⟨eMachine, 2, machine⟩
  case neg => simp only [htype, hmachine, if_false, and_false, false_implies]
  simp only [htype, hmachine, if_true, true_implies, and_self]
  by_cases hall : Check.Holds m base ⟨eVersion, 4, 0x01⟩
  · simp only [hall, hhalf hall, if_true, implies_true]
  · by_cases hlow : Check.Holds m base ⟨eVersion, 2, 0x01⟩
    · simp only [hall, hlow, if_true, if_false, true_implies, iff_false]
      omega
    · simp only [hall, hlow, if_false, false_implies]

/-- A header of a file for 32 bits with the byte of `EI_VERSION` cleared, after the
signature of the boot loader. -/
def oldHeader : List UInt8 :=
  [0x7F, 0x45, 0x4C, 0x46, 1, 1, 0, 0, 0, 0, 0, 0, 0, 0, 0, 0, 2, 0, 3, 0, 1, 0, 0, 0]

def oldHeaderCpu : Cpu where
  reg r := if r = .si then 0x1000 else 0x7000
  seg _ := 0
  flags := 0
  cr _ := 0
  mem a := if 0x10000 ≤ a then oldHeader.getD (a - 0x10000) 0 else oldHeader.getD (a - 0x7C00) 0

end Xeos.Boot
