import Xeos.Boot.NumberToString
import Xeos.Lib.Flat

/-!
# Numbers in protected and in long mode

`XEOS.32.string.numberToString` and `XEOS.64.string.numberToString`.  They compare, divide and
count with whole registers, and so does their macro.  A call writes the text of the number with
a zero behind it, and goes back to the caller with everything else as it was, apart from the
part of the stack that it has used.
-/

namespace Xeos.Boot

open Lib Lib.Flat
open Lib.Real (bytes bytes_nil bytes_cons)

namespace NumberToString

/-- The modes with a flat memory. -/
inductive FlatMode
  | protectedMode
  | longMode
deriving DecidableEq, Repr

namespace FlatMode

def bits : FlatMode → Nat
  | protectedMode => 32
  | longMode => 64

/-- What `@XEOS.32.proc.start` and `@XEOS.64.proc.start` push after the flags. -/
def slots : FlatMode → List Slot
  | protectedMode =>
    [.reg (.main .ax), .reg (.main .cx), .reg (.main .dx), .reg (.main .bx), .skip, .reg .bp,
      .reg (.main .si), .reg (.main .di), .seg .ds, .seg .es, .seg .fs, .seg .gs, .reg .bp]
  | longMode =>
    [.reg (.main .ax), .reg (.main .bx), .reg (.main .cx), .reg (.main .dx), .reg (.main .si),
      .reg (.main .di), .reg (.ext 0), .reg (.ext 1), .reg (.ext 2), .reg (.ext 3),
      .reg (.ext 4), .reg (.ext 5), .reg (.ext 6), .reg (.ext 7), .reg .bp]

end FlatMode

def Reg.flat (r : Reg) : Flat.Reg := .main r.real

def flatMode (bits : Nat) (slots : List Slot) : Mode (Cpu bits) where
  bits := bits
  offsetBits := bits
  reg c r := (c.reg r.flat).toNat
  setReg c r v := c.setReg r.flat v
  put c off v := c.store 1 off v
  push c n v := c.pushWith n v
  peek c n := c.peek n
  drop c n := c.drop n
  procStart := Flat.procStart slots
  procEnd := Flat.procEnd slots

/-- `XEOS.32.string.numberToString` and `XEOS.64.string.numberToString`, where `fuel` is a bound
for the rounds of the division. -/
def numberToStringFlat (mode : FlatMode) (fuel : Nat) (c : Cpu mode.bits) :
    Option (Cpu mode.bits) :=
  (flatMode mode.bits mode.slots).numberToString fuel c

/-! ## The mode -/

/-- The bytes of the stack that the procedure may use below its frame: the digits and the
counter. -/
def flatBodyBytes (bits : Nat) : Nat := bits / 8 * bits + bits / 8

/-- All the bytes of the stack that the procedure uses. -/
def flatBytes (bits : Nat) (slots : List Slot) : Nat := Flat.procBytes bits slots + flatBodyBytes bits

/-- The `len` bytes at the destination do not wrap around, and they are not in the `used` bytes
below the top of the stack. -/
structure FlatBuffer {bits : Nat} (c : Cpu bits) (d len used : Nat) : Prop where
  fits : d + len ≤ 2 ^ bits
  apart : ∀ i < len, d + i + used < c.top ∨ c.top ≤ d + i

/-- The state in the body of the procedure, for the entry state `c₀`. -/
structure RepFlat {bits : Nat} (slots : List Slot) (c₀ : Cpu bits) (d : Nat) (c : Cpu bits)
    (v : View) : Prop where
  inside : Flat.InProc slots c₀ c v.stack
  room : bytes v.stack ≤ flatBodyBytes bits
  reg : ∀ r : Reg, (c.reg r.flat).toNat = v.reg r
  other : ∀ r, r ≠ .sp → r ≠ .bp → (∀ q : Reg, r ≠ q.flat) → c.reg r = c₀.reg r
  seg : c.seg = c₀.seg
  mem : ∀ a, a + flatBytes bits slots < c₀.top ∨ c₀.top ≤ a →
    c.mem a = c₀.mem.write d v.text a

theorem Reg.flat_ne {r r' : Reg} (h : r ≠ r') : r.flat ≠ r'.flat :=
  fun heq => Reg.real_ne h (Flat.Reg.main.inj heq)

theorem Reg.flat_ne_sp (r : Reg) : r.flat ≠ .sp :=
  fun heq => r.real_ne_sp (Flat.Reg.main.inj heq)

theorem Reg.flat_ne_bp (r : Reg) : r.flat ≠ .bp :=
  fun heq => r.real_ne_bp (Flat.Reg.main.inj heq)

section

variable {bits : Nat} {slots : List Slot} {c₀ c : Cpu bits} {d len : Nat}

theorem lawsFlat (hbits : 8 ∣ bits) (hle : 32 ≤ bits)
    (hbuffer : FlatBuffer c₀ d len (flatBytes bits slots))
    (hroom : flatBytes bits slots ≤ c₀.top) :
    (flatMode bits slots).Laws (RepFlat slots c₀ d) d len (flatBodyBytes bits) where
  bits := ⟨hbits, hle⟩
  offsetBits := ⟨hbits, Nat.le_trans (by decide) hle, Nat.le_refl bits⟩
  fits := hbuffer.fits
  reg c v r h := h.reg r
  lt c v r h := by
    rw [← h.reg r]
    exact (c.reg r.flat).isLt
  setReg c v r x h := by
    have hinside := h.inside.keep (c.top_setReg_of_ne r.flat x r.flat_ne_sp)
      (c.reg_setReg_of_ne r.flat .bp x r.flat_ne_bp.symm) (fun _ _ _ => rfl) hbits
      (Nat.le_trans (by decide) hle)
    refine ⟨hinside, h.room, fun r' => ?_, fun q hsp hbp hq => ?_, h.seg, h.mem⟩
    · by_cases hr : r' = r
      · rw [hr, View.reg_setReg]
        exact c.reg_setReg _ _
      · rw [View.reg_setReg_of_ne v hr, ← h.reg r']
        exact congrArg BitVec.toNat (c.reg_setReg_of_ne _ _ _ (Reg.flat_ne hr))
    · exact (c.reg_setReg_of_ne _ _ _ (hq r)).trans (h.other q hsp hbp hq)
  put c v x h hlen := by
    have hfits := hbuffer.fits
    have htop := h.inside.top hbits (Nat.le_trans (by decide) hle)
    have hbytes := h.room
    have hapart := hbuffer.apart v.text.length hlen
    have haddr : (d + v.text.length) % 2 ^ bits = d + v.text.length :=
      Nat.mod_eq_of_lt (by omega)
    rw [flatBytes] at hapart
    have hinside : Flat.InProc slots c₀ (c.store 1 (d + v.text.length) x) v.stack := by
      refine h.inside.keep rfl rfl (fun a hge hlt => ?_) hbits (Nat.le_trans (by decide) hle)
      refine Memory.store_of_not_mem _ _ ?_
      rw [haddr]
      omega
    refine ⟨hinside, h.room, h.reg, h.other, h.seg, fun a ha => ?_⟩
    show (c.mem.store ((d + v.text.length) % 2 ^ bits) 1 x) a = _
    rw [haddr, Memory.store_one, ← Memory.write_append_singleton]
    by_cases heq : a = d + v.text.length
    · rw [heq, Memory.set_same, Memory.set_same]
    · rw [Memory.set_of_ne _ _ heq, Memory.set_of_ne _ _ heq]
      exact h.mem a ha
  push c v n x h hx hn := by
    have htop := h.inside.top hbits (Nat.le_trans (by decide) hle)
    have hpush : n ≤ c.top := by
      rw [flatBytes] at hroom
      omega
    refine ⟨h.inside.pushWith hpush hx hbits (Nat.le_trans (by decide) hle), hn, fun r => ?_,
      fun q hsp hbp hq => (c.reg_pushWith_of_ne q _ _ hsp).trans (h.other q hsp hbp hq), h.seg,
      fun a ha => ?_⟩
    · rw [← h.reg r]
      exact congrArg BitVec.toNat (c.reg_pushWith_of_ne _ _ _ r.flat_ne_sp)
    · rw [← h.mem a ha]
      rw [flatBytes] at ha
      exact h.inside.stack.mem_pushWith (h.inside.push_room hpush) (by omega)
  peek c v n x fs h hstack := by
    have hinside := h.inside
    rw [hstack] at hinside
    exact hinside.stack.peek
  drop c v n x fs h hstack := by
    have hinside := h.inside
    have hbytes := h.room
    rw [hstack] at hinside hbytes
    rw [bytes_cons] at hbytes
    refine ⟨hinside.drop, Nat.le_trans (Nat.le_add_left _ _) hbytes, fun r => ?_,
      fun q hsp hbp hq => (c.reg_drop_of_ne q _ hsp).trans (h.other q hsp hbp hq), h.seg, h.mem⟩
    rw [← h.reg r]
    exact congrArg BitVec.toNat (c.reg_drop_of_ne _ _ r.flat_ne_sp)

/-- The view at the start of the procedure. -/
def viewFlat (c₀ : Cpu bits) : View := ⟨fun r => (c₀.reg r.flat).toNat, [], []⟩

theorem repFlat_start (hbits : 8 ∣ bits) (hle : 16 ≤ bits) (hroom : flatBytes bits slots ≤ c₀.top) :
    RepFlat slots c₀ d (Flat.procStart slots c₀) (viewFlat c₀) := by
  have hproc : Flat.procBytes bits slots ≤ c₀.top := Nat.le_trans (Nat.le_add_right _ _) hroom
  obtain ⟨-, hreg, hseg, -, hmem⟩ := procStart_pushes hbits hle hproc
  refine ⟨.start hproc, Nat.zero_le _,
    fun r => congrArg BitVec.toNat (hreg _ r.flat_ne_sp r.flat_ne_bp),
    fun r hsp hbp _ => hreg r hsp hbp, hseg, fun a ha => ?_⟩
  rw [viewFlat, Memory.write_nil]
  rw [flatBytes] at ha
  exact hmem a (by omega)

end

/-! ## The call -/

section

variable {mode : FlatMode} {c : Cpu mode.bits} {d : Nat} {v : View}

theorem FlatMode.eight_dvd_bits (mode : FlatMode) : 8 ∣ mode.bits := by
  cases mode <;> decide

theorem FlatMode.le_bits (mode : FlatMode) : 32 ≤ mode.bits := by
  cases mode <;> decide

theorem FlatMode.small (mode : FlatMode) : mode.bits < 2 ^ 31 ∧ 2 ^ 31 ≤ 2 ^ (mode.bits - 1) := by
  cases mode <;> decide

theorem FlatMode.sp_not_mem (mode : FlatMode) : .reg .sp ∉ mode.slots := by
  cases mode <;> decide

theorem FlatMode.bp_mem (mode : FlatMode) : .reg .bp ∈ mode.slots := by
  cases mode <;> decide

theorem FlatMode.flat_mem (mode : FlatMode) (q : Reg) : .reg q.flat ∈ mode.slots := by
  cases mode <;> cases q <;> decide

/-- The end of the procedure restores everything but the memory. -/
theorem procEnd_repFlat {c₀ : Cpu mode.bits} (h : RepFlat mode.slots c₀ d c v) :
    Flat.procEnd mode.slots c = { c₀ with mem := c.mem } := by
  refine h.inside.finish mode.eight_dvd_bits (Nat.le_trans (by decide) mode.le_bits)
    mode.sp_not_mem (fun r hr => ?_) fun s => Or.inr (by rw [h.seg])
  by_cases hbp : r = .bp
  · exact Or.inl (hbp ▸ mode.bp_mem)
  · by_cases hq : ∃ q : Reg, r = q.flat
    · obtain ⟨q, rfl⟩ := hq
      exact Or.inl (mode.flat_mem q)
    · exact Or.inr (h.other r hr hbp (fun q heq => hq ⟨q, heq⟩))

/-- The text that the registers ask for. -/
def askedText (c : Cpu mode.bits) : List UInt8 :=
  text (c.reg Reg.bx.flat).toNat (c.reg Reg.cx.flat).toNat ((c.reg Reg.dx.flat).toNat = 1)
    (c.reg Reg.ax.flat).toNat

/-- The destination that the registers ask for. -/
def askedAddress (c : Cpu mode.bits) : Nat := (c.reg Reg.di.flat).toNat

/-- The procedure, from its entry to its `ret`. -/
theorem numberToStringFlat_eq (hbase : (c.reg Reg.bx.flat).toNat ∈ bases)
    (hp : (c.reg Reg.cx.flat).toNat < 2 ^ 31) (hroom : flatBytes mode.bits mode.slots ≤ c.top)
    (hbuffer : FlatBuffer c (askedAddress c) ((askedText c).length + 1)
      (flatBytes mode.bits mode.slots)) :
    ∃ m, (∀ fuel, mode.bits ≤ fuel → numberToStringFlat mode fuel c = some { c with mem := m }) ∧
      ∀ a, a + flatBytes mode.bits mode.slots < c.top ∨ c.top ≤ a →
        m a = c.mem.write (askedAddress c) (askedText c ++ [0]) a := by
  have hbits := mode.eight_dvd_bits
  have hle := mode.le_bits
  have hsmall := mode.small
  have L := lawsFlat hbits hle hbuffer hroom
  have hrep := @repFlat_start mode.bits mode.slots c (askedAddress c) hbits
    (Nat.le_trans (by decide) hle) hroom
  have hmod : ∀ r : Reg, (viewFlat c).reg r % 2 ^ mode.bits = (c.reg r.flat).toNat :=
    fun r => Nat.mod_eq_of_lt (c.reg r.flat).isLt
  have htext : text ((viewFlat c).reg .bx) ((viewFlat c).reg .cx % 2 ^ mode.bits)
      ((viewFlat c).reg .dx % 2 ^ mode.bits = 1) ((viewFlat c).reg .ax) = askedText c := by
    rw [askedText, hmod .cx]
    simp only [hmod .dx]
    rfl
  obtain ⟨c', v', hbody, hrep', -, htext'⟩ := numberToString_eq L hrep rfl rfl (hmod .di) hbase
    (fun _ => Nat.lt_of_le_of_lt (Nat.mod_le _ _) (Nat.lt_of_lt_of_le hp hsmall.2))
    (Nat.lt_of_lt_of_le hsmall.1 hsmall.2) (Nat.le_refl _)
    (by rw [show (flatMode mode.bits mode.slots).offsetBits = mode.bits from rfl, htext]
        exact Nat.lt_succ_self _)
  rw [show (flatMode mode.bits mode.slots).offsetBits = mode.bits from rfl, htext] at htext'
  refine ⟨c'.mem, fun fuel hfuel => ?_, fun a ha => ?_⟩
  · rw [numberToStringFlat, hbody fuel hfuel]
    exact congrArg some (procEnd_repFlat hrep')
  · rw [hrep'.mem a ha, htext']

/-- The bytes of the stack that a call uses, with the return address. -/
def callBytes (mode : FlatMode) : Nat := mode.bits / 8 + flatBytes mode.bits mode.slots

/-- A call writes the text of the number and the zero behind it, and changes nothing else than
the part of the stack that it has used. -/
theorem call_numberToString (mode : FlatMode) (ret : BitVec mode.bits) (c : Cpu mode.bits)
    (hbase : (c.reg Reg.bx.flat).toNat ∈ bases) (hp : (c.reg Reg.cx.flat).toNat < 2 ^ 31)
    (hroom : callBytes mode ≤ c.top)
    (hbuffer : FlatBuffer c (askedAddress c) ((askedText c).length + 1) (callBytes mode)) :
    ∃ m, (∀ fuel, mode.bits ≤ fuel →
        c.call ret (numberToStringFlat mode fuel) = some { c with mem := m }) ∧
      ∀ a, a + callBytes mode < c.top ∨ c.top ≤ a →
        m a = c.mem.write (askedAddress c) (askedText c ++ [0]) a := by
  rw [callBytes] at hroom
  have hsize : mode.bits / 8 + bytes [] ≤ c.top := by
    rw [bytes_nil]
    omega
  obtain ⟨c₁, hc₁⟩ : ∃ c₁, c₁ = c.pushWith (mode.bits / 8) ret.toNat := ⟨_, rfl⟩
  have hreg : ∀ r, r ≠ .sp → c₁.reg r = c.reg r := fun r hr => by
    rw [hc₁]
    exact c.reg_pushWith_of_ne r _ _ hr
  have htop : c₁.top + mode.bits / 8 = c.top := by
    rw [hc₁]
    exact (Stacked.refl c).top_pushWith hsize
  have htext : askedText c₁ = askedText c := by
    rw [askedText, hreg _ Reg.bx.flat_ne_sp, hreg _ Reg.cx.flat_ne_sp, hreg _ Reg.dx.flat_ne_sp,
      hreg _ Reg.ax.flat_ne_sp, ← askedText]
  have haddr : askedAddress c₁ = askedAddress c := by
    rw [askedAddress, hreg _ Reg.di.flat_ne_sp, ← askedAddress]
  have hbuffer₁ : FlatBuffer c₁ (askedAddress c₁) ((askedText c₁).length + 1)
      (flatBytes mode.bits mode.slots) := by
    rw [htext, haddr]
    refine ⟨hbuffer.fits, fun i hi => ?_⟩
    have hapart := hbuffer.apart i hi
    rw [callBytes] at hapart
    omega
  obtain ⟨m, hrun, hmem⟩ := numberToStringFlat_eq (by rw [hreg _ Reg.bx.flat_ne_sp]; exact hbase)
    (by rw [hreg _ Reg.cx.flat_ne_sp]; exact hp) (by omega) hbuffer₁
  rw [htext, haddr] at hmem
  refine ⟨m, fun fuel hfuel => ?_, fun a ha => ?_⟩
  · refine Cpu.call_eq mode.eight_dvd_bits (by omega) hc₁.symm (hrun fuel hfuel)
      fun a hge hlt => ?_
    -- the return address is not in the text
    rw [hmem a (Or.inr hge)]
    refine Memory.write_of_not_mem ?_
    rw [List.length_append, List.length_singleton]
    by_contra hin
    have hapart := hbuffer.apart (a - askedAddress c) (by omega)
    rw [callBytes] at hapart
    omega
  · rw [callBytes] at ha
    rw [hmem a (by omega)]
    have hkept : c₁.mem a = c.mem a := by
      rw [hc₁]
      exact (Stacked.refl c).mem_pushWith hsize (by omega)
    simp only [Memory.write, hkept]

/-- A processor in long mode with a number in `RAX`, to be printed in base 16 at `0x8000`. -/
def printing (n : BitVec 64) : Cpu FlatMode.longMode.bits where
  reg
    | .main .ax => n
    | .main .bx => 16
    | .main .sp => 0x7000
    | .main .di => 0x8000
    | _ => 0
  seg _ := 0
  flags := 0
  mem _ := 0

theorem call_numberToString_hex :
    ∃ m, (∀ fuel, 64 ≤ fuel → (printing 0xFFFFFFFFFFFFFFFF).call 0x1234
        (numberToStringFlat .longMode fuel) = some { printing 0xFFFFFFFFFFFFFFFF with mem := m }) ∧
      ∀ a, a + callBytes .longMode < 0x7000 ∨ 0x7000 ≤ a →
        m a = Memory.write (fun _ => 0) 0x8000 (List.replicate 16 0x46 ++ [0]) a := by
  have htext : askedText (printing 0xFFFFFFFFFFFFFFFF) = List.replicate 16 0x46 := by decide
  have hcall := call_numberToString .longMode 0x1234 (printing 0xFFFFFFFFFFFFFFFF) (by decide)
    (by decide) (by decide) ⟨by decide, fun i _ => Or.inr (by
      rw [show (printing 0xFFFFFFFFFFFFFFFF).top = 0x7000 from rfl,
        show askedAddress (printing 0xFFFFFFFFFFFFFFFF) = 0x8000 from rfl]
      omega)⟩
  rw [htext] at hcall
  exact hcall

end

end NumberToString

end Xeos.Boot
