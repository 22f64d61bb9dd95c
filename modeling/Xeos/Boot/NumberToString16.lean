import Xeos.Boot.NumberToString
import Xeos.Boot.Proc

/-!
# Numbers in real mode

`XEOS.16.string.numberToString` and the macro `@XEOS.16.string.numberToString`.  The macro
moves 16 bits into `AX` and `BX`, but the procedure compares the whole of `EBX` and divides the
whole of `EAX`.  So the upper half of `EAX` is printed as a part of the number, and with
something in the upper half of `EBX` nothing is printed.
-/

namespace Xeos.Boot

open Lib Lib.Real

namespace NumberToString

def mode16 : Mode Cpu where
  bits := 32
  offsetBits := 16
  reg c r := (c.reg r.real).toNat
  setReg c r v := c.setReg r.real v
  put c off v := c.store 1 .ds off v
  push c n v := c.pushWith n v
  peek c n := c.peek n
  drop c n := c.drop n
  procStart := procStart 0
  procEnd := procEnd

/-- `XEOS.16.string.numberToString`, where `fuel` is a bound for the rounds of the division. -/
def numberToString16 (fuel : Nat) (c : Cpu) : Option Cpu := mode16.numberToString fuel c

/-- The arguments of the macro. -/
structure Arguments where
  number : BitVec 16
  base : BitVec 16
  padding : BitVec 16
  /-- `1` for a prefix. -/
  withPrefix : BitVec 16
  destination : BitVec 16

/-- The moves of the macro. -/
def moveArguments (args : Arguments) (c : Cpu) : Cpu :=
  let c := c.setWord .ax args.number.toNat
  let c := c.setWord .bx args.base.toNat
  let c := c.setWord .cx args.padding.toNat
  let c := c.setWord .dx args.withPrefix.toNat
  c.setWord .di args.destination.toNat

/-- `@XEOS.16.string.numberToString`, up to the entry of the procedure.  The return address of
the call is `ret`. -/
def enter16 (args : Arguments) (ret : BitVec 16) (c : Cpu) : Cpu :=
  (moveArguments args (pusha c)).pushWith 2 ret.toNat

/-- The macro. -/
def macro16 (args : Arguments) (ret : BitVec 16) (fuel : Nat) (c : Cpu) : Option Cpu :=
  (numberToString16 fuel (enter16 args ret c)).map fun c => popa (c.drop 2)

/-! ## The mode -/

/-- The bytes of the stack that the procedure may use below its frame: the digits and the
counter. -/
def bodyBytes : Nat := 4 * 32 + 2

/-- The state in the body of the procedure, for the entry state `c₀`. -/
structure Rep16 (c₀ : Cpu) (d : Nat) (c : Cpu) (v : View) : Prop where
  inside : InProc 0 c₀ c v.stack
  room : bytes v.stack ≤ bodyBytes
  reg : ∀ r : Reg, (c.reg r.real).toNat = v.reg r
  seg : c.seg = c₀.seg
  cr : c.cr = c₀.cr
  mem : ∀ a, a + (procBytes + bodyBytes) < c₀.top ∨ c₀.top ≤ a →
    c.mem a = c₀.mem.write (c₀.linear .ds d) v.text a

/-- The `len` bytes at the destination are in the segment, and not in the part of the stack that
a call from `c` uses, which is of `used` bytes. -/
structure Buffer (c : Cpu) (d len used : Nat) : Prop where
  fits : d + len ≤ 2 ^ 16
  apart : ∀ i < len, c.linear .ds d + i + used < c.top ∨ c.top ≤ c.linear .ds d + i

end NumberToString

namespace InProc

variable {locals : Nat} {c₀ c : Cpu} {fs : List (Nat × Nat)} {n x : Nat}

theorem pushWith (h : InProc locals c₀ c fs) (hroom : n ≤ c.word .sp) (hx : x < 256 ^ n) :
    InProc locals c₀ (c.pushWith n x) ((n, x) :: fs) := by
  have hne : Reg.bp ≠ Reg.sp := nofun
  have htop := h.top
  refine ⟨h.room, h.stack.pushWith (h.push_room hroom) hx, ?_, ?_⟩
  · rw [Cpu.reg_pushWith_of_ne _ _ _ _ hne, h.bp]
  · intro a hle hlt
    rw [h.stack.mem_pushWith (h.push_room hroom) (by omega), h.frame a hle hlt]

theorem drop (h : InProc locals c₀ c ((n, x) :: fs)) : InProc locals c₀ (c.drop n) fs := by
  have hne : Reg.bp ≠ Reg.sp := nofun
  exact ⟨h.room, h.stack.drop, (Cpu.reg_drop_of_ne c .bp n hne).trans h.bp, h.frame⟩

end InProc

namespace NumberToString

section

variable {c₀ c : Cpu} {d len : Nat}

theorem laws16 (hroom : procBytes + bodyBytes ≤ c₀.word .sp)
    (hbuffer : Buffer c₀ d len (procBytes + bodyBytes)) :
    mode16.Laws (Rep16 c₀ d) d len bodyBytes where
  bits := ⟨by decide, by decide⟩
  offsetBits := ⟨by decide, by decide, by decide⟩
  fits := hbuffer.fits
  reg c v r h := h.reg r
  lt c v r h := by
    rw [← h.reg r]
    exact (c.reg r.real).isLt
  setReg c v r x h := by
    refine ⟨h.inside.keep rfl (Cpu.reg_setReg_of_ne c _ _ _ r.real_ne_sp.symm)
      (Cpu.reg_setReg_of_ne c _ _ _ r.real_ne_bp.symm) (fun _ _ _ => rfl), h.room,
      fun r' => ?_, h.seg, h.cr, h.mem⟩
    by_cases hr : r' = r
    · rw [hr, View.reg_setReg]
      exact Cpu.reg_setReg c _ _
    · rw [View.reg_setReg_of_ne v hr, ← h.reg r']
      exact congrArg BitVec.toNat (Cpu.reg_setReg_of_ne c _ _ _ (Reg.real_ne hr))
  put c v x h hlen := by
    have hfits := hbuffer.fits
    have htop := h.inside.top
    have hbytes := h.room
    have hapart := hbuffer.apart v.text.length hlen
    have haddr : c.linear .ds (d + v.text.length) = c₀.linear .ds d + v.text.length := by
      simp only [Cpu.linear, h.seg]
      omega
    refine ⟨h.inside.keep rfl rfl rfl (fun a hle hlt => ?_), h.room, h.reg, h.seg, h.cr,
      fun a ha => ?_⟩
    · refine Memory.store_of_not_mem _ _ ?_
      rw [haddr]
      omega
    · show (c.mem.store (c.linear .ds (d + v.text.length)) 1 x) a = _
      rw [haddr, Memory.store_one, ← Memory.write_append_singleton]
      by_cases heq : a = c₀.linear .ds d + v.text.length
      · rw [heq, Memory.set_same, Memory.set_same]
      · rw [Memory.set_of_ne _ _ heq, Memory.set_of_ne _ _ heq]
        exact h.mem a ha
  push c v n x h hx hn := by
    have hword := h.inside.word_sp
    have htop := h.inside.top
    have hpush : n ≤ c.word .sp := by omega
    refine ⟨h.inside.pushWith hpush hx, hn, fun r => ?_, h.seg, h.cr, fun a ha => ?_⟩
    · rw [← h.reg r]
      exact congrArg BitVec.toNat (Cpu.reg_pushWith_of_ne c _ _ _ r.real_ne_sp)
    · rw [← h.mem a ha]
      exact h.inside.stack.mem_pushWith (h.inside.push_room hpush) (by omega)
  peek c v n x fs h hstack := by
    have hinside := h.inside
    rw [hstack] at hinside
    exact hinside.stack.peek
  drop c v n x fs h hstack := by
    have hinside := h.inside
    have hbytes := h.room
    rw [hstack] at hinside hbytes
    rw [bytes_cons] at hbytes
    refine ⟨hinside.drop, Nat.le_trans (Nat.le_add_left _ _) hbytes, fun r => ?_, h.seg, h.cr,
      h.mem⟩
    rw [← h.reg r]
    exact congrArg BitVec.toNat (Cpu.reg_drop_of_ne c _ _ r.real_ne_sp)

/-- The view at the start of the procedure. -/
def view16 (c₀ : Cpu) : View := ⟨fun r => (c₀.reg r.real).toNat, [], []⟩

theorem rep16_start (hroom : procBytes + bodyBytes ≤ c₀.word .sp) :
    Rep16 c₀ d (procStart 0 c₀) (view16 c₀) where
  inside := .start (by omega)
  room := Nat.zero_le _
  reg r := congrArg BitVec.toNat (reg_procStart r.real_ne_sp r.real_ne_bp)
  seg := seg_procStart
  cr := cr_procStart
  mem a ha := by
    rw [view16, Memory.write_nil]
    exact mem_procStart (by omega) (by omega)

end

section

variable {c : Cpu} {args : Arguments} {ret : BitVec 16} {len fuel : Nat}

/-- What the procedure takes for the number, and for the base. -/
def printedNumber (args : Arguments) (c : Cpu) : Nat :=
  (c.reg .ax).toNat / 2 ^ 16 * 2 ^ 16 + args.number.toNat

def printedBase (args : Arguments) (c : Cpu) : Nat :=
  (c.reg .bx).toNat / 2 ^ 16 * 2 ^ 16 + args.base.toNat

/-- The bytes of the stack that the macro uses. -/
def macroBytes : Nat := 16 + 2 + (procBytes + bodyBytes)

/-- The text of a number, by the other arguments. -/
def Arguments.text (args : Arguments) (n : Nat) : List UInt8 :=
  NumberToString.text args.base.toNat args.padding.toNat (args.withPrefix.toNat = 1) n

/-- What the macro should do, whatever the upper halves of the registers are. -/
def Prints16 (args : Arguments) (ret : BitVec 16) (c : Cpu) : Prop :=
  ∃ c', (∀ fuel, 32 ≤ fuel → macro16 args ret fuel c = some c') ∧
    c'.mem.Holds (c.linear .ds args.destination.toNat) (args.text args.number.toNat ++ [0])

/-! ### The entry of the procedure -/

theorem seg_moveArguments : (moveArguments args c).seg = c.seg := by
  simp only [moveArguments, Cpu.seg_setWord]

theorem mem_moveArguments : (moveArguments args c).mem = c.mem := by
  simp only [moveArguments, Cpu.mem_setWord]

theorem sp_moveArguments : (moveArguments args c).reg .sp = c.reg .sp := by
  simp [moveArguments]

/-- The stack in front of the call. -/
theorem moved_stacked (hroom : macroBytes ≤ c.word .sp) :
    Stacked c (moveArguments args (pusha c)) (pushaSlots.map (Slot.saved c)).reverse := by
  have hbytes : bytes (pushaSlots.map (Slot.saved c)) = 16 := rfl
  rw [macroBytes] at hroom
  have hpusha : Stacked c (pusha c) ((pushaSlots.map (Slot.saved c)).reverse ++ []) :=
    (Stacked.refl c).pushAll (by rw [hbytes, bytes_nil]; omega)
  rw [List.append_nil] at hpusha
  refine hpusha.keep ?_ sp_moveArguments fun a _ _ => ?_
  · rw [seg_moveArguments]
  · rw [mem_moveArguments]

theorem bytes_moved : bytes (pushaSlots.map (Slot.saved c)).reverse = 16 := rfl

theorem enter16_stacked (hroom : macroBytes ≤ c.word .sp) :
    Stacked c (enter16 args ret c)
      ((2, ret.toNat) :: (pushaSlots.map (Slot.saved c)).reverse) := by
  refine (moved_stacked hroom).pushWith ?_ ret.isLt
  rw [bytes_moved]
  rw [macroBytes] at hroom
  omega

theorem seg_enter16 : (enter16 args ret c).seg = c.seg := by
  rw [enter16, Cpu.seg_pushWith, seg_moveArguments, pusha, Cpu.seg_pushAll]

theorem mem_enter16 (hroom : macroBytes ≤ c.word .sp) {a : Nat}
    (ha : a + 18 < c.top ∨ c.top ≤ a) : (enter16 args ret c).mem a = c.mem a := by
  have hmoved := @moved_stacked c args hroom
  have htop := hmoved.top
  have hbytes : bytes (pushaSlots.map (Slot.saved c)) = 16 := rfl
  rw [bytes_moved] at htop
  rw [macroBytes] at hroom
  rw [enter16, hmoved.mem_pushWith (by rw [bytes_moved]; omega) (by omega), mem_moveArguments,
    pusha]
  exact (Stacked.refl c).mem_pushAll (by rw [hbytes, bytes_nil]; omega) (by rw [hbytes]; omega)

theorem reg_enter16 {r : Real.Reg} (hr : r ≠ .sp) :
    (enter16 args ret c).reg r = (moveArguments args (pusha c)).reg r :=
  Cpu.reg_pushWith_of_ne _ r 2 _ hr

theorem ax_enter16 : ((enter16 args ret c).reg .ax).toNat = printedNumber args c := by
  have hpusha : (pusha c).reg .ax = c.reg .ax := Cpu.reg_pushAll_of_ne _ .ax _ _ nofun
  have hmove : (moveArguments args (pusha c)).reg .ax
      = ((pusha c).setWord .ax args.number.toNat).reg .ax := by simp [moveArguments]
  rw [reg_enter16 (r := .ax) nofun, hmove, Cpu.reg_setWord, hpusha, printedNumber,
    Nat.mod_eq_of_lt args.number.isLt]

theorem bx_enter16 : ((enter16 args ret c).reg .bx).toNat = printedBase args c := by
  have hmove : (moveArguments args (pusha c)).reg .bx
      = (((pusha c).setWord .ax args.number.toNat).setWord .bx args.base.toNat).reg .bx := by
    simp [moveArguments]
  have hpusha : ((pusha c).setWord .ax args.number.toNat).reg .bx = c.reg .bx := by
    simp [pusha]
  rw [reg_enter16 (r := .bx) nofun, hmove, Cpu.reg_setWord, hpusha, printedBase,
    Nat.mod_eq_of_lt args.base.isLt]

/-- The other arguments are read as words. -/
theorem words_enter16 : (enter16 args ret c).word .cx = args.padding.toNat ∧
    (enter16 args ret c).word .dx = args.withPrefix.toNat ∧
    (enter16 args ret c).word .di = args.destination.toNat := by
  have hpush : ∀ r, r ≠ .sp → (enter16 args ret c).word r = (moveArguments args (pusha c)).word r :=
    fun r hr => Cpu.word_pushWith_of_ne _ r 2 _ hr
  refine ⟨?_, ?_, ?_⟩
  · rw [hpush .cx nofun]
    simp [moveArguments, Nat.mod_eq_of_lt args.padding.isLt]
  · rw [hpush .dx nofun]
    simp [moveArguments, Nat.mod_eq_of_lt args.withPrefix.isLt]
  · rw [hpush .di nofun]
    simp [moveArguments, Nat.mod_eq_of_lt args.destination.isLt]

theorem mem_popAll (ts : List Slot) : (c.popAll ts).mem = c.mem := by
  induction ts generalizing c with
  | nil => rfl
  | cons t ts ih => rw [Cpu.popAll, ih, Cpu.pop, Slot.mem_assign, Cpu.mem_drop]

/-! ### The whole macro -/

/-- The macro leaves the memory that the body of the procedure leaves. -/
theorem mem_macro16 {c' : Cpu} {v : View} {d : Nat} (hrep : Rep16 (enter16 args ret c) d c' v) :
    (popa ((procEnd c').drop 2)).mem = c'.mem := by
  rw [popa, mem_popAll, Cpu.mem_drop, hrep.inside.finish]

/-- The macro around the procedure. -/
theorem macro16_eq {c' : Cpu} (hbody : mode16.numberToString fuel (enter16 args ret c) = some c') :
    macro16 args ret fuel c = some (popa (c'.drop 2)) := by
  rw [macro16, numberToString16, hbody]
  rfl

theorem enter16_room (hroom : macroBytes ≤ c.word .sp) :
    procBytes + bodyBytes ≤ (enter16 args ret c).word .sp := by
  have hword := (@enter16_stacked c args ret hroom).word
  rw [bytes_cons, bytes_moved] at hword
  rw [macroBytes] at hroom
  omega

theorem linear_enter16 (off : Nat) : (enter16 args ret c).linear .ds off = c.linear .ds off := by
  rw [Cpu.linear, seg_enter16, Cpu.linear]

theorem top_enter16 (hroom : macroBytes ≤ c.word .sp) : (enter16 args ret c).top + 18 = c.top := by
  have htop := (@enter16_stacked c args ret hroom).top
  rw [bytes_cons, bytes_moved] at htop
  omega

theorem buffer_enter16 (hroom : macroBytes ≤ c.word .sp)
    (hbuffer : Buffer c args.destination.toNat len macroBytes) :
    Buffer (enter16 args ret c) args.destination.toNat len (procBytes + bodyBytes) := by
  have htop := @top_enter16 c args ret hroom
  refine ⟨hbuffer.fits, fun i hi => ?_⟩
  have hapart := hbuffer.apart i hi
  rw [macroBytes] at hapart
  rw [linear_enter16]
  omega

/-- With nothing in the upper half of `EBX` the macro prints the whole of `EAX`. -/
theorem macro16_prints (hbase : args.base.toNat ∈ bases) (hp : args.padding.toNat < 2 ^ 15)
    (hroom : macroBytes ≤ c.word .sp)
    (hbuffer : Buffer c args.destination.toNat len macroBytes)
    (hlen : (args.text (printedNumber args c)).length < len) (hbx : (c.reg .bx).toNat < 2 ^ 16) :
    ∃ c', (∀ fuel, 32 ≤ fuel → macro16 args ret fuel c = some c') ∧
      c'.mem.Holds (c.linear .ds args.destination.toNat)
        (args.text (printedNumber args c) ++ [0]) := by
  have hroom₀ := @enter16_room c args ret hroom
  have hbuffer₀ := @buffer_enter16 c args ret len hroom hbuffer
  have htop := @top_enter16 c args ret hroom
  have L := laws16 hroom₀ hbuffer₀
  have hrep := @rep16_start (enter16 args ret c) args.destination.toNat hroom₀
  obtain ⟨hcx, hdx, hdi⟩ := @words_enter16 c args ret
  have hax : (view16 (enter16 args ret c)).reg .ax = printedNumber args c :=
    @ax_enter16 c args ret
  have hbx₀ : (view16 (enter16 args ret c)).reg .bx = args.base.toNat := by
    refine (@bx_enter16 c args ret).trans ?_
    rw [printedBase, Nat.div_eq_of_lt hbx, Nat.zero_mul, Nat.zero_add]
  have htext : text ((view16 (enter16 args ret c)).reg .bx)
      ((view16 (enter16 args ret c)).reg .cx % 2 ^ 16)
      ((view16 (enter16 args ret c)).reg .dx % 2 ^ 16 = 1)
      ((view16 (enter16 args ret c)).reg .ax) = args.text (printedNumber args c) := by
    rw [hbx₀, hax, Arguments.text, ← hcx, ← hdx]
    rfl
  obtain ⟨c', v', hbody, hrep', -, htext'⟩ := numberToString_eq L hrep rfl rfl hdi
    (by rw [hbx₀]; exact hbase) (fun _ => by rw [← hcx] at hp; exact hp) (by decide) (by decide)
    (by rw [show mode16.offsetBits = 16 from rfl, htext]; exact hlen)
  rw [show mode16.offsetBits = 16 from rfl, htext] at htext'
  refine ⟨popa ((procEnd c').drop 2), fun fuel hfuel => macro16_eq (hbody fuel hfuel), ?_⟩
  · rw [mem_macro16 hrep']
    refine Memory.Holds.congr (m := (enter16 args ret c).mem.write
      (c.linear .ds args.destination.toNat) v'.text) ?_ fun i hi => ?_
    · rw [htext']
      exact Memory.holds_write
    · have hapart := hbuffer₀.apart i (by
        rw [List.length_append, List.length_singleton] at hi
        omega)
      have hmem := hrep'.mem _ hapart
      rw [linear_enter16] at hmem
      exact hmem

/-- With something there it prints nothing. -/
theorem macro16_silent (hroom : macroBytes ≤ c.word .sp)
    (hbuffer : Buffer c args.destination.toNat len macroBytes)
    (hbx : 2 ^ 16 ≤ (c.reg .bx).toNat) :
    ∃ c', (∀ fuel, macro16 args ret fuel c = some c') ∧
      ∀ i < len, c'.mem (c.linear .ds args.destination.toNat + i)
        = c.mem (c.linear .ds args.destination.toNat + i) := by
  have hroom₀ := @enter16_room c args ret hroom
  have hbuffer₀ := @buffer_enter16 c args ret len hroom hbuffer
  have htop := @top_enter16 c args ret hroom
  have L := laws16 hroom₀ hbuffer₀
  have hrep := @rep16_start (enter16 args ret c) args.destination.toNat hroom₀
  have hother : (view16 (enter16 args ret c)).reg .bx ∉ bases := by
    rw [show (view16 (enter16 args ret c)).reg .bx = printedBase args c from
      @bx_enter16 c args ret, printedBase]
    simp only [bases, List.mem_cons, List.not_mem_nil, or_false]
    omega
  refine ⟨popa ((procEnd (procStart 0 (enter16 args ret c))).drop 2),
    fun fuel => macro16_eq (numberToString_of_not_mem L hrep hother), fun i hi => ?_⟩
  · have hapart := hbuffer₀.apart i hi
    have hapart' := hbuffer.apart i hi
    rw [linear_enter16] at hapart
    rw [macroBytes] at hapart'
    rw [mem_macro16 hrep, hrep.mem _ hapart, view16, Memory.write_nil]
    exact mem_enter16 hroom (by omega)

/-- A larger number does not have a shorter text. -/
theorem Arguments.length_text_le (args : Arguments) {n n' : Nat} (h : n ≤ n') :
    (args.text n).length ≤ (args.text n').length := by
  rw [Arguments.text, Arguments.text, text_append, text_append _ n', List.length_append,
    List.length_append]
  exact Nat.add_le_add_left (NumberToString.length_text_le h) _

/-- The macro prints what it should if the upper halves of `EAX` and `EBX` are zero, or if the
one of `EBX` is not, so that nothing is printed, and the string is there already. -/
theorem macro16_prints_iff (args : Arguments) (ret : BitVec 16) (c : Cpu) (len : Nat)
    (hbase : args.base.toNat ∈ bases) (hp : args.padding.toNat < 2 ^ 15)
    (hroom : macroBytes ≤ c.word .sp)
    (hbuffer : Buffer c args.destination.toNat len macroBytes)
    (hlen : (args.text (printedNumber args c)).length < len) :
    Prints16 args ret c ↔
      (c.reg .ax).toNat < 2 ^ 16 ∧ (c.reg .bx).toNat < 2 ^ 16 ∨
        2 ^ 16 ≤ (c.reg .bx).toNat ∧ c.mem.Holds (c.linear .ds args.destination.toNat)
          (args.text args.number.toNat ++ [0]) := by
  have hshort : (args.text args.number.toNat ++ [0]).length ≤ len := by
    have hle := args.length_text_le (show args.number.toNat ≤ printedNumber args c from
      Nat.le_add_left _ _)
    rw [List.length_append, List.length_singleton]
    omega
  rcases Nat.lt_or_ge (c.reg .bx).toNat (2 ^ 16) with hbx | hbx
  · obtain ⟨c', hrun, hholds⟩ := @macro16_prints c args ret len hbase hp hroom hbuffer hlen hbx
    constructor
    · rintro ⟨c'', hrun', hholds'⟩
      have hsame : c' = c'' := Option.some.inj
        ((hrun 32 (Nat.le_refl 32)).symm.trans (hrun' 32 (Nat.le_refl 32)))
      rw [← hsame] at hholds'
      have heq := text_injective hbase (hholds.unique hholds' (zero_not_mem_text hbase)
        (zero_not_mem_text hbase))
      rw [printedNumber] at heq
      refine Or.inl ⟨?_, hbx⟩
      omega
    · rintro (⟨hax, -⟩ | ⟨hge, -⟩)
      · have hnumber : printedNumber args c = args.number.toNat := by
          rw [printedNumber, Nat.div_eq_of_lt hax, Nat.zero_mul, Nat.zero_add]
        rw [hnumber] at hholds
        exact ⟨c', hrun, hholds⟩
      · exact absurd hbx (Nat.not_lt.mpr hge)
  · obtain ⟨c', hrun, hkept⟩ := @macro16_silent c args ret len hroom hbuffer hbx
    have hiff : c'.mem.Holds (c.linear .ds args.destination.toNat)
        (args.text args.number.toNat ++ [0]) ↔ c.mem.Holds (c.linear .ds args.destination.toNat)
          (args.text args.number.toNat ++ [0]) :=
      ⟨fun h => h.congr fun i hi => (hkept i (Nat.lt_of_lt_of_le hi hshort)).symm,
        fun h => h.congr fun i hi => hkept i (Nat.lt_of_lt_of_le hi hshort)⟩
    constructor
    · rintro ⟨c'', hrun', hholds'⟩
      have hsame : c' = c'' := Option.some.inj ((hrun 32).symm.trans (hrun' 32 (Nat.le_refl 32)))
      rw [← hsame, hiff] at hholds'
      exact Or.inr ⟨hbx, hholds'⟩
    · rintro (⟨-, hlt⟩ | ⟨-, hholds⟩)
      · exact absurd hlt (Nat.not_lt.mpr hbx)
      · exact ⟨c', fun fuel _ => hrun fuel, hiff.mpr hholds⟩

end

/-- A processor with the stack below `0x7000` and zeros everywhere but in `EAX`. -/
def withEax (eax : BitVec 32) : Cpu where
  reg
    | .ax => eax
    | .sp => 0x7000
    | _ => 0
  seg _ := 0
  flags := 0
  cr _ := 0
  mem _ := 0

/-- `@XEOS.16.string.numberToString 1, 16, 0, 0, 0x8000`. -/
def printOne : Arguments := ⟨1, 16, 0, 0, 0x8000⟩

theorem buffer_withEax (eax : BitVec 32) :
    Buffer (withEax eax) printOne.destination.toNat 16 macroBytes := by
  have htop : (withEax eax).top = 0x7000 := by simp [Cpu.top, Cpu.linear, Cpu.word, withEax]
  have hlinear : (withEax eax).linear .ds printOne.destination.toNat = 0x8000 := by
    simp [Cpu.linear, withEax, printOne]
  refine ⟨by simp [printOne], fun i _ => Or.inr ?_⟩
  rw [htop, hlinear]
  omega

theorem macro16_prints_iff_one : Prints16 printOne 0 (withEax 0x1) :=
  (macro16_prints_iff printOne 0 (withEax 0x1) 16 (by decide) (by decide) (by decide)
    (buffer_withEax _) (by decide)).mpr (Or.inl ⟨by decide, by decide⟩)

/-- With `0x10000` in `EAX` the text of the number 1 is `10001`. -/
theorem not_prints_upper_half :
    (∃ c', (∀ fuel, 32 ≤ fuel → macro16 printOne 0 fuel (withEax 0x10000) = some c') ∧
      c'.mem.Holds 0x8000 [0x31, 0x30, 0x30, 0x30, 0x31, 0]) ∧
    ¬ Prints16 printOne 0 (withEax 0x10000) := by
  have hprints := @macro16_prints (withEax 0x10000) printOne 0 16
    (by decide) (by decide) (by decide) (buffer_withEax _) (by decide) (by decide)
  have htext : printOne.text (printedNumber printOne (withEax 0x10000))
      = [0x31, 0x30, 0x30, 0x30, 0x31] := by decide
  rw [htext] at hprints
  refine ⟨hprints, ?_⟩
  rintro ⟨c'', hrun', hholds'⟩
  obtain ⟨c', hrun, hholds⟩ := hprints
  have hsame : c' = c'' := Option.some.inj
    ((hrun 32 (Nat.le_refl 32)).symm.trans (hrun' 32 (Nat.le_refl 32)))
  rw [← hsame] at hholds'
  have heq := @Memory.Holds.unique _ _ [0x31, 0x30, 0x30, 0x30, 0x31] [0x31] hholds hholds'
    (by decide) (by decide)
  exact absurd heq (by decide)

end NumberToString

end Xeos.Boot
