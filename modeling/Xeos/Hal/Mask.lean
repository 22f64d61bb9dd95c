import Mathlib.Data.List.Induction
import Mathlib.Data.Nat.Bitwise
import Xeos.Hal.Pic

/-!
# Masking the interrupt lines

`XEOS_HAL_PIC_MaskIRQLine`, `XEOS_HAL_PIC_UnmaskIRQLine` and `XEOS_HAL_PIC_IRQLineMasked`.
All three find the controller of a line and the number of the line there, which is its bit
in the mask register.

The two setters use that bit.  The query reads the register of the controller, but tests it
with the number of the line among all sixteen, so it sees no line of the second controller.
-/

namespace Xeos.Hal.Pic

/-- The controller that the `switch` selects. -/
def controllerOf (irq : Irq) : Controller :=
  if irq.val < 8 then .controller1 else .controller2

/-- The `line` that the `switch` selects. -/
def lineAt (irq : Irq) : UInt8 :=
  if irq.val < 8 then UInt8.ofNat irq.val else UInt8.ofNat irq.val - 8

def MaskIRQLine (irq : Irq) (s : Chips) : Chips :=
  let value := PortIn (GetRegister (controllerOf irq) .data) s
  let value := value ||| UInt8.ofNat (1 <<< (lineAt irq).toNat)
  PortOut (GetRegister (controllerOf irq) .data) value s

def UnmaskIRQLine (irq : Irq) (s : Chips) : Chips :=
  let value := PortIn (GetRegister (controllerOf irq) .data) s
  let value := value &&& ~~~ UInt8.ofNat (1 <<< (lineAt irq).toNat)
  PortOut (GetRegister (controllerOf irq) .data) value s

def IRQLineMasked (irq : Irq) (s : Chips) : Bool :=
  let value := PortIn (GetRegister (controllerOf irq) .data) s
  decide (value.toNat &&& 1 <<< irq.val ≠ 0)

/-! ## The bit of a line -/

/-- No initialisation sequence is under way, so a data write is a write of the mask. -/
structure Configured (s : Chips) : Prop where
  controller1 : s.controller1.expect = .mask
  controller2 : s.controller2.expect = .mask

/-- The mask register of a controller. -/
def maskOf : Controller → Chips → UInt8
  | .controller1, s => s.controller1.mask
  | .controller2, s => s.controller2.mask

/-- The line is masked. -/
def lineMask (s : Chips) (i : Irq) : Bool :=
  (maskOf (controllerOf i) s).toNat.testBit (lineAt i).toNat

theorem PortIn_data (c : Controller) (s : Chips) : PortIn (GetRegister c .data) s = maskOf c s := by
  cases c <;> rfl

/-- A data write replaces the mask of its controller. -/
theorem PortOut_data {s : Chips} (hs : Configured s) (c c' : Controller) (v : UInt8) :
    Configured (PortOut (GetRegister c .data) v s) ∧
      maskOf c' (PortOut (GetRegister c .data) v s) = if c' = c then v else maskOf c' s := by
  obtain ⟨⟨base1, mask1, expect1⟩, ⟨base2, mask2, expect2⟩⟩ := s
  obtain ⟨rfl, rfl⟩ := hs
  cases c <;> cases c' <;> exact ⟨⟨rfl, rfl⟩, rfl⟩

theorem lineAt_lt (i : Irq) : (lineAt i).toNat < 8 := by
  revert i
  decide

/-- Two lines with one bit are the same. -/
theorem lineAt_eq_iff {i j : Irq} (hc : controllerOf j = controllerOf i) :
    (lineAt j).toNat = (lineAt i).toNat ↔ j = i := by
  revert i j
  decide

theorem testBit_bit {k j : Nat} (hk : k < 8) (hj : j < 8) :
    (UInt8.ofNat (1 <<< k)).toNat.testBit j = decide (j = k) := by
  have hall : ∀ k j : Fin 8,
      (UInt8.ofNat (1 <<< k.val)).toNat.testBit j.val = decide (j.val = k.val) := by
    decide
  exact hall ⟨k, hk⟩ ⟨j, hj⟩

theorem testBit_not_bit {k j : Nat} (hk : k < 8) (hj : j < 8) :
    (~~~ UInt8.ofNat (1 <<< k)).toNat.testBit j = !decide (j = k) := by
  have hall : ∀ k j : Fin 8,
      (~~~ UInt8.ofNat (1 <<< k.val)).toNat.testBit j.val = !decide (j.val = k.val) := by
    decide
  exact hall ⟨k, hk⟩ ⟨j, hj⟩

section Setters

variable {s : Chips} (hs : Configured s) (i j : Irq)
include hs

theorem MaskIRQLine_spec :
    Configured (MaskIRQLine i s) ∧ lineMask (MaskIRQLine i s) j = (decide (j = i) || lineMask s j) := by
  have hout := PortOut_data hs (controllerOf i) (controllerOf j)
    (maskOf (controllerOf i) s ||| UInt8.ofNat (1 <<< (lineAt i).toNat))
  unfold MaskIRQLine lineMask
  simp only [PortIn_data]
  refine ⟨hout.1, ?_⟩
  rw [hout.2]
  by_cases hc : controllerOf j = controllerOf i
  · rw [if_pos hc, UInt8.toNat_or, Nat.testBit_or, testBit_bit (lineAt_lt i) (lineAt_lt j),
      decide_eq_decide.mpr (lineAt_eq_iff hc), hc, Bool.or_comm]
  · have hne : j ≠ i := fun h => hc (h ▸ rfl)
    rw [if_neg hc, decide_eq_false hne, Bool.false_or]

theorem UnmaskIRQLine_spec :
    Configured (UnmaskIRQLine i s) ∧
      lineMask (UnmaskIRQLine i s) j = (!decide (j = i) && lineMask s j) := by
  have hout := PortOut_data hs (controllerOf i) (controllerOf j)
    (maskOf (controllerOf i) s &&& ~~~ UInt8.ofNat (1 <<< (lineAt i).toNat))
  unfold UnmaskIRQLine lineMask
  simp only [PortIn_data]
  refine ⟨hout.1, ?_⟩
  rw [hout.2]
  by_cases hc : controllerOf j = controllerOf i
  · rw [if_pos hc, UInt8.toNat_and, Nat.testBit_and, testBit_not_bit (lineAt_lt i) (lineAt_lt j),
      decide_eq_decide.mpr (lineAt_eq_iff hc), hc, Bool.and_comm]
  · have hne : j ≠ i := fun h => hc (h ▸ rfl)
    rw [if_neg hc, decide_eq_false hne, Bool.not_false, Bool.true_and]

end Setters

/-- A register of eight bits has no bit 8. -/
theorem IRQLineMasked_eq (s : Chips) (i : Irq) :
    IRQLineMasked i s = (decide (i.val < 8) && lineMask s i) := by
  have hand : ∀ v k : Nat, decide (v &&& 1 <<< k ≠ 0) = v.testBit k := by
    intro v k
    rw [Nat.one_shiftLeft, Nat.and_two_pow]
    cases hbit : v.testBit k with
    | false => rw [Bool.toNat_false, Nat.zero_mul, decide_eq_false (not_not.mpr rfl)]
    | true =>
      have hpos : 0 < 2 ^ k := Nat.two_pow_pos k
      rw [Bool.toNat_true, Nat.one_mul, decide_eq_true (by omega)]
  unfold IRQLineMasked lineMask
  simp only [PortIn_data, hand]
  by_cases hlt : i.val < 8
  · have hline : (lineAt i).toNat = i.val := by
      revert i
      decide
    rw [hline, decide_eq_true hlt, Bool.true_and]
  · rw [decide_eq_false hlt, Bool.false_and]
    refine Nat.testBit_lt_two_pow ?_
    have hpow : 2 ^ 8 ≤ 2 ^ i.val := Nat.pow_le_pow_right (by omega) (by omega)
    exact Nat.lt_of_lt_of_le (UInt8.toNat_lt _) hpow

/-! ## Sequences of calls -/

/-- A call of one of the setters. -/
inductive MaskCall where
  | mask (irq : Irq)
  | unmask (irq : Irq)
deriving DecidableEq, Repr

namespace MaskCall

def irq : MaskCall → Irq
  | mask i => i
  | unmask i => i

def isMask : MaskCall → Bool
  | mask _ => true
  | unmask _ => false

def run : MaskCall → Chips → Chips
  | mask i => MaskIRQLine i
  | unmask i => UnmaskIRQLine i

end MaskCall

def runCalls (calls : List MaskCall) (s : Chips) : Chips :=
  calls.foldl (fun s c => c.run s) s

/-- What the last call on a line asked for, or what the line was before them all. -/
def maskAfter (s : Chips) (calls : List MaskCall) (i : Irq) : Bool :=
  match (calls.filter fun c => c.irq = i).getLast? with
  | some c => c.isMask
  | none => lineMask s i

theorem MaskCall.run_spec {s : Chips} (hs : Configured s) (c : MaskCall) (i : Irq) :
    Configured (c.run s) ∧
      lineMask (c.run s) i = if c.irq = i then c.isMask else lineMask s i := by
  have heq : decide (i = c.irq) = decide (c.irq = i) := decide_eq_decide.mpr eq_comm
  cases c with
  | mask j =>
    obtain ⟨hconf, hline⟩ := MaskIRQLine_spec hs j i
    refine ⟨hconf, hline.trans ?_⟩
    change (decide (i = j) || lineMask s i) = if j = i then true else lineMask s i
    by_cases h : i = j
    · rw [decide_eq_true h, if_pos h.symm, Bool.true_or]
    · rw [decide_eq_false h, if_neg (Ne.symm h), Bool.false_or]
  | unmask j =>
    obtain ⟨hconf, hline⟩ := UnmaskIRQLine_spec hs j i
    refine ⟨hconf, hline.trans ?_⟩
    change (!decide (i = j) && lineMask s i) = if j = i then false else lineMask s i
    by_cases h : i = j
    · rw [decide_eq_true h, if_pos h.symm, Bool.not_true, Bool.false_and]
    · rw [decide_eq_false h, if_neg (Ne.symm h), Bool.not_false, Bool.true_and]

/-- The registers follow the last call on each line. -/
theorem runCalls_spec {s : Chips} (hs : Configured s) (calls : List MaskCall) (i : Irq) :
    Configured (runCalls calls s) ∧ lineMask (runCalls calls s) i = maskAfter s calls i := by
  induction calls using List.reverseRecOn with
  | nil => exact ⟨hs, rfl⟩
  | append_singleton calls c ih =>
    have hrun : runCalls (calls ++ [c]) s = c.run (runCalls calls s) := by
      rw [runCalls, List.foldl_append]
      rfl
    obtain ⟨hconf, hline⟩ := MaskCall.run_spec ih.1 c i
    rw [hrun]
    refine ⟨hconf, hline.trans ?_⟩
    unfold maskAfter
    rw [List.filter_append]
    by_cases hc : c.irq = i
    · rw [if_pos hc, List.filter_cons_of_pos (by simpa using hc), List.filter_nil,
        List.getLast?_concat]
    · rw [if_neg hc, List.filter_cons_of_neg (by simpa using hc), List.filter_nil,
        List.append_nil]
      exact ih.2

/-- The query answers after any calls, but for a masked line of the second controller. -/
theorem IRQLineMasked_runCalls_iff {s : Chips} (hs : Configured s) (calls : List MaskCall)
    (i : Irq) :
    IRQLineMasked i (runCalls calls s) = maskAfter s calls i
      ↔ i.val < 8 ∨ maskAfter s calls i = false := by
  rw [IRQLineMasked_eq, (runCalls_spec hs calls i).2]
  by_cases hlt : i.val < 8
  · rw [decide_eq_true hlt, Bool.true_and]
    exact ⟨fun _ => Or.inl hlt, fun _ => rfl⟩
  · rw [decide_eq_false hlt, Bool.false_and]
    exact ⟨fun h => Or.inr h.symm, fun h => (h.resolve_left hlt).symm⟩

/-- The controllers after `XEOS_Main` has moved their vectors, with every line masked. -/
def remapped : Chips := Remap 0x20 0x28 ⟨⟨0, 0xFF, .mask⟩, ⟨0, 0xFF, .mask⟩⟩

theorem IRQLineMasked_runCalls_iff_remapped :
    IRQLineMasked 1 (runCalls [.unmask 1, .mask 12, .mask 1] remapped)
        = maskAfter remapped [.unmask 1, .mask 12, .mask 1] 1
      ↔ (1 : Irq).val < 8 ∨ maskAfter remapped [.unmask 1, .mask 12, .mask 1] 1 = false :=
  IRQLineMasked_runCalls_iff ⟨rfl, rfl⟩ _ _

/-- A line of the second controller that has just been masked. -/
theorem not_masked_line12 :
    ¬ IRQLineMasked 12 (runCalls [.mask 12] remapped) = maskAfter remapped [.mask 12] 12 := by
  decide

end Xeos.Hal.Pic
