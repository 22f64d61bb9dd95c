import Mathlib.Tactic.IntervalCases
import Xeos.C99.Memmove
import Xeos.Lib.Bytes
import Xeos.Video.Printf

/-!
# The buffer of the digits

The integer conversions build their text in `buf`, an array of 30 characters: each round of
the loop over the digits moves the ones it has by one place, the padding moves them once
more, and a last loop prints the characters up to the NUL.

`putNumber_iff` says that these loops print the text `padDigits` of `digits`, and
`numberBuffer_eq` that they write to no byte but the ones of the text.
-/

namespace Xeos.Video.Printf

open Lib C99

/-- The buffer in the memory: the pointer `s2` and the number of digits. -/
structure DigitBuffer where
  memory : Memory
  s2 : Nat
  digits : Nat

/-- A round of the loop over the digits, at the pointer `s1`. -/
def DigitBuffer.shift (s1 : Nat) (c : UInt8) (b : DigitBuffer) : DigitBuffer :=
  let m := if 0 < b.digits then (memmove (s1 + 1) s1 b.digits b.memory).2 else b.memory
  { memory := m.set s1 c, s2 := b.s2 + 1, digits := b.digits + 1 }

/-- The `do ... while( n > 0 )` loop. -/
def digitLoop (radix : Radix) (intType s1 n : Nat) (b : DigitBuffer) : DigitBuffer :=
  if n / radix.toNat = 0 then b.shift s1 (digitChar intType (n % radix.toNat))
  else digitLoop radix intType s1 (n / radix.toNat)
    (b.shift s1 (digitChar intType (n % radix.toNat)))
termination_by n
decreasing_by
  cases radix <;> simp only [Radix.toNat] at * <;> omega

/-- The padding. -/
def padBuffer (d : Directive) (s1 : Nat) (b : DigitBuffer) : Memory :=
  if (b.digits : Int) < d.minimumWidth.toInt then
    let minimumWidth := (d.minimumWidth.toInt - b.digits).toNat
    if d.align then forLoop (fun i m => m.set (b.s2 + i) d.pad) minimumWidth b.memory
    else (memmove (s1 + minimumWidth) s1 b.digits b.memory).2.fill s1 minimumWidth d.pad
  else b.memory

/-- The memory when the text is printed. -/
def numberBuffer (d : Directive) (radix : Radix) (intType n buf : Nat) (m : Memory) : Memory :=
  padBuffer d buf (digitLoop radix intType buf n ⟨m.fill buf bufferSize 0, buf, 0⟩)

/-- `while( *( s1 ) != 0 )`. -/
def putNumberStep (cfg : Config) (m : Memory) : Nat × Engine → (Nat × Engine) ⊕ Engine
  | (s1, s) => if m s1 ≠ 0 then .inl (s1 + 1, s.put cfg (m s1)) else .inr s

/-- The digits of `n` go through the buffer at `buf` to the output. -/
def PutNumber (cfg : Config) (d : Directive) (radix : Radix) (intType n buf : Nat) (m : Memory)
    (s s' : Engine) : Prop :=
  Returns (putNumberStep cfg (numberBuffer d radix intType n buf m)) (buf, s) s'

section Buffer

variable {cfg : Config} {d : Directive} {radix : Radix} {intType n buf : Nat} {m : Memory}
variable {text : List UInt8}

/-- The buffer holds a text, in front of the pointer. -/
def DigitBuffer.of (m : Memory) (buf : Nat) (text : List UInt8) : DigitBuffer :=
  ⟨m.write buf text, buf + text.length, text.length⟩

theorem DigitBuffer.shift_of (c : UInt8) :
    (DigitBuffer.of m buf text).shift buf c = DigitBuffer.of m buf (c :: text) := by
  unfold shift of
  simp only [memmove_eq_copy, List.length_cons, Nat.add_assoc]
  by_cases hpos : 0 < text.length
  · rw [if_pos hpos, Memory.write_cons]
  · have hnil : text = [] := List.eq_nil_of_length_eq_zero (by omega)
    rw [if_neg hpos, ← Memory.write_cons, hnil, List.length_nil, Memory.copy_zero]

/-- The loop puts the digits in front of the ones that are there. -/
theorem digitLoop_of :
    digitLoop radix intType buf n (.of m buf text) = .of m buf (digits radix intType n text) := by
  have hradix : 8 ≤ radix.toNat := by
    cases radix <;> decide
  induction n using Nat.strong_induction_on generalizing text with
  | _ n ih =>
    unfold digitLoop digits
    by_cases hlast : n / radix.toNat = 0
    · rw [if_pos hlast, if_pos hlast, DigitBuffer.shift_of]
    · have hn : 0 < n := Nat.pos_of_ne_zero fun h => hlast (by rw [h, Nat.zero_div])
      rw [if_neg hlast, if_neg hlast, DigitBuffer.shift_of,
        ih _ (Nat.div_lt_self hn (by omega))]

/-- The padding behind the text. -/
theorem forLoop_pad (c : UInt8) (k : Nat) :
    forLoop (fun i m => m.set (buf + text.length + i) c) k (m.write buf text)
      = m.write buf (text ++ List.replicate k c) := by
  refine forLoop_inv _ k _ (fun k m' => m' = m.write buf (text ++ List.replicate k c)) ?_ ?_
  · rw [List.replicate_zero, List.append_nil]
  · rintro k m' _ rfl
    have hlength : buf + text.length + k = buf + (text ++ List.replicate k c).length := by
      rw [List.length_append, List.length_replicate, Nat.add_assoc]
    show (m.write buf (text ++ List.replicate k c)).set (buf + text.length + k) c = _
    rw [hlength, Memory.write_append_singleton, List.append_assoc, ← List.replicate_succ']

theorem padBuffer_of : padBuffer d buf (.of m buf text) = m.write buf (padDigits d text) := by
  unfold padBuffer padDigits DigitBuffer.of
  simp only [memmove_eq_copy]
  by_cases hlt : (text.length : Int) < d.minimumWidth.toInt
  · rw [if_pos hlt]
    cases d.align with
    | true => exact forLoop_pad d.pad _
    | false => exact Memory.write_replicate_append d.pad _
  · have hzero : (d.minimumWidth.toInt - text.length).toNat = 0 := by omega
    rw [if_neg hlt, hzero, List.replicate_zero, List.append_nil, List.nil_append, ite_self]

/-- Only the bytes of the text change, once the array is zero. -/
theorem numberBuffer_eq (d : Directive) (radix : Radix) (intType n buf : Nat) (m : Memory) :
    numberBuffer d radix intType n buf m
      = (m.fill buf bufferSize 0).write buf (padDigits d (digits radix intType n [])) := by
  have hof : (⟨m.fill buf bufferSize 0, buf, 0⟩ : DigitBuffer)
      = .of (m.fill buf bufferSize 0) buf [] := by
    unfold DigitBuffer.of
    rw [Memory.write_nil]
    rfl
  unfold numberBuffer
  rw [hof, digitLoop_of, padBuffer_of]

/-- The last loop prints the text up to the NUL behind it. -/
theorem returns_putNumberStep_iff {s s' : Engine} (hnul : m (buf + text.length) = 0)
    (hbytes : ∀ i (hi : i < text.length), m (buf + i) = text[i]) (hne : 0 ∉ text) :
    Returns (putNumberStep cfg m) (buf, s) s' ↔ s' = s.puts cfg text := by
  induction text generalizing buf s with
  | nil =>
    refine returns_iff_of_done ?_
    exact if_neg (not_not.mpr hnul)
  | cons c text ih =>
    have hhead : m buf = c := hbytes 0 (Nat.succ_pos _)
    have hc : m buf ≠ 0 := by
      rw [hhead]
      exact fun h => hne (h ▸ List.mem_cons_self)
    have hstep : putNumberStep cfg m (buf, s) = .inl (buf + 1, s.put cfg c) := by
      rw [putNumberStep, if_pos hc, hhead]
    rw [returns_iff_of_step hstep, ih]
    · rfl
    · rw [← hnul, List.length_cons]
      congr 1
      omega
    · intro i hi
      rw [show buf + 1 + i = buf + (i + 1) by omega]
      exact hbytes (i + 1) (Nat.succ_lt_succ hi)
    · exact fun h => hne (List.mem_cons_of_mem c h)

theorem digitChar_ne_zero (intType : Nat) {digit : Nat} (hdigit : digit < 16) :
    digitChar intType digit ≠ 0 := by
  unfold digitChar
  split_ifs <;> interval_cases digit <;> first | omega | decide

theorem zero_notMem_digits (htext : 0 ∉ text) : 0 ∉ digits radix intType n text := by
  have hradix : 8 ≤ radix.toNat ∧ radix.toNat ≤ 16 := by
    cases radix <;> decide
  induction n using Nat.strong_induction_on generalizing text with
  | _ n ih =>
    have hcons : 0 ∉ digitChar intType (n % radix.toNat) :: text := by
      have hlt := Nat.mod_lt n (show 0 < radix.toNat by omega)
      have hdigit := digitChar_ne_zero intType (show n % radix.toNat < 16 by omega)
      exact List.not_mem_cons_of_ne_of_not_mem hdigit.symm htext
    unfold digits
    by_cases hlast : n / radix.toNat = 0
    · rw [if_pos hlast]
      exact hcons
    · have hn : 0 < n := Nat.pos_of_ne_zero fun h => hlast (by rw [h, Nat.zero_div])
      rw [if_neg hlast]
      exact ih _ (Nat.div_lt_self hn (by omega)) hcons

theorem zero_notMem_padDigits (hpad : d.pad ≠ 0) (htext : 0 ∉ text) : 0 ∉ padDigits d text := by
  have hpads : ∀ k, 0 ∉ List.replicate k d.pad := by
    intro k hmem
    exact hpad (List.eq_of_mem_replicate hmem).symm
  unfold padDigits
  simp only
  split_ifs
  · exact List.not_mem_append htext (hpads _)
  · exact List.not_mem_append (hpads _) htext

/-- The loops over the buffer print the padded digits. -/
theorem putNumber_iff (hpad : d.pad ≠ 0)
    (hroom : (padDigits d (digits radix intType n [])).length < bufferSize) {s s' : Engine} :
    PutNumber cfg d radix intType n buf m s s'
      ↔ s' = s.puts cfg (padDigits d (digits radix intType n [])) := by
  unfold PutNumber
  rw [numberBuffer_eq]
  refine returns_putNumberStep_iff ?_ ?_
    (zero_notMem_padDigits hpad (zero_notMem_digits List.not_mem_nil))
  · rw [Memory.write_of_not_mem (by omega), Memory.fill_of_mem _ _ (by omega)]
  · intro i hi
    rw [Memory.write_of_mem hi, List.getD_eq_getElem _ _ hi]

end Buffer

end Xeos.Video.Printf
