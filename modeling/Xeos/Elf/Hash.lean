import Mathlib.Data.Nat.Bitwise
import Xeos.C99.String
import Xeos.Elf.Symbol
import Xeos.Lib.Bytes

/-!
# The hash of a symbol name

`ELF64_Hash` computes in an `unsigned long`, which has 64 bits on x86-64.  A sum can then go
beyond 32 bits.  The mask at the end of each round takes away what it leaves there, so the
result is the one of the System V ABI, whose words have 32 bits.  In wider words the recurrence
of the ABI keeps such a bit, and the result is its low word.
-/

namespace Xeos.Elf

open Lib Xeos.C99

/-- One round of `ELF64_Hash`, for the character `c`. -/
def hashRound (t : Target) (h c : Nat) : Nat :=
  let h := ((h <<< 4) % 2 ^ t.bits + c) % 2 ^ t.bits
  let g := h &&& 0xF0000000
  let h := if g ≠ 0 then h ^^^ (g >>> 24) else h
  h &&& 0x0FFFFFFF

/-- The loop of `ELF64_Hash`. -/
def hashLoop (t : Target) (m : Memory) : Nat → Nat → Nat → Option Nat
  | 0, _, _ => none
  | fuel + 1, name, h =>
    if m name ≠ 0 then hashLoop t m fuel (name + 1) (hashRound t h (m name).toNat) else some h

/-- `ELF64_Hash`, where `fuel` is a bound for the rounds. -/
def ELF64_Hash (t : Target) (m : Memory) (fuel name : Nat) : Option Nat := hashLoop t m fuel name 0

/-! ## The recurrence of the ABI -/

/-- One round, in words of `w` bits. -/
def sysvRound {w : Nat} (h : BitVec w) (c : UInt8) : BitVec w :=
  let h := (h <<< 4) + BitVec.ofNat w c.toNat
  let g := h &&& BitVec.ofNat w 0xF0000000
  let h := if g ≠ 0 then h ^^^ (g >>> 24) else h
  h &&& ~~~g

def sysvHash (w : Nat) (name : List UInt8) : BitVec w := name.foldl sysvRound 0

section Round

variable {t : Target} {h c i : Nat}

theorem Target.le_bits (t : Target) : 32 ≤ t.bits := by
  cases t <;> decide

/-- The bits 28 to 31. -/
theorem testBit_high (i : Nat) : Nat.testBit 0xF0000000 i = decide (28 ≤ i ∧ i < 32) := by
  rw [show 0xF0000000 = (2 ^ 4 - 1) * 2 ^ 28 from rfl, Nat.testBit_mul_two_pow,
    Nat.testBit_two_pow_sub_one, ← Bool.decide_and, decide_eq_decide]
  omega

/-- What is left of a sum: its low bits, with the bits 28 to 31 at the bits 4 to 7. -/
theorem testBit_hashRound (t : Target) (h c i : Nat) :
    (hashRound t h c).testBit i = (decide (i < 28) &&
      ((16 * h + c).testBit i ^^ (decide (4 ≤ i ∧ i < 8) && (16 * h + c).testBit (24 + i)))) := by
  have hbits := t.le_bits
  have hsum : ((h <<< 4) % 2 ^ t.bits + c) % 2 ^ t.bits = (16 * h + c) % 2 ^ t.bits := by
    rw [Nat.shiftLeft_eq, Nat.mod_add_mod, Nat.mul_comm]
  have hlow : ∀ j < 32, ((16 * h + c) % 2 ^ t.bits).testBit j = (16 * h + c).testBit j := by
    intro j hj
    rw [Nat.testBit_mod_two_pow, decide_eq_true (by omega), Bool.true_and]
  obtain ⟨x, hx⟩ : ∃ x, x = (16 * h + c) % 2 ^ t.bits := ⟨_, rfl⟩
  rw [← hx] at hsum hlow
  -- without a top bit there is nothing to fold
  have hfold : (if x &&& 0xF0000000 ≠ 0 then x ^^^ ((x &&& 0xF0000000) >>> 24) else x)
      = x ^^^ ((x &&& 0xF0000000) >>> 24) := by
    split_ifs with hg
    · rfl
    · rw [not_not.mp hg, Nat.zero_shiftRight, Nat.xor_zero]
  rw [hashRound, hsum, hfold, show 0x0FFFFFFF = 2 ^ 28 - 1 from rfl, Nat.testBit_and, Nat.testBit_two_pow_sub_one,
    Bool.and_comm]
  by_cases hi : i < 28
  · rw [decide_eq_true hi, Bool.true_and, Bool.true_and, Nat.testBit_xor, Nat.testBit_shiftRight,
      Nat.testBit_and, testBit_high, hlow i (by omega), Bool.and_comm]
    by_cases htop : 4 ≤ i ∧ i < 8
    · rw [decide_eq_true htop, decide_eq_true (by omega), hlow _ (by omega)]
    · rw [decide_eq_false htop, decide_eq_false (by omega), Bool.false_and, Bool.false_and]
  · rw [decide_eq_false hi, Bool.false_and, Bool.false_and]

theorem hashRound_lt (t : Target) (h c : Nat) : hashRound t h c < 2 ^ 28 :=
  Nat.lt_succ_of_le Nat.and_le_right

/-- One round of the recurrence does the same to the low bits, in words of 32 bits or more. -/
theorem sysvRound_mod (t : Target) {w : Nat} (hw : 32 ≤ w) (h : BitVec w) (c : UInt8) :
    (sysvRound h c).toNat % 2 ^ 32 = hashRound t (h.toNat % 2 ^ 28) c.toNat := by
  have hpow : 2 ^ 32 ∣ 2 ^ w := Nat.pow_dvd_pow 2 hw
  obtain ⟨x, hx⟩ : ∃ x, x = (h <<< 4) + BitVec.ofNat w c.toNat := ⟨_, rfl⟩
  have hsum : x.toNat % 2 ^ 32 = (16 * (h.toNat % 2 ^ 28) + c.toNat) % 2 ^ 32 := by
    rw [hx, BitVec.toNat_add, BitVec.toNat_shiftLeft, BitVec.toNat_ofNat, Nat.shiftLeft_eq,
      Nat.mod_mod_of_dvd _ hpow, Nat.add_mod, Nat.mod_mod_of_dvd _ hpow, Nat.mod_mod_of_dvd _ hpow]
    omega
  have hbit : ∀ i < 32, x.getLsbD i = (16 * (h.toNat % 2 ^ 28) + c.toNat).testBit i := by
    intro i hi
    have hmod := congrArg (Nat.testBit · i) hsum
    simp only [Nat.testBit_mod_two_pow, decide_eq_true hi, Bool.true_and] at hmod
    exact hmod
  have hhigh : ∀ i, (BitVec.ofNat w 0xF0000000).getLsbD i = decide (28 ≤ i ∧ i < 32) := by
    intro i
    rw [BitVec.getLsbD_ofNat, testBit_high, ← Bool.decide_and, decide_eq_decide]
    omega
  have hfold : (if x &&& BitVec.ofNat w 0xF0000000 ≠ 0
      then x ^^^ ((x &&& BitVec.ofNat w 0xF0000000) >>> 24) else x)
      = x ^^^ ((x &&& BitVec.ofNat w 0xF0000000) >>> 24) := by
    split_ifs with hg
    · rfl
    · rw [not_not.mp hg]
      simp
  rw [sysvRound, ← hx, hfold]
  refine Nat.eq_of_testBit_eq fun i => ?_
  rw [Nat.testBit_mod_two_pow, testBit_hashRound]
  by_cases hi : i < 32
  · rw [decide_eq_true hi, Bool.true_and, BitVec.testBit_toNat, BitVec.getLsbD_and,
      BitVec.getLsbD_not, BitVec.getLsbD_xor, BitVec.getLsbD_ushiftRight, BitVec.getLsbD_and,
      BitVec.getLsbD_and, hhigh, hhigh, hbit i hi, decide_eq_true (show i < w by omega),
      Bool.true_and]
    by_cases hlow : i < 28
    · rw [decide_eq_true hlow, decide_eq_false (show ¬ (28 ≤ i ∧ i < 32) by omega), Bool.true_and,
        Bool.and_false, Bool.not_false, Bool.and_true]
      by_cases htop : 4 ≤ i ∧ i < 8
      · rw [decide_eq_true htop, decide_eq_true (by omega), hbit _ (by omega), Bool.and_comm]
      · rw [decide_eq_false htop, decide_eq_false (by omega), Bool.false_and, Bool.and_false]
    · rw [decide_eq_false hlow, decide_eq_true (show 28 ≤ i ∧ i < 32 by omega),
        decide_eq_false (by omega), Bool.and_true, Bool.and_false, Bool.xor_false,
        Bool.and_not_self, Bool.false_and]
  · rw [decide_eq_false hi, decide_eq_false (show ¬ i < 28 by omega), Bool.false_and,
      Bool.false_and]

end Round

/-- The loop carries the low bits of the recurrence on, in whatever width both compute. -/
theorem hashLoop_cstring (t : Target) {m : Memory} {fuel name w : Nat} {h : BitVec w}
    {text : List UInt8} (hw : 32 ≤ w) (hname : CString m name text) (hfuel : text.length < fuel)
    (hh : h.toNat % 2 ^ 32 < 2 ^ 28) :
    ∃ r < 2 ^ 28, hashLoop t m fuel name (h.toNat % 2 ^ 32) = some r ∧
      (text.foldl sysvRound h).toNat % 2 ^ 32 = r := by
  induction text generalizing fuel name h with
  | nil =>
    rcases fuel with _ | fuel
    · exact absurd hfuel (Nat.not_lt_zero _)
    have hzero : m name = 0 := hname
    exact ⟨_, hh, if_neg (not_not.mpr hzero), rfl⟩
  | cons c text ih =>
    rcases fuel with _ | fuel
    · exact absurd hfuel (Nat.not_lt_zero _)
    rcases hname with ⟨hc, hne, hrest⟩
    have hround : (sysvRound h c).toNat % 2 ^ 32 = hashRound t (h.toNat % 2 ^ 32) c.toNat := by
      rw [sysvRound_mod t hw]
      congr 1
      omega
    rcases ih hrest (Nat.lt_of_succ_lt_succ hfuel) (hround ▸ hashRound_lt t _ _) with
      ⟨r, hlt, hr, hfold⟩
    refine ⟨r, hlt, ?_, hfold⟩
    rw [hashLoop, hc, if_pos hne, ← hround]
    exact hr

/-- In wider words the recurrence has the hash as its low word. -/
theorem sysvHash_mod {w : Nat} (hw : 32 ≤ w) (t : Target) {m : Memory} {fuel name : Nat}
    {text : List UInt8} (hname : CString m name text) (hfuel : text.length < fuel) :
    ELF64_Hash t m fuel name = some ((sysvHash w text).toNat % 2 ^ 32) ∧
      (sysvHash w text).toNat % 2 ^ 32 < 2 ^ 28 := by
  have hzero : (0 : BitVec w).toNat % 2 ^ 32 = 0 := rfl
  rcases @hashLoop_cstring t m fuel name w 0 text hw hname hfuel (by rw [hzero]; decide) with
    ⟨r, hlt, hr, hfold⟩
  rw [sysvHash, hfold]
  rw [hzero] at hr
  exact ⟨hr, hlt⟩

/-- `ELF64_Hash` is the hash of the ABI, on both targets. -/
theorem ELF64_Hash_eq (t : Target) {m : Memory} {fuel name : Nat} {text : List UInt8}
    (hname : CString m name text) (hfuel : text.length < fuel) :
    ELF64_Hash t m fuel name = some (sysvHash 32 text).toNat ∧
      (sysvHash 32 text).toNat < 2 ^ 28 := by
  have hmod := sysvHash_mod (Nat.le_refl 32) t hname hfuel
  rwa [Nat.mod_eq_of_lt (sysvHash 32 text).isLt] at hmod

/-- A name whose sums go beyond 32 bits. -/
def wideName : List UInt8 := [0xFF, 0x0F, 0x0F, 0x0F, 0x0F, 0x0F, 0x12]

theorem ELF64_Hash_wideName :
    ELF64_Hash .x86_64 (Memory.write (fun _ => 0) 0x1000 wideName) 8 0x1000 = some 2 ∧
      2 < 2 ^ 28 := by
  have hhash : (sysvHash 32 wideName).toNat = 2 := by decide
  have hname : CString (Memory.write (fun _ => 0) 0x1000 wideName) 0x1000 wideName := by decide
  have heq := ELF64_Hash_eq .x86_64 hname (show wideName.length < 8 by decide)
  rw [hhash] at heq
  exact heq

end Xeos.Elf
