import Xeos.Lib.Loop
import Xeos.Lib.Scan

/-!
# The portable `memchr`, `strlen` and `memset`

The functions of `memchr.c`, `strlen.c` and `memset.c`, for the machines that have no assembly
version.  Each goes by bytes to an aligned address, from there by words, and the first and the
last one finish by bytes again.  A pointer is an address, and a word has its lowest byte first.

The invariant is the same for each: what the byte loop would still do from here is what it would
have done from the start.
-/

namespace Xeos.C99.Portable

open Lib Lib.Asm

/-! ## The code -/

section Code

variable (lp64 : Bool)

/-- `sizeof( unsigned long )`. -/
def sizeofLong : Nat := if lp64 then 8 else 4

/-- The bits of an `unsigned long`, and of an `uintptr_t`. -/
def longBits : Nat := if lp64 then 64 else 32

/-- `( ( uintptr_t )cp & ( uintptr_t )-sizeof( unsigned long ) ) < ( uintptr_t )cp`. -/
def unaligned (cp : Nat) : Bool :=
  decide (cp &&& (2 ^ longBits lp64 - sizeofLong lp64) < cp)

/-- `( unsigned char )c`. -/
def uchar (c : Int32) : UInt8 := c.toUInt32.toUInt8

/-- `( unsigned long )c`. -/
def ulong (c : Int32) : Nat := (c.toInt % 2 ^ longBits lp64).toNat

/-- The test for a zero byte in `l`. -/
def zeroTest (l : Nat) : Nat :=
  if lp64 then difference 64 l 0x0101010101010101 &&& (alu.not 64 l &&& 0x8080808080808080)
  else difference 32 l 0x01010101 &&& (alu.not 32 l &&& 0x80808080)

/-- The number of the first test that finds its byte of `l` to be zero. -/
def zeroByte (l : Nat) : Option Nat :=
  if l &&& 0x000000FF = 0 then some 0
  else if l &&& 0x0000FF00 = 0 then some 1
  else if l &&& 0x00FF0000 = 0 then some 2
  else if l &&& 0xFF000000 = 0 then some 3
  else if lp64 then
    if l &&& 0x000000FF00000000 = 0 then some 4
    else if l &&& 0x0000FF0000000000 = 0 then some 5
    else if l &&& 0x00FF000000000000 = 0 then some 6
    else if l &&& 0xFF00000000000000 = 0 then some 7
    else none
  else none

/-- The word of `memchr` and `memset` whose bytes are all `c`. -/
def mask (c : Nat) : Nat :=
  let mask := c <<< 24 % 2 ^ longBits lp64 ||| c <<< 16 % 2 ^ longBits lp64
    ||| c <<< 8 % 2 ^ longBits lp64 ||| c
  if lp64 then mask <<< 32 % 2 ^ longBits lp64 ||| mask else mask

/-- `( ~0UL / 255 ) * ( unsigned char )c`. -/
def magic (c : UInt8) : Nat := (2 ^ longBits lp64 - 1) / 255 * c.toNat % 2 ^ longBits lp64

/-- Where a search is: at its start, in the loop over single bytes, in the loop over words, or in
the loop over the rest. -/
inductive Phase where
  | entry | bytes | longs | rest
deriving DecidableEq, Repr

/-- The same for `memset`, which has three loops over words. -/
inductive MemsetPhase where
  | entry | bytes | longs16 | longs8 | longs | rest
deriving DecidableEq, Repr

/-- A pointer and a count, and the loop they are in. -/
structure Position (P : Type) where
  phase : P
  cp : Nat
  n : Nat
deriving DecidableEq, Repr

/-- `memchr`.  The result `none` is `NULL`. -/
def memchr (m : Memory) (c : Int32) : Position Phase → Position Phase ⊕ Option Nat
  | ⟨.entry, s, n⟩ => if s = 0 ∨ n = 0 then .inr none else .inl ⟨.bytes, s, n⟩
  | ⟨.bytes, cp, n⟩ =>
    if 0 < n ∧ unaligned lp64 cp then
      if m cp = uchar (c &&& 0xFF) then .inr (some cp) else .inl ⟨.bytes, cp + 1, n - 1⟩
    else .inl ⟨.longs, cp, n⟩
  | ⟨.longs, lp, n⟩ =>
    if sizeofLong lp64 < n then
      let l := m.load lp (sizeofLong lp64)
      let next := ⟨.longs, lp + sizeofLong lp64, n - sizeofLong lp64⟩
      if zeroTest lp64 (l ^^^ magic lp64 (uchar (c &&& 0xFF))) = 0 then .inl next
      else
        match zeroByte lp64 (l ^^^ mask lp64 (ulong lp64 (c &&& 0xFF))) with
        | some k => .inr (some (next.cp - (sizeofLong lp64 - k)))
        | none => .inl next
    else .inl ⟨.rest, lp, n⟩
  | ⟨.rest, cp, n⟩ =>
    if n = 0 then .inr none
    else if m cp = uchar (c &&& 0xFF) then .inr (some cp)
    else .inl ⟨.rest, cp + 1, n - 1⟩

/-- The pointer of `strlen`, in its loop over bytes or in the one over words. -/
inductive Strlen where
  | bytes (cp : Nat)
  | longs (lp : Nat)
deriving DecidableEq, Repr

/-- `strlen( s )`. -/
def strlen (m : Memory) (s : Nat) : Strlen → Strlen ⊕ Nat
  | .bytes cp =>
    if unaligned lp64 cp then
      if m cp = 0 then .inr (cp - s) else .inl (.bytes (cp + 1))
    else .inl (.longs cp)
  | .longs lp =>
    let l := m.load lp (sizeofLong lp64)
    if zeroTest lp64 l = 0 then .inl (.longs (lp + sizeofLong lp64))
    else
      match zeroByte lp64 l with
      | some k => .inr (lp - s + k)
      | none => .inl (.longs (lp + sizeofLong lp64))

/-- `count` assignments of `l` to the words from `lp`. -/
def storeLongs (lp l : Nat) (count : Nat) (m : Memory) : Memory :=
  forLoop (fun i m => m.store (lp + i * sizeofLong lp64) (sizeofLong lp64) l) count m

/-- A round of a loop of `memset` over words, `count` words at a time. -/
def memsetLongs (l count : Nat) (phase next : MemsetPhase) (lp n : Nat) (m : Memory) :
    Position MemsetPhase × Memory :=
  if sizeofLong lp64 * count < n then
    (⟨phase, lp + count * sizeofLong lp64, n - sizeofLong lp64 * count⟩,
      storeLongs lp64 lp l count m)
  else (⟨next, lp, n⟩, m)

/-- `memset`.  The result is the memory, and the function returns its first argument. -/
def memset (c : Int32) :
    Position MemsetPhase × Memory → (Position MemsetPhase × Memory) ⊕ Memory
  | (⟨.entry, s, n⟩, m) => if s = 0 ∨ n = 0 then .inr m else .inl (⟨.bytes, s, n⟩, m)
  | (⟨.bytes, cp, n⟩, m) =>
    if 0 < n ∧ unaligned lp64 cp then
      .inl (⟨.bytes, cp + 1, n - 1⟩, m.set cp (uchar (c &&& 0xFF)))
    else .inl (⟨.longs16, cp, n⟩, m)
  | (⟨.longs16, lp, n⟩, m) =>
    .inl (memsetLongs lp64 (mask lp64 (ulong lp64 (c &&& 0xFF))) 16 .longs16 .longs8 lp n m)
  | (⟨.longs8, lp, n⟩, m) =>
    .inl (memsetLongs lp64 (mask lp64 (ulong lp64 (c &&& 0xFF))) 8 .longs8 .longs lp n m)
  | (⟨.longs, lp, n⟩, m) =>
    .inl (memsetLongs lp64 (mask lp64 (ulong lp64 (c &&& 0xFF))) 1 .longs .rest lp n m)
  | (⟨.rest, cp, n⟩, m) =>
    if n = 0 then .inr m
    else .inl (⟨.rest, cp + 1, n - 1⟩, m.set cp (uchar (c &&& 0xFF)))

end Code

/-! ## Words -/

section Words

variable (lp64 : Bool)

theorem longBits_eq : longBits lp64 = 8 * sizeofLong lp64 := by
  cases lp64 <;> rfl

theorem sizeofLong_pos : 0 < sizeofLong lp64 := by
  cases lp64 <;> decide

/-- The byte `k` of a word, by its mask. -/
theorem and_mask_eq_zero (l k : Nat) : l &&& 0xFF <<< (8 * k) = 0 ↔ byte l k = 0 := by
  have hbyte : byte l k = l >>> (8 * k) &&& 0xFF := by
    rw [byte, Nat.shiftRight_eq_div_pow, pow_mul]
    exact (Nat.and_two_pow_sub_one_eq_mod _ 8).symm
  have hshift : l &&& 0xFF <<< (8 * k) = (l >>> (8 * k) &&& 0xFF) <<< (8 * k) := by
    refine Nat.eq_of_testBit_eq fun i => ?_
    rw [Nat.testBit_and, Nat.testBit_shiftLeft, Nat.testBit_shiftLeft, Nat.testBit_and,
      Nat.testBit_shiftRight]
    by_cases hi : 8 * k ≤ i
    · rw [Nat.add_sub_cancel' hi, decide_eq_true hi, Bool.true_and, Bool.true_and]
    · rw [decide_eq_false hi, Bool.false_and, Bool.false_and, Bool.and_false]
  rw [hshift, hbyte, Nat.shiftLeft_eq_zero_iff]

/-- `count` tests in a chain, the first one of the number `k`. -/
def firstZero (b : Nat → Nat) : Nat → Nat → Option Nat
  | 0, _ => none
  | count + 1, k => if b k = 0 then some k else firstZero b count (k + 1)

theorem firstZero_cases (b : Nat → Nat) (count k : Nat) :
    (∃ i, firstZero b count k = some i ∧ i < k + count ∧ b i = 0 ∧
      ∀ j, k ≤ j → j < i → b j ≠ 0) ∨
    firstZero b count k = none ∧ ∀ j, k ≤ j → j < k + count → b j ≠ 0 := by
  induction count generalizing k with
  | zero => exact .inr ⟨rfl, fun j hkj hj => by omega⟩
  | succ count ih =>
    rw [firstZero]
    by_cases hk : b k = 0
    · rw [if_pos hk]
      exact .inl ⟨k, rfl, by omega, hk, fun j hkj hj => by omega⟩
    · rw [if_neg hk]
      -- the test `k` is not the one, and the rest of the chain starts behind it
      have hstep : ∀ j, k ≤ j → b j = 0 → k + 1 ≤ j := by
        intro j hkj hj
        rcases Nat.eq_or_lt_of_le hkj with rfl | hlt
        · exact absurd hj hk
        · exact hlt
      rcases ih (k + 1) with ⟨i, hi, hlt, hzero, hfirst⟩ | ⟨hi, hall⟩
      · exact .inl ⟨i, hi, by omega, hzero, fun j hkj hj hb => hfirst j (hstep j hkj hb) hj hb⟩
      · exact .inr ⟨hi, fun j hkj hj hb => hall j (hstep j hkj hb) (by omega) hb⟩

/-- The chain of tests finds the first zero byte. -/
theorem zeroByte_cases (l : Nat) :
    (∃ k, zeroByte lp64 l = some k ∧ k < sizeofLong lp64 ∧ byte l k = 0 ∧
      ∀ j, j < k → byte l j ≠ 0) ∨
    zeroByte lp64 l = none ∧ ∀ j, j < sizeofLong lp64 → byte l j ≠ 0 := by
  have h0 : l &&& 0x000000FF = 0 ↔ byte l 0 = 0 := and_mask_eq_zero l 0
  have h1 : l &&& 0x0000FF00 = 0 ↔ byte l 1 = 0 := and_mask_eq_zero l 1
  have h2 : l &&& 0x00FF0000 = 0 ↔ byte l 2 = 0 := and_mask_eq_zero l 2
  have h3 : l &&& 0xFF000000 = 0 ↔ byte l 3 = 0 := and_mask_eq_zero l 3
  have h4 : l &&& 0x000000FF00000000 = 0 ↔ byte l 4 = 0 := and_mask_eq_zero l 4
  have h5 : l &&& 0x0000FF0000000000 = 0 ↔ byte l 5 = 0 := and_mask_eq_zero l 5
  have h6 : l &&& 0x00FF000000000000 = 0 ↔ byte l 6 = 0 := and_mask_eq_zero l 6
  have h7 : l &&& 0xFF00000000000000 = 0 ↔ byte l 7 = 0 := and_mask_eq_zero l 7
  have hchain : zeroByte lp64 l = firstZero (byte l) (sizeofLong lp64) 0 := by
    simp only [zeroByte, h0, h1, h2, h3, h4, h5, h6, h7]
    cases lp64 with
    | false => rfl
    | true => rfl
  have hcases := firstZero_cases (byte l) (sizeofLong lp64) 0
  simp only [Nat.zero_add, Nat.zero_le, forall_const] at hcases
  rw [hchain]
  exact hcases

theorem zeroTest_eq (l : Nat) :
    zeroTest lp64 l = difference (8 * sizeofLong lp64) l (ones (sizeofLong lp64)) &&&
      (alu.not (8 * sizeofLong lp64) l &&& 128 * ones (sizeofLong lp64)) := by
  cases lp64 with
  | false => simp [zeroTest, sizeofLong, ones]
  | true => simp [zeroTest, sizeofLong, ones]

/-- A word with a zero byte does not pass the test. -/
theorem zeroTest_of_zero {l k : Nat} (hl : l < 2 ^ longBits lp64) (hk : k < sizeofLong lp64)
    (hzero : byte l k = 0) : zeroTest lp64 l ≠ 0 := by
  rw [longBits_eq] at hl
  rw [zeroTest_eq]
  exact zeroTest_ne_zero hl hk hzero

theorem uchar_and (c : Int32) : uchar (c &&& 0xFF) = uchar c := by
  have hmask : (0xFF : Int32).toUInt32 = 0xFF := rfl
  rw [uchar, Int32.toUInt32_and, hmask, UInt32.toUInt8_and]
  exact UInt8.and_neg_one

/-- The masked argument is the value of its character. -/
theorem ulong_and (c : Int32) : ulong lp64 (c &&& 0xFF) = (uchar c).toNat := by
  have hlt : (uchar c).toNat < 2 ^ 8 := (uchar c).toNat_lt
  have hnat : (c &&& 0xFF).toBitVec.toNat = (uchar c).toNat := by
    rw [Int32.toBitVec_and, BitVec.toNat_and]
    exact Nat.and_two_pow_sub_one_eq_mod _ 8
  have hint : (c &&& 0xFF).toInt = (uchar c).toNat := by
    rw [← hnat]
    exact BitVec.toInt_eq_toNat_of_lt (by omega)
  rw [ulong, hint]
  cases lp64 with
  | false =>
    rw [longBits, if_neg Bool.false_ne_true]
    omega
  | true =>
    rw [longBits, if_pos rfl]
    omega

/-- Every byte of the mask is the character. -/
theorem mask_eq {c : Nat} (hc : c < 256) : mask lp64 c = c * ones (sizeofLong lp64) := by
  have h8 : c <<< 8 ||| c = c * 0x0101 := by
    rw [← Nat.shiftLeft_add_eq_or_of_lt (by omega), Nat.shiftLeft_eq]
    omega
  have h16 : c <<< 16 ||| c * 0x0101 = c * 0x010101 := by
    rw [← Nat.shiftLeft_add_eq_or_of_lt (by omega), Nat.shiftLeft_eq]
    omega
  have h24 : c <<< 24 ||| c * 0x010101 = c * 0x01010101 := by
    rw [← Nat.shiftLeft_add_eq_or_of_lt (by omega), Nat.shiftLeft_eq]
    omega
  have h32 : (c * 0x01010101) <<< 32 ||| c * 0x01010101 = c * 0x0101010101010101 := by
    rw [← Nat.shiftLeft_add_eq_or_of_lt (by omega), Nat.shiftLeft_eq]
    omega
  have hlt : ∀ k, k ≤ 24 → c <<< k % 2 ^ longBits lp64 = c <<< k := by
    intro k hk
    refine Nat.mod_eq_of_lt ?_
    have hbits : 8 + k ≤ longBits lp64 := by
      rw [longBits]
      split <;> omega
    calc c <<< k = c * 2 ^ k := Nat.shiftLeft_eq c k
      _ < 2 ^ 8 * 2 ^ k := Nat.mul_lt_mul_of_pos_right hc (Nat.two_pow_pos k)
      _ = 2 ^ (8 + k) := (pow_add 2 8 k).symm
      _ ≤ 2 ^ longBits lp64 := Nat.pow_le_pow_right Nat.two_pos hbits
  have hlow : c <<< 24 % 2 ^ longBits lp64 ||| c <<< 16 % 2 ^ longBits lp64
      ||| c <<< 8 % 2 ^ longBits lp64 ||| c = c * 0x01010101 := by
    rw [hlt 24 (by omega), hlt 16 (by omega), hlt 8 (by omega), Nat.or_assoc, Nat.or_assoc, h8,
      h16, h24]
  simp only [mask, hlow]
  cases lp64 with
  | false => simp [sizeofLong, ones]
  | true =>
    rw [if_pos rfl, longBits, if_pos rfl, Nat.mod_eq_of_lt (by rw [Nat.shiftLeft_eq]; omega), h32]
    simp [sizeofLong, ones]

theorem magic_eq (c : UInt8) : magic lp64 c = c.toNat * ones (sizeofLong lp64) := by
  have hc := c.toNat_lt
  cases lp64 with
  | false =>
    simp only [magic, longBits, sizeofLong, ones, Bool.false_eq_true, if_false]
    omega
  | true =>
    simp only [magic, longBits, sizeofLong, ones, if_true]
    omega

variable {lp64}

/-- A word whose bytes are all `c`, written over memory. -/
theorem store_const {a n : Nat} (m : Memory) (c : UInt8) :
    m.store a n (c.toNat * ones n) = m.fill a n c := by
  funext b
  by_cases hb : a ≤ b ∧ b < a + n
  · have hbyte := @byte_const_mul_ones n (b - a) c.toNat c.toNat_lt (by omega)
    rw [Memory.fill_of_mem _ _ hb, Memory.store, if_pos hb]
    apply UInt8.toNat_inj.mp
    rw [UInt8.toNat_ofNat']
    exact hbyte
  · rw [Memory.fill_of_not_mem _ _ (by omega), Memory.store_of_not_mem _ _ (by omega)]

theorem byte_xor (v w k : Nat) : byte (v ^^^ w) k = byte v k ^^^ byte w k := by
  refine Nat.eq_of_testBit_eq fun i => ?_
  by_cases hi : i < 8
  · rw [Nat.testBit_xor, ← testBit_byte _ _ _ hi, ← testBit_byte _ _ _ hi, ← testBit_byte _ _ _ hi,
      Nat.testBit_xor]
  · have hhigh : ∀ u, (byte u k).testBit i = false := fun u =>
      Nat.testBit_lt_two_pow (Nat.lt_of_lt_of_le (Nat.mod_lt _ (by omega))
        (Nat.pow_le_pow_right Nat.two_pos (Nat.not_lt.mp hi) : 2 ^ 8 ≤ 2 ^ i))
    rw [Nat.testBit_xor, hhigh, hhigh, hhigh]
    rfl

/-- The bytes of a word that are `c`, by the zero bytes of the difference. -/
theorem byte_xor_eq_zero_iff (m : Memory) (c : UInt8) {a n k : Nat} (hk : k < n) :
    byte (m.load a n ^^^ c.toNat * ones n) k = 0 ↔ m (a + k) = c := by
  rw [byte_xor, byte_load m hk, byte_const_mul_ones c.toNat_lt hk, Nat.xor_eq_zero_iff]
  exact UInt8.toNat_inj

end Words

/-! ## What the functions are for -/

/-- The first of the `n` bytes from `a` that is `v`. -/
def firstByte (m : Memory) (v : UInt8) : Nat → Nat → Option Nat
  | 0, _ => none
  | n + 1, a => if m a = v then some a else firstByte m v n (a + 1)

theorem firstByte_of_pos {n : Nat} (hn : 0 < n) (m : Memory) (v : UInt8) (a : Nat) :
    firstByte m v n a = if m a = v then some a else firstByte m v (n - 1) (a + 1) := by
  rw [show n = n - 1 + 1 by omega, firstByte, Nat.add_sub_cancel]

/-- The search goes on behind bytes that are not `v`. -/
theorem firstByte_skip {m : Memory} {v : UInt8} {k n a : Nat} (hk : k ≤ n)
    (h : ∀ i, i < k → m (a + i) ≠ v) : firstByte m v n a = firstByte m v (n - k) (a + k) := by
  induction k generalizing n a with
  | zero => rfl
  | succ k ih =>
    rcases n with _ | n
    · omega
    · have hhead : m a ≠ v := h 0 (by omega)
      rw [firstByte, if_neg hhead, ih (by omega) fun i hi => ?_, Nat.add_sub_add_right,
        show a + 1 + k = a + (k + 1) by omega]
      rw [show a + 1 + i = a + (i + 1) by omega]
      exact h (i + 1) (by omega)

theorem firstByte_of_first {m : Memory} {v : UInt8} {k n a : Nat} (hk : k < n)
    (h : ∀ i, i < k → m (a + i) ≠ v) (hv : m (a + k) = v) :
    firstByte m v n a = some (a + k) := by
  rw [firstByte_skip (Nat.le_of_lt hk) h, firstByte_of_pos (by omega), if_pos hv]

/-! ## The functions do it -/

/-- The loops that follow. -/
def Phase.rank : Phase → Nat
  | .entry => 3
  | .bytes => 2
  | .longs => 1
  | .rest => 0

def MemsetPhase.rank : MemsetPhase → Nat
  | .entry => 5
  | .bytes => 4
  | .longs16 => 3
  | .longs8 => 2
  | .longs => 1
  | .rest => 0

/-- The pointer, in either loop. -/
def Strlen.pointer : Strlen → Nat
  | .bytes cp => cp
  | .longs lp => lp

def Strlen.rank : Strlen → Nat
  | .bytes _ => 1
  | .longs _ => 0

section Scan

variable {lp64 : Bool} {m : Memory}

theorem const_mul_ones_lt (c : UInt8) (n : Nat) : c.toNat * ones n < 256 ^ n := by
  have hc := c.toNat_lt
  have hones : 255 * ones n + 1 = 256 ^ n := by
    induction n with
    | zero => rfl
    | succ n ih =>
      rw [ones, pow_succ, ← ih]
      ring
  calc c.toNat * ones n ≤ 255 * ones n := Nat.mul_le_mul_right _ (by omega)
    _ < 256 ^ n := by omega

/-- What a test and the chain of tests behind it say about a word: its first byte that is `v`, or
that it has none. -/
theorem word_cases (lp64 : Bool) (m : Memory) (a : Nat) {v : UInt8} {w : Nat}
    (hw : w = m.load a (sizeofLong lp64) ^^^ v.toNat * ones (sizeofLong lp64)) :
    (zeroTest lp64 w ≠ 0 ∧ ∃ k, zeroByte lp64 w = some k ∧ k < sizeofLong lp64 ∧ m (a + k) = v ∧
      ∀ j, j < k → m (a + j) ≠ v) ∨
    zeroByte lp64 w = none ∧ ∀ j, j < sizeofLong lp64 → m (a + j) ≠ v := by
  have hbyte : ∀ j, j < sizeofLong lp64 → (byte w j = 0 ↔ m (a + j) = v) := by
    intro j hj
    rw [hw]
    exact byte_xor_eq_zero_iff m v hj
  have hlt : w < 2 ^ longBits lp64 := by
    have hload := Memory.load_lt m a (sizeofLong lp64)
    have hconst := const_mul_ones_lt v (sizeofLong lp64)
    have hpow : (256 : Nat) ^ sizeofLong lp64 = 2 ^ longBits lp64 := by
      rw [longBits_eq, pow_mul, show (2 : Nat) ^ 8 = 256 from rfl]
    rw [hpow] at hload hconst
    rw [hw]
    exact Nat.xor_lt_two_pow hload hconst
  rcases zeroByte_cases lp64 w with ⟨k, hk, hksize, hzero, hfirst⟩ | ⟨hk, hall⟩
  · exact .inl ⟨zeroTest_of_zero lp64 hlt hksize hzero, k, hk, hksize, (hbyte k hksize).mp hzero,
      fun j hj hv => hfirst j hj ((hbyte j (by omega)).mpr hv)⟩
  · exact .inr ⟨hk, fun j hj hv => hall j hj ((hbyte j hj).mpr hv)⟩

/-- A step of `memchr` keeps what is still to be found. -/
theorem memchr_step {c : Int32} {r : Option Nat} (p : Position Phase)
    (hp : (p.phase = .entry → p.cp ≠ 0) ∧ firstByte m (uchar c) p.n p.cp = r) :
    (∃ r', memchr lp64 m c p = .inr r' ∧ r' = r) ∨
      ∃ q, memchr lp64 m c p = .inl q ∧
        ((q.phase = .entry → q.cp ≠ 0) ∧ firstByte m (uchar c) q.n q.cp = r) ∧
        6 * q.n + q.phase.rank < 6 * p.n + p.phase.rank := by
  rcases p with ⟨phase, cp, n⟩
  simp only at hp
  cases phase with
  | entry =>
    rw [memchr]
    by_cases hn : n = 0
    · rw [if_pos (.inr hn)]
      refine .inl ⟨none, rfl, ?_⟩
      rw [← hp.2, hn]
      rfl
    · rw [if_neg fun h => h.elim (hp.1 rfl) hn]
      exact .inr ⟨⟨.bytes, cp, n⟩, rfl, ⟨Phase.noConfusion, hp.2⟩, by simp only [Phase.rank]; omega⟩
  | bytes =>
    rw [memchr, uchar_and]
    by_cases hn : 0 < n ∧ unaligned lp64 cp = true
    · rw [if_pos hn]
      rw [firstByte_of_pos (by omega)] at hp
      by_cases hv : m cp = uchar c
      · rw [if_pos hv] at hp ⊢
        exact .inl ⟨some cp, rfl, hp.2⟩
      · rw [if_neg hv] at hp ⊢
        exact .inr ⟨⟨.bytes, cp + 1, n - 1⟩, rfl, ⟨Phase.noConfusion, hp.2⟩, by
          simp only [Phase.rank]; omega⟩
    · rw [if_neg hn]
      exact .inr ⟨⟨.longs, cp, n⟩, rfl, ⟨Phase.noConfusion, hp.2⟩, by
        simp only [Phase.rank]; omega⟩
  | longs =>
    have hsize := sizeofLong_pos lp64
    rw [memchr]
    by_cases hn : sizeofLong lp64 < n
    · rw [if_pos hn, uchar_and, ulong_and, mask_eq lp64 (uchar c).toNat_lt, magic_eq]
      have hnext : ∀ h : ∀ j, j < sizeofLong lp64 → m (cp + j) ≠ uchar c, ∃ q : Position Phase,
          (⟨.longs, cp + sizeofLong lp64, n - sizeofLong lp64⟩ : Position Phase) = q ∧
            ((q.phase = .entry → q.cp ≠ 0) ∧ firstByte m (uchar c) q.n q.cp = r) ∧
            6 * q.n + q.phase.rank < 6 * n + Phase.rank .longs := by
        intro h
        rw [firstByte_skip (Nat.le_of_lt hn) h] at hp
        exact ⟨_, rfl, ⟨Phase.noConfusion, hp.2⟩, by simp only; omega⟩
      rcases word_cases lp64 m cp rfl with ⟨htest, k, hk, hksize, hv, hfirst⟩ | ⟨hk, hall⟩
      · refine .inl ⟨some (cp + sizeofLong lp64 - (sizeofLong lp64 - k)), ?_, ?_⟩
        · rw [if_neg htest]
          simp only [hk]
        rw [← hp.2, firstByte_of_first (by omega) hfirst hv]
        congr 1
        omega
      · rcases hnext hall with ⟨q, hq, hI⟩
        simp only [hk, ite_self, hq]
        exact .inr ⟨q, rfl, hI⟩
    · rw [if_neg hn]
      exact .inr ⟨⟨.rest, cp, n⟩, rfl, ⟨Phase.noConfusion, hp.2⟩, by simp only [Phase.rank]; omega⟩
  | rest =>
    rw [memchr, uchar_and]
    by_cases hn : n = 0
    · rw [if_pos hn]
      refine .inl ⟨none, rfl, ?_⟩
      rw [← hp.2, hn]
      rfl
    · rw [if_neg hn]
      rw [firstByte_of_pos (by omega)] at hp
      by_cases hv : m cp = uchar c
      · rw [if_pos hv] at hp ⊢
        exact .inl ⟨some cp, rfl, hp.2⟩
      · rw [if_neg hv] at hp ⊢
        exact .inr ⟨⟨.rest, cp + 1, n - 1⟩, rfl, ⟨Phase.noConfusion, hp.2⟩, by
          simp only [Phase.rank]; omega⟩

theorem memchr_returns {c : Int32} {s : Nat} (n : Nat) (hs : s ≠ 0) :
    Returns (memchr lp64 m c) ⟨.entry, s, n⟩ (firstByte m (uchar c) n s) := by
  have hrun := @returns_of_variant _ _ (memchr lp64 m c) ⟨.entry, s, n⟩ _
    (fun p => 6 * p.n + p.phase.rank) (· = firstByte m (uchar c) n s) memchr_step ⟨fun _ => hs, rfl⟩
  rcases hrun with ⟨r, hreturns, hr⟩
  rw [← hr]
  exact hreturns

/-- A step of `strlen` stays in front of the end of the string. -/
theorem strlen_step {s k : Nat} (hk : m (s + k) = 0) (hmin : ∀ i, i < k → m (s + i) ≠ 0)
    (p : Strlen) (hp : s ≤ p.pointer ∧ p.pointer ≤ s + k) :
    (∃ r, strlen lp64 m s p = .inr r ∧ r = k) ∨
      ∃ q, strlen lp64 m s p = .inl q ∧ (s ≤ q.pointer ∧ q.pointer ≤ s + k) ∧
        2 * (s + k - q.pointer) + q.rank < 2 * (s + k - p.pointer) + p.rank := by
  have hend : ∀ a, s ≤ a → a ≤ s + k → m a = 0 → a = s + k := by
    intro a hs ha hzero
    by_contra hne
    refine hmin (a - s) (by omega) ?_
    rw [Nat.add_sub_cancel' hs]
    exact hzero
  cases p with
  | bytes cp =>
    simp only [Strlen.pointer] at hp
    rw [strlen]
    by_cases ha : unaligned lp64 cp = true
    · rw [if_pos ha]
      by_cases hzero : m cp = 0
      · rw [if_pos hzero]
        exact .inl ⟨cp - s, rfl, by have := hend cp hp.1 hp.2 hzero; omega⟩
      · rw [if_neg hzero]
        have hne : cp ≠ s + k := fun heq => hzero (heq ▸ hk)
        exact .inr ⟨.bytes (cp + 1), rfl, by simp only [Strlen.pointer]; omega, by
          simp only [Strlen.pointer, Strlen.rank]; omega⟩
    · rw [if_neg ha]
      exact .inr ⟨.longs cp, rfl, hp, by simp only [Strlen.pointer, Strlen.rank]; omega⟩
  | longs lp =>
    have hsize := sizeofLong_pos lp64
    simp only [Strlen.pointer] at hp
    rw [strlen]
    have hword : m.load lp (sizeofLong lp64)
        = m.load lp (sizeofLong lp64) ^^^ (0 : UInt8).toNat * ones (sizeofLong lp64) := by
      rw [UInt8.toNat_zero, Nat.zero_mul, Nat.xor_zero]
    rcases word_cases lp64 m lp hword with ⟨htest, j, hj, hjsize, hzero, hfirst⟩ | ⟨hj, hall⟩
    · refine .inl ⟨lp - s + j, ?_, ?_⟩
      · rw [if_neg htest]
        simp only [hj]
      · -- the end of the string is not in front of the zero byte
        have hle : lp + j ≤ s + k := by
          by_contra hlt
          refine hfirst (s + k - lp) (by omega) ?_
          rw [Nat.add_sub_cancel' hp.2]
          exact hk
        have := hend (lp + j) (by omega) hle hzero
        omega
    · have hle : lp + sizeofLong lp64 ≤ s + k := by
        by_contra hlt
        refine hall (s + k - lp) (by omega) ?_
        rw [Nat.add_sub_cancel' hp.2]
        exact hk
      refine .inr ⟨.longs (lp + sizeofLong lp64), ?_, by simp only [Strlen.pointer]; omega, by
        simp only [Strlen.pointer, Strlen.rank]; omega⟩
      simp only [hj, ite_self]

theorem strlen_returns {s k : Nat} (hk : m (s + k) = 0) (hmin : ∀ i, i < k → m (s + i) ≠ 0) :
    Returns (strlen lp64 m s) (.bytes s) k := by
  have hrun := @returns_of_variant _ _ (strlen lp64 m s) (.bytes s) _
    (fun p => 2 * (s + k - p.pointer) + p.rank) (· = k) (strlen_step hk hmin)
    ⟨Nat.le_refl s, Nat.le_add_right s k⟩
  rcases hrun with ⟨r, hreturns, rfl⟩
  exact hreturns

/-! ## Filling -/

theorem storeLongs_eq (lp count : Nat) (v : UInt8) (m : Memory) :
    storeLongs lp64 lp (v.toNat * ones (sizeofLong lp64)) count m
      = m.fill lp (count * sizeofLong lp64) v := by
  induction count with
  | zero => rw [Nat.zero_mul, Memory.fill_zero, storeLongs, forLoop_zero]
  | succ count ih =>
    rw [storeLongs] at ih ⊢
    rw [forLoop_succ, ih, store_const, Memory.fill_fill _ _ rfl, Nat.succ_mul]

/-- A step of `memset` keeps what is still to be filled. -/
theorem memset_step {c : Int32} {r : Memory} (p : Position MemsetPhase × Memory)
    (hp : (p.1.phase = .entry → p.1.cp ≠ 0) ∧ p.2.fill p.1.cp p.1.n (uchar c) = r) :
    (∃ r', memset lp64 c p = .inr r' ∧ r' = r) ∨
      ∃ q, memset lp64 c p = .inl q ∧
        ((q.1.phase = .entry → q.1.cp ≠ 0) ∧ q.2.fill q.1.cp q.1.n (uchar c) = r) ∧
        6 * q.1.n + q.1.phase.rank < 6 * p.1.n + p.1.phase.rank := by
  have hsize := sizeofLong_pos lp64
  rcases p with ⟨⟨phase, cp, n⟩, m⟩
  simp only at hp
  -- a round over words
  have hlongs : ∀ (count : Nat) (phase next : MemsetPhase), 0 < count → phase ≠ .entry →
      next ≠ .entry → next.rank < phase.rank →
      ∃ q, memsetLongs lp64 ((uchar c).toNat * ones (sizeofLong lp64)) count phase next cp n m = q ∧
        ((q.1.phase = .entry → q.1.cp ≠ 0) ∧ q.2.fill q.1.cp q.1.n (uchar c) = r) ∧
        6 * q.1.n + q.1.phase.rank < 6 * n + phase.rank := by
    intro count phase next hcount hphase hnext hrank
    rw [memsetLongs]
    by_cases hn : sizeofLong lp64 * count < n
    · have hpos := Nat.mul_pos hsize hcount
      rw [if_pos hn]
      refine ⟨_, rfl, ⟨fun h => absurd h hphase, ?_⟩, by simp only; omega⟩
      rw [storeLongs_eq, Memory.fill_fill _ _ rfl, Nat.mul_comm count, Nat.add_sub_cancel' (Nat.le_of_lt hn)]
      exact hp.2
    · rw [if_neg hn]
      exact ⟨_, rfl, ⟨fun h => absurd h hnext, hp.2⟩, by simp only; omega⟩
  have hbyte : n ≠ 0 → (m.set cp (uchar c)).fill (cp + 1) (n - 1) (uchar c) = r := by
    intro hn
    rw [Memory.set_eq_fill, Memory.fill_fill _ _ rfl, show 1 + (n - 1) = n by omega]
    exact hp.2
  cases phase with
  | entry =>
    rw [memset]
    by_cases hn : n = 0
    · rw [if_pos (.inr hn)]
      refine .inl ⟨m, rfl, ?_⟩
      rw [← hp.2, hn, Memory.fill_zero]
    · rw [if_neg fun h => h.elim (hp.1 rfl) hn]
      exact .inr ⟨(⟨.bytes, cp, n⟩, m), rfl, ⟨MemsetPhase.noConfusion, hp.2⟩, by
        simp only [MemsetPhase.rank]; omega⟩
  | bytes =>
    rw [memset, uchar_and]
    by_cases hn : 0 < n ∧ unaligned lp64 cp = true
    · rw [if_pos hn]
      exact .inr ⟨(⟨.bytes, cp + 1, n - 1⟩, m.set cp (uchar c)), rfl,
        ⟨MemsetPhase.noConfusion, hbyte (by omega)⟩, by simp only; omega⟩
    · rw [if_neg hn]
      exact .inr ⟨(⟨.longs16, cp, n⟩, m), rfl, ⟨MemsetPhase.noConfusion, hp.2⟩, by
        simp only [MemsetPhase.rank]; omega⟩
  | longs16 =>
    rw [memset, ulong_and, mask_eq lp64 (uchar c).toNat_lt]
    rcases hlongs 16 .longs16 .longs8 (by omega) MemsetPhase.noConfusion MemsetPhase.noConfusion
      (by decide) with ⟨q, hq, hI⟩
    exact .inr ⟨q, by rw [hq], hI⟩
  | longs8 =>
    rw [memset, ulong_and, mask_eq lp64 (uchar c).toNat_lt]
    rcases hlongs 8 .longs8 .longs (by omega) MemsetPhase.noConfusion MemsetPhase.noConfusion
      (by decide) with ⟨q, hq, hI⟩
    exact .inr ⟨q, by rw [hq], hI⟩
  | longs =>
    rw [memset, ulong_and, mask_eq lp64 (uchar c).toNat_lt]
    rcases hlongs 1 .longs .rest (by omega) MemsetPhase.noConfusion MemsetPhase.noConfusion
      (by decide) with ⟨q, hq, hI⟩
    exact .inr ⟨q, by rw [hq], hI⟩
  | rest =>
    rw [memset, uchar_and]
    by_cases hn : n = 0
    · rw [if_pos hn]
      refine .inl ⟨m, rfl, ?_⟩
      rw [← hp.2, hn, Memory.fill_zero]
    · rw [if_neg hn]
      exact .inr ⟨(⟨.rest, cp + 1, n - 1⟩, m.set cp (uchar c)), rfl,
        ⟨MemsetPhase.noConfusion, hbyte hn⟩, by simp only; omega⟩

theorem memset_returns {c : Int32} {s : Nat} (n : Nat) (hs : s ≠ 0) :
    Returns (memset lp64 c) (⟨.entry, s, n⟩, m) (m.fill s n (uchar c)) := by
  have hrun := @returns_of_variant _ _ (memset lp64 c) (⟨.entry, s, n⟩, m) _
    (fun p => 6 * p.1.n + p.1.phase.rank) (· = m.fill s n (uchar c)) memset_step ⟨fun _ => hs, rfl⟩
  rcases hrun with ⟨r, hreturns, rfl⟩
  exact hreturns

end Scan

/-- Each function returns what its byte loop would.  At `NULL`, the ones that look for it do
nothing. -/
theorem scans_eq_bytes (lp64 : Bool) (m : Memory) (s : Nat) :
    (∀ c n, Returns (memchr lp64 m c) ⟨.entry, s, n⟩
      (if s = 0 then none else firstByte m (uchar c) n s)) ∧
    (∀ hend : ∃ k, m (s + k) = 0, Returns (strlen lp64 m s) (.bytes s) (Nat.find hend)) ∧
    ∀ c n, Returns (memset lp64 c) (⟨.entry, s, n⟩, m)
      (if s = 0 then m else m.fill s n (uchar c)) := by
  refine ⟨fun c n => ?_, fun hend => ?_, fun c n => ?_⟩
  · by_cases hs : s = 0
    · rw [if_pos hs]
      exact Returns.done (if_pos (.inl hs))
    · rw [if_neg hs]
      exact memchr_returns n hs
  · exact strlen_returns (Nat.find_spec hend) fun i hi => Nat.find_min hend hi
  · by_cases hs : s = 0
    · rw [if_pos hs]
      exact Returns.done (if_pos (.inl hs))
    · rw [if_neg hs]
      exact memset_returns n hs

end Xeos.C99.Portable
