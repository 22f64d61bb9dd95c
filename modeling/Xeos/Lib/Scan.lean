import Mathlib.Data.Nat.Bitwise
import Xeos.Lib.Asm
import Xeos.Lib.Bits

/-!
# Looking for a byte in a vector or in a word

A vector comparison leaves a mask with one bit for each byte, and the lowest bit of
the mask is the first byte.  A word has a zero byte when the well-known test on the
difference with `0x01…01` is not zero.  Only this direction is needed: a routine
that looks at the bytes one by one after the test is right about words that pass it
without a zero byte.
-/

namespace Lib.Asm

/-! ## Masks -/

namespace Vec

theorem signs_lt (x : Vec) (n : Nat) : signs x n < 2 ^ n := by
  induction n with
  | zero => exact Nat.one_pos
  | succ n ih =>
    rw [signs, pow_succ]
    split
    · omega
    · omega

theorem testBit_signs (x : Vec) (n i : Nat) :
    (signs x n).testBit i = (decide (i < n) && decide (128 ≤ (x i).toNat)) := by
  induction n with
  | zero =>
    rw [signs, Nat.zero_testBit, decide_eq_false (Nat.not_lt_zero i), Bool.false_and]
  | succ n ih =>
    rw [signs, Nat.add_comm, Nat.testBit_two_pow_mul_add _ (signs_lt x n)]
    rcases Nat.lt_trichotomy i n with hlt | heq | hgt
    · rw [if_pos hlt, ih, decide_eq_true hlt, decide_eq_true (show i < n + 1 by omega)]
    · subst heq
      rw [if_neg (Nat.lt_irrefl i), Nat.sub_self, decide_eq_true (Nat.lt_succ_self i),
        Bool.true_and]
      by_cases h : 128 ≤ (x i).toNat
      · rw [if_pos h, decide_eq_true h]
        rfl
      · rw [if_neg h, decide_eq_false h]
        rfl
    · rw [if_neg (show ¬ i < n by omega), decide_eq_false (show ¬ i < n + 1 by omega),
        Bool.false_and]
      refine Nat.testBit_lt_two_pow ?_
      have htwo : 2 ^ 1 ≤ 2 ^ (i - n) := Nat.pow_le_pow_right (by decide) (by omega)
      split
      · omega
      · omega

/-- The mask of a comparison. -/
theorem testBit_signs_equal (x y : Vec) (n i : Nat) :
    (signs (equal x y) n).testBit i = (decide (i < n) && decide (x i = y i)) := by
  rw [testBit_signs]
  congr 1
  rw [decide_eq_decide, equal]
  split
  · exact ⟨fun _ => ‹_›, fun _ => by decide⟩
  · exact ⟨fun h => absurd h (by decide), fun h => absurd h ‹_›⟩

end Vec

theorem lowestBit_eq {v j : Nat} (hbit : v.testBit j = true) :
    ∀ {fuel i : Nat}, i ≤ j → j < i + fuel → (∀ k, i ≤ k → k < j → v.testBit k = false) →
      lowestBit fuel i v = j
  | 0, i, hij, hlt, _ => absurd hlt (by omega)
  | fuel + 1, i, hij, hlt, hmin => by
    rw [lowestBit]
    rcases Nat.eq_or_lt_of_le hij with heq | hlt'
    · subst heq
      rw [if_pos hbit]
    · rw [hmin i (Nat.le_refl i) hlt', if_neg Bool.false_ne_true]
      exact lowestBit_eq hbit hlt' (by omega) (fun k hk => hmin k (by omega))

/-- Ones shifted to the left mask the low bits. -/
theorem testBit_ones_shl (w k i : Nat) :
    (alu.shl w (alu.not w 0) k).testBit i = (decide (k ≤ i) && decide (i < w)) := by
  show ((2 ^ w - 1 - 0) * 2 ^ k % 2 ^ w).testBit i = _
  rw [Nat.sub_zero, Nat.testBit_mod_two_pow, Nat.mul_comm, Nat.testBit_two_pow_mul, Nat.testBit_two_pow_sub_one]
  by_cases hki : k ≤ i
  · rw [decide_eq_true hki]
    by_cases hiw : i < w
    · rw [decide_eq_true hiw, decide_eq_true (show i - k < w by omega)]
      rfl
    · rw [decide_eq_false hiw]
      rfl
  · rw [decide_eq_false hki]
    exact Bool.and_false _

/-! ## Marks

A routine looks at sixteen bytes from `b` on.  The mask has a bit for each byte that is
looked for, and those in front of `lo` are left out. -/

section Marks

variable {P : Nat → Prop} [DecidablePred P] {lo b v t : Nat}

def Marks (P : Nat → Prop) [DecidablePred P] (lo b v : Nat) : Prop :=
  ∀ j, v.testBit j = (decide (j < 16) && (decide (lo ≤ b + j) && decide (P (b + j))))

/-- The comparison of a vector, for bytes that all count. -/
theorem Marks.of_equal {x y : Vec} (hlo : lo ≤ b) (h : ∀ j < 16, x j = y j ↔ P (b + j)) :
    Marks P lo b (Vec.signs (Vec.equal x y) 16) := by
  intro j
  rw [Vec.testBit_signs_equal, decide_eq_true (show lo ≤ b + j by omega), Bool.true_and]
  by_cases hj : j < 16
  · rw [decide_eq_decide.mpr (h j hj)]
  · rw [decide_eq_false hj, Bool.false_and, Bool.false_and]

/-- The comparison of the first vector, with the bytes in front of the string masked. -/
theorem Marks.masked {w : Nat} {x y : Vec} (hw : 16 ≤ w) (hb : b ≤ lo)
    (h : ∀ j < 16, x j = y j ↔ P (b + j)) :
    Marks P lo b (Vec.signs (Vec.equal x y) 16 &&& alu.shl w (alu.not w 0) (lo - b)) := by
  intro j
  rw [Nat.testBit_and, Vec.testBit_signs_equal, testBit_ones_shl]
  by_cases hj : j < 16
  · rw [decide_eq_decide.mpr (h j hj), decide_eq_true hj, decide_eq_true (show j < w by omega),
      Bool.true_and, Bool.true_and, Bool.and_true, Bool.and_comm]
    congr 1
    rw [decide_eq_decide]
    omega
  · rw [decide_eq_false hj, Bool.false_and, Bool.false_and, Bool.false_and]

/-- The first byte that is looked for is the lowest bit. -/
theorem Marks.lowestBit_eq {w : Nat} (h : Marks P lo b v) (ht : P t) (hlo : lo ≤ t) (hb : b ≤ t)
    (hlt : t < b + 16) (hfirst : ∀ i, lo ≤ i → i < t → ¬ P i) (hw : 16 ≤ w) :
    lowestBit w 0 v = t - b := by
  have hbit : v.testBit (t - b) = true := by
    rw [h, Nat.add_sub_cancel' hb, decide_eq_true (show t - b < 16 by omega), decide_eq_true hlo,
      decide_eq_true ht]
    rfl
  refine Asm.lowestBit_eq hbit (Nat.zero_le _) (by omega) fun k _ hk => ?_
  rw [h]
  by_cases hin : lo ≤ b + k
  · rw [decide_eq_false (hfirst (b + k) hin (by omega)), Bool.and_false, Bool.and_false]
  · rw [decide_eq_false hin, Bool.false_and, Bool.and_false]

theorem Marks.ne_zero (h : Marks P lo b v) (ht : P t) (hlo : lo ≤ t) (hb : b ≤ t)
    (hlt : t < b + 16) : v ≠ 0 := by
  rintro rfl
  have hbit := h (t - b)
  rw [Nat.zero_testBit, Nat.add_sub_cancel' hb, decide_eq_true (show t - b < 16 by omega),
    decide_eq_true hlo, decide_eq_true ht] at hbit
  exact Bool.false_ne_true hbit

theorem Marks.eq_zero (h : Marks P lo b v)
    (hnone : ∀ i, lo ≤ i → b ≤ i → i < b + 16 → ¬ P i) : v = 0 := by
  refine Nat.eq_of_testBit_eq fun j => ?_
  rw [h, Nat.zero_testBit]
  by_cases hj : j < 16 ∧ lo ≤ b + j
  · rw [decide_eq_false (hnone (b + j) hj.2 (by omega) (by omega)), Bool.and_false,
      Bool.and_false]
  · rcases not_and_or.mp hj with hj | hj
    · rw [decide_eq_false hj, Bool.false_and]
    · rw [decide_eq_false hj, Bool.false_and, Bool.and_false]

/-- The first byte that is looked for in a block with a mask that is not zero. -/
theorem Marks.exists_first (h : Marks P lo b v) (hne : v ≠ 0) :
    ∃ t, lo ≤ t ∧ b ≤ t ∧ t < b + 16 ∧ P t ∧ ∀ i, lo ≤ i → b ≤ i → i < t → ¬ P i := by
  obtain ⟨j, hj⟩ := Nat.exists_testBit_of_ne_zero hne
  have hfound : ∃ t, lo ≤ t ∧ b ≤ t ∧ t < b + 16 ∧ P t := by
    rw [h j, Bool.and_eq_true, Bool.and_eq_true, decide_eq_true_eq, decide_eq_true_eq,
      decide_eq_true_eq] at hj
    exact ⟨b + j, hj.2.1, Nat.le_add_right b j, Nat.add_lt_add_left hj.1 b, hj.2.2⟩
  obtain ⟨hlo, hb, hlt, hP⟩ := Nat.find_spec hfound
  refine ⟨Nat.find hfound, hlo, hb, hlt, hP, fun i hi hbi hlti hPi => ?_⟩
  exact Nat.find_min hfound hlti ⟨hi, hbi, hlti.trans hlt, hPi⟩

end Marks

/-- How far a byte of a block is behind a pointer, as the routines compute it. -/
theorem difference_difference {w s b j n : Nat} (hsum : b + j = s + n) (hb : b < 2 ^ w)
    (hlt : s + n < 2 ^ w) : difference w j (difference w s b) = n := by
  rcases Nat.lt_or_ge s b with h | h
  · rw [Flags.difference_of_lt h hb]
    rcases Nat.lt_or_ge j (s + 2 ^ w - b) with h' | h'
    · rw [Flags.difference_of_lt h' (by omega)]
      omega
    · rw [Flags.difference_of_le h' (by omega)]
      omega
  · rw [Flags.difference_of_le h (by omega), Flags.difference_of_le (by omega) (by omega)]
    omega

/-! ## The bytes of a word -/

/-- The byte `i` of a number, from the lowest one on. -/
def byte (v i : Nat) : Nat := v / 256 ^ i % 256

theorem byte_zero (v : Nat) : byte v 0 = v % 256 := by
  rw [byte, pow_zero, Nat.div_one]

theorem byte_div (v i : Nat) : byte (v / 256) i = byte v (i + 1) := by
  rw [byte, byte, Nat.div_div_eq_div_mul, pow_succ, Nat.mul_comm]

theorem byte_load (m : Memory) {a n i : Nat} (hi : i < n) :
    byte (m.load a n) i = (m (a + i)).toNat := by
  rw [← Memory.load_byte m hi, UInt8.toNat_ofNat']
  rfl

/-- A word of `n` bytes that are all 1. -/
def ones : Nat → Nat
  | 0 => 0
  | n + 1 => 1 + 256 * ones n

theorem ones_lt (n : Nat) : ones n < 256 ^ n := by
  induction n with
  | zero => exact Nat.one_pos
  | succ n ih =>
    rw [ones, pow_succ]
    omega

/-- The first zero byte of `v` becomes `0xFF` in `v - 0x01…01`: the bytes below it
lend nothing. -/
theorem byte_sub_ones {n j v : Nat} (hj : j < n) (hlow : ∀ i, i < j → byte v i ≠ 0)
    (hzero : byte v j = 0) : byte ((v + 256 ^ n - ones n) % 256 ^ n) j = 255 := by
  induction j generalizing n v with
  | zero =>
    obtain ⟨n, rfl⟩ : ∃ k, n = k + 1 := ⟨n - 1, by omega⟩
    have hones := ones_lt n
    rw [byte_zero] at hzero
    rw [byte_zero, Nat.mod_mod_of_dvd _ ⟨256 ^ n, by rw [pow_succ, Nat.mul_comm]⟩, ones, pow_succ]
    omega
  | succ j ih =>
    obtain ⟨n, rfl⟩ : ∃ k, n = k + 1 := ⟨n - 1, by omega⟩
    have hones := ones_lt n
    have hfirst : byte v 0 ≠ 0 := hlow 0 (Nat.succ_pos j)
    rw [byte_zero] at hfirst
    have hdiv : (v + 256 ^ (n + 1) - ones (n + 1)) % 256 ^ (n + 1) / 256
        = (v / 256 + 256 ^ n - ones n) % 256 ^ n := by
      rw [pow_succ, Nat.mul_comm (256 ^ n) 256, Nat.mod_mul_right_div_self, ones]
      congr 1
      omega
    rw [← byte_div, hdiv]
    refine ih (by omega) (fun i hi => ?_) ?_
    · rw [byte_div]
      exact hlow (i + 1) (by omega)
    · rw [byte_div]
      exact hzero

theorem testBit_byte (v j k : Nat) (hk : k < 8) :
    v.testBit (8 * j + k) = (byte v j).testBit k := by
  rw [byte, show (256 : Nat) = 2 ^ 8 from rfl, ← pow_mul, Nat.testBit_mod_two_pow,
    Nat.testBit_div_two_pow, decide_eq_true hk, Bool.true_and, Nat.add_comm]

theorem byte_const_mul_ones {n j b : Nat} (hb : b < 256) (hj : j < n) :
    byte (b * ones n) j = b := by
  induction j generalizing n with
  | zero =>
    obtain ⟨n, rfl⟩ : ∃ k, n = k + 1 := ⟨n - 1, by omega⟩
    rw [byte_zero, ones, Nat.mul_add, Nat.mul_one, Nat.mul_left_comm, Nat.add_mul_mod_self_left,
      Nat.mod_eq_of_lt hb]
  | succ j ih =>
    obtain ⟨n, rfl⟩ : ∃ k, n = k + 1 := ⟨n - 1, by omega⟩
    have hdiv : b * ones (n + 1) / 256 = b * ones n := by
      rw [ones, Nat.mul_add, Nat.mul_one, Nat.mul_left_comm, Nat.add_mul_div_left _ _ (by decide),
        Nat.div_eq_of_lt hb, Nat.zero_add]
    rw [← byte_div, hdiv]
    exact ih (by omega)

/-- A word with a zero byte does not pass the test. -/
theorem zeroTest_ne_zero {n j v : Nat} (hv : v < 2 ^ (8 * n)) (hj : j < n)
    (hzero : byte v j = 0) :
    difference (8 * n) v (ones n) &&& (alu.not (8 * n) v &&& 128 * ones n) ≠ 0 := by
  -- the first zero byte
  obtain ⟨i, hin, hiz, hlow⟩ : ∃ i, i < n ∧ byte v i = 0 ∧ ∀ k, k < i → byte v k ≠ 0 := by
    have hex : ∃ i, byte v i = 0 := ⟨j, hzero⟩
    exact ⟨Nat.find hex, Nat.lt_of_le_of_lt (Nat.find_le hzero) hj, Nat.find_spec hex,
      fun k hk => Nat.find_min hex hk⟩
  have hpow : (256 : Nat) ^ n = 2 ^ (8 * n) := by
    rw [show (256 : Nat) = 2 ^ 8 from rfl, ← pow_mul]
  have hdiff : (difference (8 * n) v (ones n)).testBit (8 * i + 7) = true := by
    have h255 := byte_sub_ones hin hlow hiz
    rw [hpow] at h255
    rw [testBit_byte _ _ _ (by decide), difference, h255]
    rfl
  have hnot : (alu.not (8 * n) v).testBit (8 * i + 7) = true := by
    show (2 ^ (8 * n) - 1 - v).testBit (8 * i + 7) = true
    rw [Nat.sub_sub, Nat.add_comm 1 v, Nat.testBit_two_pow_sub_succ hv,
      testBit_byte _ _ _ (by decide), hiz, decide_eq_true (show 8 * i + 7 < 8 * n by omega)]
    rfl
  have htop : (128 * ones n).testBit (8 * i + 7) = true := by
    rw [testBit_byte _ _ _ (by decide), byte_const_mul_ones (by decide) hin]
    rfl
  intro h
  have hbit : (difference (8 * n) v (ones n) &&& (alu.not (8 * n) v &&& 128 * ones n)).testBit
      (8 * i + 7) = true := by
    rw [Nat.testBit_and, Nat.testBit_and, hdiff, hnot, htop]
    rfl
  rw [h, Nat.zero_testBit] at hbit
  exact Bool.false_ne_true hbit

/-! ## Words with masked bytes -/

theorem byte_lt (v i : Nat) : byte v i < 256 := Nat.mod_lt _ (by decide)

theorem byte_eq_zero_iff (v i : Nat) : byte v i = 0 ↔ ∀ k < 8, v.testBit (8 * i + k) = false := by
  constructor
  · intro h k hk
    rw [testBit_byte v i k hk, h, Nat.zero_testBit]
  · intro h
    refine Nat.eq_of_testBit_eq fun k => ?_
    rw [Nat.zero_testBit]
    by_cases hk : k < 8
    · rw [← testBit_byte v i k hk]
      exact h k hk
    · have hpow : 2 ^ 8 ≤ 2 ^ k := Nat.pow_le_pow_right (by decide) (by omega)
      exact Nat.testBit_lt_two_pow (Nat.lt_of_lt_of_le (byte_lt v i) hpow)

/-- Ones in the low `k` bits keep the bytes that they reach from being zero. -/
theorem byte_or_ones_eq_zero_iff (v k i : Nat) :
    byte (v ||| (2 ^ k - 1)) i = 0 ↔ k ≤ 8 * i ∧ byte v i = 0 := by
  simp only [byte_eq_zero_iff, Nat.testBit_or, Nat.testBit_two_pow_sub_one, Bool.or_eq_false_iff,
    decide_eq_false_iff_not]
  constructor
  · intro h
    have hfirst := (h 0 (by decide)).2
    exact ⟨by omega, fun j hj => (h j hj).1⟩
  · rintro ⟨hk, h⟩ j hj
    exact ⟨h j hj, by omega⟩

/-- The mask of the low bits, as the routines make it. -/
theorem not_shl_ones {w k : Nat} (hk : k ≤ w) :
    alu.not w (alu.shl w (alu.not w 0) k) = 2 ^ k - 1 := by
  have hle : 2 ^ k ≤ 2 ^ w := Nat.pow_le_pow_right (by decide) hk
  have hpos : 0 < 2 ^ k := Nat.two_pow_pos k
  have hshl : (2 ^ w - 1 - 0) * 2 ^ k % 2 ^ w = 2 ^ w - 2 ^ k := by
    have hsplit : (2 ^ w - 1) * 2 ^ k = 2 ^ w - 2 ^ k + 2 ^ w * (2 ^ k - 1) := by
      have hmul : 2 ^ w ≤ 2 ^ w * 2 ^ k := Nat.le_mul_of_pos_right _ hpos
      rw [Nat.sub_mul, Nat.mul_sub, Nat.one_mul, Nat.mul_one]
      omega
    rw [Nat.sub_zero, hsplit, Nat.add_mul_mod_self_left, Nat.mod_eq_of_lt (by omega)]
  show 2 ^ w - 1 - (2 ^ w - 1 - 0) * 2 ^ k % 2 ^ w = 2 ^ k - 1
  rw [hshl]
  omega

/-- The zero bytes of a word of `n` bytes stand for what is looked for among the bytes from `a`
on. -/
structure ZeroMarks (P : Nat → Prop) (a n v : Nat) : Prop where
  lt : v < 2 ^ (8 * n)
  zero : ∀ i < n, byte v i = 0 ↔ P (a + i)

end Lib.Asm
