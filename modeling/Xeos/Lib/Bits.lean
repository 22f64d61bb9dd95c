import Mathlib.Data.Nat.Bitwise
import Xeos.Lib.Memory

/-!
# Masks on natural numbers

The address arithmetic of the sources is written with masks.  These lemmas turn
a mask into a quotient and a remainder, and the bits of a word in memory into those
of its bytes.
-/

namespace Lib

/-- The mask that clears the low `k` of `w` bits rounds down to a multiple of
`2 ^ k`. -/
theorem and_high_mask {a k w : Nat} (ha : a < 2 ^ w) (hk : k ≤ w) :
    a &&& (2 ^ w - 2 ^ k) = a / 2 ^ k * 2 ^ k := by
  have hmask : 2 ^ w - 2 ^ k = 2 ^ k * (2 ^ (w - k) - 1) := by
    rw [Nat.mul_sub, ← pow_add, Nat.add_sub_cancel' hk, Nat.mul_one]
  apply Nat.eq_of_testBit_eq
  intro i
  rw [hmask, Nat.testBit_and, Nat.testBit_two_pow_mul, Nat.testBit_two_pow_sub_one,
    Nat.testBit_mul_two_pow, Nat.testBit_div_two_pow]
  by_cases hi : k ≤ i
  · by_cases hw : i < w
    · simp [hi, show i - k < w - k by omega, show i - k + k = i by omega]
    · have hbit : a.testBit i = false :=
        Nat.testBit_lt_two_pow (Nat.lt_of_lt_of_le ha (Nat.pow_le_pow_right (by omega) (by omega)))
      simp [hbit, show i - k + k = i by omega, hi]
  · simp [hi]

/-- Flipping the low `k` bits counts them down. -/
theorem xor_low_mask (x k : Nat) :
    x ^^^ (2 ^ k - 1) = x / 2 ^ k * 2 ^ k + (2 ^ k - 1 - x % 2 ^ k) := by
  have hlt : x % 2 ^ k < 2 ^ k := Nat.mod_lt _ (Nat.two_pow_pos k)
  have hsub : 2 ^ k - 1 - x % 2 ^ k = 2 ^ k - (x % 2 ^ k + 1) := by omega
  rw [hsub, Nat.mul_comm]
  apply Nat.eq_of_testBit_eq
  intro i
  rw [Nat.testBit_two_pow_mul_add _ (by omega), Nat.testBit_xor, Nat.testBit_two_pow_sub_one,
    Nat.testBit_two_pow_sub_succ hlt, Nat.testBit_mod_two_pow, Nat.testBit_div_two_pow]
  by_cases hi : i < k
  · simp [hi]
  · simp [hi, show i - k + k = i by omega]

/-- Taking the low `k` bits away from a number. -/
theorem xor_mod_two_pow (x k : Nat) : x ^^^ (x % 2 ^ k) = x / 2 ^ k * 2 ^ k := by
  apply Nat.eq_of_testBit_eq
  intro i
  rw [Nat.testBit_xor, Nat.testBit_mod_two_pow, Nat.testBit_mul_two_pow, Nat.testBit_div_two_pow]
  by_cases hi : i < k
  · simp [hi, show ¬ k ≤ i by omega]
  · simp [hi, show k ≤ i by omega, show i - k + k = i by omega]

/-! ## The bits of the memory -/

namespace Memory

/-- The bit `k` of the byte at `a`. -/
def bit (m : Memory) (a k : Nat) : Bool := (m a).toNat.testBit k

/-- Set or clear this bit. -/
def setBit (m : Memory) (a k : Nat) (b : Bool) : Memory :=
  m.set a (if b then m a ||| UInt8.ofNat (2 ^ k) else m a &&& UInt8.ofNat (2 ^ 8 - (2 ^ k + 1)))

variable (m : Memory) {a n k : Nat}

theorem testBit_load {i j : Nat} (hi : i < n) (hj : j < 8) :
    (m.load a n).testBit (8 * i + j) = m.bit (a + i) j := by
  have hpow : (256 : Nat) ^ i = 2 ^ (8 * i) := by rw [Nat.pow_mul]
  unfold bit
  rw [← m.load_byte hi, UInt8.toNat_ofNat', hpow, Nat.testBit_mod_two_pow, Nat.testBit_div_two_pow,
    Nat.add_comm j]
  simp [hj]

/-- Storing a word stores bytes. -/
theorem store_eq_set {v i : Nat} (hi : i < n) (b : UInt8)
    (hsame : ∀ j, j < 8 * n → ¬ (8 * i ≤ j ∧ j < 8 * i + 8) →
      v.testBit j = (m.load a n).testBit j)
    (hbyte : ∀ j, j < 8 → v.testBit (8 * i + j) = b.toNat.testBit j) :
    m.store a n v = m.set (a + i) b := by
  funext c
  by_cases hc : a ≤ c ∧ c < a + n
  · obtain ⟨j, rfl⟩ : ∃ j, c = a + j := ⟨c - a, by omega⟩
    have hj : j < n := by omega
    have hpow : (256 : Nat) ^ j = 2 ^ (8 * j) := by rw [Nat.pow_mul]
    have hstored : m.store a n v (a + j) = UInt8.ofNat (v / 2 ^ (8 * j)) := by
      simp only [store, hc, and_self, if_true, Nat.add_sub_cancel_left, hpow]
    rw [hstored]
    apply UInt8.toNat_inj.mp
    rw [UInt8.toNat_ofNat']
    by_cases hij : j = i
    · subst hij
      rw [set_same]
      apply Nat.eq_of_testBit_eq
      intro t
      rw [Nat.testBit_mod_two_pow, Nat.testBit_div_two_pow, Nat.add_comm t]
      by_cases ht : t < 8
      · simp [ht, hbyte t ht]
      · have hlt : b.toNat.testBit t = false :=
          Nat.testBit_lt_two_pow (Nat.lt_of_lt_of_le b.toNat_lt
            (Nat.pow_le_pow_right (by omega) (by omega)))
        simp [ht, hlt]
    · rw [set_of_ne _ _ (by omega), ← m.load_byte hj, UInt8.toNat_ofNat', hpow]
      apply Nat.eq_of_testBit_eq
      intro t
      rw [Nat.testBit_mod_two_pow, Nat.testBit_mod_two_pow, Nat.testBit_div_two_pow,
        Nat.testBit_div_two_pow]
      by_cases ht : t < 8
      · rw [hsame (t + 8 * j) (by omega) (by omega)]
      · simp [ht]
  · rw [store_of_not_mem _ _ (by omega), set_of_ne _ _ (by omega)]

/-- Setting a bit of a word. -/
theorem store_lor_two_pow (hk : k < 8 * n) :
    m.store a n (m.load a n ||| 2 ^ k) = m.setBit (a + k / 8) (k % 8) true := by
  refine store_eq_set m (show k / 8 < n by omega) _ (fun j hj hout => ?_) (fun j hj => ?_)
  · rw [Nat.testBit_or, Nat.testBit_two_pow]
    simp [show k ≠ j by omega]
  · rw [Nat.testBit_or, testBit_load m (by omega) hj, Nat.testBit_two_pow]
    simp only [if_true, UInt8.toNat_or, Nat.testBit_or, UInt8.toNat_ofNat',
      Nat.testBit_mod_two_pow, Nat.testBit_two_pow, hj, decide_true, Bool.true_and]
    congr 1
    rw [decide_eq_decide]
    omega

/-- Clearing a bit of a word. -/
theorem store_land_two_pow (hk : k < 8 * n) :
    m.store a n (m.load a n &&& (2 ^ (8 * n) - 1 - 2 ^ k)) = m.setBit (a + k / 8) (k % 8) false := by
  have hmask : 2 ^ (8 * n) - 1 - 2 ^ k = 2 ^ (8 * n) - (2 ^ k + 1) := by omega
  have hlt : 2 ^ k < 2 ^ (8 * n) := Nat.pow_lt_pow_right (by omega) hk
  have hlt' : 2 ^ (k % 8) < 2 ^ 8 := Nat.pow_lt_pow_right (by omega) (by omega)
  rw [hmask]
  refine store_eq_set m (show k / 8 < n by omega) _ (fun j hj hout => ?_) (fun j hj => ?_)
  · rw [Nat.testBit_and, Nat.testBit_two_pow_sub_succ hlt, Nat.testBit_two_pow]
    simp [hj, show k ≠ j by omega]
  · rw [Nat.testBit_and, testBit_load m (by omega) hj, Nat.testBit_two_pow_sub_succ hlt,
      Nat.testBit_two_pow]
    simp only [Bool.false_eq_true, if_false, UInt8.toNat_and, Nat.testBit_and, UInt8.toNat_ofNat',
      Nat.testBit_mod_two_pow, hj, decide_true, Bool.true_and]
    rw [Nat.testBit_two_pow_sub_succ hlt', Nat.testBit_two_pow]
    simp only [hj, show 8 * (k / 8) + j < 8 * n by omega, decide_true, Bool.true_and]
    congr 2
    rw [decide_eq_decide]
    omega

end Memory

end Lib
