import Mathlib.Data.Nat.Log
import Mathlib.Tactic.Ring

/-!
# Division of numbers of two words

A processor divides two words by one.  A divisor of two words is first rounded down to its leading
`w` bits: `rounded_div_le` says that the quotient is then at most one too large, and
`quotient_of_trial` and `remainder_of_trial` correct it.  `w` is the width of a word.
-/

namespace Lib.Division

/-! ## Rounding the divisor -/

/-- A divisor that is a little smaller gives a quotient that is at most one larger. -/
theorem div_le_succ_of_le {a b c : Nat} (hc : 0 < c) (h : (a / b + 1) * b ≤ (a / b + 2) * c)
    (hb : 0 < b) : a / c ≤ a / b + 1 := by
  have hlt : a < (a / b + 1) * b := by
    rw [Nat.mul_comm]
    exact Nat.lt_mul_div_succ a hb
  have hlt' : a / c < a / b + 2 := (Nat.div_lt_iff_lt_mul hc).mpr (Nat.lt_of_lt_of_le hlt h)
  omega

/-- The divisor without its low `k` bits. -/
def rounded (b k : Nat) : Nat := b / 2 ^ k * 2 ^ k

theorem rounded_le (b k : Nat) : rounded b k ≤ b := Nat.div_mul_le_self b _

theorem rounded_add_lt (b k : Nat) : b < rounded b k + 2 ^ k := by
  have hmod : b % 2 ^ k < 2 ^ k := Nat.mod_lt b (Nat.two_pow_pos k)
  have hsplit : 2 ^ k * (b / 2 ^ k) + b % 2 ^ k = b := Nat.div_add_mod b _
  rw [rounded, Nat.mul_comm]
  omega

theorem rounded_antitone (b : Nat) {k k' : Nat} (h : k ≤ k') : rounded b k' ≤ rounded b k := by
  obtain ⟨j, rfl⟩ := Nat.exists_eq_add_of_le h
  rw [rounded, rounded, pow_add, ← Nat.div_div_eq_div_mul, Nat.mul_comm (2 ^ k), ← Nat.mul_assoc]
  exact Nat.mul_le_mul_right _ (Nat.div_mul_le_self _ _)

/-- The quotient by the rounded divisor, of numbers with a divisor of `w + i + 1` bits and a
dividend of `2 * w`: one too large at most. -/
theorem rounded_div_le {a b w i : Nat} (ha : a < 2 ^ (2 * w)) (hi : i < w)
    (hb : 2 ^ (w + i) ≤ b) :
    a / b ≤ a / rounded b (i + 1) ∧ a / rounded b (i + 1) ≤ a / b + 1 := by
  have hpos : 0 < b := Nat.lt_of_lt_of_le (Nat.two_pow_pos _) hb
  have hrounded : 2 ^ (w + i) ≤ rounded b (i + 1) := by
    have hsplit : 2 ^ (w + i) = 2 ^ (w - 1) * 2 ^ (i + 1) := by rw [← pow_add]; congr 1; omega
    rw [rounded, hsplit]
    apply Nat.mul_le_mul_right
    rw [Nat.le_div_iff_mul_le (Nat.two_pow_pos _), ← hsplit]
    exact hb
  have hposc : 0 < rounded b (i + 1) := Nat.lt_of_lt_of_le (Nat.two_pow_pos _) hrounded
  refine ⟨Nat.div_le_div_left (rounded_le b _) hposc, div_le_succ_of_le hposc ?_ hpos⟩
  -- The quotient has at most `w - i` bits, and the rounding less than `2 ^ (i + 1)`.
  have hquot : a / b + 1 ≤ 2 ^ (w - i) := by
    rw [Nat.succ_le_iff, Nat.div_lt_iff_lt_mul hpos]
    calc a < 2 ^ (2 * w) := ha
      _ = 2 ^ (w - i) * 2 ^ (w + i) := by rw [← pow_add]; congr 1; omega
      _ ≤ 2 ^ (w - i) * b := Nat.mul_le_mul_left _ hb
  have herror : b - rounded b (i + 1) < 2 ^ (i + 1) := by
    have hlt := rounded_add_lt b (i + 1)
    have htwo := Nat.two_pow_pos (i + 1)
    omega
  have hproduct : (a / b + 1) * (b - rounded b (i + 1)) ≤ 2 ^ (w + i) := by
    rcases Nat.eq_zero_or_pos i with rfl | hpos
    · calc (a / b + 1) * (b - rounded b (0 + 1)) ≤ 2 ^ (w - 0) * 1 :=
          Nat.mul_le_mul hquot (by omega)
        _ = 2 ^ (w + 0) := Nat.mul_one _
    · calc (a / b + 1) * (b - rounded b (i + 1)) ≤ 2 ^ (w - i) * 2 ^ (i + 1) :=
          Nat.mul_le_mul hquot (Nat.le_of_lt herror)
        _ = 2 ^ (w + 1) := by rw [← pow_add]; congr 1; omega
        _ ≤ 2 ^ (w + i) := Nat.pow_le_pow_right (by omega) (by omega)
  calc (a / b + 1) * b
      = (a / b + 1) * (rounded b (i + 1) + (b - rounded b (i + 1))) := by
        rw [Nat.add_sub_cancel' (rounded_le b _)]
    _ = (a / b + 1) * rounded b (i + 1) + (a / b + 1) * (b - rounded b (i + 1)) := Nat.mul_add _ _ _
    _ ≤ (a / b + 1) * rounded b (i + 1) + rounded b (i + 1) :=
        Nat.add_le_add_left (Nat.le_trans hproduct hrounded) _
    _ = (a / b + 2) * rounded b (i + 1) := by ring

/-! ## The correction -/

section Trial

variable {a b q : Nat}

/-- A trial quotient that is one too large has a product above the dividend. -/
theorem quotient_of_trial (hb : 0 < b) (hle : a / b ≤ q) (hge : q ≤ a / b + 1) :
    a / b = if q * b ≤ a then q else q - 1 := by
  split
  · next h => exact Nat.le_antisymm hle ((Nat.le_div_iff_mul_le hb).mpr h)
  · next h =>
    have hne : q ≠ a / b := fun heq => h (heq ▸ Nat.div_mul_le_self a b)
    generalize a / b = t at hle hge hne ⊢
    omega

/-- The remainder, from the difference of the dividend and the product. -/
theorem remainder_of_trial (hb : 0 < b) (hle : a / b ≤ q) (hge : q ≤ a / b + 1) :
    a % b = if q * b ≤ a then a - q * b else a + b - q * b := by
  have hquot := quotient_of_trial hb hle hge
  have hsplit : b * (a / b) + a % b = a := Nat.div_add_mod a b
  split
  · next h =>
    rw [if_pos h] at hquot
    rw [hquot, Nat.mul_comm] at hsplit
    omega
  · next h =>
    rw [if_neg h] at hquot
    have hone : 1 ≤ q := by
      rcases Nat.eq_zero_or_pos q with rfl | hpos
      · rw [Nat.zero_mul] at h
        omega
      · exact hpos
    have hmul : b * (q - 1) + b = q * b := by
      rw [Nat.mul_comm q, ← Nat.mul_succ]
      congr 1
      omega
    rw [hquot] at hsplit
    omega

end Trial

/-! ## Two words -/

section Words

variable {w hi lo b : Nat}

/-- A divisor of one word divides the high word first, and then its remainder with the low one. -/
theorem div_of_word (hb : 0 < b) :
    (hi * 2 ^ w + lo) / b = hi / b * 2 ^ w + (hi % b * 2 ^ w + lo) / b ∧
      (hi * 2 ^ w + lo) % b = (hi % b * 2 ^ w + lo) % b := by
  have hsplit : hi * 2 ^ w + lo = hi % b * 2 ^ w + lo + b * (hi / b * 2 ^ w) := by
    conv_lhs => rw [← Nat.div_add_mod hi b]
    ring
  rw [hsplit, Nat.add_mul_div_left _ _ hb, Nat.add_mul_mod_self_left]
  exact ⟨Nat.add_comm _ _, rfl⟩

/-- The quotient of two words by one is a word, if the high word is below the divisor. -/
theorem div_lt_word (h : hi < b) (hlo : lo < 2 ^ w) : (hi * 2 ^ w + lo) / b < 2 ^ w := by
  have hb : 0 < b := by omega
  rw [Nat.div_lt_iff_lt_mul hb]
  calc hi * 2 ^ w + lo < hi * 2 ^ w + 2 ^ w := Nat.add_lt_add_left hlo _
    _ = (hi + 1) * 2 ^ w := by ring
    _ ≤ b * 2 ^ w := Nat.mul_le_mul_right _ h
    _ = 2 ^ w * b := Nat.mul_comm _ _

/-- The sum of two numbers of two words, from the carry of the low ones. -/
theorem add_words (hi lo hi' lo' : Nat) :
    (hi + hi' + (lo + lo') / 2 ^ w) % 2 ^ w * 2 ^ w + (lo + lo') % 2 ^ w
      = (hi * 2 ^ w + lo + (hi' * 2 ^ w + lo')) % 2 ^ (2 * w) := by
  have hsum : hi * 2 ^ w + lo + (hi' * 2 ^ w + lo') = lo + lo' + 2 ^ w * (hi + hi') := by ring
  rw [hsum, Nat.two_mul, pow_add, Nat.mod_mul, Nat.add_mul_mod_self_left,
    Nat.add_mul_div_left _ _ (Nat.two_pow_pos w), Nat.add_comm ((lo + lo') / 2 ^ w),
    Nat.mul_comm (2 ^ w), Nat.add_comm]

end Words

/-- The leading `w` bits of a divisor whose high word has `i + 1` of them, as the processor shifts
them together. -/
theorem leading_bits {w hi lo i : Nat} (hw : i < w) (hlt : hi < 2 ^ (i + 1)) (hlo : lo < 2 ^ w) :
    (hi * 2 ^ w + lo) / 2 ^ (i + 1) = hi * 2 ^ (w - 1 - i) ||| lo / 2 ^ (i + 1) ∧
      hi * 2 ^ (w - 1 - i) < 2 ^ w := by
  have hsplit : 2 ^ w = 2 ^ (w - 1 - i) * 2 ^ (i + 1) := by rw [← pow_add]; congr 1; omega
  have hlow : lo / 2 ^ (i + 1) < 2 ^ (w - 1 - i) := by
    rw [Nat.div_lt_iff_lt_mul (Nat.two_pow_pos _), ← hsplit]
    exact hlo
  constructor
  · rw [Nat.mul_comm hi (2 ^ (w - 1 - i)), ← Nat.two_pow_add_eq_or_of_lt hlow, hsplit,
      Nat.mul_comm (2 ^ (w - 1 - i)) (2 ^ (i + 1)), Nat.mul_left_comm,
      Nat.mul_add_div (Nat.two_pow_pos _), Nat.mul_comm hi]
  · calc hi * 2 ^ (w - 1 - i) < 2 ^ (i + 1) * 2 ^ (w - 1 - i) :=
        Nat.mul_lt_mul_of_pos_right hlt (Nat.two_pow_pos _)
      _ = 2 ^ w := by rw [hsplit, Nat.mul_comm]

end Lib.Division
