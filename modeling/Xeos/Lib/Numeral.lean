import Mathlib.Data.Nat.Digits.Lemmas

/-!
# Numerals

The digits of a number in some radix, the highest one first and without a leading zero.
-/

namespace Lib

variable {α : Type}

/-- The canonical numeral of `n`. -/
def numeral (radix : Nat) (digit : Nat → α) (n : Nat) : List α :=
  if n = 0 then [digit 0] else (Nat.digits radix n).reverse.map digit

section Numeral

variable {radix n : Nat} {digit : Nat → α}

theorem numeral_of_lt (hn : n < radix) : numeral radix digit n = [digit n] := by
  unfold numeral
  by_cases hzero : n = 0
  · rw [if_pos hzero, hzero]
  · rw [if_neg hzero, Nat.digits_of_lt radix n hzero hn]
    rfl

theorem numeral_of_le (hradix : 1 < radix) (hn : radix ≤ n) :
    numeral radix digit n = numeral radix digit (n / radix) ++ [digit (n % radix)] := by
  have hpos : n / radix ≠ 0 := Nat.ne_of_gt (Nat.div_pos hn (by omega))
  unfold numeral
  rw [if_neg (by omega), if_neg hpos, Nat.digits_def' hradix (by omega)]
  simp

theorem numeral_congr {digit' : Nat → α} (hradix : 1 < radix)
    (hdigit : ∀ k < radix, digit k = digit' k) : numeral radix digit n = numeral radix digit' n := by
  unfold numeral
  rw [hdigit 0 (by omega)]
  refine if_congr Iff.rfl rfl (List.map_congr_left ?_)
  intro k hk
  exact hdigit k (Nat.digits_lt_base hradix (List.mem_reverse.mp hk))

theorem mem_numeral (hradix : 1 < radix) {c : α} (hc : c ∈ numeral radix digit n) :
    ∃ k < radix, c = digit k := by
  unfold numeral at hc
  by_cases hzero : n = 0
  · rw [if_pos hzero, List.mem_singleton] at hc
    exact ⟨0, by omega, hc⟩
  · rw [if_neg hzero, List.mem_map] at hc
    obtain ⟨k, hk, rfl⟩ := hc
    exact ⟨k, Nat.digits_lt_base hradix (List.mem_reverse.mp hk), rfl⟩

/-- No leading zero. -/
theorem head?_numeral (hradix : 1 < radix) (hn : n ≠ 0) :
    ∃ k, 0 < k ∧ k < radix ∧ (numeral radix digit n).head? = some (digit k) := by
  have hne : Nat.digits radix n ≠ [] := Nat.digits_ne_nil_iff_ne_zero.mpr hn
  have hlast := Nat.getLast_digit_ne_zero radix hn
  refine ⟨(Nat.digits radix n).getLast hne, Nat.pos_of_ne_zero hlast,
    Nat.digits_lt_base hradix (List.getLast_mem hne), ?_⟩
  unfold numeral
  rw [if_neg hn, List.head?_map, List.head?_reverse, List.getLast?_eq_some_getLast hne]
  rfl

end Numeral

end Lib
