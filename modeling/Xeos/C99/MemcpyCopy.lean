import Xeos.C99.Memcpy

/-!
# The copying phases of the portable `memcpy`

Every phase of `memcpy` but one is a step of the forward copy `Memory.copy`:
`progress` is the state after `i` bytes, and each phase takes one such state to
another one.  `Xeos.C99.MemcpyStream` has the exception.
-/

namespace Xeos.C99.Memcpy

open Lib Lib.Memory

/-! ## The phases that copy -/

/-- The transfer of `total` bytes from `s` to `d`, after `i` bytes. -/
def progress (m : Memory) (d s total i : Nat) : Transfer :=
  ⟨copy m m d s i, d + i, s + i, total - i⟩

section Progress

variable {abi : Abi} {m : Memory} {d s total i : Nat}

theorem copyByte_progress (hapart : d + total ≤ s ∨ s + total ≤ d) (hi : i < total) :
    copyByte (progress m d s total i) = progress m d s total (i + 1) := by
  have hsrc : copy m m d s i (s + i) = m (s + i) := copy_of_not_mem m m (by omega)
  have hmem : (copy m m d s i).set (d + i) (copy m m d s i (s + i)) = copy m m d s (i + 1) := by
    rw [hsrc, set_eq_copy, copy_append]
  simp only [copyByte, progress, hmem, Transfer.mk.injEq, true_and]
  omega

theorem copyLongs_progress (hapart : d + total ≤ s ∨ s + total ≤ d) {j : Nat}
    (hi : i + j * abi.sizeofLong ≤ total) :
    copyLongs abi j (progress m d s total i)
      = progress m d s total (i + j * abi.sizeofLong) := by
  have hmem : forLoop (fun k mem => mem.store (d + i + k * abi.sizeofLong) abi.sizeofLong
      (mem.load (s + i + k * abi.sizeofLong) abi.sizeofLong)) j (copy m m d s i)
        = copy m m d s (i + j * abi.sizeofLong) := by
    apply forLoop_inv _ _ _ (fun k mem => mem = copy m m d s (i + k * abi.sizeofLong))
    · rw [Nat.zero_mul, Nat.add_zero]
    · intro k mem hk hmem
      have hle : (k + 1) * abi.sizeofLong ≤ j * abi.sizeofLong := Nat.mul_le_mul_right _ hk
      rw [Nat.succ_mul] at hle
      rw [hmem, Nat.add_assoc d, Nat.add_assoc s, Nat.succ_mul, ← Nat.add_assoc i]
      exact store_load_copy m hapart (by omega) (by omega)
  simp only [copyLongs, progress, hmem, Transfer.mk.injEq, true_and, Nat.mul_comm abi.sizeofLong]
  omega

theorem copyRest_progress (hapart : d + total ≤ s ∨ s + total ≤ d) (hi : i ≤ total) :
    copyRest (progress m d s total i) = progress m d s total total := by
  unfold copyRest
  have hspec := whileLoop_spec (fun t : Transfer => decide (t.n ≠ 0)) copyByte
    (fun t => ∃ k, k ≤ total ∧ t = progress m d s total k) Transfer.n
    (Nat.le_refl (progress m d s total i).n) ⟨i, hi, rfl⟩ (by
      intro t ht hcond
      obtain ⟨k, hk, rfl⟩ := ht
      have hlt : k < total := by
        have hne : total - k ≠ 0 := of_decide_eq_true hcond
        omega
      rw [copyByte_progress hapart hlt]
      refine ⟨⟨k + 1, hlt, rfl⟩, ?_⟩
      show total - (k + 1) < total - k
      omega)
  obtain ⟨⟨k, hk, hkeq⟩, hstop⟩ := hspec
  rw [hkeq] at hstop
  have hzero : ¬ (total - k ≠ 0) := of_decide_eq_false hstop
  rw [hkeq, show k = total by omega]

theorem copyBlocks_progress (abi : Abi) (hapart : d + total ≤ s ∨ s + total ≤ d) {j : Nat} (hj : 0 < j)
    (hi : i ≤ total) :
    ∃ k, k ≤ total ∧ copyBlocks abi j (progress m d s total i) = progress m d s total k := by
  have hpos : 0 < j * abi.sizeofLong := Nat.mul_pos hj abi.sizeofLong_pos
  have hspec := whileLoop_spec (fun t : Transfer => decide (t.n ≥ abi.sizeofLong * j))
    (copyLongs abi j) (fun t => ∃ k, k ≤ total ∧ t = progress m d s total k) Transfer.n
    (Nat.le_refl (progress m d s total i).n) ⟨i, hi, rfl⟩ (by
      intro t ht hcond
      obtain ⟨k, hk, rfl⟩ := ht
      have hge : total - k ≥ abi.sizeofLong * j := of_decide_eq_true hcond
      rw [Nat.mul_comm] at hge
      rw [copyLongs_progress hapart (by omega)]
      refine ⟨⟨k + j * abi.sizeofLong, by omega, rfl⟩, ?_⟩
      show total - (k + j * abi.sizeofLong) < total - k
      omega)
  exact hspec.1

theorem copyAligned_progress (hapart : d + total ≤ s ∨ s + total ≤ d) (hi : i ≤ total) :
    copyAligned abi (progress m d s total i) = progress m d s total total := by
  unfold copyAligned
  obtain ⟨k16, hk16, h16⟩ := copyBlocks_progress (m := m) abi hapart
    (show 0 < 16 by omega) hi
  rw [h16]
  obtain ⟨k8, hk8, h8⟩ := copyBlocks_progress (m := m) abi hapart
    (show 0 < 8 by omega) hk16
  rw [h8]
  obtain ⟨k1, hk1, h1⟩ := copyBlocks_progress (m := m) abi hapart
    (show 0 < 1 by omega) hk8
  rw [h1]
  exact copyRest_progress hapart hk1

/-- The number of bytes from `a` to the next multiple of `L`. -/
def gap (L a : Nat) : Nat := (L - a % L) % L

/-- An address `i` bytes further on, with `i` no more than the gap, is aligned
at the end of the gap and nowhere before. -/
theorem add_mod_eq_zero_iff {L a i : Nat} (hL : 0 < L) (hi : i ≤ gap L a) :
    (a + i) % L = 0 ↔ i = gap L a := by
  have hr : a % L < L := Nat.mod_lt a hL
  have hsplit : (a + i) % L = (a % L + i) % L := by
    rw [Nat.add_mod a i, Nat.add_mod (a % L) i, Nat.mod_mod]
  rw [hsplit]
  unfold gap at hi ⊢
  rcases Nat.eq_zero_or_pos (a % L) with hzero | hpos
  · rw [hzero, Nat.sub_zero, Nat.mod_self] at hi ⊢
    rw [show i = 0 by omega, Nat.add_zero, Nat.zero_mod]
  · rw [Nat.mod_eq_of_lt (show L - a % L < L by omega)] at hi ⊢
    constructor
    · intro h
      rcases Nat.eq_or_lt_of_le hi with heq | hlt
      · exact heq
      · rw [Nat.mod_eq_of_lt (by omega)] at h
        omega
    · intro h
      rw [show a % L + i = L by omega, Nat.mod_self]

theorem alignSource_progress (hapart : d + total ≤ s ∨ s + total ≤ d)
    (hs : s + total ≤ 2 ^ abi.pointerBits) :
    alignSource abi (progress m d s total 0)
      = progress m d s total (min total (gap abi.sizeofLong s)) := by
  unfold alignSource
  have hmis : ∀ k, k < total → k ≤ gap abi.sizeofLong s →
      (abi.alignDown (s + k) < s + k ↔ k ≠ gap abi.sizeofLong s) := by
    intro k hk hgap
    rw [abi.alignDown_lt_iff (by omega), Ne, add_mod_eq_zero_iff abi.sizeofLong_pos hgap]
  have hspec := whileLoop_spec
    (fun t : Transfer => decide (t.n > 0) && decide (abi.alignDown t.cp2 < t.cp2)) copyByte
    (fun t => ∃ k, k ≤ total ∧ k ≤ gap abi.sizeofLong s ∧ t = progress m d s total k) Transfer.n
    (Nat.le_refl (progress m d s total 0).n) ⟨0, Nat.zero_le _, Nat.zero_le _, rfl⟩ (by
      intro t ht hcond
      obtain ⟨k, hk, hgap, rfl⟩ := ht
      rw [Bool.and_eq_true, decide_eq_true_eq, decide_eq_true_eq] at hcond
      obtain ⟨hn, hlow⟩ := hcond
      have hlt : k < total := by
        have hpos : total - k > 0 := hn
        omega
      have hne := (hmis k hlt hgap).mp hlow
      rw [copyByte_progress hapart hlt]
      refine ⟨⟨k + 1, hlt, by omega, rfl⟩, ?_⟩
      show total - (k + 1) < total - k
      omega)
  obtain ⟨⟨k, hk, hgap, hkeq⟩, hstop⟩ := hspec
  rw [hkeq] at hstop
  rw [Bool.and_eq_false_iff, decide_eq_false_iff_not, decide_eq_false_iff_not] at hstop
  have hmin : k = min total (gap abi.sizeofLong s) := by
    rcases Nat.lt_or_ge k total with hlt | hge
    · rcases hstop with hn | hlow
      · have hzero : ¬ total - k > 0 := hn
        omega
      · have heq : ¬ k ≠ gap abi.sizeofLong s := fun h => hlow ((hmis k hlt hgap).mpr h)
        omega
    · omega
  rw [hkeq, hmin]

end Progress

end Xeos.C99.Memcpy
