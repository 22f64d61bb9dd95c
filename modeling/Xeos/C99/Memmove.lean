import Xeos.Lib.Loop
import Xeos.Lib.Memory

/-!
# `memmove`

`memmove` of `lib/c99/string/memmove.c`.  It copies upwards when the destination is not
above the source, and downwards otherwise.
-/

namespace Xeos.C99

open Lib

/-- `memmove`.  It gives the destination back. -/
def memmove (s1 s2 n : Nat) (m : Memory) : Nat × Memory :=
  if s1 ≤ s2 then (s1, forLoop (fun i m => m.set (s1 + i) (m (s2 + i))) n m)
  else if n ≠ 0 then
    -- the loop ends at `i = 0`, and the byte 0 follows it
    let m := forLoop (fun k m => m.set (s1 + (n - 1 - k)) (m (s2 + (n - 1 - k)))) (n - 1) m
    (s1, m.set (s1 + 0) (m (s2 + 0)))
  else (s1, m)

section Memmove

variable {s1 s2 n : Nat} {m : Memory}

/-- Below the source, no byte is overwritten before it is read. -/
theorem memmove_up (h : s1 ≤ s2) :
    forLoop (fun i m => m.set (s1 + i) (m (s2 + i))) n m = m.copy m s1 s2 n := by
  refine forLoop_inv _ n m (fun k m' => m' = m.copy m s1 s2 k) (Memory.copy_zero m m s1 s2).symm ?_
  rintro k m' _ rfl
  show (m.copy m s1 s2 k).set (s1 + k) (m.copy m s1 s2 k (s2 + k)) = m.copy m s1 s2 (k + 1)
  rw [Memory.copy_of_not_mem m m (by omega), Memory.set_eq_copy, Memory.copy_append]

/-- One more byte in front of a copy. -/
theorem copy_set_head (m : Memory) (d s k : Nat) :
    (m.copy m (d + 1) (s + 1) k).set d (m s) = m.copy m d s (k + 1) := by
  rw [Nat.add_comm k 1, ← Memory.copy_append m m d s 1 k, ← Memory.set_eq_copy]
  funext b
  by_cases hb : b = d
  · rw [hb, Memory.set_same, Memory.copy_of_not_mem _ _ (by omega), Memory.set_same]
  · rw [Memory.set_of_ne _ _ hb]
    by_cases hmem : d + 1 ≤ b ∧ b < d + 1 + k
    · rw [Memory.copy_of_mem _ _ hmem, Memory.copy_of_mem _ _ hmem]
    · rw [Memory.copy_of_not_mem _ _ (by omega), Memory.copy_of_not_mem _ _ (by omega),
        Memory.set_of_ne _ _ hb]

/-- Above the source, the highest bytes go first. -/
theorem memmove_down (h : s2 < s1) {k : Nat} (hk : k ≤ n) :
    forLoop (fun k m => m.set (s1 + (n - 1 - k)) (m (s2 + (n - 1 - k)))) k m
      = m.copy m (s1 + (n - k)) (s2 + (n - k)) k := by
  refine forLoop_inv _ k m (fun k m' => m' = m.copy m (s1 + (n - k)) (s2 + (n - k)) k)
    (Memory.copy_zero m m _ _).symm ?_
  rintro k' m' hk' rfl
  obtain ⟨i, hi⟩ : ∃ i, n - 1 - k' = i ∧ n - k' = i + 1 ∧ n - (k' + 1) = i :=
    ⟨n - 1 - k', rfl, by omega, by omega⟩
  rw [hi.1, hi.2.1, hi.2.2, Memory.copy_of_not_mem m m (by omega)]
  exact copy_set_head m (s1 + i) (s2 + i) k'

/-- `memmove` copies the bytes that the memory has at the call. -/
theorem memmove_eq_copy (s1 s2 n : Nat) (m : Memory) :
    memmove s1 s2 n m = (s1, m.copy m s1 s2 n) := by
  unfold memmove
  by_cases h : s1 ≤ s2
  · rw [if_pos h, memmove_up h]
  rw [if_neg h]
  by_cases hn : n = 0
  · rw [if_neg (not_not.mpr hn), hn, Memory.copy_zero]
  · rw [if_pos hn, memmove_down (not_le.mp h) (Nat.sub_le n 1)]
    obtain ⟨k, rfl⟩ := Nat.exists_eq_succ_of_ne_zero hn
    have hone : k.succ - k = 1 := by omega
    simp only [Nat.succ_sub_one, Nat.add_zero, hone]
    rw [Memory.copy_of_not_mem m m (by omega), copy_set_head]

end Memmove

/-- `memmove` moves the bytes that are at the source at the call, wherever the two regions lie,
and changes no other byte. -/
theorem memmove_moves (s1 s2 n : Nat) (m : Memory) :
    (memmove s1 s2 n m).1 = s1 ∧ (∀ i < n, (memmove s1 s2 n m).2 (s1 + i) = m (s2 + i)) ∧
      ∀ a, a < s1 ∨ s1 + n ≤ a → (memmove s1 s2 n m).2 a = m a := by
  rw [memmove_eq_copy]
  refine ⟨rfl, fun i hi => ?_, fun a ha => Memory.copy_of_not_mem m m ha⟩
  refine (Memory.copy_of_mem m m (by omega)).trans ?_
  rw [Nat.add_sub_cancel_left]

end Xeos.C99
