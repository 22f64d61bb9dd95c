import Xeos.Lib.Memory

/-!
# Strings in memory

`CString m a text` says that the bytes of `text` and a NUL are at `a`.  `strcmp` is the function
of `strcmp.c`, and `strlen` counts the bytes in front of the NUL.  They take fuel, and any fuel
above the length of the string is enough.
-/

namespace Xeos.C99

open Lib

/-- The string `text` is at `a`, with its NUL. -/
def CString (m : Memory) : Nat → List UInt8 → Prop
  | a, [] => m a = 0
  | a, b :: text => m a = b ∧ b ≠ 0 ∧ CString m (a + 1) text

instance CString.decidable (m : Memory) : ∀ a text, Decidable (CString m a text)
  | a, [] => inferInstanceAs (Decidable (m a = 0))
  | a, b :: text =>
    have := CString.decidable m (a + 1) text
    inferInstanceAs (Decidable (m a = b ∧ b ≠ 0 ∧ CString m (a + 1) text))

/-- `strcmp`. -/
def strcmp (m : Memory) : Nat → Nat → Nat → Option Int
  | 0, _, _ => none
  | fuel + 1, p1, p2 =>
    if m p1 ≠ 0 then
      if m p1 < m p2 then some (-1)
      else if m p2 < m p1 then some 1
      else strcmp m fuel (p1 + 1) (p2 + 1)
    else if m p2 = 0 then some 0
    else some (-1)

/-- `strlen`. -/
def strlen (m : Memory) : Nat → Nat → Option Nat
  | 0, _ => none
  | fuel + 1, s => if m s = 0 then some 0 else (strlen m fuel (s + 1)).map (· + 1)

variable {m : Memory}

/-- The byte at the start of a string. -/
theorem CString.head {a : Nat} {text : List UInt8} (h : CString m a text) : m a = text.headD 0 := by
  cases text with
  | nil => exact h
  | cons b text => exact h.1

/-- The end of a string is a string. -/
theorem CString.append {a : Nat} {s text : List UInt8} (h : CString m a (s ++ text)) :
    CString m (a + s.length) text := by
  induction s generalizing a with
  | nil => exact h
  | cons b s ih =>
    have htail := ih h.2.2
    rwa [Nat.add_right_comm, Nat.add_assoc] at htail

/-- The comparison is zero on equal strings only. -/
theorem strcmp_cstring {fuel p1 p2 : Nat} {s1 s2 : List UInt8} (h1 : CString m p1 s1)
    (h2 : CString m p2 s2) (hfuel : s1.length < fuel) :
    ∃ r, strcmp m fuel p1 p2 = some r ∧ (r = 0 ↔ s1 = s2) := by
  induction s1 generalizing fuel p1 p2 s2 with
  | nil =>
    rcases fuel with _ | fuel
    · exact absurd hfuel (Nat.not_lt_zero _)
    have hp1 : m p1 = 0 := h1
    rw [strcmp, if_neg (not_not.mpr hp1)]
    cases s2 with
    | nil => exact ⟨0, if_pos h2, by simp⟩
    | cons b s2 =>
      refine ⟨-1, if_neg ?_, by simp⟩
      rw [h2.1]
      exact h2.2.1
  | cons a s1 ih =>
    rcases fuel with _ | fuel
    · exact absurd hfuel (Nat.not_lt_zero _)
    rcases h1 with ⟨ha, hne, htail⟩
    rw [strcmp, ha, if_pos hne]
    cases s2 with
    | nil =>
      have hp2 : m p2 = 0 := h2
      have hpos : ¬ a < 0 := by simp
      rw [hp2, if_neg hpos, if_pos (UInt8.pos_iff_ne_zero.mpr hne)]
      exact ⟨1, rfl, by simp⟩
    | cons b s2 =>
      rcases h2 with ⟨hb, -, htail2⟩
      rw [hb]
      by_cases hlt : a < b
      · rw [if_pos hlt]
        exact ⟨-1, rfl, by simp [UInt8.ne_of_lt hlt]⟩
      · by_cases hgt : b < a
        · rw [if_neg hlt, if_pos hgt]
          exact ⟨1, rfl, by simp [(UInt8.ne_of_lt hgt).symm]⟩
        · have heq : a = b := by
            apply UInt8.toNat_inj.mp
            rw [UInt8.lt_iff_toNat_lt] at hlt hgt
            omega
          rw [if_neg hlt, if_neg hgt]
          rcases ih htail htail2 (Nat.lt_of_succ_lt_succ hfuel) with ⟨r, hr, hzero⟩
          refine ⟨r, hr, ?_⟩
          rw [hzero, heq, List.cons.injEq]
          exact ⟨fun h => ⟨rfl, h⟩, And.right⟩

theorem strlen_cstring {fuel a : Nat} {s : List UInt8} (h : CString m a s)
    (hfuel : s.length < fuel) : strlen m fuel a = some s.length := by
  induction s generalizing fuel a with
  | nil =>
    rcases fuel with _ | fuel
    · exact absurd hfuel (Nat.not_lt_zero _)
    exact if_pos h
  | cons b s ih =>
    rcases fuel with _ | fuel
    · exact absurd hfuel (Nat.not_lt_zero _)
    rcases h with ⟨hb, hne, htail⟩
    rw [strlen, hb, if_neg hne, ih htail (Nat.lt_of_succ_lt_succ hfuel)]
    rfl

end Xeos.C99
