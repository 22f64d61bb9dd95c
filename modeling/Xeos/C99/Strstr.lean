import Mathlib.Data.List.Basic

/-!
# `strstr`

`strstr` of `lib/c99/string/strstr.c`.  The memory is a partial one: a read of a byte that it
does not have is a fault.  So a run in a memory that has nothing but the two strings, with their
NULs, reads nothing else.

The search starts again at the next byte of the first string whenever the comparison fails, so
it looks at every position up to the first one where the second string is.
-/

namespace Xeos.C99.Strstr

/-- The bytes that can be read. -/
abbrev Readable := Nat → Option UInt8

/-- The inner loop, whose result is the last `p3`. -/
def compare (m : Readable) : Nat → Nat → Nat → Option Nat
  | 0, _, _ => none
  | fuel + 1, p2, p3 =>
    (m p3).bind fun c3 =>
      if c3 ≠ 0 then
        (m p2).bind fun c2 => if c2 = c3 then compare m fuel (p2 + 1) (p3 + 1) else some p3
      else some p3

/-- The outer loop, where `inner` is a bound for the rounds of the inner one. -/
def search (m : Readable) (inner s2 : Nat) : Nat → Nat → Option (Option Nat)
  | 0, _ => none
  | fuel + 1, p1 =>
    (m p1).bind fun c1 =>
      if c1 ≠ 0 then
        (m s2).bind fun c =>
          if c1 = c then
            (compare m inner p1 s2).bind fun p3 =>
              (m p3).bind fun c3 =>
                if c3 = 0 then some (some p1) else search m inner s2 fuel (p1 + 1)
          else search m inner s2 fuel (p1 + 1)
      else some none

/-- `strstr`.  The outer option is for a fault, and the inner one for `NULL`. -/
def strstr (m : Readable) (fuel s1 s2 : Nat) : Option (Option Nat) :=
  (m s2).bind fun c => if c = 0 then some (some s1) else search m fuel s2 fuel s1

/-- The string `text` is at `a`, with its NUL. -/
def TextAt (m : Readable) : Nat → List UInt8 → Prop
  | a, [] => m a = some 0
  | a, b :: text => m a = some b ∧ b ≠ 0 ∧ TextAt m (a + 1) text

instance TextAt.decidable (m : Readable) : ∀ a text, Decidable (TextAt m a text)
  | a, [] => inferInstanceAs (Decidable (m a = some 0))
  | a, b :: text =>
    have := TextAt.decidable m (a + 1) text
    inferInstanceAs (Decidable (m a = some b ∧ b ≠ 0 ∧ TextAt m (a + 1) text))

/-- The pointer to the first place in `t1`, which is at `s1`, where `t2` is. -/
def Finds (s1 : Nat) (t1 t2 : List UInt8) : Option Nat → Prop
  | some a => ∃ k, a = s1 + k ∧ t2 <+: t1.drop k ∧ ∀ j < k, ¬ t2 <+: t1.drop j
  | none => ∀ k, ¬ t2 <+: t1.drop k

variable {m : Readable}

/-- The inner loop stops at the NUL if the one text begins with the other. -/
theorem compare_text {p2 p3 : Nat} {u v : List UInt8} (hu : TextAt m p2 u) (hv : TextAt m p3 v) :
    ∃ p c, (∀ fuel, v.length < fuel → compare m fuel p2 p3 = some p) ∧ m p = some c ∧
      (c = 0 ↔ v <+: u) := by
  induction v generalizing p2 p3 u with
  | nil =>
    have hp3 : m p3 = some 0 := hv
    refine ⟨p3, 0, fun fuel hfuel => ?_, hp3, iff_of_true rfl List.nil_prefix⟩
    rcases fuel with _ | fuel
    · exact absurd hfuel (Nat.not_lt_zero _)
    rw [compare, hp3, Option.bind_some, if_neg (not_not.mpr rfl)]
  | cons b v ih =>
    rcases hv with ⟨hp3, hne, hv⟩
    cases u with
    | nil =>
      have hp2 : m p2 = some 0 := hu
      refine ⟨p3, b, fun fuel hfuel => ?_, hp3, iff_of_false hne (by simp)⟩
      rcases fuel with _ | fuel
      · exact absurd hfuel (Nat.not_lt_zero _)
      rw [compare, hp3, Option.bind_some, if_pos hne, hp2, Option.bind_some, if_neg hne.symm]
    | cons a u =>
      rcases hu with ⟨hp2, -, hu⟩
      by_cases hab : a = b
      · rcases ih hu hv with ⟨p, c, hrun, hp, hiff⟩
        refine ⟨p, c, fun fuel hfuel => ?_, hp, ?_⟩
        · rcases fuel with _ | fuel
          · exact absurd hfuel (Nat.not_lt_zero _)
          rw [compare, hp3, Option.bind_some, if_pos hne, hp2, Option.bind_some, if_pos hab]
          exact hrun fuel (Nat.lt_of_succ_lt_succ hfuel)
        · rw [hiff, hab, List.prefix_cons_inj]
      · refine ⟨p3, b, fun fuel hfuel => ?_, hp3, iff_of_false hne fun h => ?_⟩
        · rcases fuel with _ | fuel
          · exact absurd hfuel (Nat.not_lt_zero _)
          rw [compare, hp3, Option.bind_some, if_pos hne, hp2, Option.bind_some, if_neg hab]
        · exact hab (List.cons_prefix_cons.mp h).1.symm

/-- A text that does not begin here begins further on, or nowhere. -/
theorem Finds.cons {p1 : Nat} {a : UInt8} {t1 t2 : List UInt8} {r : Option Nat}
    (hhere : ¬ t2 <+: a :: t1) (h : Finds (p1 + 1) t1 t2 r) : Finds p1 (a :: t1) t2 r := by
  cases r with
  | none =>
    intro k
    cases k with
    | zero => exact hhere
    | succ k => exact h k
  | some _ =>
    rcases h with ⟨k, rfl, hk, hfirst⟩
    refine ⟨k + 1, by omega, hk, fun j hj => ?_⟩
    cases j with
    | zero => exact hhere
    | succ j => exact hfirst j (Nat.lt_of_succ_lt_succ hj)

/-- The outer loop finds the first place, for a text that is not empty. -/
theorem search_text {p1 s2 : Nat} {t1 t2 : List UInt8} {b : UInt8} (h1 : TextAt m p1 t1)
    (h2 : TextAt m s2 (b :: t2)) :
    ∃ r, (∀ inner fuel, (b :: t2).length < inner → t1.length < fuel →
      search m inner s2 fuel p1 = some r) ∧ Finds p1 t1 (b :: t2) r := by
  have hs2 : m s2 = some b := h2.1
  induction t1 generalizing p1 with
  | nil =>
    have hp1 : m p1 = some 0 := h1
    refine ⟨none, fun inner fuel _ hfuel => ?_, fun k => by simp⟩
    rcases fuel with _ | fuel
    · exact absurd hfuel (Nat.not_lt_zero _)
    rw [search, hp1, Option.bind_some, if_neg (not_not.mpr rfl)]
  | cons a t1 ih =>
    rcases compare_text h1 h2 with ⟨p, c, hcompare, hp, hiff⟩
    rcases h1 with ⟨hp1, hne, h1⟩
    rcases ih h1 with ⟨r, hrun, hfinds⟩
    have hround : ∀ inner fuel, (b :: t2).length < inner →
        search m inner s2 (fuel + 1) p1 = if a = b then
          if c = 0 then some (some p1) else search m inner s2 fuel (p1 + 1)
        else search m inner s2 fuel (p1 + 1) := by
      intro inner fuel hinner
      rw [search, hp1, Option.bind_some, if_pos hne, hs2, Option.bind_some,
        hcompare inner hinner, Option.bind_some, hp, Option.bind_some]
    by_cases hhere : b :: t2 <+: a :: t1
    · have hab : a = b := (List.cons_prefix_cons.mp hhere).1.symm
      refine ⟨some p1, fun inner fuel hinner hfuel => ?_, 0, rfl, hhere,
        fun j hj => absurd hj (Nat.not_lt_zero j)⟩
      rcases fuel with _ | fuel
      · exact absurd hfuel (Nat.not_lt_zero _)
      rw [hround inner fuel hinner, if_pos hab, if_pos (hiff.mpr hhere)]
    · refine ⟨r, fun inner fuel hinner hfuel => ?_, hfinds.cons hhere⟩
      rcases fuel with _ | fuel
      · exact absurd hfuel (Nat.not_lt_zero _)
      rw [hround inner fuel hinner, if_neg (fun hc => hhere (hiff.mp hc)), ite_self]
      exact hrun inner fuel hinner (Nat.lt_of_succ_lt_succ hfuel)

/-- `strstr` finds the first occurrence, and reads no byte behind the NULs. -/
theorem strstr_finds (m : Readable) {s1 s2 : Nat} {t1 t2 : List UInt8} (h1 : TextAt m s1 t1)
    (h2 : TextAt m s2 t2) :
    ∃ r, (∀ fuel, t1.length < fuel → t2.length < fuel → strstr m fuel s1 s2 = some r) ∧
      Finds s1 t1 t2 r := by
  cases t2 with
  | nil =>
    have hs2 : m s2 = some 0 := h2
    refine ⟨some s1, fun fuel _ _ => ?_, 0, rfl, List.nil_prefix,
      fun j hj => absurd hj (Nat.not_lt_zero j)⟩
    rw [strstr, hs2, Option.bind_some, if_pos rfl]
  | cons b t2 =>
    rcases search_text h1 h2 with ⟨r, hrun, hfinds⟩
    refine ⟨r, fun fuel hfuel1 hfuel2 => ?_, hfinds⟩
    rw [strstr, h2.1, Option.bind_some, if_neg h2.2.1]
    exact hrun fuel fuel hfuel2 hfuel1

/-- The bytes of `aab` at 0x1000, of `ab` at 0x2000, and nothing else. -/
def twoTexts : Readable := fun a =>
  if a = 0x1000 ∨ a = 0x1001 ∨ a = 0x2000 then some 0x61
  else if a = 0x1002 ∨ a = 0x2001 then some 0x62
  else if a = 0x1003 ∨ a = 0x2002 then some 0
  else none

theorem strstr_finds_twoTexts :
    ∃ r, (∀ fuel, 3 < fuel → 2 < fuel → strstr twoTexts fuel 0x1000 0x2000 = some r) ∧
      Finds 0x1000 [0x61, 0x61, 0x62] [0x61, 0x62] r :=
  strstr_finds twoTexts (show TextAt twoTexts 0x1000 [0x61, 0x61, 0x62] by decide)
    (show TextAt twoTexts 0x2000 [0x61, 0x62] by decide)

end Xeos.C99.Strstr
