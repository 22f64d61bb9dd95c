import Mathlib.Data.List.GetD
import Xeos.Lib.Memory

/-!
# Lists of bytes in the memory

`write m a text` is the memory with the bytes of a list from the address `a`.  The
operations on memory that move such a list, or that put bytes at one of its ends, give
the list that one expects.
-/

namespace Lib.Memory

/-- One byte is stored. -/
theorem store_one (m : Memory) (a v : Nat) : m.store a 1 v = m.set a (UInt8.ofNat v) := by
  funext b
  by_cases hb : b = a
  · rw [hb, set_same, store, if_pos ⟨Nat.le_refl a, Nat.lt_succ_self a⟩, Nat.sub_self,
      Nat.pow_zero, Nat.div_one]
  · rw [set_of_ne m _ hb]
    exact store_of_not_mem m v (by omega)

/-- Write the bytes of a list from `a`. -/
def write (m : Memory) (a : Nat) (text : List UInt8) : Memory :=
  fun b => if a ≤ b ∧ b < a + text.length then text.getD (b - a) 0 else m b

section Write

variable {m : Memory} {a : Nat} {text : List UInt8}

@[simp]
theorem write_nil : m.write a [] = m := by
  funext b
  have hb : ¬ (a ≤ b ∧ b < a + ([] : List UInt8).length) := by
    rw [List.length_nil]
    omega
  simp only [write, hb, if_false]

theorem write_of_mem {i : Nat} (hi : i < text.length) : m.write a text (a + i) = text.getD i 0 := by
  have hb : a ≤ a + i ∧ a + i < a + text.length := by omega
  simp only [write, hb, and_self, if_true, Nat.add_sub_cancel_left]

theorem write_of_not_mem {b : Nat} (h : b < a ∨ a + text.length ≤ b) : m.write a text b = m b := by
  have hb : ¬ (a ≤ b ∧ b < a + text.length) := by omega
  simp only [write, hb, if_false]

/-- The bytes of the list are in the memory from `a`. -/
def Holds (m : Memory) (a : Nat) (text : List UInt8) : Prop :=
  ∀ i < text.length, m (a + i) = text.getD i 0

instance : Decidable (m.Holds a text) := inferInstanceAs (Decidable (∀ i < _, _))

theorem holds_write : (m.write a text).Holds a text := fun _ hi => write_of_mem hi

theorem Holds.congr {m' : Memory} (h : m.Holds a text)
    (heq : ∀ i < text.length, m' (a + i) = m (a + i)) : m'.Holds a text :=
  fun i hi => (heq i hi).trans (h i hi)

/-- There is one string at an address. -/
theorem Holds.unique {text' : List UInt8} (h : m.Holds a (text ++ [0]))
    (h' : m.Holds a (text' ++ [0])) (hne : 0 ∉ text) (hne' : 0 ∉ text') : text = text' := by
  induction text generalizing a text' with
  | nil =>
    cases text' with
    | nil => rfl
    | cons x text' =>
      have h0 : m (a + 0) = 0 := h 0 (Nat.succ_pos 0)
      have hx : m (a + 0) = x := h' 0 (Nat.succ_pos _)
      exact absurd (by rw [← h0, hx]; exact List.mem_cons_self) hne'
  | cons x text ih =>
    have hx : m (a + 0) = x := h 0 (Nat.succ_pos _)
    cases text' with
    | nil =>
      have h0 : m (a + 0) = 0 := h' 0 (Nat.succ_pos 0)
      exact absurd (by rw [← h0, hx]; exact List.mem_cons_self) hne
    | cons x' text' =>
      have hx' : m (a + 0) = x' := h' 0 (Nat.succ_pos _)
      have hrest : ∀ {y : UInt8} {l : List UInt8}, m.Holds a (y :: l ++ [0]) →
          m.Holds (a + 1) (l ++ [0]) := by
        intro y l hl i hi
        have hi' : m (a + (i + 1)) = (l ++ [0]).getD i 0 := hl (i + 1) (Nat.succ_lt_succ hi)
        rwa [show a + (i + 1) = a + 1 + i by omega] at hi'
      rw [ih (hrest h) (hrest h') (fun h0 => hne (List.mem_cons_of_mem _ h0))
        (fun h0 => hne' (List.mem_cons_of_mem _ h0)), ← hx, hx']

/-- One byte in front of the list, after the list has moved by one place. -/
theorem write_cons (c : UInt8) :
    ((m.write a text).copy (m.write a text) (a + 1) a text.length).set a c
      = m.write a (c :: text) := by
  funext b
  rcases Nat.lt_trichotomy b a with hlt | rfl | hgt
  · rw [set_of_ne _ _ (by omega), copy_of_not_mem _ _ (by omega), write_of_not_mem (by omega),
      write_of_not_mem (by omega)]
  · have hhead : m.write b (c :: text) (b + 0) = (c :: text).getD 0 0 :=
      write_of_mem (Nat.succ_pos text.length)
    rw [Nat.add_zero] at hhead
    rw [set_same, hhead]
    rfl
  · obtain ⟨i, rfl⟩ := Nat.exists_eq_add_of_lt hgt
    rw [set_of_ne _ _ (by omega)]
    by_cases hi : i < text.length
    · have hlength : i + 1 < (c :: text).length := by
        rw [List.length_cons]
        omega
      rw [copy_of_mem _ _ (by omega), show a + (a + i + 1 - (a + 1)) = a + i by omega,
        write_of_mem hi, Nat.add_assoc, write_of_mem hlength]
      rfl
    · have hlength : a + (c :: text).length ≤ a + i + 1 := by
        rw [List.length_cons]
        omega
      rw [copy_of_not_mem _ _ (by omega), write_of_not_mem (by omega),
        write_of_not_mem (Or.inr hlength)]

/-- A run of one byte in front of the list, after the list has moved. -/
theorem write_replicate_append (c : UInt8) (n : Nat) :
    ((m.write a text).copy (m.write a text) (a + n) a text.length).fill a n c
      = m.write a (List.replicate n c ++ text) := by
  have hlength : (List.replicate n c ++ text).length = n + text.length := by
    rw [List.length_append, List.length_replicate]
  funext b
  rcases Nat.lt_or_ge b a with hlt | hge
  · rw [fill_of_not_mem _ _ (by omega), copy_of_not_mem _ _ (by omega),
      write_of_not_mem (by omega), write_of_not_mem (by omega)]
  · obtain ⟨i, rfl⟩ := Nat.exists_eq_add_of_le hge
    by_cases hn : i < n
    · rw [fill_of_mem _ _ (by omega), write_of_mem (by omega), List.getD_append _ _ _ _ (by
        rw [List.length_replicate]
        exact hn), List.getD_replicate _ hn]
    · rw [fill_of_not_mem _ _ (by omega)]
      by_cases hi : i < n + text.length
      · rw [copy_of_mem _ _ (by omega), show a + (a + i - (a + n)) = a + (i - n) by omega,
          write_of_mem (by omega), write_of_mem (by omega), List.getD_append_right _ _ _ _ (by
            rw [List.length_replicate]
            omega), List.length_replicate]
      · rw [copy_of_not_mem _ _ (by omega), write_of_not_mem (by omega),
          write_of_not_mem (by omega)]

/-- One byte behind the list. -/
theorem write_append_singleton (c : UInt8) :
    (m.write a text).set (a + text.length) c = m.write a (text ++ [c]) := by
  have hlength : (text ++ [c]).length = text.length + 1 := by
    rw [List.length_append, List.length_singleton]
  funext b
  rcases Nat.lt_or_ge b a with hlt | hge
  · rw [set_of_ne _ _ (by omega), write_of_not_mem (by omega), write_of_not_mem (by omega)]
  · obtain ⟨i, rfl⟩ := Nat.exists_eq_add_of_le hge
    rcases Nat.lt_trichotomy i text.length with hlt | rfl | hgt
    · rw [set_of_ne _ _ (by omega), write_of_mem hlt, write_of_mem (by omega),
        List.getD_append _ _ _ _ hlt]
    · rw [set_same, write_of_mem (by omega), List.getD_append_right _ _ _ _ (Nat.le_refl _),
        Nat.sub_self]
      rfl
    · rw [set_of_ne _ _ (by omega), write_of_not_mem (by omega), write_of_not_mem (by omega)]

end Write

end Lib.Memory
