import Mathlib

/-!
# An allocator of disjoint blocks

What an allocator is for, without its data structures.  The units that it hands
out are the elements of a type `α`.  A state has the units that are free and the
blocks that are in use; an allocation takes a block of free units, and a release
gives back a block that is in use.

`Sound F s` says that the blocks in use are pairwise disjoint sets of units of
`F`, and that the free units are the other units of `F`.  It holds at the start,
`Sound.take` and `Sound.give` keep it, and so it holds in every run (`Sound.run`).
-/

namespace Lib.Allocator

variable {α : Type}

/-- The free units and the blocks in use. -/
structure State (α : Type) where
  free : Set α
  live : List (Set α)

/-- One operation. -/
inductive Step : State α → State α → Prop
  /-- Hand out a block of free units. -/
  | take {s : State α} {B : Set α} : B ⊆ s.free → Step s ⟨s.free \ B, B :: s.live⟩
  /-- Take back a block in use. -/
  | give {s : State α} {B : Set α} {rest : List (Set α)} :
      s.live.Perm (B :: rest) → Step s ⟨s.free ∪ B, rest⟩

/-- No unit has two owners, and none is lost. -/
structure Sound (F : Set α) (s : State α) : Prop where
  disjoint : s.live.Pairwise Disjoint
  subset : ∀ B ∈ s.live, B ⊆ F
  free : s.free = { a | a ∈ F ∧ ∀ B ∈ s.live, a ∉ B }

namespace Sound

variable {F : Set α} {s s' : State α} {B : Set α}

theorem init (F : Set α) : Sound F ⟨F, []⟩ where
  disjoint := List.Pairwise.nil
  subset := nofun
  free := by simp

/-- The blocks do not depend on their order. -/
theorem perm {free : Set α} {live live' : List (Set α)} (h : Sound F ⟨free, live⟩)
    (hperm : live.Perm live') : Sound F ⟨free, live'⟩ where
  disjoint := (hperm.pairwise_iff (fun hab => hab.symm)).mp h.disjoint
  subset := fun B hB => h.subset B (hperm.mem_iff.mpr hB)
  free := by
    have hfree := h.free
    simp only [hperm.mem_iff] at hfree
    exact hfree

/-- A free unit is in no block. -/
theorem disjoint_free (h : Sound F s) (hB : B ∈ s.live) : Disjoint B s.free := by
  rw [Set.disjoint_left]
  intro a ha hfree
  rw [h.free] at hfree
  exact hfree.2 B hB ha

theorem take (h : Sound F s) (hB : B ⊆ s.free) : Sound F ⟨s.free \ B, B :: s.live⟩ where
  disjoint := by
    refine List.pairwise_cons.mpr ⟨?_, h.disjoint⟩
    intro C hC
    exact ((h.disjoint_free hC).mono_right hB).symm
  subset := by
    intro C hC
    cases List.mem_cons.mp hC with
    | inl heq =>
      rw [heq]
      intro a ha
      have hfree := hB ha
      rw [h.free] at hfree
      exact hfree.1
    | inr hmem => exact h.subset C hmem
  free := by
    rw [h.free]
    ext a
    simp only [Set.mem_sdiff, Set.mem_ofPred_eq, List.mem_cons, forall_eq_or_imp]
    tauto

theorem give {free : Set α} {rest : List (Set α)} (h : Sound F ⟨free, B :: rest⟩) :
    Sound F ⟨free ∪ B, rest⟩ where
  disjoint := (List.pairwise_cons.mp h.disjoint).2
  subset := fun C hC => h.subset C (List.mem_cons_of_mem B hC)
  free := by
    have hfree := h.free
    have hsub := h.subset B List.mem_cons_self
    have hdisj := (List.pairwise_cons.mp h.disjoint).1
    simp only at hfree
    rw [hfree]
    ext a
    simp only [Set.mem_union, Set.mem_ofPred_eq, List.mem_cons, forall_eq_or_imp]
    constructor
    · intro ha
      cases ha with
      | inl hfr => exact ⟨hfr.1, hfr.2.2⟩
      | inr hB => exact ⟨hsub hB, fun C hC hac => Set.disjoint_left.mp (hdisj C hC) hB hac⟩
    · intro ha
      by_cases hB : a ∈ B
      · exact .inr hB
      · exact .inl ⟨ha.1, hB, ha.2⟩

theorem step (h : Sound F s) (hstep : Step s s') : Sound F s' := by
  cases hstep with
  | take hB => exact h.take hB
  | give hperm => exact (h.perm hperm).give

/-- Soundness in every run. -/
theorem run (h : Sound F s) (hrun : Relation.ReflTransGen Step s s') : Sound F s' := by
  induction hrun with
  | refl => exact h
  | tail _ hstep ih => exact ih.step hstep

end Sound

end Lib.Allocator
