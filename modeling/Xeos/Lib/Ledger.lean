import Mathlib.Algebra.BigOperators.Pi
import Mathlib.Algebra.Order.BigOperators.Group.Finset

/-!
# Shares of processors

A quantity of which every processor has a share, which is a number that the state of
the processor determines.  When one processor takes a step, the total changes as its
share does.
-/

namespace Lib.Ledger

open Finset

variable {ι L : Type} [Fintype ι] {share : L → Nat} {s : ι → L} {i : ι} {l : L}

/-- What the processors have between them. -/
def total (share : L → Nat) (s : ι → L) : Nat := ∑ i, share (s i)

/-- One processor takes a step. -/
theorem total_update [DecidableEq ι] (share : L → Nat) (s : ι → L) (i : ι) (l : L) :
    total share (Function.update s i l) + share (s i) = total share s + share l := by
  have hupdate : (fun k => share (Function.update s i l k))
      = Function.update (fun k => share (s k)) i (share l) :=
    funext fun k => Function.apply_update (fun _ => share) s i l k
  have hold : share (s i) + ∑ k ∈ univ \ {i}, share (s k) = total share s := by
    rw [sdiff_singleton_eq_erase]
    exact add_sum_erase univ (fun k => share (s k)) (mem_univ i)
  have hnew : total share (Function.update s i l) = share l + ∑ k ∈ univ \ {i}, share (s k) := by
    rw [total, hupdate]
    exact sum_update_of_mem (mem_univ i) _ _
  omega

theorem share_le_total : share (s i) ≤ total share s :=
  single_le_sum (f := fun k => share (s k)) (fun _ _ => Nat.zero_le _) (mem_univ i)

theorem total_eq_zero (h : ∀ i, share (s i) = 0) : total share s = 0 :=
  sum_eq_zero fun i _ => h i

end Lib.Ledger
