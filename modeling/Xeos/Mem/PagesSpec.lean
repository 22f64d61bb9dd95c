import Xeos.Mem.Pages

/-!
# The effect of an allocation and of a release

`mark v c zone i n` writes the byte `v` over `n` pages of a zone and adds `c` to its
counter.  A successful allocation is a `mark` with `0`, a release is a `mark` with
`1`, and an allocation that fails leaves the memory as it was.
-/

namespace Xeos.Mem

open Lib

/-! ## Marks -/

/-- Write `v` over the pages from page `i` on, and add `c` to the counter. -/
def mark (v : UInt8) (c zone i n : Nat) (m : Memory) : Memory :=
  (m.fill (ZoneGetPages zone + i) n v).store (freePageCountOf zone) 8
    (ZoneGetFreePageCount m zone + c)

/-- The pages of a zone that an allocation takes. -/
def take (zone i n : Nat) (m : Memory) : Memory := mark 0x00 (2 ^ 64 - n) zone i n m

section Mark

variable {m : Memory} {v : UInt8} {c c' zone i n : Nat}

theorem mark_congr (h : c % 2 ^ 64 = c' % 2 ^ 64) : mark v c zone i n m = mark v c' zone i n m := by
  apply Memory.store_congr_mod
  omega

theorem mark_page {b : Nat} (hb : ZoneGetPages zone ≤ b) :
    mark v c zone i n m b
      = if ZoneGetPages zone + i ≤ b ∧ b < ZoneGetPages zone + i + n then v else m b := by
  unfold ZoneGetPages at hb
  unfold mark freePageCountOf
  rw [Memory.store_of_not_mem _ _ (by omega)]
  rfl

theorem mark_frame {b : Nat} (hcount : b < freePageCountOf zone ∨ ZoneGetPages zone ≤ b)
    (hpages : b < ZoneGetPages zone + i ∨ ZoneGetPages zone + i + n ≤ b) :
    mark v c zone i n m b = m b := by
  unfold freePageCountOf ZoneGetPages at *
  unfold mark
  rw [Memory.store_of_not_mem _ _ (by unfold freePageCountOf; omega),
    Memory.fill_of_not_mem _ _ (by unfold ZoneGetPages; omega)]

theorem mark_freePageCount :
    ZoneGetFreePageCount (mark v c zone i n m) zone
      = (ZoneGetFreePageCount m zone + c) % 2 ^ 64 :=
  Memory.load_store _ _ _ _

/-- The counter after one more page. -/
theorem mark_succ {c1 : Nat} (hc : c' % 2 ^ 64 = (c + c1) % 2 ^ 64) :
    let m' := (mark v c zone i n m).set (ZoneGetPages zone + i + n) v
    m'.store (freePageCountOf zone) 8 (ZoneGetFreePageCount m' zone + c1)
      = mark v c' zone i (n + 1) m := by
  have hload : ZoneGetFreePageCount ((mark v c zone i n m).set (ZoneGetPages zone + i + n) v) zone
      = (ZoneGetFreePageCount m zone + c) % 2 ^ 64 := by
    rw [← mark_freePageCount (v := v) (i := i) (n := n)]
    exact Memory.load_set_of_not_mem _ _ (by unfold ZoneGetPages; omega)
  simp only [hload]
  rw [Memory.store_congr_mod _ _ _
    (show ((ZoneGetFreePageCount m zone + c) % 2 ^ 64 + c1) % 256 ^ 8
      = (ZoneGetFreePageCount m zone + c') % 256 ^ 8 by omega)]
  funext b
  by_cases hcount : freePageCountOf zone ≤ b ∧ b < freePageCountOf zone + 8
  · unfold mark
    simp only [Memory.store, hcount, and_self, if_true]
  · unfold mark
    simp only [Memory.store, hcount, if_false, Memory.set, Memory.fill]
    by_cases hlast : b = ZoneGetPages zone + i + n
    · rw [if_pos hlast, if_pos (by omega)]
    · rw [if_neg hlast]
      by_cases hin : ZoneGetPages zone + i ≤ b ∧ b < ZoneGetPages zone + i + n
      · rw [if_pos hin, if_pos (by omega)]
      · rw [if_neg hin, if_neg (by omega)]

/-- A mark over a mark. -/
theorem mark_mark {v' : UInt8} : mark v' c' zone i n (mark v c zone i n m)
    = mark v' (c + c') zone i n m := by
  change ((mark v c zone i n m).fill (ZoneGetPages zone + i) n v').store (freePageCountOf zone) 8
    (ZoneGetFreePageCount (mark v c zone i n m) zone + c') = mark v' (c + c') zone i n m
  rw [mark_freePageCount, Memory.store_congr_mod _ _ _
    (show ((ZoneGetFreePageCount m zone + c) % 2 ^ 64 + c') % 256 ^ 8
      = (ZoneGetFreePageCount m zone + (c + c')) % 256 ^ 8 by omega)]
  funext b
  by_cases hcount : freePageCountOf zone ≤ b ∧ b < freePageCountOf zone + 8
  · unfold mark
    simp only [Memory.store, hcount, and_self, if_true]
  · unfold mark
    simp only [Memory.store, hcount, if_false, Memory.fill]
    split <;> rfl

/-- A mark that changes nothing. -/
theorem mark_self (hc : c % 2 ^ 64 = 0) (hv : ∀ j, j < n → m (ZoneGetPages zone + i + j) = v) :
    mark v c zone i n m = m := by
  have hstore : (ZoneGetFreePageCount m zone + c) % 256 ^ 8
      = ZoneGetFreePageCount m zone % 256 ^ 8 := by omega
  have hfill : m.fill (ZoneGetPages zone + i) n v = m := by
    funext b
    by_cases hb : ZoneGetPages zone + i ≤ b ∧ b < ZoneGetPages zone + i + n
    · have hbyte := hv (b - (ZoneGetPages zone + i)) (by omega)
      rw [show ZoneGetPages zone + i + (b - (ZoneGetPages zone + i)) = b by omega] at hbyte
      rw [Memory.fill_of_mem _ _ hb, hbyte]
    · exact Memory.fill_of_not_mem _ _ (by omega)
  unfold mark
  rw [hfill, Memory.store_congr_mod _ _ _ hstore]
  unfold ZoneGetFreePageCount freePageCountOf
  rw [Memory.store_load]
  exact (Memory.copy_self_iff m _ _ _).mpr fun _ _ => rfl

theorem markPages_eq (zone i n : Nat) (m : Memory) :
    markPages zone i n m = mark 0x01 n zone i n m := by
  unfold markPages
  induction n with
  | zero => exact (mark_self rfl fun j hj => absurd hj (Nat.not_lt_zero j)).symm
  | succ n ih =>
    rw [forLoop_succ, ih]
    exact mark_succ rfl

end Mark

/-! ## Claims -/

/-- The `n` bytes from page `i` on are all `0x01`. -/
def RunAt (m : Memory) (zone i n : Nat) : Prop :=
  ∀ j, j < n → m (ZoneGetPages zone + i + j) = 0x01

instance (m : Memory) (zone i n : Nat) : Decidable (RunAt m zone i n) :=
  inferInstanceAs (Decidable (∀ j, j < n → m (ZoneGetPages zone + i + j) = 0x01))

section Claim

variable {m : Memory} {zone i : Nat}

/-- What was taken can be given back. -/
theorem markPages_take {j : Nat} (hj : j < 2 ^ 64) (hrun : RunAt m zone i j) :
    markPages zone i j (take zone i j m) = m := by
  rw [markPages_eq, take, mark_mark]
  exact mark_self (by omega) hrun

theorem claimPages_zero (j : Nat) (hasPages : Bool) (m : Memory) :
    claimPages zone i 0 j hasPages m = (hasPages, m) := rfl

theorem claimPages_succ (left j : Nat) (hasPages : Bool) (m : Memory) :
    claimPages zone i (left + 1) j hasPages m =
      match CompareAndSwap8 m 1 0 (ZoneGetPages zone + i + j) with
      | (false, m) => (false, markPages zone i j m)
      | (true, m) => claimPages zone i left (j + 1) true (Decrement64 m (freePageCountOf zone)) :=
  rfl

/-- The loop that claims pages, when it has claimed `j` of them.  It takes all of the
run, or nothing. -/
theorem claimPages_spec {left j : Nat} {hasPages : Bool} (hj : j + left < 2 ^ 64)
    (hrun : RunAt m zone i j) :
    claimPages zone i left j hasPages (take zone i j m)
      = if RunAt m zone i (j + left) then (hasPages || decide (0 < left), take zone i (j + left) m)
        else (false, m) := by
  induction left generalizing j hasPages with
  | zero =>
    rw [Nat.add_zero, if_pos hrun]
    simp [claimPages_zero]
  | succ left ih =>
    have hbyte : take zone i j m (ZoneGetPages zone + i + j) = m (ZoneGetPages zone + i + j) := by
      unfold take
      rw [mark_page (by omega), if_neg (by omega)]
    by_cases hone : m (ZoneGetPages zone + i + j) = 0x01
    · have hrun' : RunAt m zone i (j + 1) := by
        intro k hk
        by_cases hkj : k = j
        · rw [hkj]
          exact hone
        · exact hrun k (by omega)
      have hcas : CompareAndSwap8 (take zone i j m) 1 0 (ZoneGetPages zone + i + j)
          = (true, (take zone i j m).set (ZoneGetPages zone + i + j) 0) :=
        if_pos (hbyte.trans hone)
      have hnext : Decrement64 ((take zone i j m).set (ZoneGetPages zone + i + j) 0)
          (freePageCountOf zone) = take zone i (j + 1) m := mark_succ (by omega)
      rw [claimPages_succ, hcas]
      simp only
      rw [hnext, ih (by omega) hrun', show j + 1 + left = j + (left + 1) by omega]
      simp
    · have hcas : CompareAndSwap8 (take zone i j m) 1 0 (ZoneGetPages zone + i + j)
          = (false, take zone i j m) := if_neg (fun h => hone (hbyte.symm.trans h))
      have hnot : ¬ RunAt m zone i (j + (left + 1)) := fun h => hone (h j (by omega))
      rw [claimPages_succ, hcas, if_neg hnot]
      simp only
      rw [markPages_take (by omega) hrun]

theorem runAt_zero : RunAt m zone i 0 := fun j hj => absurd hj (Nat.not_lt_zero j)

theorem take_zero : take zone i 0 m = m :=
  mark_self rfl fun j hj => absurd hj (Nat.not_lt_zero j)

theorem claimPages_eq {n : Nat} (hn : n < 2 ^ 64) :
    claimPages zone i n 0 false m
      = if RunAt m zone i n then (decide (0 < n), take zone i n m) else (false, m) := by
  have hspec : claimPages zone i n 0 false (take zone i 0 m) = _ :=
    claimPages_spec (by omega) runAt_zero
  rw [take_zero, Nat.zero_add, Bool.false_or] at hspec
  exact hspec

end Claim

/-! ## The search in a zone -/

section Search

variable (m : Memory) (zone : Nat)

/-- `XEOS_Mem_AllocPage` looks for a run of one page. -/
theorem allocPageFrom_eq (left i address : Nat) :
    allocPageFrom zone left i address m = allocPagesFrom 1 zone left i address m := by
  induction left generalizing i address with
  | zero => rfl
  | succ left ih =>
    unfold allocPageFrom allocPagesFrom
    by_cases hone : m (ZoneGetPages zone + i) = 1
    · have hcas : CompareAndSwap8 m 1 0 (ZoneGetPages zone + i)
          = (true, m.set (ZoneGetPages zone + i) 0) := if_pos hone
      simp only [if_pos hone, claimPages, Nat.add_zero, hcas]
    · simp only [if_neg hone]
      exact ih _ _

theorem visitAlloc_allocPageFrom :
    visitAlloc allocPageFrom = visitAlloc (allocPagesFrom 1) := by
  funext zone m
  unfold visitAlloc
  rw [allocPageFrom_eq]

/-- The search stops at the first run, or goes through all pages. -/
theorem allocPagesFrom_spec (left i : Nat) {n address : Nat} (hn : 0 < n) (hn64 : n < 2 ^ 64)
    (haddress : address < 2 ^ 64) :
    (allocPagesFrom n zone left i address m = (none, m) ∧
      ∀ k, k < left → ¬ RunAt m zone (i + k) n) ∨
    ∃ k, k < left ∧ RunAt m zone (i + k) n ∧ (∀ k', k' < k → ¬ RunAt m zone (i + k') n) ∧
      allocPagesFrom n zone left i address m
        = (some ((address + 0x1000 * k) % 2 ^ 64), take zone (i + k) n m) := by
  induction left generalizing i address with
  | zero => exact .inl ⟨rfl, fun k hk => absurd hk (Nat.not_lt_zero k)⟩
  | succ left ih =>
    by_cases hrun : RunAt m zone i n
    · refine .inr ⟨0, Nat.succ_pos left, hrun, fun k hk => absurd hk (Nat.not_lt_zero k), ?_⟩
      have hone : m (ZoneGetPages zone + i) = 1 := hrun 0 hn
      unfold allocPagesFrom
      simp only [if_pos hone, claimPages_eq hn64, if_pos hrun, hn, decide_true]
      rw [Nat.mul_zero, Nat.add_zero, Nat.add_zero, Nat.mod_eq_of_lt haddress]
    · have hnext : allocPagesFrom n zone (left + 1) i address m
          = allocPagesFrom n zone left (i + 1) ((address + 0x1000) % 2 ^ 64) m := by
        conv_lhs => unfold allocPagesFrom
        simp only [claimPages_eq hn64, if_neg hrun]
        split <;> rfl
      rw [hnext]
      cases ih (i + 1) (Nat.mod_lt (address + 0x1000) (by omega)) with
      | inl hnone =>
        refine .inl ⟨hnone.1, ?_⟩
        intro k hk
        cases k with
        | zero => exact hrun
        | succ k =>
          have hk' := hnone.2 k (by omega)
          rwa [show i + 1 + k = i + (k + 1) by omega] at hk'
      | inr hsome =>
        obtain ⟨k, hk, hat, hfirst, heq⟩ := hsome
        rw [show i + 1 + k = i + (k + 1) by omega] at hat heq
        refine .inr ⟨k + 1, by omega, hat, ?_, ?_⟩
        · intro k' hk'
          cases k' with
          | zero => exact hrun
          | succ k' =>
            have hk'' := hfirst k' (by omega)
            rwa [show i + 1 + k' = i + (k' + 1) by omega] at hk''
        · rw [heq, show ((address + 0x1000) % 2 ^ 64 + 0x1000 * k) % 2 ^ 64
            = (address + 0x1000 * (k + 1)) % 2 ^ 64 by omega]

end Search

/-! ## Releases -/

theorem markPages_one (zone i : Nat) (m : Memory) :
    markPages zone i 1 m
      = Increment64 (m.set (ZoneGetPages zone + i) 0x01) (freePageCountOf zone) := by
  unfold markPages
  rw [forLoop_succ, forLoop_zero, Nat.add_zero]

/-- `XEOS_Mem_FreePage` releases a run of one page. -/
theorem visitFreePage_eq (page : Nat) : visitFreePage page = visitFreePages page 1 := by
  funext zone m
  by_cases hbehind : page > (ZoneGetAddress m zone + ZoneGetLength m zone) % 2 ^ 64
  · rw [visitFreePage, visitFreePages, if_pos hbehind, if_pos hbehind]
  · rw [visitFreePage, visitFreePages, if_neg hbehind, if_neg hbehind, markPages_one]

end Xeos.Mem
