import Xeos.Mem.Concurrent

/-!
# Shares of the processors in the pages

The byte of a page is written before the counter of its zone, and a block is claimed page by
page, so neither the bytes nor the counters agree with the blocks in use while a call runs.
What agrees is the sum over the processors.  A page that was free at the start is marked free,
or in one block in use, or held by one processor in a call (`held`).  The counter of a zone and
the pages marked free differ by what the processors still have to subtract (`owed`) and to add
(`due`).  `Conserves` says that a step keeps both sums, and there are few kinds of steps.
-/

namespace Xeos.Mem

open Lib

/-! ## Shares -/

/-- The page `j` of a zone is marked free. -/
def free (m : Memory) (z : Zone) (j : Nat) : Nat := if m (z.byte j) = 0x01 then 1 else 0

/-- The page `j` of a zone is one of those from `lo` to `hi` in the zone at `zone`. -/
def span (z : Zone) (j zone lo hi : Nat) : Nat :=
  if zone = z.address ∧ lo ≤ j ∧ j < hi then 1 else 0

/-- The page `j` of a zone is in the block. -/
def Block.share (z : Zone) (j : Nat) (b : Block) : Nat :=
  if b.address ≤ z.page j ∧ z.page j < b.address + 0x1000 * b.count.toNat then 1 else 0

/-- A processor has taken the page from the free ones or from the blocks in use. -/
def Cursor.held (z : Zone) (j : Nat) : Cursor → Nat
  | .countOne zone i _ => span z j zone i (i + 1)
  | .claim _ zone i _ k _ => span z j zone i (i + k)
  | .count _ zone i _ k => span z j zone i (i + k + 1)
  | .undo _ zone i _ k l => span z j zone (i + l) (i + k)
  | .countUndo _ zone i _ k l => span z j zone (i + l + 1) (i + k)
  | .granted n address => Block.share z j ⟨address, n⟩
  | .find r page _ => Block.share z j ⟨page, r.count⟩
  | .releaseOne zone i => span z j zone i (i + 1)
  | .release n zone i k => span z j zone (i + k) (i + n.toNat)
  | .countRelease n zone i k => span z j zone (i + k + 1) (i + n.toNat)
  | .idle | .walk _ _ | .scan _ _ _ _ | .claimOne _ _ _ | .countReleaseOne _ => 0

/-- A processor has yet to decrement the counter. -/
def Cursor.owed (z : Zone) : Cursor → Nat
  | .countOne zone _ _ | .count _ zone _ _ _ => if zone = z.address then 1 else 0
  | _ => 0

/-- A processor has yet to increment it. -/
def Cursor.due (z : Zone) : Cursor → Nat
  | .countUndo _ zone _ _ _ _ | .countReleaseOne zone | .countRelease _ zone _ _ =>
    if zone = z.address then 1 else 0
  | _ => 0

/-- What a step keeps, whatever the other processors do. -/
structure Conserves (zs : List Zone) (m m' : Memory) (c c' : Cursor) : Prop where
  lists : ∀ k : Kernel, k.memory = m → k.Lists zs → ({ k with memory := m' } : Kernel).Lists zs
  guard : ∀ z ∈ zs, m' z.finish = m z.finish
  pages : ∀ z ∈ zs, ∀ j < z.pageCount, free m' z j + c'.held z j = free m z j + c.held z j
  counts : ∀ z ∈ zs,
    (ZoneGetFreePageCount m' z.address + c'.due z + (z.ones m + c.owed z)) % 2 ^ 64
      = (ZoneGetFreePageCount m z.address + c.due z + (z.ones m' + c'.owed z)) % 2 ^ 64

/-! ## The accesses as marks -/

section Mark

variable {zs : List Zone} {z z' : Zone} {m : Memory} {v : UInt8} {c i n j : Nat}

theorem set_eq_mark (zone i : Nat) (v : UInt8) (m : Memory) :
    m.set (ZoneGetPages zone + i) v = mark v 0 zone i 1 m := by
  have hload : ZoneGetFreePageCount m zone
      = (m.fill (ZoneGetPages zone + i) 1 v).load (freePageCountOf zone) 8 :=
    (Memory.load_fill_of_disjoint m v (.inl (by unfold ZoneGetPages; omega))).symm
  rw [mark, Memory.set_eq_fill, Nat.add_zero, hload, Memory.store_load]
  exact ((Memory.copy_self_iff _ _ _ _).mpr fun _ _ => rfl).symm

theorem increment_eq_mark (zone : Nat) (m : Memory) :
    Increment64 m (freePageCountOf zone) = mark v 1 zone 0 0 m := by
  rw [mark, Memory.fill_zero]
  rfl

theorem decrement_eq_mark (zone : Nat) (m : Memory) :
    Decrement64 m (freePageCountOf zone) = mark v (2 ^ 64 - 1) zone 0 0 m := by
  rw [mark, Memory.fill_zero]
  rfl

theorem Arranged.eq_of_address (harr : Arranged zs) (hz : z ∈ zs) (hz' : z' ∈ zs)
    (h : z.address = z'.address) : z = z' := by
  rcases pairwise_cases harr.apart hz hz' with heq | hapart | hapart
  · exact heq
  · unfold Zone.finish at hapart
    omega
  · unfold Zone.finish at hapart
    omega

theorem Arranged.address_eq_iff (harr : Arranged zs) (hz : z ∈ zs) (hz' : z' ∈ zs) :
    z.address = z'.address ↔ z = z' :=
  ⟨harr.eq_of_address hz hz', fun h => h ▸ rfl⟩

theorem mark_finish (harr : Arranged zs) (hz : z ∈ zs) (hz' : z' ∈ zs) (hin : i + n ≤ z.pageCount) :
    mark v c z.address i n m z'.finish = m z'.finish := by
  apply mark_outside hin
  rcases pairwise_cases harr.apart hz hz' with rfl | hapart | hapart
  · exact .inr le_rfl
  · unfold Zone.finish at hapart ⊢
    omega
  · exact .inl (by omega)

theorem free_mark (harr : Arranged zs) (hz : z ∈ zs) (hz' : z' ∈ zs) (hin : i + n ≤ z.pageCount)
    (hj : j < z'.pageCount) : free (mark v c z.address i n m) z' j
      = if z.address = z'.address ∧ i ≤ j ∧ j < i + n then (if v = 0x01 then 1 else 0)
        else free m z' j := by
  by_cases heq : z = z'
  · subst heq
    unfold free
    rw [mark_byte]
    by_cases hj' : i ≤ j ∧ j < i + n
    · simp [hj']
    · simp [hj']
  · rw [if_neg fun h => heq (harr.eq_of_address hz hz' h.1)]
    unfold free
    rw [mark_other_byte harr hz hz' heq hin hj]

theorem freePageCount_mark (harr : Arranged zs) (hz : z ∈ zs) (hz' : z' ∈ zs)
    (hin : i + n ≤ z.pageCount) :
    ZoneGetFreePageCount (mark v c z.address i n m) z'.address
      = if z.address = z'.address then (ZoneGetFreePageCount m z'.address + c) % 2 ^ 64
        else ZoneGetFreePageCount m z'.address := by
  by_cases heq : z = z'
  · subst heq
    rw [if_pos rfl]
    exact mark_freePageCount
  · rw [if_neg fun h => heq (harr.eq_of_address hz hz' h)]
    exact Memory.load_congr fun j hj => mark_other harr hz hz' heq hin (by omega)
      (by unfold Zone.finish; omega)

theorem ones_eq_sum (m : Memory) (z : Zone) :
    z.ones m = ∑ j ∈ Finset.range z.pageCount, free m z j :=
  Finset.card_filter _ _

/-- A mark of one page. -/
theorem ones_mark_one (harr : Arranged zs) (hz : z ∈ zs) (hz' : z' ∈ zs) (hi : i < z.pageCount) :
    z'.ones (mark v c z.address i 1 m) + (if z.address = z'.address then free m z i else 0)
      = z'.ones m + (if z.address = z'.address then (if v = 0x01 then 1 else 0) else 0) := by
  by_cases heq : z = z'
  · subst heq
    rw [if_pos rfl, if_pos rfl, ones_eq_sum, ones_eq_sum,
      ← Finset.add_sum_erase _ _ (Finset.mem_range.mpr hi),
      ← Finset.add_sum_erase _ (fun j => free m z j) (Finset.mem_range.mpr hi)]
    have hrest : ∑ j ∈ (Finset.range z.pageCount).erase i, free (mark v c z.address i 1 m) z j
        = ∑ j ∈ (Finset.range z.pageCount).erase i, free m z j := by
      refine Finset.sum_congr rfl fun j hj => ?_
      obtain ⟨hne, hj⟩ := Finset.mem_erase.mp hj
      rw [free_mark harr hz hz (by omega) (Finset.mem_range.mp hj), if_neg (by omega)]
    rw [hrest, free_mark harr hz hz (by omega) hi, if_pos ⟨rfl, by omega, by omega⟩]
    omega
  · rw [if_neg fun h => heq (harr.eq_of_address hz hz' h),
      if_neg fun h => heq (harr.eq_of_address hz hz' h)]
    exact Zone.ones_congr fun j hj => mark_other_byte harr hz hz' heq (by omega) hj

end Mark

/-! ## The kinds of steps -/

section Kinds

variable {zs : List Zone} {z : Zone} {m : Memory} {c c' : Cursor} {p : Nat}

/-- Nothing is written. -/
theorem Conserves.quiet (hheld : ∀ z ∈ zs, ∀ j < z.pageCount, c'.held z j = c.held z j)
    (howed : ∀ z, c'.owed z = c.owed z) (hdue : ∀ z, c'.due z = c.due z) :
    Conserves zs m m c c' where
  lists k hk h := hk ▸ h
  guard _ _ := rfl
  pages z hz j hj := by rw [hheld z hz j hj]
  counts z _ := by rw [howed, hdue]

theorem lists_mark {k : Kernel} {v : UInt8} {d i n : Nat} (harr : Arranged zs) (hz : z ∈ zs)
    (hin : i + n ≤ z.pageCount) (hk : k.memory = m) (h : k.Lists zs) :
    ({ k with memory := mark v d z.address i n m } : Kernel).Lists zs := by
  subst hk
  exact h.mark harr hz hin

/-- A free page is claimed. -/
theorem Conserves.claimed (harr : Arranged zs) (hz : z ∈ zs) (hp : p < z.pageCount)
    (hone : m (z.byte p) = 0x01)
    (hheld : ∀ z' j, c'.held z' j = c.held z' j + span z' j z.address p (p + 1))
    (howed : ∀ z', c'.owed z' = c.owed z' + if z.address = z'.address then 1 else 0)
    (hdue : ∀ z', c'.due z' = c.due z') :
    Conserves zs m (mark 0x00 0 z.address p 1 m) c c' where
  lists k hk h := lists_mark harr hz (by omega) hk h
  guard z' hz' := mark_finish harr hz hz' (by omega)
  pages z' hz' j hj := by
    rw [hheld, free_mark harr hz hz' (by omega) hj, if_neg (show ¬ (0x00 : UInt8) = 0x01 by decide),
      span]
    by_cases hsame : z.address = z'.address ∧ p ≤ j ∧ j < p + 1
    · obtain ⟨haddress, hlow, hhigh⟩ := hsame
      obtain rfl := harr.eq_of_address hz hz' haddress
      obtain rfl : j = p := by omega
      rw [if_pos ⟨rfl, hlow, hhigh⟩, if_pos ⟨rfl, hlow, hhigh⟩, free, if_pos hone]
      omega
    · rw [if_neg hsame, if_neg hsame, Nat.add_zero]
  counts z' hz' := by
    have hones := ones_mark_one (v := 0x00) (c := 0) (m := m) harr hz hz' hp
    have hfree : free m z p = 1 := if_pos hone
    have hlt := Memory.load_lt m (z'.address + 40) 8
    rw [howed, hdue, freePageCount_mark harr hz hz' (by omega)]
    change ZoneGetFreePageCount m z'.address < 2 ^ 64 at hlt
    rw [hfree, if_neg (show ¬ (0x00 : UInt8) = 0x01 by decide), ite_self] at hones
    split_ifs at hones ⊢ <;> omega

/-- A page is marked free again. -/
theorem Conserves.released (harr : Arranged zs) (hz : z ∈ zs) (hp : p < z.pageCount)
    (hne : m (z.byte p) ≠ 0x01)
    (hheld : ∀ z' j, c.held z' j = c'.held z' j + span z' j z.address p (p + 1))
    (howed : ∀ z', c'.owed z' = c.owed z')
    (hdue : ∀ z', c'.due z' = c.due z' + if z.address = z'.address then 1 else 0) :
    Conserves zs m (mark 0x01 0 z.address p 1 m) c c' where
  lists k hk h := lists_mark harr hz (by omega) hk h
  guard z' hz' := mark_finish harr hz hz' (by omega)
  pages z' hz' j hj := by
    rw [hheld, free_mark harr hz hz' (by omega) hj, if_pos rfl, span]
    by_cases hsame : z.address = z'.address ∧ p ≤ j ∧ j < p + 1
    · obtain ⟨haddress, hlow, hhigh⟩ := hsame
      obtain rfl := harr.eq_of_address hz hz' haddress
      obtain rfl : j = p := by omega
      rw [if_pos ⟨rfl, hlow, hhigh⟩, if_pos ⟨rfl, hlow, hhigh⟩, free, if_neg hne]
      omega
    · rw [if_neg hsame, if_neg hsame, Nat.add_zero]
  counts z' hz' := by
    have hones := ones_mark_one (v := 0x01) (c := 0) (m := m) harr hz hz' hp
    have hfree : free m z p = 0 := if_neg hne
    have hlt := Memory.load_lt m (z'.address + 40) 8
    rw [howed, hdue, freePageCount_mark harr hz hz' (by omega)]
    change ZoneGetFreePageCount m z'.address < 2 ^ 64 at hlt
    rw [hfree, if_pos (rfl : (0x01 : UInt8) = 0x01), ite_self] at hones
    split_ifs at hones ⊢ <;> omega

/-- The counter of a zone goes up by `d`, or down. -/
theorem Conserves.counted (harr : Arranged zs) (hz : z ∈ zs) {d : Nat}
    (hheld : ∀ z' ∈ zs, ∀ j < z'.pageCount, c'.held z' j = c.held z' j)
    (hshare : ∀ z', (c'.due z' + c.owed z' + if z.address = z'.address then d else 0) % 2 ^ 64
      = (c.due z' + c'.owed z') % 2 ^ 64) :
    Conserves zs m (mark 0x00 d z.address 0 0 m) c c' where
  lists k hk h := lists_mark harr hz (Nat.zero_le _) hk h
  guard z' hz' := mark_finish harr hz hz' (Nat.zero_le _)
  pages z' hz' j hj := by
    rw [hheld z' hz' j hj, free_mark harr hz hz' (Nat.zero_le _) hj, if_neg (by omega)]
  counts z' hz' := by
    have hones : z'.ones (mark 0x00 d z.address 0 0 m) = z'.ones m := by
      rw [ones_eq_sum, ones_eq_sum]
      refine Finset.sum_congr rfl fun j hj => ?_
      rw [free_mark harr hz hz' (Nat.zero_le _) (Finset.mem_range.mp hj), if_neg (by omega)]
    have hsum := hshare z'
    rw [hones, freePageCount_mark harr hz hz' (Nat.zero_le _)]
    split_ifs at hsum ⊢ <;> omega

end Kinds

end Xeos.Mem
