import Xeos.Mem.Exclusive

/-!
# The search of an allocation

`XEOS_Mem_AllocPages` on an arbitrary list of zones with arbitrary page bytes.  A
candidate that fails is given back, so an allocation that finds no run leaves the
memory as it was, and one that finds a run takes the first.
-/

namespace Xeos.Mem

open Lib

/-- The pages from page `i` on are a run of `n` free pages of the zone. -/
structure Zone.Candidate (m : Memory) (n : Nat) (z : Zone) (i : Nat) : Prop where
  usable : z.type = .usable
  free : 0 < ZoneGetFreePageCount m z.address
  inside : i + n ≤ z.pageCount
  run : RunAt m z.address i n

/-- The first candidate is the page `i` of the zone that follows the zones `front`. -/
structure FirstCandidate (m : Memory) (n : Nat) (zs front : List Zone) (z : Zone) (i : Nat) :
    Prop where
  split : ∃ back, zs = front ++ z :: back
  candidate : z.Candidate m n i
  front : ∀ z' ∈ front, ∀ i', ¬ z'.Candidate m n i'
  lowest : ∀ i', i' < i → ¬ z.Candidate m n i'

/-- The run is cleared and counted, and nothing else changes. -/
structure Takes (z : Zone) (i n : Nat) (k k' : Kernel) : Prop where
  cleared : ∀ j, j < n → k'.memory (z.byte (i + j)) = 0x00
  counted : ZoneGetFreePageCount k'.memory z.address
    = (ZoneGetFreePageCount k.memory z.address + 2 ^ 64 - n) % 2 ^ 64
  frame : ∀ b, (b < z.byte i ∨ z.byte (i + n) ≤ b) →
    (b < freePageCountOf z.address ∨ freePageCountOf z.address + 8 ≤ b) →
    k'.memory b = k.memory b
  list : k'.Zones = k.Zones ∧ k'.ZoneCount = k.ZoneCount

/-- What an allocation does when it returns `address`. -/
def FirstFit (n : Nat) (zs : List Zone) (k : Kernel) (address : Nat) (k' : Kernel) : Prop :=
  (∃ front z i, FirstCandidate k.memory n zs front z i ∧ address = z.page i % 2 ^ 64 ∧
      Takes z i n k k') ∨
    (address = 0 ∧ k' = k ∧ ∀ z ∈ zs, ∀ i, ¬ z.Candidate k.memory n i)

section Search

variable {k : Kernel} {zs : List Zone} {z : Zone} {n i : Nat}

theorem takes_take (hn : n < 2 ^ 64) :
    Takes z i n k { k with memory := take z.address i n k.memory } where
  cleared j hj := by
    change mark _ _ z.address i n k.memory (z.byte (i + j)) = 0x00
    unfold Zone.byte
    rw [mark_page (by unfold ZoneGetPages; omega), if_pos (by unfold ZoneGetPages; omega)]
  counted := by
    change ZoneGetFreePageCount (take z.address i n k.memory) z.address = _
    unfold take
    rw [mark_freePageCount]
    congr 1
    omega
  frame b hrun hcount := by
    change mark _ _ z.address i n k.memory b = k.memory b
    unfold Zone.byte at hrun
    by_cases hpages : ZoneGetPages z.address ≤ b
    · rw [mark_page hpages, if_neg (by unfold ZoneGetPages; omega)]
    · refine mark_frame ?_ (by unfold ZoneGetPages at *; omega)
      unfold freePageCountOf ZoneGetPages at *
      omega
  list := ⟨rfl, rfl⟩

theorem Zone.Candidate.hit {m : Memory} (h : z.Candidate m n i) (hn : 0 < n) : z.Hit m n i where
  usable := h.usable
  free := h.free
  start := by
    have hinside := h.inside
    omega
  run := h.run

/-- A run does not go over the end of a zone whose pages are followed by another byte. -/
theorem RunAt.inside {m : Memory} (hrun : RunAt m z.address i n) (hi : i < z.pageCount)
    (hend : m z.finish ≠ 0x01) : i + n ≤ z.pageCount := by
  by_contra hover
  have hlast := hrun (z.pageCount - i) (by omega)
  rw [show ZoneGetPages z.address + i + (z.pageCount - i) = z.finish by
    unfold ZoneGetPages Zone.finish; omega] at hlast
  exact hend hlast

/-- One zone of the search: no candidate, or the lowest one. -/
theorem visitAlloc_cases (hholds : z.Holds k.memory) (hend : k.memory z.finish ≠ 0x01)
    (hn : 0 < n) (hn64 : n < 2 ^ 64) :
    (visitAlloc (allocPagesFrom n) z.address k.memory = (none, k.memory) ∧
      ∀ i, ¬ z.Candidate k.memory n i) ∨
    ∃ i, z.Candidate k.memory n i ∧ (∀ i', i' < i → ¬ z.Candidate k.memory n i') ∧
      visitAlloc (allocPagesFrom n) z.address k.memory
        = (some (z.page i % 2 ^ 64), take z.address i n k.memory) := by
  rcases visitAlloc_hit hholds hn hn64 with hno | ⟨i, hhit, hfirst, heq⟩
  · exact .inl ⟨hno.1, fun i hi => hno.2 i (hi.hit hn)⟩
  · exact .inr ⟨i, ⟨hhit.usable, hhit.free, hhit.run.inside hhit.start hend, hhit.run⟩,
      fun i' hi' hcand => hfirst i' hi' hcand.run, heq⟩

/-- The result of an allocation. -/
theorem allocPages_cases {n : UInt32} (hlists : k.Lists zs)
    (hend : ∀ z ∈ zs, k.memory z.finish ≠ 0x01) (hn : 1 ≤ n) :
    ∃ address k', FirstFit n.toNat zs k address k' ∧
      ∀ a k'', AllocPages n k a k'' ↔ a = address ∧ k'' = k' := by
  have hn0 : 0 < n.toNat := UInt32.le_iff_toNat_le.mp hn
  have hn64 : n.toNat < 2 ^ 64 := Nat.lt_trans n.toNat_lt (by decide)
  have hspec := fun z (hz : z ∈ zs) => visitAlloc_cases (hlists.holds z hz) (hend z hz) hn0 hn64
  have hnone : ∀ z ∈ zs, (visitAlloc (allocPagesFrom n.toNat) z.address k.memory).1 = none →
      (visitAlloc (allocPagesFrom n.toNat) z.address k.memory).2 = k.memory := by
    intro z hz hv
    rcases hspec z hz with hno | ⟨i, _, _, heq⟩
    · rw [hno.1]
    · rw [heq] at hv
      cases hv
  refine ⟨_, _, ?_, allocPages_iff_walk hlists hnone⟩
  rcases walkList_cases (visitAlloc (allocPagesFrom n.toNat)) (l := zs.map Zone.address)
    (s := k.memory) (fun p hp hv => by
      obtain ⟨z, hz, rfl⟩ := List.mem_map.mp hp
      exact hnone z hz hv) with ⟨hwalk, hall⟩ | ⟨before, p, after, r, hsplit, hbefore, hsome, hwalk⟩
  · rw [hwalk]
    refine .inr ⟨rfl, rfl, fun z hz i hi => ?_⟩
    rcases hspec z hz with hno | ⟨j, _, _, heq⟩
    · exact hno.2 i hi
    · have hv := hall z.address (List.mem_map_of_mem hz)
      rw [heq] at hv
      cases hv
  · obtain ⟨front, rest, rfl, rfl, hrest⟩ := List.map_eq_append_iff.mp hsplit
    obtain ⟨z, back, rfl, rfl, rfl⟩ := List.map_eq_cons_iff.mp hrest
    rcases hspec z (by simp) with hno | ⟨i, hcand, hlowest, heq⟩
    · rw [hno.1] at hsome
      cases hsome
    rw [hwalk, heq]
    refine .inl ⟨front, z, i, ⟨⟨back, rfl⟩, hcand, ?_, hlowest⟩, rfl, takes_take hn64⟩
    intro z' hz' i' hi'
    rcases hspec z' (by simp [hz']) with hno | ⟨j, _, _, heq'⟩
    · exact hno.2 i' hi'
    · have hv := hbefore z'.address (List.mem_map_of_mem hz')
      rw [heq'] at hv
      cases hv

/-- An allocation returns, with the first run of free pages or with nothing changed.  It
returns `NULL` only if there is no run, or if the first one starts at the address 0. -/
theorem allocPages_firstFit (n : UInt32) (k : Kernel) (zs : List Zone) (hlists : k.Lists zs)
    (hend : ∀ z ∈ zs, k.memory z.finish ≠ 0x01) (hn : 1 ≤ n) :
    ∃ address k', (∀ a k'', AllocPages n k a k'' ↔ a = address ∧ k'' = k') ∧
      FirstFit n.toNat zs k address k' ∧
      (address = 0 → (k' = k ∧ ∀ z ∈ zs, ∀ i, ¬ z.Candidate k.memory n.toNat i) ∨
        ∃ front z i, FirstCandidate k.memory n.toNat zs front z i ∧ z.page i % 2 ^ 64 = 0) := by
  obtain ⟨address, k', hfit, hiff⟩ := allocPages_cases hlists hend hn
  refine ⟨address, k', hiff, hfit, fun hnull => ?_⟩
  rcases hfit with ⟨front, z, i, hfirst, haddress, _⟩ | ⟨_, hsame, hnone⟩
  · exact .inr ⟨front, z, i, hfirst, haddress.symm.trans hnull⟩
  · exact .inl ⟨hsame, hnone⟩

end Search

/-! ## One page -/

/-- The search for one page and the search for a run of one page have the same results, for
any memory.  On a list of zones, with any bytes for the pages, they have one. -/
theorem allocPage_agrees (k : Kernel) :
    (∀ a k', AllocPage k a k' ↔ AllocPages 1 k a k') ∧
      ∀ zs, k.Lists zs → ∃ address k', ∀ a k'', AllocPage k a k'' ↔ a = address ∧ k'' = k' := by
  refine ⟨fun a k' => allocPage_iff_allocPages, fun zs hlists => ?_⟩
  have hnone : ∀ z ∈ zs,
      (visitAlloc (allocPagesFrom (1 : UInt32).toNat) z.address k.memory).1 = none →
        (visitAlloc (allocPagesFrom (1 : UInt32).toNat) z.address k.memory).2 = k.memory :=
    fun z hz => visitAlloc_none (hlists.holds z hz) Nat.one_pos (by decide)
  have hwalk := allocPages_iff_walk hlists hnone
  exact ⟨_, _, fun a k'' => allocPage_iff_allocPages.trans (hwalk a k'')⟩

/-! ## A zone of one free page -/

/-- A kernel with one usable zone of one free page.  Its base is `v` times 64 KB. -/
def onePage (v : UInt8) : Kernel where
  memory b :=
    if b = 0x1004 ∨ b = 0x1020 ∨ b = 0x1028 ∨ b = 0x1030 then 1
    else if b = 0x100A then v
    else if b = 0x1011 then 0x10
    else 0
  Zones := 0x1000
  ZoneCount := 1

def onePageZone (v : UInt8) : Zone := ⟨0x1000, .usable, 0x10000 * v.toNat, 0x1000, 1⟩

/-- What the record of the one zone holds. -/
def onePageFields (v : UInt8) : List Nat :=
  let m := (onePage v).memory
  [ZoneGetType m 0x1000, ZoneGetAddress m 0x1000, ZoneGetLength m 0x1000, ZoneGetNext m 0x1000,
    ZoneGetPageCount m 0x1000]

theorem onePage_lists {v : UInt8}
    (h : onePageFields v = [1, 0x10000 * v.toNat, 0x1000, 0, 1]) :
    (onePage v).Lists [onePageZone v] := by
  simp only [onePageFields, List.cons.injEq, and_true] at h
  obtain ⟨htype, hbase, hlength, hnext, hcount⟩ := h
  refine ⟨.cons (show 0x1000 ≠ 0 by decide) ?_, ?_, fun _ => Nat.one_ne_zero⟩
  · exact hnext.symm ▸ .nil
  · intro z hz
    rw [List.mem_singleton] at hz
    subst hz
    exact ⟨htype, hbase, hlength, hcount⟩

theorem onePage_end (v : UInt8) : ∀ z ∈ [onePageZone v], (onePage v).memory z.finish ≠ 0x01 := by
  intro z hz
  rw [List.mem_singleton] at hz
  subst hz
  exact show (0 : UInt8) ≠ 1 by decide

theorem allocPages_firstFit_onePage :
    ∃ address k', (∀ a k'', AllocPages 1 (onePage 0x10) a k'' ↔ a = address ∧ k'' = k') ∧
      FirstFit 1 [onePageZone 0x10] (onePage 0x10) address k' ∧
      (address = 0 → (k' = onePage 0x10 ∧
          ∀ z ∈ [onePageZone 0x10], ∀ i, ¬ z.Candidate (onePage 0x10).memory 1 i) ∨
        ∃ front z i, FirstCandidate (onePage 0x10).memory 1 [onePageZone 0x10] front z i ∧
          z.page i % 2 ^ 64 = 0) :=
  allocPages_firstFit 1 (onePage 0x10) [onePageZone 0x10] (onePage_lists (by decide)) (onePage_end 0x10)
    (by decide)

theorem allocPage_agrees_onePage :
    ∃ address k', ∀ a k'', AllocPage (onePage 0x10) a k'' ↔ a = address ∧ k'' = k' :=
  (allocPage_agrees (onePage 0x10)).2 [onePageZone 0x10] (onePage_lists (by decide))

/-- The page at the address 0 is taken, and the result is that of a failure. -/
theorem allocPages_lowest_page :
    ∃ k', AllocPages 1 (onePage 0) 0 k' ∧ (onePageZone 0).Candidate (onePage 0).memory 1 0 ∧
      (onePage 0).memory ((onePageZone 0).byte 0) = 0x01 ∧
      k'.memory ((onePageZone 0).byte 0) = 0x00 := by
  have hcand : (onePageZone 0).Candidate (onePage 0).memory 1 0 :=
    ⟨rfl, by decide, by decide, by decide⟩
  obtain ⟨address, k', hfit, hiff⟩ :=
    allocPages_cases (n := 1) (onePage_lists (by decide)) (onePage_end 0) (by decide)
  rcases hfit with ⟨front, z, i, hfirst, haddress, htakes⟩ | ⟨_, _, hnone⟩
  · obtain ⟨back, hsplit⟩ := hfirst.split
    have hz : z = onePageZone 0 := by
      have hmem : z ∈ [onePageZone 0] := hsplit ▸ List.mem_append_right _ List.mem_cons_self
      exact List.mem_singleton.mp hmem
    subst hz
    have hi : i = 0 := by
      have hinside : i + 1 ≤ 1 := hfirst.candidate.inside
      omega
    subst hi
    have hzero : address = 0 := haddress.trans (by decide)
    exact ⟨k', (hiff 0 k').mpr ⟨hzero.symm, rfl⟩, hcand, rfl, htakes.cleared 0 Nat.one_pos⟩
  · exact absurd hcand (hnone _ (List.mem_singleton.mpr rfl) 0)

end Xeos.Mem
