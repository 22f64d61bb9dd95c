import Xeos.Vm.Content

/-!
# All tables of the map

The four loops one after the other.  `tableValue` is what every entry of every table is in the
end, and `rootIndex` the table that the running pointer of the last loop has reached, whose
address goes to `CR3`.
-/

namespace Xeos.Vm

open Lib

/-- A block of pages with room for the tables, as `XEOS_Mem_AllocPages` gives it. -/
structure Block (type : MemoryMapType) (totalMemoryBytes address : Nat) : Prop where
  notNull : address ≠ 0
  aligned : address % 0x1000 = 0
  fits : address + mapMemory (counts type totalMemoryBytes) ≤ 2 ^ type.target.pointerBits

/-- The pages of the tables of each level. -/
def pdtStart (c : Counts) : Nat := c.ptCount

def pdptStart (c : Counts) : Nat := c.ptCount + c.pdtCount

def pml4tStart (c : Counts) : Nat := c.ptCount + c.pdtCount + c.pdptCount

section Values

variable (type : MemoryMapType) (totalMemoryBytes : Nat)

/-- The page of the first page directory table that the running pointer gives. -/
def pdtFirst : Nat :=
  min (counts type totalMemoryBytes).ptCount
    ((counts type totalMemoryBytes).pdtCount * ptEntriesPerPT type)

/-- The page of the first page directory pointer table that the running pointer gives. -/
def pdptFirst : Nat :=
  pdtFirst type totalMemoryBytes + min (counts type totalMemoryBytes).pdtCount
    ((counts type totalMemoryBytes).pdptCount * ptEntriesPerPT type)

/-- The page of the page-map level-4 table that the running pointer gives. -/
def pml4tFirst : Nat :=
  pdptFirst type totalMemoryBytes + min (counts type totalMemoryBytes).pdptCount
    ((counts type totalMemoryBytes).pml4tCount * ptEntriesPerPT type)

/-- The page that `CR3` points to. -/
def rootIndex : Nat :=
  match type with
  | .type32 => pdtFirst type totalMemoryBytes
  | .type32PAE => pdptFirst type totalMemoryBytes
  | .type64 => pml4tFirst type totalMemoryBytes

/-- The entry `j` of the table `k` of the block. -/
def tableValue (mapEnd : Nat) (zones : List Zone) (address k j : Nat) : Nat :=
  let c := counts type totalMemoryBytes
  let t := type.target
  let perPT := ptEntriesPerPT type
  if k < pdtStart c then ptValue t totalMemoryBytes mapEnd zones (k * perPT + j)
  else if k < pdptStart c then
    upperValue t perPT perPT true c.ptCount address (k - pdtStart c) j
  else if k < pml4tStart c then
    upperValue t perPT 4 (decide (type = .type64)) c.pdtCount
      (tableAt t address (pdtFirst type totalMemoryBytes)) (k - pdptStart c) j
  else
    upperValue t perPT perPT true c.pdptCount
      (tableAt t address (pdptFirst type totalMemoryBytes)) (k - pml4tStart c) j

end Values

section Block

variable {type : MemoryMapType} {totalMemoryBytes address : Nat}

theorem mapMemory_eq (c : Counts) : mapMemory c = 0x1000 * c.total := by
  unfold mapMemory Counts.total
  ring

theorem tableAt_tableAt (t : Target) (address k k' : Nat) :
    tableAt t (tableAt t address k) k' = tableAt t address (k + k') := by
  unfold tableAt Target.pointerAdd
  rw [Nat.mod_add_mod, Nat.add_assoc, Nat.mul_add]

namespace Block

theorem tableAt_eq (h : Block type totalMemoryBytes address) {k : Nat}
    (hk : k < (counts type totalMemoryBytes).total) :
    tableAt type.target address k = address + 0x1000 * k := by
  have hfits := h.fits
  rw [mapMemory_eq] at hfits
  exact Nat.mod_eq_of_lt (by omega)

theorem isTable (h : Block type totalMemoryBytes address) {k : Nat}
    (hk : k < (counts type totalMemoryBytes).total) :
    IsTable type.target (ptEntriesPerPT type) (tableAt type.target address k) where
  notNull := by
    have hne := h.notNull
    rw [h.tableAt_eq hk]
    omega
  aligned := tableAt_aligned _ h.aligned k
  size := entryBytes_mul_perPT type

theorem apart (h : Block type totalMemoryBytes address) {k k' : Nat}
    (hk : k < (counts type totalMemoryBytes).total)
    (hk' : k' < (counts type totalMemoryBytes).total) (hne : k ≠ k') :
    Apart (tableAt type.target address k) (tableAt type.target address k') := by
  unfold Apart
  rw [h.tableAt_eq hk, h.tableAt_eq hk']
  omega

theorem tableAt_zero (h : Block type totalMemoryBytes address) :
    tableAt type.target address 0 = address := by
  have hfits := h.fits
  have hbits : 0 < 2 ^ type.target.pointerBits := Nat.two_pow_pos _
  unfold tableAt Target.pointerAdd
  rw [Nat.mul_zero, Nat.add_zero]
  rcases Nat.lt_or_ge address (2 ^ type.target.pointerBits) with hlt | hge
  · exact Nat.mod_eq_of_lt hlt
  · have hzero : mapMemory (counts type totalMemoryBytes) = 0 := by omega
    have htotal : 0 < (counts type totalMemoryBytes).pdtCount := by
      cases type with
      | type32 => exact Nat.one_pos
      | type32PAE | type64 =>
        show 0 < upperCount _
        unfold upperCount
        split
        · simp only
          split <;> omega
        · exact Nat.one_pos
    unfold mapMemory at hzero
    omega

end Block

/-! ## The stages -/

/-- The first `k` tables of the block have their entries. -/
structure Stage (t : Target) (perPT address : Nat) (v : Nat → Nat → Nat) (k : Nat) (s : Fill) :
    Prop where
  p : s.p = tableAt t address k
  holds : ∀ i, i < k → Holds t perPT s.memory (tableAt t address i) (v i)

theorem Stage.round (hblock : Block type totalMemoryBytes address) {v : Nat → Nat → Nat} {k : Nat}
    (hk : k < (counts type totalMemoryBytes).total) {s s' : Fill}
    (h : Stage type.target (ptEntriesPerPT type) address v k s) (hround : Round type.target s s')
    (hholds : Holds type.target (ptEntriesPerPT type) s'.memory s.p (v k)) :
    Stage type.target (ptEntriesPerPT type) address v (k + 1) s' where
  p := by rw [hround.p, h.p, tableAt_succ]
  holds i hi := by
    rcases Nat.lt_or_eq_of_le (Nat.lt_succ_iff.mp hi) with hlt | rfl
    · refine (h.holds i hlt).inPage (entryBytes_mul_perPT type) hround.page ?_
      rw [h.p]
      exact hblock.apart (by omega) hk (by omega)
    · rw [← h.p]
      exact hholds

/-- The loop over the tables of a level. -/
theorem Stage.loop (hblock : Block type totalMemoryBytes address) {v : Nat → Nat → Nat}
    {k n : Nat} (hroom : k + n ≤ (counts type totalMemoryBytes).total)
    (body : Nat → Nat × Fill → Nat × Fill) {y : Nat → Nat} {s : Fill}
    (h : Stage type.target (ptEntriesPerPT type) address v k s)
    (hround : ∀ i x, Round type.target x.2 (body i x).2)
    (hbody : ∀ i s, i < n → s.p = tableAt type.target address (k + i) →
      (body i (y i, s)).1 = y (i + 1) ∧
      Holds type.target (ptEntriesPerPT type) (body i (y i, s)).2.memory s.p (v (k + i))) :
    (forLoop body n (y 0, s)).1 = y n ∧
    Stage type.target (ptEntriesPerPT type) address v (k + n) (forLoop body n (y 0, s)).2 := by
  refine forLoop_inv body n (y 0, s) (fun i x => x.1 = y i ∧
    Stage type.target (ptEntriesPerPT type) address v (k + i) x.2) ⟨rfl, h⟩ ?_
  rintro i ⟨_, s'⟩ hi ⟨rfl, hstage⟩
  obtain ⟨hnext, hholds⟩ := hbody i s' hi hstage.p
  exact ⟨hnext, hstage.round hblock (by omega) (hround i _) hholds⟩

/-- Only a memory of 2^52 pages has an entry count that does not fit. -/
theorem ptEntriesCount_fits (htotal : totalMemoryBytes < 2 ^ 64) {i : Nat}
    (hi : i < (counts type totalMemoryBytes).ptCount)
    (hlt : ptEntriesCount totalMemoryBytes < (i + 1) * ptEntriesPerPT type) :
    0x1000 * ptEntriesCount totalMemoryBytes < 2 ^ 64 := by
  have hpages := ptEntriesCount_least totalMemoryBytes
  have hle : ptEntriesCount totalMemoryBytes ≤ 2 ^ 52 := hpages.le (by omega)
  by_contra hge
  have hfull : ptEntriesCount totalMemoryBytes = 2 ^ 52 := by omega
  have hpt : i < ptCountOf type totalMemoryBytes := by
    cases type <;> exact hi
  have hper : ptEntriesPerPT type = 0x400 ∨ ptEntriesPerPT type = 0x200 := by
    cases type with
    | type32 => exact .inl rfl
    | type32PAE | type64 => exact .inr rfl
  have hfloor : ptEntriesCount totalMemoryBytes ≤ i * ptEntriesPerPT type := by
    rcases hper with h | h <;> rw [h, hfull] at hlt <;> rw [h, hfull] <;> omega
  have hleast := (ptCountOf_least type totalMemoryBytes).le hfloor
  omega

/-! ## The tables -/

section Stages

/-- The page tables. -/
theorem stage_initPTs (mapEnd : Nat) (zones : List Zone) (m : Memory)
    (hblock : Block type totalMemoryBytes address)
    (htotal : totalMemoryBytes < 2 ^ 64) :
    Stage type.target (ptEntriesPerPT type) address
      (tableValue type totalMemoryBytes mapEnd zones address)
      (pdtStart (counts type totalMemoryBytes))
      (initPTs type.target totalMemoryBytes mapEnd zones (ptEntriesPerPT type)
        (counts type totalMemoryBytes) (0, ⟨m, address, []⟩)).2 := by
  have hstart : Stage type.target (ptEntriesPerPT type) address
      (tableValue type totalMemoryBytes mapEnd zones address) 0 ⟨m, address, []⟩ :=
    ⟨hblock.tableAt_zero.symm, fun i hi => absurd hi (Nat.not_lt_zero i)⟩
  have hzero : addressAt totalMemoryBytes (0 * ptEntriesPerPT type) = 0 := by
    unfold addressAt
    rw [Nat.zero_mul, Nat.zero_min]
    rfl
  have hloop := (Stage.loop hblock (n := (counts type totalMemoryBytes).ptCount)
    (y := fun i => addressAt totalMemoryBytes (i * ptEntriesPerPT type))
    (by unfold Counts.total; omega)
    (initPT type.target totalMemoryBytes mapEnd zones (ptEntriesPerPT type)) hstart
    (fun i x => round_initPT type.target_valid _ _ _ _ i x) ?_).2
  · rw [hzero, Nat.zero_add] at hloop
    exact hloop
  · intro i s hi hp
    have htable := hblock.isTable (show 0 + i < (counts type totalMemoryBytes).total by
      unfold Counts.total
      omega)
    rw [← hp] at htable
    obtain ⟨hnext, hholds⟩ := initPT_value mapEnd zones htable htotal
      (ptEntriesCount_fits htotal hi)
    refine ⟨hnext, fun j hj => (hholds j hj).trans ?_⟩
    unfold tableValue
    rw [Nat.zero_add]
    exact (if_pos hi).symm

/-- The tables of a level above the page tables. -/
theorem Stage.upper (hblock : Block type totalMemoryBytes address) {v : Nat → Nat → Nat}
    {k n limit : Nat} (childCount child : Nat) {writeable : Bool}
    {initEntry : Nat → Nat → Nat × Memory → Nat × Memory}
    (hsets : SetsEntry type.target (ptEntriesPerPT type) limit writeable initEntry)
    (hinPage : ∀ table j x, InPage table x.2 (initEntry table j x).2)
    (hroom : k + n ≤ (counts type totalMemoryBytes).total) (hchild : child % 0x1000 = 0)
    (hv : ∀ i, i < n → v (k + i)
      = upperValue type.target (ptEntriesPerPT type) limit writeable childCount child i)
    {s : Fill} (h : Stage type.target (ptEntriesPerPT type) address v k s) :
    (forLoop (initTable type.target tableClear initEntry (ptEntriesPerPT type) childCount) n
        (tableAt type.target child 0, s)).1
      = tableAt type.target child (min childCount (n * ptEntriesPerPT type)) ∧
    Stage type.target (ptEntriesPerPT type) address v (k + n)
      (forLoop (initTable type.target tableClear initEntry (ptEntriesPerPT type) childCount) n
        (tableAt type.target child 0, s)).2 := by
  have hloop := Stage.loop hblock hroom
    (y := fun i => tableAt type.target child (min childCount (i * ptEntriesPerPT type)))
    (initTable type.target tableClear initEntry (ptEntriesPerPT type) childCount) h
    (fun i x => round_initTable hinPage (ptEntriesPerPT type) childCount i x) ?_
  · rw [Nat.zero_mul, Nat.min_zero] at hloop
    exact hloop
  · intro i s' hi hp
    have htable := hblock.isTable (show k + i < (counts type totalMemoryBytes).total by omega)
    rw [← hp] at htable
    rw [hv i hi]
    exact initTable_value hsets htable hchild

/-- The page directory tables. -/
theorem stage_initPDTs (mapEnd : Nat) (zones : List Zone) (m : Memory)
    (hblock : Block type totalMemoryBytes address)
    (htotal : totalMemoryBytes < 2 ^ 64) :
    let pts := initPTs type.target totalMemoryBytes mapEnd zones (ptEntriesPerPT type)
      (counts type totalMemoryBytes) (0, ⟨m, address, []⟩)
    let pdts := initPDTs type.target (ptEntriesPerPT type) (counts type totalMemoryBytes)
      (address, pts.2)
    pdts.1 = tableAt type.target address (pdtFirst type totalMemoryBytes) ∧
    Stage type.target (ptEntriesPerPT type) address
      (tableValue type totalMemoryBytes mapEnd zones address)
      (pdptStart (counts type totalMemoryBytes)) pdts.2 := by
  intro pts
  have hpts := stage_initPTs mapEnd zones m hblock htotal
  have hupper := Stage.upper hblock (n := (counts type totalMemoryBytes).pdtCount)
    (counts type totalMemoryBytes).ptCount address (setsEntry_PDT type)
    (fun table j x => inPage_initPDTEntry type.target_valid table j x)
    (by unfold pdtStart Counts.total; omega) hblock.aligned ?_ hpts
  · rw [hblock.tableAt_zero] at hupper
    exact hupper
  · intro i hi
    have hnot : ¬ pdtStart (counts type totalMemoryBytes) + i
        < pdtStart (counts type totalMemoryBytes) := by omega
    have hlt : pdtStart (counts type totalMemoryBytes) + i
        < pdptStart (counts type totalMemoryBytes) := Nat.add_lt_add_left hi _
    funext j
    unfold tableValue
    simp only [if_neg hnot, if_pos hlt, Nat.add_sub_cancel_left]

/-- The page directory pointer tables. -/
theorem stage_initPDPTs (mapEnd : Nat) (zones : List Zone) (m : Memory)
    (hblock : Block type totalMemoryBytes address)
    (htotal : totalMemoryBytes < 2 ^ 64) (hpae : type ≠ .type32) :
    let pts := initPTs type.target totalMemoryBytes mapEnd zones (ptEntriesPerPT type)
      (counts type totalMemoryBytes) (0, ⟨m, address, []⟩)
    let pdts := initPDTs type.target (ptEntriesPerPT type) (counts type totalMemoryBytes)
      (address, pts.2)
    let pdpts := initPDPTs type.target type (ptEntriesPerPT type) (counts type totalMemoryBytes) pdts
    pdpts.1 = tableAt type.target address (pdptFirst type totalMemoryBytes) ∧
    Stage type.target (ptEntriesPerPT type) address
      (tableValue type totalMemoryBytes mapEnd zones address)
      (pml4tStart (counts type totalMemoryBytes)) pdpts.2 := by
  intro pts pdts pdpts
  obtain ⟨hchild, hpdts⟩ := stage_initPDTs mapEnd zones m hblock htotal
  have hpair : pdts = (tableAt type.target
      (tableAt type.target address (pdtFirst type totalMemoryBytes)) 0, pdts.2) := by
    rw [tableAt_tableAt, Nat.add_zero, ← hchild]
  have hupper := Stage.upper hblock (n := (counts type totalMemoryBytes).pdptCount)
    (counts type totalMemoryBytes).pdtCount
    (tableAt type.target address (pdtFirst type totalMemoryBytes)) (setsEntry_PDPT type hpae)
    (fun table j x => inPage_initPDPTEntry type.target type table j x)
    (by unfold pdptStart Counts.total; omega) (tableAt_aligned _ hblock.aligned _) ?_ hpdts
  · rw [tableAt_tableAt type.target address _ (min _ _)] at hupper
    show (forLoop _ _ pdts).1 = _ ∧ Stage _ _ _ _ _ (forLoop _ _ pdts).2
    rw [hpair]
    exact hupper
  · intro i hi
    have hnot : ¬ pdptStart (counts type totalMemoryBytes) + i
        < pdtStart (counts type totalMemoryBytes) := by
      unfold pdptStart pdtStart
      omega
    have hnot' : ¬ pdptStart (counts type totalMemoryBytes) + i
        < pdptStart (counts type totalMemoryBytes) := by omega
    have hlt : pdptStart (counts type totalMemoryBytes) + i
        < pml4tStart (counts type totalMemoryBytes) := Nat.add_lt_add_left hi _
    funext j
    unfold tableValue
    simp only [if_neg hnot, if_neg hnot', if_pos hlt, Nat.add_sub_cancel_left]

/-- The page-map level-4 tables. -/
theorem stage_initPML4Ts (mapEnd : Nat) (zones : List Zone) (m : Memory)
    (hblock : Block .type64 totalMemoryBytes address)
    (htotal : totalMemoryBytes < 2 ^ 64) :
    let type := MemoryMapType.type64
    let pts := initPTs type.target totalMemoryBytes mapEnd zones (ptEntriesPerPT type)
      (counts type totalMemoryBytes) (0, ⟨m, address, []⟩)
    let pdts := initPDTs type.target (ptEntriesPerPT type) (counts type totalMemoryBytes)
      (address, pts.2)
    let pdpts := initPDPTs type.target type (ptEntriesPerPT type) (counts type totalMemoryBytes) pdts
    let pml4ts := initPML4Ts type.target (ptEntriesPerPT type) (counts type totalMemoryBytes) pdpts
    pml4ts.1 = tableAt type.target address (pml4tFirst type totalMemoryBytes) ∧
    Stage type.target (ptEntriesPerPT type) address
      (tableValue type totalMemoryBytes mapEnd zones address)
      (counts type totalMemoryBytes).total pml4ts.2 := by
  intro type pts pdts pdpts pml4ts
  obtain ⟨hchild, hpdpts⟩ := stage_initPDPTs mapEnd zones m hblock
    htotal (by decide)
  have hpair : pdpts = (tableAt type.target
      (tableAt type.target address (pdptFirst type totalMemoryBytes)) 0, pdpts.2) := by
    rw [tableAt_tableAt, Nat.add_zero, ← hchild]
  have hupper := Stage.upper hblock (k := pml4tStart (counts .type64 totalMemoryBytes))
    (n := (counts .type64 totalMemoryBytes).pml4tCount)
    (counts type totalMemoryBytes).pdptCount
    (tableAt type.target address (pdptFirst type totalMemoryBytes)) setsEntry_PML4T
    (fun table j x => inPage_initPML4TEntry type.target table j x)
    (Nat.le_refl _) (tableAt_aligned _ hblock.aligned _) ?_ hpdpts
  · rw [tableAt_tableAt type.target address _ (min _ _)] at hupper
    show (forLoop _ _ pdpts).1 = _ ∧ Stage _ _ _ _ _ (forLoop _ _ pdpts).2
    rw [hpair]
    exact hupper
  · intro i hi
    have hnot : ¬ pml4tStart (counts type totalMemoryBytes) + i
        < pdtStart (counts type totalMemoryBytes) := by
      unfold pml4tStart pdtStart
      omega
    have hnot' : ¬ pml4tStart (counts type totalMemoryBytes) + i
        < pdptStart (counts type totalMemoryBytes) := by
      unfold pml4tStart pdptStart
      omega
    have hnot'' : ¬ pml4tStart (counts type totalMemoryBytes) + i
        < pml4tStart (counts type totalMemoryBytes) := by omega
    funext j
    unfold tableValue
    simp only [type, if_neg hnot, if_neg hnot', if_neg hnot'', Nat.add_sub_cancel_left]

/-- Every entry of every table, and the value of `CR3`. -/
theorem initTables_value (hblock : Block type totalMemoryBytes address)
    (htotal : totalMemoryBytes < 2 ^ 64) (zones : List Zone) (m : Memory) :
    let tables := initTables type.target type totalMemoryBytes zones address m
    tables.1 = tableAt type.target address (rootIndex type totalMemoryBytes) % 2 ^ 32 ∧
    ∀ k, k < (counts type totalMemoryBytes).total →
      Holds type.target (ptEntriesPerPT type) tables.2.memory (tableAt type.target address k)
        (tableValue type totalMemoryBytes
          ((address + mapMemory (counts type totalMemoryBytes)) % 2 ^ 64) zones address k) := by
  intro tables
  cases type with
  | type32 =>
    obtain ⟨hroot, hstage⟩ := stage_initPDTs
      ((address + mapMemory (counts .type32 totalMemoryBytes)) % 2 ^ 64) zones m hblock htotal
    exact ⟨congrArg (· % 2 ^ 32) hroot, hstage.holds⟩
  | type32PAE =>
    obtain ⟨hroot, hstage⟩ := stage_initPDPTs
      ((address + mapMemory (counts .type32PAE totalMemoryBytes)) % 2 ^ 64) zones m hblock htotal
      (by decide)
    exact ⟨congrArg (· % 2 ^ 32) hroot, hstage.holds⟩
  | type64 =>
    obtain ⟨hroot, hstage⟩ := stage_initPML4Ts
      ((address + mapMemory (counts .type64 totalMemoryBytes)) % 2 ^ 64) zones m hblock htotal
    exact ⟨congrArg (· % 2 ^ 32) hroot, hstage.holds⟩

end Stages

end Block

end Xeos.Vm
