import Xeos.Vm.Tables

/-!
# The identity map

The walk of the processor through the tables of the map, and when it ends at the page that
it started from.

On x86-64, `XEOS_VM_PDPTGetEntryAtIndex` has no entry beyond the fourth one, so only the first
4 GB of every 512 GB are mapped, and `CR3` gets the low half of the address of its table.  On
i386, the running pointer does not reach the table of the highest level when the level below
has more tables than it has entries.
-/

namespace Xeos.Vm

open Lib

/-! ## The walk -/

/-- The `Present` flag of an entry. -/
def isPresent (entry : Nat) : Bool := entry % 2 == 1

/-- The address field of an entry. -/
def addressField (entry : Nat) : Nat := entry - entry % 0x1000

/-- The entry of an index. -/
def entryAt (t : Target) (m : Memory) (table i : Nat) : Nat :=
  m.load (table + t.entryBytes * i) t.entryBytes

/-- The levels above the page tables: the lowest bit of the index, and the number of entries. -/
def levels : MemoryMapType → List (Nat × Nat)
  | .type32 => [(22, 0x400)]
  | .type32PAE => [(30, 4), (21, 0x200)]
  | .type64 => [(39, 0x200), (30, 0x200), (21, 0x200)]

/-- The page table for an address, through entries that are present. -/
def descend (t : Target) (m : Memory) (a : Nat) : List (Nat × Nat) → Nat → Option Nat
  | [], table => some table
  | (shift, count) :: ls, table =>
    if isPresent (entryAt t m table (a / 2 ^ shift % count)) then
      descend t m a ls (addressField (entryAt t m table (a / 2 ^ shift % count)))
    else none

/-- The page table entry for an address. -/
def pageEntry (type : MemoryMapType) (t : Target) (m : Memory) (root a : Nat) : Option Nat :=
  (descend t m a (levels type) root).map fun pt =>
    entryAt t m pt (a / 0x1000 % ptEntriesPerPT type)

/-- `CR3` holds the address of the table of the highest level, the last one of the map, and
the walk from it through the tables ends at the address that it started from. -/
structure SystemMap.Identity (map : SystemMap) (limit : Nat) : Prop where
  root : map.fill.tables.getLast? = some map.cr3
  walk : ∀ a, a % 0x1000 = 0 → a < limit → ∃ e,
    pageEntry map.type map.target map.fill.memory map.cr3 a = some e ∧ addressField e = a

section Values

variable {address : Nat} {present writeable : Bool}

theorem isPresent_entryValue (haligned : address % 0x1000 = 0) :
    isPresent (entryValue address present writeable) = present := by
  unfold isPresent entryValue
  cases present <;> cases writeable <;> simp only [Bool.toNat_true, Bool.toNat_false] <;>
    first
    | exact beq_iff_eq.mpr (by omega)
    | exact beq_eq_false_iff_ne.mpr (by omega)

theorem addressField_entryValue (haligned : address % 0x1000 = 0) :
    addressField (entryValue address present writeable) = address := by
  unfold addressField entryValue
  have hpresent := Bool.toNat_le present
  have hwriteable := Bool.toNat_le writeable
  omega

end Values

/-! ## The map -/

theorem chooseType_target {t : Target} (ht : t.Valid) (totalMemoryBytes : Nat) :
    (chooseType t totalMemoryBytes).2 = (chooseType t totalMemoryBytes).1.target := by
  obtain ⟨lp64, paeEnabled⟩ := t
  unfold chooseType
  cases lp64 with
  | true =>
    have hpae : paeEnabled = true := ht rfl
    rw [hpae]
    rfl
  | false =>
    cases paeEnabled with
    | false => rfl
    | true =>
      simp only [Bool.false_eq_true, if_false, if_true]
      split <;> rfl

theorem GetTotalBytes_lt (zones : List Zone) : GetTotalBytes zones < 2 ^ 64 := by
  unfold GetTotalBytes
  have hlt : ∀ (zs : List Zone) n, n < 2 ^ 64 →
      zs.foldl (fun bytes zone => (bytes + zone.length) % 2 ^ 64) n < 2 ^ 64 := by
    intro zs
    induction zs with
    | nil => exact fun n hn => hn
    | cons z zs ih => exact fun n _ => ih _ (Nat.mod_lt _ (by decide))
  exact hlt zones 0 (by decide)

/-- The parts of a map. -/
structure MapOf (t : Target) (zones : List Zone) (m : Memory) (map : SystemMap) : Prop where
  type : map.type = (chooseType t (GetTotalBytes zones)).1
  target : map.target = map.type.target
  counts : map.counts = Vm.counts map.type (GetTotalBytes zones)
  cr3 : map.cr3
    = (initTables map.type.target map.type (GetTotalBytes zones) zones map.base m).1
  fill : map.fill
    = (initTables map.type.target map.type (GetTotalBytes zones) zones map.base m).2

theorem mapOf_of_initialize {t : Target} (ht : t.Valid) {zones : List Zone}
    {allocPages : Nat → Nat} {m : Memory} {map : SystemMap}
    (h : SystemMapInitialize t zones allocPages m = some map) : MapOf t zones m map := by
  unfold SystemMapInitialize at h
  simp only [chooseType_target ht] at h
  split at h
  · cases h
    exact ⟨rfl, rfl, rfl, rfl, rfl⟩
  · cases h

section Block

variable {type : MemoryMapType} {totalMemoryBytes address : Nat}

theorem Least.le_iff {n per count bound : Nat} (h : Least n per count) :
    count ≤ bound ↔ n ≤ bound * per :=
  ⟨fun hle => h.covers.trans (Nat.mul_le_mul_right per hle), h.le⟩

theorem counts_ptCount (type : MemoryMapType) (totalMemoryBytes : Nat) :
    (counts type totalMemoryBytes).ptCount = ptCountOf type totalMemoryBytes := by
  cases type <;> rfl

theorem le_upperCount (n : Nat) : n ≤ upperCount n * 0x200 := by
  rcases Nat.eq_zero_or_pos n with rfl | hpos
  · exact Nat.zero_le _
  · exact (upperCount_least hpos).covers

/-- An address in the memory has a page table. -/
theorem ptIndex_lt {a : Nat} (ha : a < totalMemoryBytes) :
    a / 0x1000 / ptEntriesPerPT type < (counts type totalMemoryBytes).ptCount := by
  have hpages := (ptEntriesCount_least totalMemoryBytes).covers
  have hpt := (ptCountOf_least type totalMemoryBytes).covers
  rw [counts_ptCount]
  refine Nat.div_lt_of_lt_mul ?_
  rw [Nat.mul_comm]
  omega

theorem rootIndex_lt (type : MemoryMapType) (hpos : 0 < totalMemoryBytes) :
    rootIndex type totalMemoryBytes < (counts type totalMemoryBytes).total := by
  have hpt := (ptCountOf_least type totalMemoryBytes).pos
    ((ptEntriesCount_least totalMemoryBytes).pos hpos)
  unfold rootIndex Counts.total
  cases type with
  | type32 =>
    show min _ _ < _ + 1 + 0 + 0
    omega
  | type32PAE =>
    show min _ _ + min _ _ < _ + _ + 1 + 0
    omega
  | type64 =>
    show min _ _ + min _ _ + min _ _ < _ + _ + _ + 1
    omega

end Block

/-! ## The entries on the way -/

section Entries

variable {type : MemoryMapType} {totalMemoryBytes address : Nat}

/-- The memory after the initialisation. -/
def mapped (type : MemoryMapType) (totalMemoryBytes : Nat) (zones : List Zone) (address : Nat)
    (m : Memory) : Memory :=
  (initTables type.target type totalMemoryBytes zones address m).2.memory

/-- The page tables. -/
theorem entryAt_pt (hblock : Block type totalMemoryBytes address) (htotal : totalMemoryBytes < 2 ^ 64)
    (zones : List Zone) (m : Memory) {i j : Nat}
    (hi : i < (counts type totalMemoryBytes).ptCount) (hj : j < ptEntriesPerPT type) :
    entryAt type.target (mapped type totalMemoryBytes zones address m)
        (tableAt type.target address i) j
      = ptValue type.target totalMemoryBytes
        ((address + mapMemory (counts type totalMemoryBytes)) % 2 ^ 64) zones
        (i * ptEntriesPerPT type + j) := by
  have hk : i < (counts type totalMemoryBytes).total := by
    unfold Counts.total
    omega
  exact ((initTables_value hblock htotal zones m).2 i hk j hj).trans (if_pos hi)

/-- The page directory tables. -/
theorem entryAt_pdt (hblock : Block type totalMemoryBytes address)
    (htotal : totalMemoryBytes < 2 ^ 64) (zones : List Zone) (m : Memory) {i j : Nat}
    (hi : i < (counts type totalMemoryBytes).pdtCount) (hj : j < ptEntriesPerPT type)
    (hchild : i * ptEntriesPerPT type + j < (counts type totalMemoryBytes).ptCount) :
    entryAt type.target (mapped type totalMemoryBytes zones address m)
        (tableAt type.target address (pdtStart (counts type totalMemoryBytes) + i)) j
      = entryValue (tableAt type.target address (i * ptEntriesPerPT type + j)) true true := by
  have hk : pdtStart (counts type totalMemoryBytes) + i < (counts type totalMemoryBytes).total := by
    unfold Counts.total pdtStart
    omega
  have hnot : ¬ pdtStart (counts type totalMemoryBytes) + i
      < pdtStart (counts type totalMemoryBytes) := by omega
  have hlt : pdtStart (counts type totalMemoryBytes) + i
      < pdptStart (counts type totalMemoryBytes) := Nat.add_lt_add_left hi _
  refine ((initTables_value hblock htotal zones m).2 _ hk j hj).trans ?_
  unfold tableValue upperValue
  simp only [if_neg hnot, if_pos hlt, Nat.add_sub_cancel_left]
  exact if_pos ⟨hchild, hj⟩

/-- With PAE, the running pointer reaches the first page directory table. -/
theorem pdtFirst_eq (hpae : type ≠ .type32) :
    pdtFirst type totalMemoryBytes = pdtStart (counts type totalMemoryBytes) := by
  have hper : ptEntriesPerPT type = 0x200 := if_neg hpae
  have hpdt : (counts type totalMemoryBytes).pdtCount
      = upperCount (counts type totalMemoryBytes).ptCount := by
    cases type with
    | type32 => exact absurd rfl hpae
    | type32PAE => rfl
    | type64 => rfl
  have hle := le_upperCount (counts type totalMemoryBytes).ptCount
  unfold pdtFirst
  rw [hper, hpdt]
  exact Nat.min_eq_left hle

/-- The page directory pointer tables. -/
theorem entryAt_pdpt (hblock : Block type totalMemoryBytes address)
    (htotal : totalMemoryBytes < 2 ^ 64) (zones : List Zone) (m : Memory) (hpae : type ≠ .type32)
    {i j : Nat} (hi : i < (counts type totalMemoryBytes).pdptCount) (hj : j < ptEntriesPerPT type) :
    entryAt type.target (mapped type totalMemoryBytes zones address m)
        (tableAt type.target address (pdptStart (counts type totalMemoryBytes) + i)) j
      = if i * ptEntriesPerPT type + j < (counts type totalMemoryBytes).pdtCount ∧ j < 4 then
          entryValue (tableAt type.target address
            (pdtStart (counts type totalMemoryBytes) + (i * ptEntriesPerPT type + j))) true
            (decide (type = .type64))
        else 0 := by
  have hk : pdptStart (counts type totalMemoryBytes) + i
      < (counts type totalMemoryBytes).total := by
    unfold Counts.total pdptStart
    omega
  have hnot : ¬ pdptStart (counts type totalMemoryBytes) + i
      < pdtStart (counts type totalMemoryBytes) := by
    unfold pdptStart pdtStart
    omega
  have hnot' : ¬ pdptStart (counts type totalMemoryBytes) + i
      < pdptStart (counts type totalMemoryBytes) := by omega
  have hlt : pdptStart (counts type totalMemoryBytes) + i
      < pml4tStart (counts type totalMemoryBytes) := Nat.add_lt_add_left hi _
  refine ((initTables_value hblock htotal zones m).2 _ hk j hj).trans ?_
  unfold tableValue upperValue
  simp only [if_neg hnot, if_neg hnot', if_pos hlt, Nat.add_sub_cancel_left, tableAt_tableAt,
    pdtFirst_eq hpae]

/-- On x86-64, the running pointer reaches the first page directory pointer table. -/
theorem pdptFirst_eq :
    pdptFirst .type64 totalMemoryBytes = pdptStart (counts .type64 totalMemoryBytes) := by
  have hle := le_upperCount (counts .type64 totalMemoryBytes).pdtCount
  have hmin : min (counts .type64 totalMemoryBytes).pdtCount
      ((counts .type64 totalMemoryBytes).pdptCount * ptEntriesPerPT .type64)
      = (counts .type64 totalMemoryBytes).pdtCount := Nat.min_eq_left hle
  unfold pdptFirst
  rw [pdtFirst_eq (by decide), hmin]
  rfl

/-- The page-map level-4 table. -/
theorem entryAt_pml4t (hblock : Block .type64 totalMemoryBytes address)
    (htotal : totalMemoryBytes < 2 ^ 64) (zones : List Zone) (m : Memory) {j : Nat}
    (hj : j < ptEntriesPerPT .type64)
    (hchild : j < (counts .type64 totalMemoryBytes).pdptCount) :
    entryAt MemoryMapType.type64.target (mapped .type64 totalMemoryBytes zones address m)
        (tableAt MemoryMapType.type64.target address
          (pml4tStart (counts .type64 totalMemoryBytes))) j
      = entryValue (tableAt MemoryMapType.type64.target address
          (pdptStart (counts .type64 totalMemoryBytes) + j)) true true := by
  have hk : pml4tStart (counts .type64 totalMemoryBytes)
      < (counts .type64 totalMemoryBytes).total := Nat.lt_succ_self _
  have hnot : ¬ pml4tStart (counts .type64 totalMemoryBytes)
      < pdtStart (counts .type64 totalMemoryBytes) := by
    unfold pml4tStart pdtStart
    omega
  have hnot' : ¬ pml4tStart (counts .type64 totalMemoryBytes)
      < pdptStart (counts .type64 totalMemoryBytes) := by
    unfold pml4tStart pdptStart
    omega
  refine ((initTables_value hblock htotal zones m).2 _ hk j hj).trans ?_
  unfold tableValue upperValue
  simp only [if_neg hnot, if_neg hnot', if_neg (Nat.lt_irrefl _), Nat.sub_self, Nat.zero_mul,
    Nat.zero_add, tableAt_tableAt, pdptFirst_eq]
  exact if_pos ⟨hchild, hj⟩

/-! ## The way of an address -/

variable {zones : List Zone} {m : Memory} {a : Nat}

/-- An entry that is present leads on. -/
theorem descend_cons {t : Target} {mem : Memory} {shift count table target : Nat}
    {ls : List (Nat × Nat)} {writeable : Bool} (haligned : target % 0x1000 = 0)
    (hentry : entryAt t mem table (a / 2 ^ shift % count) = entryValue target true writeable) :
    descend t mem a ((shift, count) :: ls) table = descend t mem a ls target := by
  rw [descend, hentry, isPresent_entryValue haligned, if_pos rfl, addressField_entryValue haligned]

theorem pdtIndex_lt (type : MemoryMapType) (hpae : type ≠ .type32) (ha : a < totalMemoryBytes) :
    a / 2 ^ 30 < (counts type totalMemoryBytes).pdtCount := by
  have hpt : a / 0x1000 / ptEntriesPerPT type < _ := ptIndex_lt ha
  have hper : ptEntriesPerPT type = 0x200 := if_neg hpae
  have hle : (counts type totalMemoryBytes).ptCount
      ≤ (counts type totalMemoryBytes).pdtCount * 0x200 := by
    cases type with
    | type32 => exact absurd rfl hpae
    | type32PAE | type64 => exact le_upperCount _
  rw [hper] at hpt
  omega

/-- From a page directory table with PAE. -/
theorem descend_pdt (hblock : Block type totalMemoryBytes address)
    (htotal : totalMemoryBytes < 2 ^ 64) (hpae : type ≠ .type32) (ha : a < totalMemoryBytes) :
    descend type.target (mapped type totalMemoryBytes zones address m) a [(21, 0x200)]
        (tableAt type.target address (pdtStart (counts type totalMemoryBytes) + a / 2 ^ 30))
      = some (tableAt type.target address (a / 0x1000 / ptEntriesPerPT type)) := by
  have hper : ptEntriesPerPT type = 0x200 := if_neg hpae
  have hpt : a / 0x1000 / ptEntriesPerPT type < _ := ptIndex_lt ha
  have hindex : a / 2 ^ 30 * ptEntriesPerPT type + a / 2 ^ 21 % 0x200
      = a / 0x1000 / ptEntriesPerPT type := by
    rw [hper]
    omega
  have hentry := entryAt_pdt hblock htotal zones m (j := a / 2 ^ 21 % 0x200) (pdtIndex_lt type hpae ha)
    (by rw [hper]; exact Nat.mod_lt _ (by decide)) (by rw [hindex]; exact hpt)
  rw [hindex] at hentry
  rw [descend_cons (tableAt_aligned _ hblock.aligned _) hentry]
  rfl

/-- From a page directory pointer table on x86-64. -/
theorem descend_pdpt (hblock : Block .type64 totalMemoryBytes address)
    (htotal : totalMemoryBytes < 2 ^ 64) (ha : a < totalMemoryBytes) :
    descend MemoryMapType.type64.target (mapped .type64 totalMemoryBytes zones address m) a
        [(30, 0x200), (21, 0x200)] (tableAt MemoryMapType.type64.target address
          (pdptStart (counts .type64 totalMemoryBytes) + a / 2 ^ 39))
      = if a / 2 ^ 30 % 0x200 < 4 then
          some (tableAt MemoryMapType.type64.target address (a / 0x1000 / 0x200))
        else none := by
  have hpdt := pdtIndex_lt .type64 (by decide) ha
  have hindex : a / 2 ^ 39 * ptEntriesPerPT .type64 + a / 2 ^ 30 % 0x200 = a / 2 ^ 30 := by
    show a / 2 ^ 39 * 0x200 + a / 2 ^ 30 % 0x200 = a / 2 ^ 30
    omega
  have hpdpt : a / 2 ^ 39 < (counts .type64 totalMemoryBytes).pdptCount := by
    have hle : (counts .type64 totalMemoryBytes).pdtCount
        ≤ (counts .type64 totalMemoryBytes).pdptCount * 0x200 := le_upperCount _
    omega
  have hentry := entryAt_pdpt hblock htotal zones m (by decide) (j := a / 2 ^ 30 % 0x200) hpdpt
    (Nat.mod_lt _ (by decide))
  rw [hindex] at hentry
  by_cases hfour : a / 2 ^ 30 % 0x200 < 4
  · rw [if_pos ⟨hpdt, hfour⟩] at hentry
    rw [if_pos hfour, descend_cons (tableAt_aligned _ hblock.aligned _) hentry]
    exact descend_pdt hblock htotal (by decide) ha
  · rw [if_neg fun h => hfour h.2] at hentry
    rw [if_neg hfour, descend, hentry]
    rfl

/-- From the page-map level-4 table. -/
theorem descend_pml4t (hblock : Block .type64 totalMemoryBytes address)
    (hle : totalMemoryBytes ≤ 2 ^ 48) (ha : a < totalMemoryBytes) :
    descend MemoryMapType.type64.target (mapped .type64 totalMemoryBytes zones address m) a
        (levels .type64) (tableAt MemoryMapType.type64.target address
          (pml4tStart (counts .type64 totalMemoryBytes)))
      = if a / 2 ^ 30 % 0x200 < 4 then
          some (tableAt MemoryMapType.type64.target address (a / 0x1000 / 0x200))
        else none := by
  have hpdt := pdtIndex_lt .type64 (by decide) ha
  have hpdpt : a / 2 ^ 39 < (counts .type64 totalMemoryBytes).pdptCount := by
    have hle : (counts .type64 totalMemoryBytes).pdtCount
        ≤ (counts .type64 totalMemoryBytes).pdptCount * 0x200 := le_upperCount _
    omega
  have hindex : a / 2 ^ 39 % 0x200 = a / 2 ^ 39 := Nat.mod_eq_of_lt (by omega)
  have hentry := entryAt_pml4t hblock (by omega) zones m (j := a / 2 ^ 39 % 0x200)
    (Nat.mod_lt _ (by decide)) (by rw [hindex]; exact hpdpt)
  rw [levels, descend_cons (tableAt_aligned _ hblock.aligned _) hentry, hindex]
  exact descend_pdpt hblock (by omega) ha

/-- From the page directory pointer table on i386. -/
theorem descend_pdptPAE (hblock : Block .type32PAE totalMemoryBytes address)
    (htotal : totalMemoryBytes < 2 ^ 64) (ha : a < totalMemoryBytes) (hlt : a < 2 ^ 32) :
    descend MemoryMapType.type32PAE.target (mapped .type32PAE totalMemoryBytes zones address m) a
        (levels .type32PAE) (tableAt MemoryMapType.type32PAE.target address
          (pdptStart (counts .type32PAE totalMemoryBytes)))
      = some (tableAt MemoryMapType.type32PAE.target address (a / 0x1000 / 0x200)) := by
  have hpdt := pdtIndex_lt .type32PAE (by decide) ha
  have hindex : a / 2 ^ 30 % 4 = a / 2 ^ 30 := Nat.mod_eq_of_lt (by omega)
  have hentry := entryAt_pdpt hblock htotal zones m (by decide) (i := 0) (j := a / 2 ^ 30 % 4)
    Nat.one_pos (show a / 2 ^ 30 % 4 < 0x200 by omega)
  rw [Nat.zero_mul, Nat.zero_add, Nat.add_zero, if_pos ⟨by omega, by omega⟩] at hentry
  rw [levels, descend_cons (tableAt_aligned _ hblock.aligned _) hentry, hindex]
  exact descend_pdt hblock htotal (by decide) ha

/-- From the page directory table without PAE. -/
theorem descend_pdt32 (hblock : Block .type32 totalMemoryBytes address)
    (htotal : totalMemoryBytes < 2 ^ 64) (ha : a < totalMemoryBytes) (hlt : a < 2 ^ 32) :
    descend MemoryMapType.type32.target (mapped .type32 totalMemoryBytes zones address m) a
        (levels .type32) (tableAt MemoryMapType.type32.target address
          (pdtStart (counts .type32 totalMemoryBytes)))
      = some (tableAt MemoryMapType.type32.target address (a / 0x1000 / 0x400)) := by
  have hpt : a / 0x1000 / ptEntriesPerPT .type32 < _ := ptIndex_lt ha
  have hindex : a / 2 ^ 22 % 0x400 = a / 0x1000 / 0x400 := by omega
  have hentry := entryAt_pdt hblock htotal zones m (i := 0) (j := a / 2 ^ 22 % 0x400)
    Nat.one_pos (show a / 2 ^ 22 % 0x400 < 0x400 by omega) (by
      rw [Nat.zero_mul, Nat.zero_add, hindex]
      exact hpt)
  rw [Nat.zero_mul, Nat.zero_add, Nat.add_zero, hindex] at hentry
  rw [levels, descend_cons (tableAt_aligned _ hblock.aligned _) (by rw [hindex]; exact hentry)]
  rfl

/-- The entry of a page of the memory. -/
theorem addressField_pt (hblock : Block type totalMemoryBytes address)
    (htotal : totalMemoryBytes < 2 ^ 64) (haligned : a % 0x1000 = 0) (ha : a < totalMemoryBytes) :
    addressField (entryAt type.target (mapped type totalMemoryBytes zones address m)
        (tableAt type.target address (a / 0x1000 / ptEntriesPerPT type))
        (a / 0x1000 % ptEntriesPerPT type))
      = a % 2 ^ (8 * type.target.entryBytes) := by
  have hper : 0 < ptEntriesPerPT type := by
    cases type <;> decide
  have hpage : 0x1000 * (a / 0x1000) = a := Nat.mul_div_cancel' (Nat.dvd_of_mod_eq_zero haligned)
  have hcount : a / 0x1000 < ptEntriesCount totalMemoryBytes :=
    lt_ptEntriesCount_iff.mpr (by rw [hpage]; exact ha)
  rw [entryAt_pt hblock htotal zones m (ptIndex_lt ha) (Nat.mod_lt _ hper), Nat.div_add_mod']
  unfold ptValue pageValue
  rw [if_pos hcount, hpage]
  refine addressField_entryValue ?_
  rcases entryBytes_cases type.target with h | h <;> rw [h] <;> omega

end Entries

/-! ## The two targets -/

section Maps

variable {t : Target} {zones : List Zone} {allocPages : Nat → Nat} {m : Memory} {map : SystemMap}

/-- The last table of the block is the one of the highest level. -/
theorem MapOf.getLast? (h : MapOf t zones m map) (hblock : Block map.type (GetTotalBytes zones)
    map.base) (hpos : 0 < GetTotalBytes zones) :
    map.fill.tables.getLast? = some (tableAt map.type.target map.base (map.counts.total - 1)) := by
  have hfits := hblock.fits
  have hroot := rootIndex_lt map.type hpos
  have hmemory : 0 < mapMemory (Vm.counts map.type (GetTotalBytes zones)) := by
    rw [mapMemory_eq]
    omega
  have hfilled := filled_initTables map.type.target_valid map.type (GetTotalBytes zones) zones
    (show map.base < 2 ^ map.type.target.pointerBits by omega) m
  rw [h.fill, hfilled.tables, h.counts, List.getLast?_map, List.getLast?_range,
    if_neg (Nat.ne_of_gt (Nat.zero_lt_of_lt hroot))]
  rfl

/-- `CR3` gets the low half of the address that the running pointer has reached. -/
theorem MapOf.cr3_eq (h : MapOf t zones m map)
    (hblock : Block map.type (GetTotalBytes zones) map.base) :
    map.cr3 = tableAt map.type.target map.base (rootIndex map.type (GetTotalBytes zones))
      % 2 ^ 32 := by
  rw [h.cr3]
  exact (initTables_value hblock (GetTotalBytes_lt zones) zones m).1

theorem MapOf.memory_eq (h : MapOf t zones m map) : map.fill.memory
    = mapped map.type (GetTotalBytes zones) zones map.base m := by
  rw [h.fill]
  rfl

/-- The table of the highest level on x86-64. -/
theorem rootIndex_type64 (hle : GetTotalBytes zones ≤ 2 ^ 48) (hpos : 0 < GetTotalBytes zones) :
    rootIndex .type64 (GetTotalBytes zones)
      = pml4tStart (counts .type64 (GetTotalBytes zones)) := by
  have hcovers : MemoryMapType.Covers .type64 (GetTotalBytes zones) := by
    unfold MemoryMapType.Covers
    exact hle
  have hleast := (counts_least hpos hcovers).1
  have hpdpt : (counts .type64 (GetTotalBytes zones)).pdptCount ≤ ptEntriesPerPT .type64 := by
    show _ ≤ 0x200
    refine hleast.2.2.1.le ?_
    have hpages : ptEntriesCount (GetTotalBytes zones) ≤ 2 ^ 36 :=
      (ptEntriesCount_least (GetTotalBytes zones)).le (by omega)
    omega
  have hfull : (counts .type64 (GetTotalBytes zones)).pml4tCount * ptEntriesPerPT .type64
      = ptEntriesPerPT .type64 := Nat.one_mul _
  show pml4tFirst .type64 (GetTotalBytes zones) = _
  unfold pml4tFirst
  rw [pdptFirst_eq, hfull, Nat.min_eq_left hpdpt]
  rfl

/-- The table of the highest level on x86-64, and the way of an address from there. -/
theorem MapOf.top64 (h : MapOf ⟨true, true⟩ zones m map) (hpos : 0 < GetTotalBytes zones)
    (hle : GetTotalBytes zones ≤ 2 ^ 48)
    (hblock : Block map.type (GetTotalBytes zones) map.base) :
    let top := map.base + (mapMemory map.counts - 0x1000)
    map.type = .type64 ∧ map.fill.tables.getLast? = some top ∧ map.cr3 = top % 2 ^ 32 ∧
    ∀ a, a < GetTotalBytes zones →
      descend map.target map.fill.memory a (levels .type64) top = if a / 2 ^ 30 % 0x200 < 4 then
        some (tableAt MemoryMapType.type64.target map.base (a / 0x1000 / 0x200)) else none := by
  intro top
  have htype : map.type = .type64 := h.type
  have hlast := h.getLast? hblock hpos
  have hcr3 := h.cr3_eq hblock
  have hmemory := h.memory_eq
  have htarget := h.target
  have hcounts := h.counts
  rw [htype] at hblock hlast hcr3 hmemory htarget hcounts
  have htotal : (Vm.counts .type64 (GetTotalBytes zones)).total
      = pml4tStart (Vm.counts .type64 (GetTotalBytes zones)) + 1 := rfl
  have htop : top = tableAt MemoryMapType.type64.target map.base
      (pml4tStart (Vm.counts .type64 (GetTotalBytes zones))) := by
    have htable := hblock.tableAt_eq (show pml4tStart (Vm.counts .type64 (GetTotalBytes zones)) < _
      from Nat.lt_succ_self _)
    show map.base + (mapMemory map.counts - 0x1000) = _
    rw [htable, hcounts, mapMemory_eq, htotal]
    omega
  rw [hcounts, htotal, Nat.add_sub_cancel] at hlast
  rw [rootIndex_type64 hle hpos] at hcr3
  refine ⟨htype, htop ▸ hlast, htop ▸ hcr3, fun a ha => ?_⟩
  rw [htop, htarget, hmemory]
  exact descend_pml4t hblock hle ha

/-- The fifth entry of the page directory pointer table is empty. -/
theorem MapOf.pageEntry_4G (h : MapOf ⟨true, true⟩ zones m map)
    (hlarge : 2 ^ 32 < GetTotalBytes zones) (hle : GetTotalBytes zones ≤ 2 ^ 48)
    (hblock : Block map.type (GetTotalBytes zones) map.base)
    (hroot : map.cr3 = map.base + (mapMemory map.counts - 0x1000)) :
    pageEntry map.type map.target map.fill.memory map.cr3 (2 ^ 32) = none := by
  obtain ⟨htype, _, _, hdescend⟩ := h.top64 (by omega) hle hblock
  unfold pageEntry
  rw [hroot, htype, hdescend (2 ^ 32) hlarge, if_neg (by decide)]
  rfl

/-- The map of x86-64 is the identity for a memory of at most 4 GB whose page-map level-4 table
lies below 4 GB. -/
theorem systemMap64_identity_iff {map : SystemMap} (hpos : 0 < GetTotalBytes zones)
    (hle : GetTotalBytes zones ≤ 2 ^ 48)
    (hinit : SystemMapInitialize ⟨true, true⟩ zones allocPages m = some map)
    (hblock : Block map.type (GetTotalBytes zones) map.base) :
    map.Identity (GetTotalBytes zones) ↔
      GetTotalBytes zones ≤ 2 ^ 32 ∧ map.base + (mapMemory map.counts - 0x1000) < 2 ^ 32 := by
  have hmap := mapOf_of_initialize (fun _ => rfl) hinit
  obtain ⟨htype, hlast, hcr3, hdescend⟩ := hmap.top64 hpos hle hblock
  constructor
  · intro hidentity
    have hroot := Option.some.inj (hidentity.root.symm.trans hlast)
    constructor
    · by_contra hlarge
      obtain ⟨e, hentry, _⟩ := hidentity.walk (2 ^ 32) (by decide) (by omega)
      rw [hmap.pageEntry_4G (by omega) hle hblock hroot] at hentry
      cases hentry
    · have hlow := Nat.mod_lt (map.base + (mapMemory map.counts - 0x1000))
        (show 0 < 2 ^ 32 by decide)
      omega
  · rintro ⟨hsmall, hlow⟩
    have hroot := hcr3.trans (Nat.mod_eq_of_lt hlow)
    refine ⟨hlast.trans (congrArg some hroot.symm), fun a haligned ha => ?_⟩
    refine ⟨entryAt map.target map.fill.memory
      (tableAt MemoryMapType.type64.target map.base (a / 0x1000 / 0x200)) (a / 0x1000 % 0x200),
      ?_, ?_⟩
    · unfold pageEntry
      rw [hroot, htype, hdescend a ha, if_pos (by omega)]
      rfl
    · rw [hmap.target, hmap.memory_eq]
      rw [htype] at hblock ⊢
      refine (addressField_pt hblock (GetTotalBytes_lt zones) haligned ha).trans ?_
      exact Nat.mod_eq_of_lt (show a < 2 ^ 64 by omega)

/-- The initialisation succeeds when there is a block. -/
theorem exists_map (t : Target) (zones : List Zone) (m : Memory) {address : Nat}
    (haddress : 0 < address) :
    ∃ map, SystemMapInitialize t zones (fun _ => address) m = some map ∧
      map.type = (chooseType t (GetTotalBytes zones)).1 ∧ map.base = address ∧
      map.counts = counts map.type (GetTotalBytes zones) := by
  unfold SystemMapInitialize
  simp only [gt_iff_lt, if_pos haddress]
  exact ⟨_, rfl, rfl, rfl, rfl⟩

/-- 16 MB on x86-64. -/
theorem systemMap64_identity_16M :
    ∃ map, SystemMapInitialize ⟨true, true⟩ [⟨.usable, 0, 0x1000000⟩] (fun _ => 0x200000)
      (fun _ => 0) = some map ∧ map.Identity 0x1000000 := by
  obtain ⟨map, hinit, htype, hbase, hcounts⟩ := exists_map ⟨true, true⟩
    [⟨.usable, 0, 0x1000000⟩] (fun _ => 0) (show 0 < 0x200000 by decide)
  have htype' : map.type = .type64 := htype
  rw [htype'] at hcounts
  have hblock : Block map.type 0x1000000 map.base := by
    rw [htype', hbase]
    exact ⟨by decide, by decide, by decide⟩
  refine ⟨map, hinit, (systemMap64_identity_iff (by decide) (by decide) hinit hblock).mpr
    ⟨by decide, ?_⟩⟩
  rw [hbase, hcounts]
  decide

/-- 8 GB on x86-64: the page at 4 GB is not mapped. -/
theorem not_identity64_8G :
    ∃ map, SystemMapInitialize ⟨true, true⟩ [⟨.usable, 0, 0x200000000⟩] (fun _ => 0x200000)
      (fun _ => 0) = some map ∧ map.cr3 = 0x200000 + (mapMemory map.counts - 0x1000) ∧
      pageEntry map.type map.target map.fill.memory map.cr3 0x100000000 = none ∧
      ¬ map.Identity 0x200000000 := by
  obtain ⟨map, hinit, htype, hbase, hcounts⟩ := exists_map ⟨true, true⟩
    [⟨.usable, 0, 0x200000000⟩] (fun _ => 0) (show 0 < 0x200000 by decide)
  have htype' : map.type = .type64 := htype
  rw [htype'] at hcounts
  have hblock : Block map.type 0x200000000 map.base := by
    rw [htype', hbase]
    exact ⟨by decide, by decide, by decide⟩
  have hmap := mapOf_of_initialize (fun _ => rfl) hinit
  obtain ⟨_, _, hcr3, _⟩ := hmap.top64 (by decide) (by decide) hblock
  have hlow : map.base + (mapMemory map.counts - 0x1000) < 2 ^ 32 := by
    rw [hbase, hcounts]
    decide
  have hroot := hcr3.trans (Nat.mod_eq_of_lt hlow)
  have hnone := hmap.pageEntry_4G (by decide) (by decide) hblock hroot
  refine ⟨map, hinit, hbase ▸ hroot, hnone, fun hidentity => ?_⟩
  obtain ⟨e, hentry, _⟩ := hidentity.walk 0x100000000 (by decide) (by decide)
  exact absurd (hnone.symm.trans hentry) nofun

/-! ## i386 -/

/-- The memory sizes for which the running pointer reaches the table of the highest level. -/
theorem rootIndex_i386_iff {type : MemoryMapType} {totalMemoryBytes : Nat} (h64 : type ≠ .type64)
    (hpos : 0 < totalMemoryBytes) :
    rootIndex type totalMemoryBytes = (counts type totalMemoryBytes).total - 1 ↔
      totalMemoryBytes ≤ if type = .type32 then 2 ^ 32 else 2 ^ 39 := by
  have hpages := ptEntriesCount_least totalMemoryBytes
  have hpt := ptCountOf_least type totalMemoryBytes
  have hpdt := upperCount_least (hpt.pos (hpages.pos hpos))
  cases type with
  | type64 => exact absurd rfl h64
  | type32 =>
    have hiff : ptCountOf .type32 totalMemoryBytes ≤ 0x400 ↔ totalMemoryBytes ≤ 2 ^ 32 :=
      hpt.le_iff.trans (show _ ≤ 0x400 * 0x400 ↔ _ from hpages.le_iff)
    rw [if_pos rfl, ← hiff]
    show min (ptCountOf .type32 totalMemoryBytes) (1 * 0x400)
      = ptCountOf .type32 totalMemoryBytes + 1 + 0 + 0 - 1 ↔ _
    omega
  | type32PAE =>
    have hiff : upperCount (ptCountOf .type32PAE totalMemoryBytes) ≤ 0x200
        ↔ totalMemoryBytes ≤ 2 ^ 39 :=
      hpdt.le_iff.trans (hpt.le_iff.trans (show _ ≤ 0x200 * 0x200 * 0x200 ↔ _ from hpages.le_iff))
    have hle := le_upperCount (ptCountOf .type32PAE totalMemoryBytes)
    rw [if_neg (by decide), ← hiff]
    show min (ptCountOf .type32PAE totalMemoryBytes)
        (upperCount (ptCountOf .type32PAE totalMemoryBytes) * 0x200)
      + min (upperCount (ptCountOf .type32PAE totalMemoryBytes)) (1 * 0x200)
      = ptCountOf .type32PAE totalMemoryBytes
        + upperCount (ptCountOf .type32PAE totalMemoryBytes) + 1 + 0 - 1 ↔ _
    omega

/-- From the table of the highest level on i386. -/
theorem descend_i386 {type : MemoryMapType} {totalMemoryBytes address a : Nat}
    (h64 : type ≠ .type64) (hblock : Block type totalMemoryBytes address)
    (htotal : totalMemoryBytes < 2 ^ 64) (ha : a < totalMemoryBytes) (hlt : a < 2 ^ 32) :
    descend type.target (mapped type totalMemoryBytes zones address m) a (levels type)
        (tableAt type.target address ((counts type totalMemoryBytes).total - 1))
      = some (tableAt type.target address (a / 0x1000 / ptEntriesPerPT type)) := by
  cases type with
  | type64 => exact absurd rfl h64
  | type32 => exact descend_pdt32 hblock htotal ha hlt
  | type32PAE => exact descend_pdptPAE hblock htotal ha hlt

/-- The map of i386 is the identity unless the memory is larger than what one table of the
highest level can map: 4 GB without PAE, 512 GB with PAE. -/
theorem systemMap32_identity_iff {pae : Bool} {map : SystemMap} (hpos : 0 < GetTotalBytes zones)
    (hinit : SystemMapInitialize ⟨false, pae⟩ zones allocPages m = some map)
    (hblock : Block map.type (GetTotalBytes zones) map.base) :
    map.Identity (min (GetTotalBytes zones) (2 ^ 32)) ↔
      GetTotalBytes zones ≤ if pae then 2 ^ 39 else 2 ^ 32 := by
  have hvalid : Target.Valid ⟨false, pae⟩ := by
    intro h
    cases h
  have hmap := mapOf_of_initialize hvalid hinit
  have htype := hmap.type
  have htotal := GetTotalBytes_lt zones
  have h64 : map.type ≠ .type64 := by
    rw [htype]
    unfold chooseType
    cases pae <;> simp only [Bool.false_eq_true, if_false, if_true]
    · exact nofun
    · split <;> exact nofun
  have hsize : (GetTotalBytes zones ≤ if pae then 2 ^ 39 else 2 ^ 32) ↔
      GetTotalBytes zones ≤ if map.type = .type32 then 2 ^ 32 else 2 ^ 39 := by
    rw [htype]
    unfold chooseType
    cases pae <;> simp only [Bool.false_eq_true, if_false, if_true]
    split
    · simp only [if_true]
      omega
    · simp only [reduceCtorEq, if_false]
  rw [hsize, ← rootIndex_i386_iff h64 hpos]
  have hlast := hmap.getLast? hblock hpos
  have hcr3 := hmap.cr3_eq hblock
  have hrootLt := rootIndex_lt map.type hpos
  rw [hmap.counts] at hlast
  have hroom : (counts map.type (GetTotalBytes zones)).total - 1
      < (counts map.type (GetTotalBytes zones)).total := by omega
  have hbits : map.type.target.pointerBits = 32 := by
    cases h : map.type with
    | type64 => exact absurd h h64
    | type32 | type32PAE => rfl
  have hlow := tableAt_lt map.type.target map.base (rootIndex map.type (GetTotalBytes zones))
  rw [hbits] at hlow
  rw [Nat.mod_eq_of_lt hlow] at hcr3
  constructor
  · intro hidentity
    have hr := Option.some.inj (hidentity.root.symm.trans hlast)
    rw [hcr3, hblock.tableAt_eq hrootLt, hblock.tableAt_eq hroom] at hr
    omega
  · intro hroot
    rw [hroot] at hcr3
    refine ⟨hlast.trans (congrArg some hcr3.symm), fun a haligned ha => ?_⟩
    have hin : a < GetTotalBytes zones := by omega
    have hlt : a < 2 ^ 32 := by omega
    refine ⟨entryAt map.type.target map.fill.memory
      (tableAt map.type.target map.base (a / 0x1000 / ptEntriesPerPT map.type))
      (a / 0x1000 % ptEntriesPerPT map.type), ?_, ?_⟩
    · unfold pageEntry
      rw [hmap.target, hmap.memory_eq, hcr3, descend_i386 h64 hblock htotal hin hlt]
      rfl
    · rw [hmap.memory_eq, addressField_pt hblock htotal haligned hin]
      refine Nat.mod_eq_of_lt (Nat.lt_of_lt_of_le hlt (Nat.pow_le_pow_right (by decide) ?_))
      rcases entryBytes_cases map.type.target with h | h <;> omega

/-- 1 GB on i386 without PAE. -/
theorem systemMap32_identity_1G :
    ∃ map, SystemMapInitialize ⟨false, false⟩ [⟨.usable, 0, 0x40000000⟩] (fun _ => 0x200000)
      (fun _ => 0) = some map ∧ map.Identity 0x40000000 := by
  obtain ⟨map, hinit, htype, hbase, _⟩ := exists_map ⟨false, false⟩
    [⟨.usable, 0, 0x40000000⟩] (fun _ => 0) (show 0 < 0x200000 by decide)
  have htype' : map.type = .type32 := htype
  have hblock : Block map.type 0x40000000 map.base := by
    rw [htype', hbase]
    exact ⟨by decide, by decide, by decide⟩
  exact ⟨map, hinit, (systemMap32_identity_iff (by decide) hinit hblock).mpr (by decide)⟩

/-- One page more than 4 GB on i386 without PAE: `CR3` gets the address of a page table. -/
theorem not_identity32_4G :
    ∃ map, SystemMapInitialize ⟨false, false⟩ [⟨.usable, 0, 0x100001000⟩] (fun _ => 0x200000)
      (fun _ => 0) = some map ∧ map.cr3 = 0x200000 + 0x1000 * 0x400 ∧
      map.counts.ptCount = 0x401 ∧ ¬ map.Identity 0x100000000 := by
  obtain ⟨map, hinit, htype, hbase, hcounts⟩ := exists_map ⟨false, false⟩
    [⟨.usable, 0, 0x100001000⟩] (fun _ => 0) (show 0 < 0x200000 by decide)
  have htype' : map.type = .type32 := htype
  rw [htype'] at hcounts
  have hblock : Block map.type 0x100001000 map.base := by
    rw [htype', hbase]
    exact ⟨by decide, by decide, by decide⟩
  have hmap := mapOf_of_initialize (fun h => Bool.noConfusion h) hinit
  have hcr3 : map.cr3 = 0x200000 + 0x1000 * 0x400 := by
    rw [hmap.cr3_eq hblock, htype', hbase]
    decide
  refine ⟨map, hinit, hcr3, by rw [hcounts]; decide, fun hidentity => ?_⟩
  have hlast := hidentity.root.symm.trans (hmap.getLast? hblock (by decide))
  rw [hcr3, htype', hbase, hcounts] at hlast
  exact absurd hlast (by decide)

end Maps

end Xeos.Vm
