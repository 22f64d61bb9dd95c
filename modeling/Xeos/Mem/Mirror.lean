import Xeos.Mem.InitializeSafe

/-!
# The zones and the memory map

What the initialisation leaves, read through `XEOS_Mem_GetZoneAtIndex` and compared with
the memory map.  An entry of one page gets a zone without pages, as the second pass
compares its length with `>`.  The bound of the free pages is that of the table plus the
size of the zone structures that are written before, as the second pass moves the
address that it adds to.
-/

namespace Xeos.Mem

open Lib

/-! ## Zones by index -/

/-- The loop of `XEOS_Mem_GetZoneAtIndex` over the zones of a list. -/
theorem returns_getZoneAtIndex {m : Memory} {p : Nat} {l : List Nat}
    (hchain : Chain (ZoneGetNext m) p l) (i : Nat) :
    Returns (stepGetZoneAtIndex m) (p, i) (l[i]?.getD 0) := by
  induction l generalizing p i with
  | nil =>
    cases hchain
    exact Returns.done (by simp [stepGetZoneAtIndex])
  | cons q l ih =>
    cases hchain with
    | cons hq hrest =>
      cases i with
      | zero =>
        exact Returns.done (by simp [stepGetZoneAtIndex, hq])
      | succ i =>
        exact Returns.next (by simp [stepGetZoneAtIndex, hq]) (ih hrest i)

theorem Kernel.Lists.getZoneAtIndex {k : Kernel} {zs : List Zone} (h : k.Lists zs)
    (hcount : k.ZoneCount = zs.length) (i zone : Nat) :
    GetZoneAtIndex k i zone ↔ zone = (zs.map Zone.address)[i]?.getD 0 := by
  unfold GetZoneAtIndex
  by_cases hi : i ≥ k.ZoneCount
  · rw [if_pos hi, List.getElem?_eq_none (by rw [List.length_map]; omega)]
    exact Iff.rfl
  · rw [if_neg hi]
    have hreturns := returns_getZoneAtIndex h.chain i
    constructor
    · exact fun hzone => hzone.unique hreturns
    · rintro rfl
      exact hreturns

theorem layout_length (address : Nat) (entries : List MemoryEntry) :
    (layout address entries).length = entries.length := by
  induction entries generalizing address with
  | nil => rfl
  | cons entry entries ih => rw [layout, List.length_cons, List.length_cons, ih]

/-- The zone at an index is that of the entry, behind the zones of the entries before. -/
theorem layout_getElem? (address : Nat) (entries : List MemoryEntry) (i : Nat) :
    (layout address entries)[i]?
      = entries[i]?.map (zoneOf (address + tableSize (entries.take i))) := by
  induction entries generalizing address i with
  | nil => rfl
  | cons entry entries ih =>
    cases i with
    | zero => rfl
    | succ i =>
      rw [layout, List.getElem?_cons_succ, ih, List.getElem?_cons_succ, List.take_succ_cons,
        tableSize_cons]
      congr 2
      omega

/-! ## The table mirrors the map -/

/-- The end of a zone structure with its pages. -/
def zoneEnd (m : Memory) (zone : Nat) : Nat := ZoneGetPages zone + ZoneGetPageCount m zone

/-- A zone has the data of an entry. -/
structure Mirrored (m : Memory) (entry : MemoryEntry) (zone : Nat) : Prop where
  base : ZoneGetAddress m zone = entry.GetAddress
  length : ZoneGetLength m zone = entry.GetLength
  type : ZoneGetType m zone = entry.GetType.code
  pageCount : ZoneGetPageCount m zone = entry.GetLength / 0x1000
  freePageCount : ZoneGetFreePageCount m zone
    = ((Finset.range (ZoneGetPageCount m zone)).filter
        (fun j => m (ZoneGetPages zone + j) = 0x01)).card

/-- The kernel has the zones in its list, one for every entry, apart from each other and
in the bytes reserved at the place of the table. -/
structure Mirrors (memory : MemoryMap) (place : Nat) (k : Kernel) (zones : List Nat) : Prop where
  list : Chain (ZoneGetNext k.memory) k.Zones zones
  index : ∀ i zone, GetZoneAtIndex k i zone ↔ zone = zones[i]?.getD 0
  entries : List.Forall₂ (Mirrored k.memory) memory.entries zones
  apart : zones.Pairwise fun zone zone' =>
    zoneEnd k.memory zone ≤ zone' ∨ zoneEnd k.memory zone' ≤ zone
  inside : ∀ zone ∈ zones,
    place ≤ zone ∧ zoneEnd k.memory zone ≤ place + zonesMemory memory

theorem pagesOf_eq_iff (entry : MemoryEntry) :
    pagesOf entry = entry.GetLength / 0x1000 ↔ entry.GetLength ≠ 0x1000 := by
  unfold pagesOf
  split <;> omega

section Mirror

variable {memory : MemoryMap} {kernelEnd : UInt64} {output : Bool} {place : Nat} {k : Kernel}

theorem Zone.Built.mirrored {m : Memory} {entry : MemoryEntry} {a bound : Nat}
    (h : (zoneOf a entry).Built bound m) (hlength : entry.GetLength ≠ 0x1000) :
    Mirrored m entry a where
  base := h.holds.base
  length := h.holds.length
  type := h.holds.type
  pageCount := h.holds.pageCount.trans ((pagesOf_eq_iff entry).mpr hlength)
  freePageCount := by
    have hcount : ZoneGetPageCount m a = (zoneOf a entry).pageCount := h.holds.pageCount
    rw [hcount]
    exact h.freePageCount

/-- The zones of the layout are those of the entries, one by one. -/
theorem forall₂_layout {P : MemoryEntry → Nat → Prop} {address : Nat}
    {entries : List MemoryEntry}
    (h : ∀ entry ∈ entries, ∀ a, zoneOf a entry ∈ layout address entries → P entry a) :
    List.Forall₂ P entries ((layout address entries).map Zone.address) := by
  induction entries generalizing address with
  | nil => exact .nil
  | cons entry entries ih =>
    refine .cons (h entry List.mem_cons_self address List.mem_cons_self) (ih ?_)
    intro entry' hentry' a ha
    exact h entry' (List.mem_cons_of_mem entry hentry') a (List.mem_cons_of_mem _ ha)

theorem Tabled.zoneEnd (h : Tabled (zonesMemory memory) place memory.entries k) {z : Zone}
    (hz : z ∈ layout place memory.entries) : zoneEnd k.memory z.address = z.finish := by
  unfold Mem.zoneEnd ZoneGetPages Zone.finish
  rw [(h.built z hz).holds.pageCount]

/-- The zones that the initialisation makes are in the bytes reserved for them, and they
have the data of the entries if no entry has the length of one page. -/
theorem Tabled.mirrors (h : Tabled (zonesMemory memory) place memory.entries k)
    (hfit : tableSize memory.entries ≤ zonesMemory memory)
    (hlength : ∀ entry ∈ memory.entries, entry.GetLength ≠ 0x1000) :
    Mirrors memory place k ((layout place memory.entries).map Zone.address) where
  list := h.lists.chain
  index := h.lists.getZoneAtIndex (h.count.trans (layout_length _ _).symm)
  entries := forall₂_layout fun entry hentry a ha =>
    (h.built _ ha).mirrored (hlength entry hentry)
  apart := by
    refine List.pairwise_map.mpr ((layout_apart place memory.entries).imp_of_mem ?_)
    intro z z' hz _ hle
    rw [h.zoneEnd hz]
    exact .inl hle
  inside := by
    intro zone hzone
    obtain ⟨z, hz, rfl⟩ := List.mem_map.mp hzone
    have hbounds := layout_bounds hz
    rw [h.zoneEnd hz]
    omega

/-- Zones that mirror the map have the pages of the entries. -/
theorem Tabled.length_ne (h : Tabled (zonesMemory memory) place memory.entries k)
    {zones : List Nat} (hmirrors : Mirrors memory place k zones) {entry : MemoryEntry}
    (hentry : entry ∈ memory.entries) : entry.GetLength ≠ 0x1000 := by
  obtain ⟨i, hi, rfl⟩ := List.mem_iff_getElem.mp hentry
  have hlen := hmirrors.entries.length_eq
  have hsame := hmirrors.entries.get hi (by omega)
  simp only [List.get_eq_getElem] at hsame
  have hz : (layout place memory.entries)[i]? = some (zoneOf (place
      + tableSize (memory.entries.take i)) memory.entries[i]) := by
    rw [layout_getElem?, List.getElem?_eq_getElem hi, Option.map_some]
  have hbuilt := h.built _ (List.mem_of_getElem? hz)
  -- both say which zone has the index `i`
  have haddress : zones[i] = place + tableSize (memory.entries.take i) := by
    have hindex := (h.lists.getZoneAtIndex (h.count.trans (layout_length _ _).symm) i zones[i]).mp
      ((hmirrors.index i _).mpr (by rw [List.getElem?_eq_getElem (by omega), Option.getD_some]))
    rw [List.getElem?_map, hz] at hindex
    exact hindex
  rw [haddress] at hsame
  exact (pagesOf_eq_iff _).mp (hbuilt.holds.pageCount.symm.trans hsame.pageCount)

end Mirror

/-- One usable page. -/
def singlePageMap : MemoryMap where
  entries := [⟨0x400000, 0x1000, 0x01⟩]
  bounded := by decide

/-! ## The free pages -/

section Free

variable {memory : MemoryMap} {kernelEnd : UInt64} {output : Bool} {place : Nat} {k : Kernel}

/-- The page `j` of a zone is marked free. -/
def MarkedFree (k : Kernel) (zone j : Nat) : Prop :=
  j < ZoneGetPageCount k.memory zone ∧ k.memory (ZoneGetPages zone + j) = 0x01

/-- The address of the page `j` of an entry. -/
def MemoryEntry.page (entry : MemoryEntry) (j : Nat) : Nat := entry.GetAddress + 0x1000 * j

/-- In the zones of the entries, the whole pages of usable entries are marked free from a
bound on, and no page below it. -/
def FreeFrom (memory : MemoryMap) (bound : Nat) (k : Kernel) : Prop :=
  ∀ i entry zone, memory.entries[i]? = some entry → GetZoneAtIndex k i zone →
    (entry.GetType = .usable → ∀ j, j < entry.GetLength / 0x1000 → bound ≤ entry.page j →
      MarkedFree k zone j) ∧
    ∀ j, MarkedFree k zone j → bound ≤ entry.page j

/-- The bound that the second pass uses in the zone with an index: the place has moved
behind the zones before. -/
def movedBound (memory : MemoryMap) (place i : Nat) : Nat :=
  (place + tableSize (memory.entries.take i) + zonesMemory memory) % 2 ^ 64

/-- No usable entry from the bound on is one page long, and in the longer ones no whole
page is between the bound and the moved one. -/
def NoPageBetween (memory : MemoryMap) (place : Nat) : Prop :=
  ∀ i entry, memory.entries[i]? = some entry → entry.GetType = .usable →
    ∀ j, j < entry.GetLength / 0x1000 →
      if entry.GetLength = 0x1000 then entry.page j < place + zonesMemory memory
      else (place + zonesMemory memory ≤ entry.page j ↔ movedBound memory place i ≤ entry.page j)

theorem Zone.Built.byte_iff {bound : Nat} {m : Memory} {z : Zone} (h : z.Built bound m) {j : Nat}
    (hj : j < z.pageCount) : m (z.byte j) = 0x01 ↔ z.Marks bound j := by
  rw [h.pages j hj]
  by_cases hmarks : z.Marks bound j
  · rw [if_pos hmarks]
    exact iff_of_true rfl hmarks
  · rw [if_neg hmarks]
    exact iff_of_false (by decide) hmarks

/-- What is marked free in the zone of an entry. -/
theorem Tabled.markedFree_iff (h : Tabled (zonesMemory memory) place memory.entries k)
    {i : Nat} {entry : MemoryEntry} {zone : Nat} (hentry : memory.entries[i]? = some entry)
    (hzone : GetZoneAtIndex k i zone) (j : Nat) :
    MarkedFree k zone j ↔ j < pagesOf entry ∧ entry.GetType = .usable ∧
      movedBound memory place i ≤ entry.page j := by
  have hz : (layout place memory.entries)[i]?
      = some (zoneOf (place + tableSize (memory.entries.take i)) entry) := by
    rw [layout_getElem?, hentry, Option.map_some]
  have hzone' := (h.lists.getZoneAtIndex (h.count.trans (layout_length _ _).symm) i zone).mp hzone
  rw [List.getElem?_map, hz, Option.map_some, Option.getD_some] at hzone'
  have hbuilt : Zone.Built (movedBound memory place i) k.memory _ :=
    h.built _ (List.mem_of_getElem? hz)
  subst hzone'
  unfold MarkedFree
  rw [show ZoneGetPageCount k.memory _ = pagesOf entry from hbuilt.holds.pageCount]
  exact and_congr_right fun hj => hbuilt.byte_iff hj

end Free

/-- The memory of a small machine: the first entry gets 159 pages. -/
def smallMap : MemoryMap where
  entries := [⟨0, 0x9F000, 0x01⟩, ⟨0x100000, 0xE20000, 0x01⟩]
  bounded := by decide

end Xeos.Mem
