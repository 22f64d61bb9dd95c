import Xeos.Mem.InitializeSafe

/-!
# The place of the zone table

Which place the first pass of `XEOS_Mem_Initialize` selects, for every memory map.  The
search ends at the first large usable entry that starts behind the kernel, or that does
not fit below the limit; the place right behind the kernel is kept while it goes on.

The bootloader maps 12 MB.  The limit of the pass is `0x300000000`, which is 12 GB, and
the place right behind the kernel is not compared with it.
-/

namespace Xeos.Mem

open Lib

/-! ## The entries that the search looks at -/

section Entry

variable (zonesMemory kernelEnd : Nat) (entry : MemoryEntry)

/-- A usable entry with enough bytes for the zones. -/
def Large : Prop := entry.GetType = .usable ∧ zonesMemory ≤ entry.GetLength

/-- From the aligned start of the entry, the zones are below the limit. -/
def Low : Prop :=
  alignStart entry.GetAddress < 0x300000000 ∧
    (alignStart entry.GetAddress + zonesMemory) % 2 ^ 64 < 0x300000000

/-- The entry has room for the zones right behind the kernel. -/
def ReachesBehind : Prop :=
  let memoryEnd := (entry.GetAddress + entry.GetLength + (2 ^ 64 - 1)) % 2 ^ 64
  memoryEnd > kernelEnd ∧ memoryEnd - kernelEnd ≥ zonesMemory

/-- The search goes on behind the entry. -/
def Passed : Prop :=
  Large zonesMemory entry → Low zonesMemory entry ∧ alignStart entry.GetAddress ≤ kernelEnd

/-- The entry leaves the place right behind the kernel. -/
def Keeps : Prop := Large zonesMemory entry ∧ ReachesBehind zonesMemory kernelEnd entry

instance : Decidable (Large zonesMemory entry) := inferInstanceAs (Decidable (_ ∧ _))

instance : Decidable (Low zonesMemory entry) := inferInstanceAs (Decidable (_ ∧ _))

instance : Decidable (ReachesBehind zonesMemory kernelEnd entry) :=
  inferInstanceAs (Decidable (_ ∧ _))

instance : Decidable (Keeps zonesMemory kernelEnd entry) := inferInstanceAs (Decidable (_ ∧ _))

end Entry

section Search

variable {output : Bool} {zonesMemory kernelEnd start : Nat} {entry : MemoryEntry}
  {entries front back : List MemoryEntry}

/-- An entry that is not large is skipped. -/
theorem placeEntry_of_not_large (hlarge : ¬ Large zonesMemory entry) :
    placeEntry output zonesMemory kernelEnd entry = .skip := by
  unfold placeEntry
  simp only
  split
  · rfl
  split
  · rfl
  next husable =>
  have hshort : entry.GetLength < zonesMemory := by
    by_contra hle
    exact hlarge ⟨not_not.mp husable, Nat.le_of_not_lt hle⟩
  rw [if_pos hshort]

/-- What the search makes of a large entry. -/
theorem placeEntry_of_large (hzones : 0 < zonesMemory) (hlarge : Large zonesMemory entry) :
    placeEntry output zonesMemory kernelEnd entry
      = if ¬ Low zonesMemory entry then .stop
        else if alignStart entry.GetAddress > kernelEnd then .found (alignStart entry.GetAddress)
        else if ReachesBehind zonesMemory kernelEnd entry then .behind (kernelEnd + 1)
        else .skip := by
  have hlength := hlarge.2
  unfold placeEntry
  simp only
  rw [if_neg (by omega), if_neg (not_not.mpr hlarge.1), if_neg (by omega)]
  by_cases hlow : Low zonesMemory entry
  · rw [if_neg (not_not.mpr hlow), if_neg (by unfold Low at hlow; omega)]
    rfl
  · rw [if_pos hlow, if_pos (by unfold Low at hlow; omega)]

theorem placeEntry_of_passed (hzones : 0 < zonesMemory)
    (hpassed : Passed zonesMemory kernelEnd entry) :
    placeEntry output zonesMemory kernelEnd entry
      = if Keeps zonesMemory kernelEnd entry then .behind (kernelEnd + 1) else .skip := by
  by_cases hlarge : Large zonesMemory entry
  · obtain ⟨hlow, hle⟩ := hpassed hlarge
    rw [placeEntry_of_large hzones hlarge, if_neg (not_not.mpr hlow), if_neg (by omega)]
    by_cases hreaches : ReachesBehind zonesMemory kernelEnd entry
    · rw [if_pos hreaches, if_pos ⟨hlarge, hreaches⟩]
    · rw [if_neg hreaches, if_neg (fun h => hreaches h.2)]
  · rw [placeEntry_of_not_large hlarge, if_neg (fun h => hlarge h.1)]

/-- The entries that the search passes. -/
theorem findPlace_append (hzones : 0 < zonesMemory)
    (hfront : ∀ e ∈ front, Passed zonesMemory kernelEnd e) :
    findPlace output zonesMemory kernelEnd (front ++ back) start
      = findPlace output zonesMemory kernelEnd back
          (if ∃ e ∈ front, Keeps zonesMemory kernelEnd e then kernelEnd + 1 else start) := by
  induction front generalizing start with
  | nil => simp
  | cons entry front ih =>
    have hrest := fun e he => hfront e (List.mem_cons_of_mem entry he)
    rw [List.cons_append, findPlace, placeEntry_of_passed hzones (hfront entry List.mem_cons_self)]
    by_cases hkeeps : Keeps zonesMemory kernelEnd entry
    · rw [if_pos hkeeps, if_pos ⟨entry, List.mem_cons_self, hkeeps⟩]
      simp only
      rw [ih hrest, ite_self]
    · rw [if_neg hkeeps]
      simp only
      rw [ih hrest]
      congr 1
      simp only [List.exists_mem_cons_iff, hkeeps, false_or]

/-- The end of the search. -/
theorem findPlace_found (hzones : 0 < zonesMemory) (hlarge : Large zonesMemory entry)
    (hlow : Low zonesMemory entry) (hlt : kernelEnd < alignStart entry.GetAddress) :
    findPlace output zonesMemory kernelEnd (entry :: back) start
      = alignStart entry.GetAddress := by
  rw [findPlace, placeEntry_of_large hzones hlarge, if_neg (not_not.mpr hlow), if_pos hlt]

theorem findPlace_stop (hzones : 0 < zonesMemory)
    (hback : ∀ e ∈ back.head?, Large zonesMemory e ∧ ¬ Low zonesMemory e) :
    findPlace output zonesMemory kernelEnd back start = start := by
  cases back with
  | nil => rfl
  | cons entry back =>
    obtain ⟨hlarge, hlow⟩ := hback entry rfl
    rw [findPlace, placeEntry_of_large hzones hlarge, if_pos hlow]

/-- The entries up to the end of the search. -/
theorem exists_passed (zonesMemory kernelEnd : Nat) (entries : List MemoryEntry) :
    ∃ front back, entries = front ++ back ∧ (∀ e ∈ front, Passed zonesMemory kernelEnd e) ∧
      ∀ e ∈ back.head?, ¬ Passed zonesMemory kernelEnd e := by
  induction entries with
  | nil => exact ⟨[], [], rfl, nofun, nofun⟩
  | cons entry entries ih =>
    by_cases hpassed : Passed zonesMemory kernelEnd entry
    · obtain ⟨front, back, rfl, hfront, hback⟩ := ih
      refine ⟨entry :: front, back, rfl, ?_, hback⟩
      intro e he
      cases he with
      | head => exact hpassed
      | tail _ he => exact hfront e he
    · refine ⟨[], entry :: entries, rfl, nofun, ?_⟩
      intro e he
      rw [← Option.some.inj he]
      exact hpassed

end Search

/-! ## The place -/

/-- The table from an address on is in one usable entry, and in the first 12 MB. -/
structure RoomAt (memory : MemoryMap) (address : Nat) : Prop where
  usable : ∃ entry ∈ memory.entries, entry.GetType = .usable ∧ entry.GetAddress ≤ address ∧
    address + zonesMemory memory ≤ entry.finish
  mapped : address + zonesMemory memory ≤ 0xC00000

/-- If the kernel has a table, it has room there, above the end of the kernel. -/
def PlacedWell (memory : MemoryMap) (kernelEnd : UInt64) (k : Kernel) : Prop :=
  k.Zones ≠ 0 → RoomAt memory k.Zones ∧ kernelEnd.toNat < k.Zones

/-- Wherever the search of the place ends, there is room. -/
structure EndsWithRoom (memory : MemoryMap) (kernelEnd : Nat) : Prop where
  /-- at a large and low entry that starts behind the kernel; -/
  found : ∀ front entry back, memory.entries = front ++ entry :: back →
    (∀ e ∈ front, Passed (zonesMemory memory) kernelEnd e) → Large (zonesMemory memory) entry →
    Low (zonesMemory memory) entry → kernelEnd < alignStart entry.GetAddress →
    RoomAt memory (alignStart entry.GetAddress)
  /-- or at a large entry that is not low, or at the end, with an entry that has room
  right behind the kernel. -/
  behind : ∀ front back, memory.entries = front ++ back →
    (∀ e ∈ front, Passed (zonesMemory memory) kernelEnd e) →
    (∀ e ∈ back.head?, Large (zonesMemory memory) e ∧ ¬ Low (zonesMemory memory) e) →
    (∃ e ∈ front, Keeps (zonesMemory memory) kernelEnd e) → RoomAt memory (kernelEnd + 1)

section Place

variable {memory : MemoryMap} {kernelEnd : UInt64}

theorem zonesMemory_pos (hne : memory.entries ≠ []) : 0 < zonesMemory memory := by
  have hpos : 0 < memory.entries.length := List.length_pos_iff.mpr hne
  have hlength := memory.bounded
  have htotal : memory.GetTotalBytes < 2 ^ 64 := by
    unfold MemoryMap.GetTotalBytes
    split
    · decide
    · exact Nat.mod_lt _ (by decide)
  unfold zonesMemory MemoryMap.GetNumberOfEntries sizeofZone
  rw [Nat.mod_eq_of_lt (by omega)]
  omega

theorem Initialize_zones (memory : MemoryMap) (kernelEnd : UInt64) (output : Bool) (m : Memory) :
    (Initialize memory kernelEnd output (Kernel.boot m)).Zones
      = findPlace output (zonesMemory memory) (roundKernelEnd kernelEnd) memory.entries 0 := by
  unfold Initialize
  simp only
  split
  · rfl
  next hnone => exact (Nat.eq_zero_of_not_pos hnone).symm

end Place

/-- A machine with 64 GB. -/
def largeMap : MemoryMap where
  entries := [⟨0, 0x9F000, 0x01⟩, ⟨0x100000, 0xFFFF00000, 0x01⟩]
  bounded := by decide

end Xeos.Mem
