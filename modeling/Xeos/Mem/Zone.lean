import Xeos.Lib.LinkedList
import Xeos.Lib.Memory

/-!
# The memory map and the memory zones

The bootloader leaves a map of the physical memory, a list of entries.  The kernel
keeps one zone for each of them: a structure in memory with a byte for every page,
linked to the next zone.  The layout of the structure is that of a 64-bit target.
A pointer is an address of the flat memory, and a field is a word at an offset.
-/

namespace Xeos.Mem

open Lib

/-! ## The memory map -/

/-- `struct __XEOS_Info_MemoryEntry`. -/
structure MemoryEntry where
  address : UInt64
  length : UInt64
  type : UInt32
deriving DecidableEq

/-- `XEOS_Info_MemoryEntryType`, which is also `XEOS_Mem_ZoneType`. -/
inductive MemoryEntryType where
  | unknown
  | usable
  | reserved
  | acpiReclaimable
  | acpiNVS
  | bad
deriving DecidableEq, Repr

/-- The constant of a type. -/
def MemoryEntryType.code : MemoryEntryType → Nat
  | .unknown => 0x00
  | .usable => 0x01
  | .reserved => 0x02
  | .acpiReclaimable => 0x03
  | .acpiNVS => 0x04
  | .bad => 0x05

/-- `XEOS_Info_MemoryEntryGetType`. -/
def MemoryEntry.GetType (entry : MemoryEntry) : MemoryEntryType :=
  if entry.type = 0x01 then .usable
  else if entry.type = 0x02 then .reserved
  else if entry.type = 0x03 then .acpiReclaimable
  else if entry.type = 0x04 then .acpiNVS
  else if entry.type = 0x05 then .bad
  else .unknown

/-- `XEOS_Info_MemoryEntryGetAddress`. -/
def MemoryEntry.GetAddress (entry : MemoryEntry) : Nat := entry.address.toNat

/-- `XEOS_Info_MemoryEntryGetLength`. -/
def MemoryEntry.GetLength (entry : MemoryEntry) : Nat := entry.length.toNat

/-- `struct __XEOS_Info_Memory`: the entries, in an area whose size in bytes is a
32-bit word.  An entry takes 20 bytes. -/
structure MemoryMap where
  entries : List MemoryEntry
  bounded : entries.length * 20 < 2 ^ 32

/-- `XEOS_Info_MemoryGetNumberOfEntries`. -/
def MemoryMap.GetNumberOfEntries (memory : MemoryMap) : Nat := memory.entries.length

/-- `XEOS_Info_MemoryGetTotalBytes`: the end of the last entry. -/
def MemoryMap.GetTotalBytes (memory : MemoryMap) : Nat :=
  match memory.entries.getLast? with
  | none => 0
  | some entry => (entry.GetAddress + entry.GetLength) % 2 ^ 64

/-! ## The zones -/

/-- `sizeof( struct __XEOS_Mem_Zone )`. -/
def sizeofZone : Nat := 48

def ZoneGetType (m : Memory) (zone : Nat) : Nat := m.load (zone + 4) 4

/-- `zone->base`. -/
def ZoneGetAddress (m : Memory) (zone : Nat) : Nat := m.load (zone + 8) 8

def ZoneGetLength (m : Memory) (zone : Nat) : Nat := m.load (zone + 16) 8

def ZoneGetNext (m : Memory) (zone : Nat) : Nat := m.load (zone + 24) 8

def ZoneGetPageCount (m : Memory) (zone : Nat) : Nat := m.load (zone + 32) 8

def ZoneGetFreePageCount (m : Memory) (zone : Nat) : Nat := m.load (zone + 40) 8

/-- `zone->pages`. -/
def ZoneGetPages (zone : Nat) : Nat := zone + 48

/-- The kernel's memory, with `__XEOS_Mem_Zones` and `__XEOS_Mem_ZoneCount`. -/
structure Kernel where
  memory : Memory
  Zones : Nat
  ZoneCount : Nat

/-- The state before `XEOS_Mem_Initialize`. -/
def Kernel.boot (m : Memory) : Kernel := ⟨m, 0, 0⟩

/-- The zone is in the list of the kernel. -/
def Kernel.HasZone (k : Kernel) (zone : Nat) : Prop := Reaches (ZoneGetNext k.memory) k.Zones zone

/-- One round of `XEOS_Mem_GetZoneAtIndex`. -/
def stepGetZoneAtIndex (m : Memory) : Nat × Nat → (Nat × Nat) ⊕ Nat
  | (zone, index) =>
    if zone = 0 then .inr 0
    else if index = 0 then .inr zone
    else .inl (ZoneGetNext m zone, index - 1)

/-- `XEOS_Mem_GetZoneAtIndex` returns `zone`. -/
def GetZoneAtIndex (k : Kernel) (index zone : Nat) : Prop :=
  if index ≥ k.ZoneCount then zone = 0
  else Returns (stepGetZoneAtIndex k.memory) (k.Zones, index) zone

end Xeos.Mem
