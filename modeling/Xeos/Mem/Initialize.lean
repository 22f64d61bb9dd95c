import Xeos.Mem.Zone

/-!
# The initialisation of the memory zones

`XEOS_Mem_Initialize` works in two passes over the memory map.  The first one looks
for a place for the zone structures, and the second one writes them there.  The
output on the console is left out, but not what depends on it: with an output
handler the first pass skips the empty entries.
-/

namespace Xeos.Mem

open Lib

/-! ## The place of the zones -/

/-- The memory that the zones need. -/
def zonesMemory (memory : MemoryMap) : Nat :=
  (memory.GetNumberOfEntries * sizeofZone + memory.GetTotalBytes / 0x1000) % 2 ^ 64

/-- The last byte of the last page of the kernel. -/
def roundKernelEnd (kernelEnd : UInt64) : Nat :=
  ((kernelEnd.toNat &&& (2 ^ 64 - 1 - 0x0FFF)) + 0x1000 + (2 ^ 64 - 1)) % 2 ^ 64

/-- The start of an entry, aligned on 4 KB. -/
def alignStart (memoryStart : Nat) : Nat :=
  if memoryStart &&& 0xFFF ≠ 0 then
    ((memoryStart &&& (2 ^ 64 - 1 - 0x0FFF)) + 0x1000) % 2 ^ 64
  else memoryStart

/-- What the first pass makes of an entry. -/
inductive Place where
  /-- `continue`, or the end of the round. -/
  | skip
  /-- `break`. -/
  | stop
  /-- A suitable place, behind the kernel. -/
  | found (zonesAddress : Nat)
  /-- A suitable place right behind the kernel, which a later entry may replace. -/
  | behind (zonesAddress : Nat)
deriving DecidableEq, Repr

/-- One round of the first pass. -/
def placeEntry (output : Bool) (zonesMemory kernelEnd : Nat) (entry : MemoryEntry) : Place :=
  let memoryLength := entry.GetLength
  let memoryStart := entry.GetAddress
  let memoryEnd := (memoryStart + memoryLength + (2 ^ 64 - 1)) % 2 ^ 64
  if output = true ∧ memoryLength = 0 then .skip
  else if entry.GetType ≠ .usable then .skip
  else
    let memoryStart := alignStart memoryStart
    if memoryLength < zonesMemory then .skip
    else if memoryStart ≥ 0x300000000 ∨ (memoryStart + zonesMemory) % 2 ^ 64 ≥ 0x300000000 then .stop
    else if memoryStart > kernelEnd then .found memoryStart
    else if memoryEnd > kernelEnd ∧ memoryEnd - kernelEnd ≥ zonesMemory then
      .behind (kernelEnd + 1)
    else .skip

/-- The first pass, with the place found so far. -/
def findPlace (output : Bool) (zonesMemory kernelEnd : Nat) : List MemoryEntry → Nat → Nat
  | [], zonesAddress => zonesAddress
  | entry :: entries, zonesAddress =>
    match placeEntry output zonesMemory kernelEnd entry with
    | .skip => findPlace output zonesMemory kernelEnd entries zonesAddress
    | .stop => zonesAddress
    | .found address => address
    | .behind address => findPlace output zonesMemory kernelEnd entries address

/-! ## The zone structures -/

/-- The variables of the second pass. -/
structure ZoneLoop where
  memory : Memory
  zonesAddress : Nat
  previousZone : Nat
  ZoneCount : Nat

/-- One round over the pages of a zone.  `bound` is `zonesAddress + zonesMemory`. -/
def initPage (type : MemoryEntryType) (bound zone : Nat) (j : Nat) :
    Nat × Memory → Nat × Memory
  | (pageAddress, m) =>
    ((pageAddress + 0x1000) % 2 ^ 64,
      if type = .usable ∧ pageAddress ≥ bound then
        let m := m.set (ZoneGetPages zone + j) 0x01
        m.store (zone + 40) 8 (ZoneGetFreePageCount m zone + 1)
      else m)

/-- The pages of a zone, if it gets any. -/
def initPages (zonesMemory : Nat) (entry : MemoryEntry) (zone : Nat) (m : Memory) : Memory :=
  if entry.GetLength > 0x1000 then
    let m := m.store (zone + 32) 8 (entry.GetLength / 0x1000)
    (forLoop (initPage entry.GetType ((zone + zonesMemory) % 2 ^ 64) zone)
      (ZoneGetPageCount m zone) (ZoneGetAddress m zone, m)).2
  else m

/-- One round of the second pass. -/
def initZone (zonesMemory : Nat) (entry : MemoryEntry) (s : ZoneLoop) : ZoneLoop :=
  let memoryLength := entry.GetLength
  let memoryStart := entry.GetAddress
  let zone := s.zonesAddress
  let m := s.memory
  let m := if s.previousZone ≠ 0 then m.store (s.previousZone + 24) 8 zone else m
  let m := m.store (zone + 8) 8 memoryStart
  let m := m.store (zone + 4) 4 entry.GetType.code
  let m := m.store (zone + 16) 8 memoryLength
  let m := initPages zonesMemory entry zone m
  { memory := m
    zonesAddress := (zone + sizeofZone + ZoneGetPageCount m zone) % 2 ^ 64
    previousZone := zone
    ZoneCount := (s.ZoneCount + 1) % 2 ^ 32 }

/-- The second pass. -/
def initZones (zonesMemory : Nat) (entries : List MemoryEntry) (s : ZoneLoop) : ZoneLoop :=
  entries.foldl (fun s entry => initZone zonesMemory entry s) s

/-- `XEOS_Mem_Initialize`.  `output` says whether there is an output handler. -/
def Initialize (memory : MemoryMap) (kernelEnd : UInt64) (output : Bool) (k : Kernel) : Kernel :=
  let zonesMemory := zonesMemory memory
  let zonesAddress := findPlace output zonesMemory (roundKernelEnd kernelEnd) memory.entries 0
  if zonesAddress > 0 then
    let m := k.memory.fill zonesAddress zonesMemory 0
    let s := initZones zonesMemory memory.entries ⟨m, zonesAddress, 0, 0⟩
    ⟨s.memory, zonesAddress, s.ZoneCount⟩
  else k

end Xeos.Mem
