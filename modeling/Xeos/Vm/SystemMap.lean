import Xeos.Lib.Loop
import Xeos.Mem.Zone
import Xeos.Vm.Entry

/-!
# The system map

`XEOS_VM_SystemMapInitialize`.  It chooses the paging mode, counts the tables that it
needs for the memory, allocates their pages as one block, and fills them in order: the
page tables, then the page directory tables, and so on.  The output on the console is
left out, and so is the check that the map is not initialised yet.

The list of the zones is walked for every page; here it is a list of their data.  The
pages of the block are apart from the zone structures, so that it does not change.
-/

namespace Xeos.Vm

open Lib
open Xeos.Mem (MemoryEntryType)

/-! ## Counts -/

/-- `XEOS_VM_MemoryMapType`. -/
inductive MemoryMapType where
  | type32
  | type32PAE
  | type64
deriving DecidableEq, Repr

/-- The type of the map, and what is left of PAE: it is disabled for less than 4 GB. -/
def chooseType (t : Target) (totalMemoryBytes : Nat) : MemoryMapType × Target :=
  if t.lp64 then (.type64, t)
  else if t.paeEnabled then
    if totalMemoryBytes < 0x100000000 then (.type32, { t with paeEnabled := false })
    else (.type32PAE, t)
  else (.type32, t)

/-- The number of tables of each kind. -/
structure Counts where
  ptCount : Nat
  pdtCount : Nat
  pdptCount : Nat
  pml4tCount : Nat
deriving DecidableEq, Repr

/-- `ptEntriesCount`. -/
def ptEntriesCount (totalMemoryBytes : Nat) : Nat :=
  totalMemoryBytes / 0x1000 + (if totalMemoryBytes % 0x1000 = 0 then 0 else 1)

/-- `ptEntriesPerPT`. -/
def ptEntriesPerPT (type : MemoryMapType) : Nat := if type = .type32 then 0x400 else 0x200

/-- `ptCount`. -/
def ptCountOf (type : MemoryMapType) (totalMemoryBytes : Nat) : Nat :=
  let ptEntriesCount := ptEntriesCount totalMemoryBytes
  ptEntriesCount / ptEntriesPerPT type
    + (if ptEntriesCount % ptEntriesPerPT type = 0 then 0 else 1)

/-- The tables for `n` tables of the level below. -/
def upperCount (n : Nat) : Nat :=
  if n > 0x200 then
    let count := n / 0x200
    let count := if count = 0 then 1 else count
    count + (if n % 0x200 = 0 then 0 else 1)
  else 1

def counts (type : MemoryMapType) (totalMemoryBytes : Nat) : Counts :=
  let ptCount := ptCountOf type totalMemoryBytes
  match type with
  | .type32 => ⟨ptCount, 1, 0, 0⟩
  | .type32PAE => ⟨ptCount, upperCount ptCount, 1, 0⟩
  | .type64 => ⟨ptCount, upperCount ptCount, upperCount (upperCount ptCount), 1⟩

/-- The number of all tables. -/
def Counts.total (c : Counts) : Nat := c.ptCount + c.pdtCount + c.pdptCount + c.pml4tCount

/-- `mapMemory`. -/
def mapMemory (c : Counts) : Nat :=
  c.ptCount * 0x1000 + c.pdtCount * 0x1000 + c.pdptCount * 0x1000 + c.pml4tCount * 0x1000

/-! ## Tables -/

/-- What is read of a zone. -/
structure Zone where
  type : MemoryEntryType
  address : Nat
  length : Nat
deriving DecidableEq

/-- The memory and the running pointer `p`.  `tables` are the tables that have been
cleared, in order. -/
structure Fill where
  memory : Memory
  p : Nat
  tables : List Nat

section Tables

variable (t : Target)

/-- One zone for the entry of an address.  `mapEnd` is `systemMapAddress + mapMemory`. -/
def visitZone (mapEnd ptEntry address : Nat) (zone : Zone) : Bool × Memory → Bool × Memory
  | (addressFound, m) =>
    if address ≥ zone.address ∧ address - zone.address < zone.length then
      let m :=
        if zone.type = .usable then PTEntrySetFlag t ptEntry flagWriteable true m else m
      let m := if address < mapEnd then PTEntrySetFlag t ptEntry flagPresent true m else m
      (true, m)
    else (addressFound, m)

/-- One entry of a page table. -/
def initPTEntry (totalMemoryBytes mapEnd : Nat) (zones : List Zone) (pt j : Nat) :
    Nat × Memory → Nat × Memory
  | (address, m) =>
    let ptEntry := PTGetEntryAtIndex t pt j
    if address ≥ totalMemoryBytes then (address, m)
    else
      let m := PTEntrySetAddress t ptEntry address m
      let (addressFound, m) :=
        zones.foldl (fun s zone => visitZone t mapEnd ptEntry address zone s) (false, m)
      let m := if addressFound = false then PTEntrySetFlag t ptEntry flagPresent true m else m
      ((address + 0x1000) % 2 ^ 64, m)

/-- One page table. -/
def initPT (totalMemoryBytes mapEnd : Nat) (zones : List Zone) (perPT : Nat) (_i : Nat) :
    Nat × Fill → Nat × Fill
  | (address, s) =>
    let pt := s.p
    let m := PTClear pt s.memory
    let entries := forLoop (initPTEntry t totalMemoryBytes mapEnd zones pt) perPT (address, m)
    (entries.1, ⟨entries.2, t.pointerAdd pt 0x1000, s.tables ++ [pt]⟩)

/-- One entry of a page directory table. -/
def initPDTEntry (pdt j : Nat) : Nat × Memory → Nat × Memory
  | (pt, m) =>
    let pdtEntry := PDTGetEntryAtIndex t pdt j
    let m := PDTEntrySetPT t pdtEntry pt m
    let m := PDTEntrySetFlag t pdtEntry flagPresent true m
    let m := PDTEntrySetFlag t pdtEntry flagWriteable true m
    (t.pointerAdd pt 0x1000, m)

/-- One entry of a page directory pointer table. -/
def initPDPTEntry (type : MemoryMapType) (pdpt j : Nat) : Nat × Memory → Nat × Memory
  | (pdt, m) =>
    let pdptEntry := PDPTGetEntryAtIndex t pdpt j
    let m := PDPTEntrySetPDT t pdptEntry pdt m
    let m := PDPTEntrySetFlag t pdptEntry flagPresent true m
    let m := if type = .type64 then PDPTEntrySetFlag t pdptEntry flagWriteable true m else m
    (t.pointerAdd pdt 0x1000, m)

/-- One entry of a page-map level-4 table. -/
def initPML4TEntry (pml4t j : Nat) : Nat × Memory → Nat × Memory
  | (pdpt, m) =>
    let pml4tEntry := PML4TGetEntryAtIndex pml4t j
    let m := PML4TEntrySetPDPT t pml4tEntry pdpt m
    let m := PML4TEntrySetFlag t pml4tEntry flagPresent true m
    let m := PML4TEntrySetFlag t pml4tEntry flagWriteable true m
    (t.pointerAdd pdpt 0x1000, m)

/-- One table above the page tables, with entries for `childCount` tables of the level
below.  The loop over the entries stops behind the last one. -/
def initTable (clear : Nat → Memory → Memory) (initEntry : Nat → Nat → Nat × Memory → Nat × Memory)
    (perPT childCount i : Nat) : Nat × Fill → Nat × Fill
  | (child, s) =>
    let table := s.p
    let m := clear table s.memory
    let entries :=
      forBreak (fun j => decide (i * perPT + j ≥ childCount)) (initEntry table) 0 perPT (child, m)
    (entries.1, ⟨entries.2, t.pointerAdd table 0x1000, s.tables ++ [table]⟩)

/-- The page tables. -/
def initPTs (totalMemoryBytes mapEnd : Nat) (zones : List Zone) (perPT : Nat) (c : Counts) :
    Nat × Fill → Nat × Fill :=
  forLoop (initPT t totalMemoryBytes mapEnd zones perPT) c.ptCount

/-- The page directory tables. -/
def initPDTs (perPT : Nat) (c : Counts) : Nat × Fill → Nat × Fill :=
  forLoop (initTable t PDTClear (initPDTEntry t) perPT c.ptCount) c.pdtCount

/-- The page directory pointer tables. -/
def initPDPTs (type : MemoryMapType) (perPT : Nat) (c : Counts) : Nat × Fill → Nat × Fill :=
  forLoop (initTable t PDPTClear (initPDPTEntry t type) perPT c.pdtCount) c.pdptCount

/-- The page-map level-4 tables. -/
def initPML4Ts (perPT : Nat) (c : Counts) : Nat × Fill → Nat × Fill :=
  forLoop (initTable t PML4TClear (initPML4TEntry t) perPT c.pdptCount) c.pml4tCount

/-- The tables of a map at an address, and the value of `CR3`. -/
def initTables (type : MemoryMapType) (totalMemoryBytes : Nat) (zones : List Zone)
    (systemMapAddress : Nat) (m : Memory) : Nat × Fill :=
  let c := counts type totalMemoryBytes
  let perPT := ptEntriesPerPT type
  let mapEnd := (systemMapAddress + mapMemory c) % 2 ^ 64
  let pts := initPTs t totalMemoryBytes mapEnd zones perPT c (0, ⟨m, systemMapAddress, []⟩)
  let pdts := initPDTs t perPT c (systemMapAddress, pts.2)
  match type with
  | .type32 => (pdts.1 % 2 ^ 32, pdts.2)
  | .type32PAE =>
    let pdpts := initPDPTs t type perPT c pdts
    (pdpts.1 % 2 ^ 32, pdpts.2)
  | .type64 =>
    let pml4ts := initPML4Ts t perPT c (initPDPTs t type perPT c pdts)
    (pml4ts.1 % 2 ^ 32, pml4ts.2)

end Tables

/-! ## The initialisation -/

/-- `XEOS_Mem_GetTotalBytes`. -/
def GetTotalBytes (zones : List Zone) : Nat :=
  zones.foldl (fun bytes zone => (bytes + zone.length) % 2 ^ 64) 0

/-- What the initialisation leaves: the type and the counts of the map, and its tables. -/
structure SystemMap where
  type : MemoryMapType
  target : Target
  counts : Counts
  base : Nat
  cr3 : Nat
  fill : Fill

/-- `XEOS_VM_SystemMapInitialize`.  `allocPages` is the result of `XEOS_Mem_AllocPages`,
for the number of pages that it is asked for. -/
def SystemMapInitialize (t : Target) (zones : List Zone) (allocPages : Nat → Nat) (m : Memory) :
    Option SystemMap :=
  let totalMemoryBytes := GetTotalBytes zones
  let type := (chooseType t totalMemoryBytes).1
  let t := (chooseType t totalMemoryBytes).2
  let c := counts type totalMemoryBytes
  let systemMapAddress := allocPages (mapMemory c / 0x1000 % 2 ^ 32)
  if systemMapAddress > 0 then
    let tables := initTables t type totalMemoryBytes zones systemMapAddress m
    some ⟨type, t, c, systemMapAddress, tables.1, tables.2⟩
  else none

end Xeos.Vm
