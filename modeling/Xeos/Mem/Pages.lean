import Xeos.Mem.Zone

/-!
# Allocation and release of pages

`XEOS_Mem_AllocPage`, `XEOS_Mem_AllocPages`, `XEOS_Mem_FreePage` and
`XEOS_Mem_FreePages`.  Each of them walks the list of the zones, so each is a relation
between the kernel before and after: the walk returns.  What it does in one zone is a
function on the memory.  The accesses to `pages[ ]` have no bound, in the source as
here: an index behind the pages of a zone is an address in what lies behind it.
-/

namespace Xeos.Mem

open Lib

/-! ## Atomic operations -/

/-- `System_Atomic_CompareAndSwap8`. -/
def CompareAndSwap8 (m : Memory) (oldValue newValue : UInt8) (a : Nat) : Bool × Memory :=
  if m a = oldValue then (true, m.set a newValue) else (false, m)

/-- `System_Atomic_Increment64`. -/
def Increment64 (m : Memory) (a : Nat) : Memory := m.store a 8 (m.load a 8 + 1)

/-- `System_Atomic_Decrement64`. -/
def Decrement64 (m : Memory) (a : Nat) : Memory := m.store a 8 (m.load a 8 + (2 ^ 64 - 1))

/-- `&( zone->freePageCount )`. -/
def freePageCountOf (zone : Nat) : Nat := zone + 40

/-! ## Allocation -/

/-- The loop over the pages of a zone in `XEOS_Mem_AllocPage`, from page `i` on. -/
def allocPageFrom (zone : Nat) : Nat → Nat → Nat → Memory → Option Nat × Memory
  | 0, _, _, m => (none, m)
  | left + 1, i, address, m =>
    let next := (address + 0x1000) % 2 ^ 64
    if m (ZoneGetPages zone + i) = 1 then
      match CompareAndSwap8 m 1 0 (ZoneGetPages zone + i) with
      | (true, m) => (some address, Decrement64 m (freePageCountOf zone))
      | (false, m) => allocPageFrom zone left (i + 1) next m
    else allocPageFrom zone left (i + 1) next m

/-- Mark `n` pages from page `i` on, and count them. -/
def markPages (zone i n : Nat) (m : Memory) : Memory :=
  forLoop (fun k m => Increment64 (m.set (ZoneGetPages zone + i + k) 0x01) (freePageCountOf zone))
    n m

/-- The loop that claims the pages from page `i` on, at the page `i + j`.  A page that
is not free ends it, and the pages claimed so far are given back. -/
def claimPages (zone i : Nat) : Nat → Nat → Bool → Memory → Bool × Memory
  | 0, _, hasPages, m => (hasPages, m)
  | left + 1, j, _, m =>
    match CompareAndSwap8 m 1 0 (ZoneGetPages zone + i + j) with
    | (false, m) => (false, markPages zone i j m)
    | (true, m) => claimPages zone i left (j + 1) true (Decrement64 m (freePageCountOf zone))

/-- The loop over the pages of a zone in `XEOS_Mem_AllocPages`, from page `i` on. -/
def allocPagesFrom (n zone : Nat) : Nat → Nat → Nat → Memory → Option Nat × Memory
  | 0, _, _, m => (none, m)
  | left + 1, i, address, m =>
    let next := (address + 0x1000) % 2 ^ 64
    if m (ZoneGetPages zone + i) = 1 then
      match claimPages zone i n 0 false m with
      | (true, m) => (some address, m)
      | (false, m) => allocPagesFrom n zone left (i + 1) next m
    else allocPagesFrom n zone left (i + 1) next m

/-- One zone of an allocation.  `loop` is the loop over its pages. -/
def visitAlloc (loop : Nat → Nat → Nat → Nat → Memory → Option Nat × Memory) (zone : Nat)
    (m : Memory) : Option Nat × Memory :=
  if ZoneGetType m zone ≠ MemoryEntryType.usable.code then (none, m)
  else if ZoneGetFreePageCount m zone = 0 then (none, m)
  else loop zone (ZoneGetPageCount m zone) 0 (ZoneGetAddress m zone) m

/-- The walk over the zones of the kernel returns `result`. -/
def WalkZones {ρ : Type} (visit : Nat → Memory → Option ρ × Memory) (k : Kernel)
    (result : Option ρ) (k' : Kernel) : Prop :=
  ∃ zone m', GetZoneAtIndex k 0 zone ∧
    Returns (walkStep ZoneGetNext visit) (zone, k.memory) (result, m') ∧
    k' = { k with memory := m' }

/-- `XEOS_Mem_AllocPage` returns `address`. -/
def AllocPage (k : Kernel) (address : Nat) (k' : Kernel) : Prop :=
  ∃ result, WalkZones (visitAlloc allocPageFrom) k result k' ∧ address = result.getD 0

/-- `XEOS_Mem_AllocPages` returns `address`. -/
def AllocPages (n : UInt32) (k : Kernel) (address : Nat) (k' : Kernel) : Prop :=
  ∃ result, WalkZones (visitAlloc (allocPagesFrom n.toNat)) k result k' ∧ address = result.getD 0

/-! ## Release -/

/-- `pageIndex`. -/
def pageIndexOf (page base : Nat) : Nat := (page + 2 ^ 64 - base) % 2 ^ 64 / 0x1000

/-- One zone of `XEOS_Mem_FreePage`. -/
def visitFreePage (page zone : Nat) (m : Memory) : Option Unit × Memory :=
  let base := ZoneGetAddress m zone
  if page > (base + ZoneGetLength m zone) % 2 ^ 64 then (none, m)
  else
    let m := m.set (ZoneGetPages zone + pageIndexOf page base) 0x01
    (some (), Increment64 m (freePageCountOf zone))

/-- One zone of `XEOS_Mem_FreePages`. -/
def visitFreePages (page n zone : Nat) (m : Memory) : Option Unit × Memory :=
  let base := ZoneGetAddress m zone
  if page > (base + ZoneGetLength m zone) % 2 ^ 64 then (none, m)
  else (some (), markPages zone (pageIndexOf page base) n m)

/-- `XEOS_Mem_FreePage`. -/
def FreePage (address : Nat) (k k' : Kernel) : Prop :=
  if address &&& 0xFFF ≠ 0 then k' = k
  else ∃ result, WalkZones (visitFreePage address) k result k'

/-- `XEOS_Mem_FreePages`. -/
def FreePages (address : Nat) (n : UInt32) (k k' : Kernel) : Prop :=
  if address &&& 0xFFF ≠ 0 then k' = k
  else ∃ result, WalkZones (visitFreePages address n.toNat) k result k'

end Xeos.Mem
