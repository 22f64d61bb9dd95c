import Xeos.Mem.Exclusive

/-!
# The page allocator on several processors

The functions of `Xeos.Mem.Pages` once more, cut into the steps between which another
processor may run.  A step has at most one access to a byte of `pages[ ]` or to a counter;
`System_Atomic_CompareAndSwap8`, `System_Atomic_Increment64` and
`System_Atomic_Decrement64` are one step each.  The other fields of a zone are not written
after the initialisation, so a step reads as many of them as it needs.

The blocks in use go along as in `Xeos.Mem.Exclusive`.  A block leaves the list when its
release is called, and enters it when its allocation returns.
-/

namespace Xeos.Mem

open Lib

/-! ## One processor -/

/-- One page, by the functions for one page, or `n` pages. -/
inductive Request where
  | page
  | pages (n : UInt32)
deriving DecidableEq

/-- How many pages it is about. -/
def Request.count : Request → UInt32
  | .page => 1
  | .pages n => n

/-- Where a processor is in a call, with the variables of the function. -/
inductive Cursor where
  /-- In no call. -/
  | idle
  /-- `while( zone != NULL )` of an allocation. -/
  | walk (r : Request) (zone : Nat)
  /-- The loop over the pages of a zone. -/
  | scan (r : Request) (zone i address : Nat)
  /-- The test and set of `XEOS_Mem_AllocPage`. -/
  | claimOne (zone i address : Nat)
  /-- `System_Atomic_Decrement64` of `XEOS_Mem_AllocPage`. -/
  | countOne (zone i address : Nat)
  /-- The loop that claims the pages, with its counter `j`. -/
  | claim (n : UInt32) (zone i address j : Nat) (hasPages : Bool)
  | count (n : UInt32) (zone i address j : Nat)
  /-- The loop that gives `j` claimed pages back, with its counter `k`. -/
  | undo (n : UInt32) (zone i address j k : Nat)
  | countUndo (n : UInt32) (zone i address j k : Nat)
  /-- `return address`. -/
  | granted (n : UInt32) (address : Nat)
  /-- `while( zone != NULL )` of a release. -/
  | find (r : Request) (page zone : Nat)
  /-- `zone->pages[ pageIndex ] = 0x01` of `XEOS_Mem_FreePage`. -/
  | releaseOne (zone pageIndex : Nat)
  | countReleaseOne (zone : Nat)
  /-- The loop of `XEOS_Mem_FreePages`. -/
  | release (n : UInt32) (zone pageIndex i : Nat)
  | countRelease (n : UInt32) (zone pageIndex i : Nat)

/-- `XEOS_Mem_GetZoneAtIndex( 0 )`. -/
def Kernel.firstZone (k : Kernel) : Nat := if k.ZoneCount = 0 then 0 else k.Zones

/-- The address of the next page. -/
def nextPage (address : Nat) : Nat := (address + 0x1000) % 2 ^ 64

/-- The start of a release. -/
def enterFree (r : Request) (k : Kernel) (address : Nat) : Cursor :=
  if address &&& 0xFFF ≠ 0 then .idle else .find r address k.firstZone

/-- The next step of a processor in a call. -/
def Cursor.step (m : Memory) : Cursor → Option (Cursor × Memory)
  | .idle => none
  | .walk r zone =>
    if zone = 0 then some (.idle, m)
    else if ZoneGetType m zone ≠ MemoryEntryType.usable.code then
      some (.walk r (ZoneGetNext m zone), m)
    else if ZoneGetFreePageCount m zone = 0 then some (.walk r (ZoneGetNext m zone), m)
    else some (.scan r zone 0 (ZoneGetAddress m zone), m)
  | .scan r zone i address =>
    if i < ZoneGetPageCount m zone then
      if m (ZoneGetPages zone + i) = 1 then
        match r with
        | .page => some (.claimOne zone i address, m)
        | .pages n => some (.claim n zone i address 0 false, m)
      else some (.scan r zone (i + 1) (nextPage address), m)
    else some (.walk r (ZoneGetNext m zone), m)
  | .claimOne zone i address =>
    match CompareAndSwap8 m 1 0 (ZoneGetPages zone + i) with
    | (true, m) => some (.countOne zone i address, m)
    | (false, m) => some (.scan .page zone (i + 1) (nextPage address), m)
  | .countOne zone _ address => some (.granted 1 address, Decrement64 m (freePageCountOf zone))
  | .claim n zone i address j hasPages =>
    if j < n.toNat then
      match CompareAndSwap8 m 1 0 (ZoneGetPages zone + i + j) with
      | (false, m) => some (.undo n zone i address j 0, m)
      | (true, m) => some (.count n zone i address j, m)
    else if hasPages = true then some (.granted n address, m)
    else some (.scan (.pages n) zone (i + 1) (nextPage address), m)
  | .count n zone i address j =>
    some (.claim n zone i address (j + 1) true, Decrement64 m (freePageCountOf zone))
  | .undo n zone i address j k =>
    if k < j then
      some (.countUndo n zone i address j k, m.set (ZoneGetPages zone + i + k) 0x01)
    else some (.scan (.pages n) zone (i + 1) (nextPage address), m)
  | .countUndo n zone i address j k =>
    some (.undo n zone i address j (k + 1), Increment64 m (freePageCountOf zone))
  | .granted _ _ => none
  | .find r page zone =>
    let base := ZoneGetAddress m zone
    if zone = 0 then some (.idle, m)
    else if page > (base + ZoneGetLength m zone) % 2 ^ 64 then
      some (.find r page (ZoneGetNext m zone), m)
    else
      match r with
      | .page => some (.releaseOne zone (pageIndexOf page base), m)
      | .pages n => some (.release n zone (pageIndexOf page base) 0, m)
  | .releaseOne zone pageIndex =>
    some (.countReleaseOne zone, m.set (ZoneGetPages zone + pageIndex) 0x01)
  | .countReleaseOne zone => some (.idle, Increment64 m (freePageCountOf zone))
  | .release n zone pageIndex i =>
    if i < n.toNat then
      some (.countRelease n zone pageIndex i, m.set (ZoneGetPages zone + pageIndex + i) 0x01)
    else some (.idle, m)
  | .countRelease n zone pageIndex i =>
    some (.release n zone pageIndex (i + 1), Increment64 m (freePageCountOf zone))

/-! ## All processors -/

/-- The kernel, the processors and the blocks in use. -/
structure Processors (ι : Type) where
  kernel : Kernel
  cursor : ι → Cursor
  live : List Block

/-- No processor is in a call. -/
def Processors.start (ι : Type) (k : Kernel) : Processors ι := ⟨k, fun _ => .idle, []⟩

section

variable {ι : Type} [DecidableEq ι]

/-- The processor `i` goes to a cursor. -/
def Processors.move (s : Processors ι) (i : ι) (c : Cursor) : Processors ι :=
  { s with cursor := Function.update s.cursor i c }

/-- One step of a processor.  A release names a block in use by its address and its count, at
an address that the release gets right. -/
inductive Turn : Processors ι → Processors ι → Prop
  | alloc {s : Processors ι} {i : ι} (r : Request) (hidle : s.cursor i = .idle) :
      Turn s (s.move i (.walk r s.kernel.firstZone))
  | free {s : Processors ι} {i : ι} (r : Request) {b : Block} (hidle : s.cursor i = .idle)
      (hlive : b ∈ s.live) (hcount : b.count = r.count) (hclean : s.kernel.Releases b.address) :
      Turn s { s.move i (enterFree r s.kernel b.address) with live := s.live.erase b }
  | instr {s : Processors ι} {i : ι} {c : Cursor} {m : Memory}
      (hstep : (s.cursor i).step s.kernel.memory = some (c, m)) :
      Turn s { s.move i c with kernel := { s.kernel with memory := m } }
  | ret {s : Processors ι} {i : ι} {n : UInt32} {address : Nat}
      (hgranted : s.cursor i = .granted n address) :
      Turn s { s.move i .idle with live := grant address n s.live }

/-- Any number of steps, in any order of the processors. -/
def Interleaved (s s' : Processors ι) : Prop := Relation.ReflTransGen Turn s s'

end

end Xeos.Mem
