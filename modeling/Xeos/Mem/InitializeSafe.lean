import Xeos.Lib.Bits
import Xeos.Mem.Table

/-!
# What the initialisation hands out

The pages that `XEOS_Mem_Initialize` marks free are apart from the kernel and from
the zone structures, for every memory map with entries in order.

The bound that the second pass compares with moves up with every zone that is
written, so it never falls below the end of the table; `tableSize_le` says that the
table fits in the memory reserved for it, and `findPlace_spec` that this memory is
behind the kernel.
-/

namespace Xeos.Mem

open Lib

/-! ## Memory maps in order -/

/-- The address behind an entry. -/
def MemoryEntry.finish (entry : MemoryEntry) : Nat := entry.GetAddress + entry.GetLength

/-- The entries are sorted by address and do not overlap. -/
def MemoryMap.Ordered (memory : MemoryMap) : Prop :=
  memory.entries.Pairwise fun entry entry' => entry.finish ≤ entry'.GetAddress

/-- The end of an entry is an address. -/
def MemoryMap.Fits (memory : MemoryMap) : Prop :=
  ∀ entry ∈ memory.entries, entry.finish < 2 ^ 64

/-- The end of an entry fits in 64 bits, also with the size of the zones added. -/
def MemoryMap.NoWrap (memory : MemoryMap) : Prop :=
  ∀ entry ∈ memory.entries, entry.finish
    + (memory.GetNumberOfEntries * sizeofZone + entry.finish / 0x1000) < 2 ^ 64

theorem pagesOf_le (entry : MemoryEntry) : 0x1000 * pagesOf entry ≤ entry.GetLength := by
  unfold pagesOf
  split <;> omega

/-- The pages of entries in order fit below the end of the last one. -/
theorem tableSize_le_finish {low : Nat} {entries : List MemoryEntry} {last : MemoryEntry}
    (hordered : entries.Pairwise fun entry entry' => entry.finish ≤ entry'.GetAddress)
    (hlow : ∀ entry ∈ entries, low ≤ entry.GetAddress) (hlast : entries.getLast? = some last) :
    ∃ pages, tableSize entries = 48 * entries.length + pages ∧
      low + 0x1000 * pages ≤ last.finish := by
  induction entries generalizing low with
  | nil => cases hlast
  | cons entry entries ih =>
    have hpages := pagesOf_le entry
    have hstart := hlow entry List.mem_cons_self
    cases entries with
    | nil =>
      rw [List.getLast?_singleton] at hlast
      rw [← Option.some.inj hlast]
      refine ⟨pagesOf entry, ?_, ?_⟩
      · simp only [tableSize_cons, tableSize_nil, List.length_cons, List.length_nil]
        omega
      · unfold MemoryEntry.finish
        omega
    | cons entry' entries =>
      rw [List.getLast?_cons_cons] at hlast
      obtain ⟨hhead, htail⟩ := List.pairwise_cons.mp hordered
      obtain ⟨pages, hsize, hle⟩ := ih htail hhead hlast
      refine ⟨pagesOf entry + pages, ?_, ?_⟩
      · rw [tableSize_cons, hsize]
        simp only [List.length_cons]
        omega
      · unfold MemoryEntry.finish at hle ⊢
        omega

theorem finish_le_last {entries : List MemoryEntry} {last entry : MemoryEntry}
    (hordered : entries.Pairwise fun entry entry' => entry.finish ≤ entry'.GetAddress)
    (hlast : entries.getLast? = some last) (hentry : entry ∈ entries) :
    entry.finish ≤ last.finish := by
  induction entries with
  | nil => cases hentry
  | cons first entries ih =>
    obtain ⟨hhead, htail⟩ := List.pairwise_cons.mp hordered
    cases entries with
    | nil =>
      rw [List.getLast?_singleton] at hlast
      cases hlast
      rw [List.mem_singleton.mp hentry]
    | cons second entries =>
      rw [List.getLast?_cons_cons] at hlast
      cases hentry with
      | head =>
        have hsecond := ih htail hlast
        have hle := hhead last (List.mem_of_getLast? hlast)
        unfold MemoryEntry.finish at hle ⊢
        omega
      | tail _ hentry => exact ih htail hlast hentry

section Map

variable {memory : MemoryMap}

theorem MemoryMap.NoWrap.fits (hwrap : memory.NoWrap) : memory.Fits := by
  intro entry hentry
  have hlt := hwrap entry hentry
  omega

/-- The size of the zones, from the end of the last entry. -/
theorem zonesMemory_eq (hfits : memory.Fits) {last : MemoryEntry}
    (hlast : memory.entries.getLast? = some last) :
    zonesMemory memory = memory.entries.length * 48 + last.finish / 0x1000 := by
  have hfinish := hfits last (List.mem_of_getLast? hlast)
  have hlength := memory.bounded
  have htotal : memory.GetTotalBytes = last.finish := by
    unfold MemoryMap.GetTotalBytes
    rw [hlast]
    exact Nat.mod_eq_of_lt hfinish
  unfold zonesMemory MemoryMap.GetNumberOfEntries sizeofZone
  rw [htotal]
  exact Nat.mod_eq_of_lt (by omega)

/-- The zones fit in the memory that is reserved for them, which is small. -/
theorem tableSize_le (hordered : memory.Ordered) (hfits : memory.Fits)
    (hne : memory.entries ≠ []) :
    tableSize memory.entries ≤ zonesMemory memory ∧ 0 < zonesMemory memory ∧
    zonesMemory memory < 2 ^ 63 := by
  have hlast := List.getLast?_eq_some_getLast hne
  generalize memory.entries.getLast hne = last at hlast
  obtain ⟨pages, hsize, hle⟩ := tableSize_le_finish hordered (fun _ _ => Nat.zero_le _) hlast
  have hfinish := hfits last (List.mem_of_getLast? hlast)
  have hzones := zonesMemory_eq hfits hlast
  have hpos : 0 < memory.entries.length := List.length_pos_iff.mpr hne
  have hlength := memory.bounded
  omega

/-- With room for the zones behind every entry. -/
theorem finish_add_zonesMemory_lt (hordered : memory.Ordered) (hwrap : memory.NoWrap)
    {entry : MemoryEntry} (hentry : entry ∈ memory.entries) :
    entry.finish + zonesMemory memory < 2 ^ 64 := by
  have hlast := List.getLast?_eq_some_getLast (List.ne_nil_of_mem hentry)
  generalize memory.entries.getLast (List.ne_nil_of_mem hentry) = last at hlast
  have hlt := hwrap last (List.mem_of_getLast? hlast)
  have hle := finish_le_last hordered hlast hentry
  have hzones := zonesMemory_eq hwrap.fits hlast
  simp only [MemoryMap.GetNumberOfEntries, sizeofZone] at hlt
  omega

end Map

/-! ## The place -/

theorem roundKernelEnd_eq (kernelEnd : UInt64) :
    roundKernelEnd kernelEnd = kernelEnd.toNat / 0x1000 * 0x1000 + 0xFFF := by
  have hlt := kernelEnd.toNat_lt
  have hmask : kernelEnd.toNat &&& (2 ^ 64 - 1 - 0x0FFF) = kernelEnd.toNat / 2 ^ 12 * 2 ^ 12 :=
    and_high_mask (k := 12) (w := 64) hlt (by omega)
  unfold roundKernelEnd
  rw [hmask]
  omega

theorem le_roundKernelEnd (kernelEnd : UInt64) : kernelEnd.toNat ≤ roundKernelEnd kernelEnd := by
  rw [roundKernelEnd_eq]
  omega

/-- A place behind the kernel, with room for the zones and more below 2^64. -/
structure Behind (zonesMemory more kernelEnd place : Nat) : Prop where
  behind : kernelEnd < place
  room : place + zonesMemory + more < 2 ^ 64

theorem placeEntry_spec {output : Bool} {zonesMemory more kernelEnd place : Nat} {entry : MemoryEntry}
    (hzones : 0 < zonesMemory) (hsmall : zonesMemory < 2 ^ 63) (hmore : more < 2 ^ 63)
    (hentry : entry.finish + more < 2 ^ 64)
    (hplace : placeEntry output zonesMemory kernelEnd entry = .found place ∨
      placeEntry output zonesMemory kernelEnd entry = .behind place) :
    Behind zonesMemory more kernelEnd place := by
  unfold MemoryEntry.finish at hentry
  unfold placeEntry at hplace
  simp only at hplace
  split at hplace
  · cases hplace <;> contradiction
  split at hplace
  · cases hplace <;> contradiction
  split at hplace
  · cases hplace <;> contradiction
  next hlength =>
  split at hplace
  · cases hplace <;> contradiction
  next hlow =>
  split at hplace
  · next hfound =>
    cases hplace with
    | inl heq =>
      cases heq
      exact ⟨hfound, by omega⟩
    | inr heq => cases heq
  split at hplace
  · next hbehind =>
    cases hplace with
    | inl heq => cases heq
    | inr heq =>
      cases heq
      exact ⟨Nat.lt_succ_self _, by omega⟩
  · cases hplace <;> contradiction

/-- The first pass ends with no place, or with one behind the kernel. -/
theorem findPlace_spec {output : Bool} {zonesMemory more kernelEnd start : Nat}
    {entries : List MemoryEntry} (hzones : 0 < zonesMemory) (hsmall : zonesMemory < 2 ^ 63) (hmore : more < 2 ^ 63)
    (hentries : ∀ entry ∈ entries, entry.finish + more < 2 ^ 64)
    (hstart : start ≠ 0 → Behind zonesMemory more kernelEnd start)
    (hplace : findPlace output zonesMemory kernelEnd entries start ≠ 0) :
    Behind zonesMemory more kernelEnd (findPlace output zonesMemory kernelEnd entries start) := by
  induction entries generalizing start with
  | nil => exact hstart hplace
  | cons entry entries ih =>
    have hhead := hentries entry List.mem_cons_self
    have htail : ∀ e ∈ entries, e.finish + more < 2 ^ 64 :=
      fun e he => hentries e (List.mem_cons_of_mem entry he)
    unfold findPlace at hplace ⊢
    cases hround : placeEntry output zonesMemory kernelEnd entry with
    | skip =>
      simp only [hround] at hplace ⊢
      exact ih htail hstart hplace
    | stop =>
      simp only [hround] at hplace ⊢
      exact hstart hplace
    | found place =>
      simp only
      exact placeEntry_spec hzones hsmall hmore hhead (.inl hround)
    | behind place =>
      simp only [hround] at hplace ⊢
      exact ih htail (fun _ => placeEntry_spec hzones hsmall hmore hhead (.inr hround)) hplace

/-! ## The table -/

/-- Zones whose structures are apart from each other, and whose memory is in order. -/
structure Arranged (zs : List Zone) : Prop where
  apart : zs.Pairwise fun z z' => z.finish ≤ z'.address
  ordered : zs.Pairwise fun z z' => z.base + z.length ≤ z'.base
  pages : ∀ z ∈ zs, 0x1000 * z.pageCount ≤ z.length
  bound : ∀ z ∈ zs, z.base + z.length < 2 ^ 64 ∧ z.finish < 2 ^ 64

/-- The kernel has these zones in its list. -/
structure Kernel.Lists (k : Kernel) (zs : List Zone) : Prop where
  chain : Chain (ZoneGetNext k.memory) k.Zones (zs.map Zone.address)
  holds : ∀ z ∈ zs, z.Holds k.memory
  count : zs ≠ [] → k.ZoneCount ≠ 0

theorem Kernel.Lists.hasZone_iff {k : Kernel} {zs : List Zone} (h : k.Lists zs) {zone : Nat} :
    k.HasZone zone ↔ ∃ z ∈ zs, z.address = zone := by
  unfold Kernel.HasZone
  rw [h.chain.reaches_iff, List.mem_map]

theorem layout_apart (address : Nat) (entries : List MemoryEntry) :
    (layout address entries).Pairwise fun z z' => z.finish ≤ z'.address := by
  induction entries generalizing address with
  | nil => exact List.Pairwise.nil
  | cons entry entries ih =>
    refine List.pairwise_cons.mpr ⟨?_, ih _⟩
    intro z hz
    exact (layout_bounds hz).1

theorem layout_ordered {address : Nat} {entries : List MemoryEntry}
    (hordered : entries.Pairwise fun entry entry' => entry.finish ≤ entry'.GetAddress) :
    (layout address entries).Pairwise fun z z' => z.base + z.length ≤ z'.base := by
  induction entries generalizing address with
  | nil => exact List.Pairwise.nil
  | cons entry entries ih =>
    obtain ⟨hhead, htail⟩ := List.pairwise_cons.mp hordered
    refine List.pairwise_cons.mpr ⟨?_, ih htail⟩
    intro z hz
    obtain ⟨entry', hmem, heq⟩ := exists_entry_of_layout hz
    rw [heq]
    exact hhead entry' hmem

/-- What the initialisation leaves: a table of zones behind the kernel, as the
second pass makes them, or no zone at all. -/
structure Initialized (zonesMemory kernelEnd : Nat) (k : Kernel) (zs : List Zone) : Prop where
  lists : k.Lists zs
  arranged : Arranged zs
  fresh : ∀ z ∈ zs, z.Fresh zonesMemory k.memory
  place : ∃ place, kernelEnd < place ∧
    ∀ z ∈ zs, place ≤ z.address ∧ z.finish ≤ place + zonesMemory

/-- The zones that the initialisation makes. -/
def tableOf (memory : MemoryMap) (kernelEnd : UInt64) (output : Bool) : List Zone :=
  let place := findPlace output (zonesMemory memory) (roundKernelEnd kernelEnd) memory.entries 0
  if place > 0 then layout place memory.entries else []

/-- What the initialisation does at the place of the table. -/
structure Tabled (zonesMemory place : Nat) (entries : List MemoryEntry) (k : Kernel) : Prop where
  zones : k.Zones = place
  count : k.ZoneCount = entries.length
  lists : k.Lists (layout place entries)
  built : ∀ z ∈ layout place entries, z.Built ((z.address + zonesMemory) % 2 ^ 64) k.memory

section Spec

variable {memory : MemoryMap} {kernelEnd : UInt64} {output : Bool} {place : Nat}

theorem place_behind (hordered : memory.Ordered) (hfits : memory.Fits)
    (hfind : findPlace output (zonesMemory memory) (roundKernelEnd kernelEnd) memory.entries 0
      = place) (hplace : place ≠ 0) :
    Behind (zonesMemory memory) 0 (roundKernelEnd kernelEnd) place := by
  have hne : memory.entries ≠ [] := by
    intro hnil
    rw [hnil] at hfind
    exact hplace hfind.symm
  obtain ⟨_, hpos, hsmall⟩ := tableSize_le hordered hfits hne
  subst hfind
  exact findPlace_spec hpos hsmall (by decide) hfits (fun h => absurd rfl h) hplace

theorem Initialize_tabled (hordered : memory.Ordered) (hfits : memory.Fits)
    (hfind : findPlace output (zonesMemory memory) (roundKernelEnd kernelEnd) memory.entries 0
      = place) (hplace : place ≠ 0) (m : Memory) :
    Tabled (zonesMemory memory) place memory.entries
      (Initialize memory kernelEnd output (Kernel.boot m)) := by
  have hne : memory.entries ≠ [] := by
    intro hnil
    rw [hnil] at hfind
    exact hplace hfind.symm
  have hfit := (tableSize_le hordered hfits hne).1
  have hroom := (place_behind hordered hfits hfind hplace).room
  have hlength := memory.bounded
  have hpos : 0 < memory.entries.length := List.length_pos_iff.mpr hne
  unfold Initialize
  simp only [hfind, if_pos (Nat.pos_of_ne_zero hplace)]
  obtain ⟨hbuilt, hchain, _, _, hcount⟩ := initZones_spec
    (s := ⟨(Kernel.boot m).memory.fill place (zonesMemory memory) 0, place, 0, 0⟩)
    (a := place) rfl hplace hfits (by omega)
    (fun b h1 h2 => Memory.fill_of_mem _ _ (by omega)) (fun h => absurd rfl h)
  have hmod := initZones_count (zonesMemory memory) memory.entries
    ⟨(Kernel.boot m).memory.fill place (zonesMemory memory) 0, place, 0, 0⟩
    (show 0 < 2 ^ 32 by decide)
  generalize initZones (zonesMemory memory) memory.entries
    ⟨(Kernel.boot m).memory.fill place (zonesMemory memory) 0, place, 0, 0⟩ = s' at *
  simp only [Nat.zero_add] at hcount
  refine ⟨rfl, ?_, ⟨?_, fun z hz => (hbuilt z hz).holds, ?_⟩, hbuilt⟩
  · change s'.ZoneCount = _
    omega
  · rw [listHead, if_neg hne] at hchain
    exact hchain
  · intro _
    change s'.ZoneCount ≠ 0
    omega

theorem layout_arranged (hordered : memory.Ordered) (hfits : memory.Fits)
    (hend : place + tableSize memory.entries < 2 ^ 64) :
    Arranged (layout place memory.entries) where
  apart := layout_apart _ _
  ordered := layout_ordered hordered
  pages z hz := by
    obtain ⟨entry, _, heq⟩ := exists_entry_of_layout hz
    rw [heq]
    exact pagesOf_le entry
  bound z hz := by
    have hfinish := (layout_bounds hz).2
    obtain ⟨entry, hmem, heq⟩ := exists_entry_of_layout hz
    refine ⟨?_, by omega⟩
    rw [heq]
    exact hfits entry hmem

/-- Where the bound does not wrap, the zone is as `Fresh` says. -/
theorem Zone.Built.fresh {z : Zone} {zonesMemory : Nat} {m : Memory}
    (h : z.Built ((z.address + zonesMemory) % 2 ^ 64) m)
    (hlt : z.address + zonesMemory < 2 ^ 64) : z.Fresh zonesMemory m := by
  rw [Nat.mod_eq_of_lt hlt] at h
  exact ⟨h.holds, h.pages, h.freePageCount⟩

theorem Initialize_spec (hordered : memory.Ordered) (hwrap : memory.NoWrap)
    (kernelEnd : UInt64) (output : Bool) (m : Memory) :
    Initialized (zonesMemory memory) (roundKernelEnd kernelEnd)
      (Initialize memory kernelEnd output (Kernel.boot m)) (tableOf memory kernelEnd output) := by
  by_cases hplace : findPlace output (zonesMemory memory) (roundKernelEnd kernelEnd)
      memory.entries 0 = 0
  · have hnot : ¬ 0 < 0 := Nat.lt_irrefl 0
    unfold Initialize tableOf
    simp only [hplace, gt_iff_lt, if_neg hnot]
    refine ⟨⟨.nil, nofun, fun h => absurd rfl h⟩, ⟨.nil, .nil, nofun, nofun⟩, nofun, ?_⟩
    exact ⟨roundKernelEnd kernelEnd + 1, Nat.lt_succ_self _, nofun⟩
  · have hne : memory.entries ≠ [] := fun hnil => hplace (by rw [hnil]; rfl)
    obtain ⟨hfit, hpos, hsmall⟩ := tableSize_le hordered hwrap.fits hne
    have hbehind := findPlace_spec hpos hsmall hsmall
      (fun e he => finish_add_zonesMemory_lt hordered hwrap he) (fun h => absurd rfl h) hplace
    have htabled := Initialize_tabled hordered hwrap.fits rfl hplace m
    have htable : tableOf memory kernelEnd output = layout (findPlace output (zonesMemory memory)
        (roundKernelEnd kernelEnd) memory.entries 0) memory.entries :=
      if_pos (Nat.pos_of_ne_zero hplace)
    rw [htable]
    generalize findPlace output (zonesMemory memory) (roundKernelEnd kernelEnd)
      memory.entries 0 = place at *
    have hroom := hbehind.room
    refine ⟨htabled.lists, layout_arranged hordered hwrap.fits (by omega), ?_, place,
      hbehind.behind, ?_⟩
    · intro z hz
      have hfinish := (layout_bounds hz).2
      unfold Zone.finish at hfinish
      exact (htabled.built z hz).fresh (by omega)
    · intro z hz
      have hbounds := layout_bounds hz
      omega

end Spec

/-! ## Safety -/

/-- Every page that is marked free is a page of a usable zone, apart from the kernel
and from all the zone structures. -/
def Kernel.Safe (kernelStart kernelEnd : UInt64) (k : Kernel) : Prop :=
  ∀ zone, k.HasZone zone → ∀ j, j < ZoneGetPageCount k.memory zone →
    k.memory (ZoneGetPages zone + j) = 0x01 →
    ZoneGetType k.memory zone = MemoryEntryType.usable.code ∧
    ∀ a, ZoneGetAddress k.memory zone + 0x1000 * j ≤ a →
      a < ZoneGetAddress k.memory zone + 0x1000 * j + 0x1000 →
      ¬ (kernelStart.toNat ≤ a ∧ a ≤ kernelEnd.toNat) ∧
      ∀ zone', k.HasZone zone' →
        ¬ (zone' ≤ a ∧ a < ZoneGetPages zone' + ZoneGetPageCount k.memory zone')

theorem Initialized.safe {kernelEnd : UInt64} {zonesMemory : Nat} {k : Kernel} {zs : List Zone}
    (h : Initialized zonesMemory (roundKernelEnd kernelEnd) k zs) (kernelStart : UInt64) :
    k.Safe kernelStart kernelEnd := by
  obtain ⟨place, hplace, hzones⟩ := h.place
  intro zone hzone j hj hbyte
  obtain ⟨z, hz, rfl⟩ := h.lists.hasZone_iff.mp hzone
  rw [(h.lists.holds z hz).pageCount] at hj
  have hpage := (h.fresh z hz).pages j hj
  have hfree : z.Frees zonesMemory j := by
    by_contra hnot
    rw [if_neg hnot] at hpage
    exact absurd (hbyte.symm.trans hpage) (by decide)
  have hbound := hfree.2
  rw [(h.lists.holds z hz).type, (h.lists.holds z hz).base, hfree.1]
  refine ⟨rfl, ?_⟩
  intro a h1 _
  have hlow := (hzones z hz).1
  have hkernel := le_roundKernelEnd kernelEnd
  unfold Zone.page at hbound
  refine ⟨by omega, ?_⟩
  intro zone' hzone'
  obtain ⟨z', hz', rfl⟩ := h.lists.hasZone_iff.mp hzone'
  have hhigh := (hzones z' hz').2
  rw [(h.lists.holds z' hz').pageCount]
  unfold Zone.finish at hhigh
  simp only [ZoneGetPages]
  omega

/-- `XEOS_Mem_Initialize` never hands out occupied memory. -/
theorem safe_Initialize {memory : MemoryMap} (hordered : memory.Ordered) (hwrap : memory.NoWrap)
    (kernelStart kernelEnd : UInt64) (output : Bool) (m : Memory) :
    (Initialize memory kernelEnd output (Kernel.boot m)).Safe kernelStart kernelEnd :=
  (Initialize_spec hordered hwrap kernelEnd output m).safe kernelStart

/-- Two usable entries that touch. -/
def touchingMap : MemoryMap where
  entries := [⟨0x400000, 0x2000, 0x01⟩, ⟨0x402000, 0x2000, 0x01⟩]
  bounded := by decide

theorem touchingMap_ordered : touchingMap.Ordered := by
  refine List.pairwise_pair.mpr ?_
  exact Nat.le_refl 0x402000

theorem touchingMap_noWrap : touchingMap.NoWrap := by
  intro entry hentry
  have hfinish : entry.finish ≤ 0x404000 := by
    cases hentry with
    | head => decide
    | tail _ hentry =>
      rw [List.mem_singleton.mp hentry]
      decide
  have hcount : touchingMap.GetNumberOfEntries = 2 := rfl
  rw [hcount]
  unfold sizeofZone
  omega

theorem safe_Initialize_touchingMap :
    (Initialize touchingMap 0x1FFFFF true (Kernel.boot fun _ => 0)).Safe 0x100000 0x1FFFFF :=
  safe_Initialize touchingMap_ordered touchingMap_noWrap _ _ _ _

end Xeos.Mem
