import Mathlib.Data.Finset.Card
import Xeos.Mem.Initialize

/-!
# The zone table

`layout` lists the zones that the second pass of `XEOS_Mem_Initialize` makes of the
entries of a memory map, one structure behind the other.  `Zone.Holds` says that a
memory has the fields of a zone, and `Zone.Fresh` that its pages are as the pass
leaves them.  `initZones_spec` is the result of the pass.
-/

namespace Xeos.Mem

open Lib

/-! ## Zones and their layout -/

/-- A zone structure: its address and the fields that stay as they are. -/
structure Zone where
  address : Nat
  type : MemoryEntryType
  base : Nat
  length : Nat
  pageCount : Nat
deriving DecidableEq

namespace Zone

/-- The address of `pages[ j ]`. -/
def byte (z : Zone) (j : Nat) : Nat := z.address + 48 + j

/-- The address of the page `j`. -/
def page (z : Zone) (j : Nat) : Nat := z.base + 0x1000 * j

/-- The end of the structure and its pages. -/
def finish (z : Zone) : Nat := z.address + 48 + z.pageCount

/-- The pages that the second pass marks free. -/
def Frees (zonesMemory : Nat) (z : Zone) (j : Nat) : Prop :=
  z.type = .usable ∧ z.address + zonesMemory ≤ z.page j

instance (zonesMemory : Nat) (z : Zone) (j : Nat) : Decidable (z.Frees zonesMemory j) :=
  inferInstanceAs (Decidable (_ ∧ _))

/-- The pages of a usable zone from an address on. -/
def Marks (bound : Nat) (z : Zone) (j : Nat) : Prop := z.type = .usable ∧ bound ≤ z.page j

instance (bound : Nat) (z : Zone) (j : Nat) : Decidable (z.Marks bound j) :=
  inferInstanceAs (Decidable (_ ∧ _))

/-- The number of pages that are marked free. -/
def ones (m : Memory) (z : Zone) : Nat :=
  ((Finset.range z.pageCount).filter (fun j => m (z.byte j) = 0x01)).card

/-- The memory has the fields of the zone. -/
structure Holds (m : Memory) (z : Zone) : Prop where
  type : ZoneGetType m z.address = z.type.code
  base : ZoneGetAddress m z.address = z.base
  length : ZoneGetLength m z.address = z.length
  pageCount : ZoneGetPageCount m z.address = z.pageCount

/-- The pages from an address on are marked free. -/
structure Built (bound : Nat) (m : Memory) (z : Zone) : Prop where
  holds : z.Holds m
  pages : ∀ j, j < z.pageCount → m (z.byte j) = if z.Marks bound j then 0x01 else 0x00
  freePageCount : ZoneGetFreePageCount m z.address = z.ones m

/-- The zone is as the second pass leaves it. -/
structure Fresh (zonesMemory : Nat) (m : Memory) (z : Zone) : Prop where
  holds : z.Holds m
  pages : ∀ j, j < z.pageCount → m (z.byte j) = if z.Frees zonesMemory j then 0x01 else 0x00
  freePageCount : ZoneGetFreePageCount m z.address = z.ones m

end Zone

/-- The number of pages of the zone of an entry. -/
def pagesOf (entry : MemoryEntry) : Nat :=
  if entry.GetLength > 0x1000 then entry.GetLength / 0x1000 else 0

/-- The zone of an entry, at an address. -/
def zoneOf (address : Nat) (entry : MemoryEntry) : Zone where
  address := address
  type := entry.GetType
  base := entry.GetAddress
  length := entry.GetLength
  pageCount := pagesOf entry

/-- The zones of the entries from an address on. -/
def layout : Nat → List MemoryEntry → List Zone
  | _, [] => []
  | address, entry :: entries =>
    zoneOf address entry :: layout (address + 48 + pagesOf entry) entries

/-- The bytes that the zones of the entries take. -/
def tableSize (entries : List MemoryEntry) : Nat :=
  (entries.map fun entry => 48 + pagesOf entry).sum

@[simp] theorem tableSize_nil : tableSize [] = 0 := rfl

@[simp] theorem tableSize_cons (entry : MemoryEntry) (entries : List MemoryEntry) :
    tableSize (entry :: entries) = 48 + pagesOf entry + tableSize entries := rfl

/-- The zones lie one behind the other. -/
theorem layout_bounds {address : Nat} {entries : List MemoryEntry} {z : Zone}
    (hz : z ∈ layout address entries) :
    address ≤ z.address ∧ z.finish ≤ address + tableSize entries := by
  induction entries generalizing address with
  | nil => cases hz
  | cons entry entries ih =>
    rw [tableSize_cons]
    cases hz with
    | head =>
      refine ⟨Nat.le_refl _, ?_⟩
      simp only [Zone.finish, zoneOf]
      omega
    | tail _ hz =>
      obtain ⟨hlow, hhigh⟩ := ih hz
      omega

/-- Each zone is that of an entry. -/
theorem exists_entry_of_layout {address : Nat} {entries : List MemoryEntry} {z : Zone}
    (hz : z ∈ layout address entries) : ∃ entry ∈ entries, z = zoneOf z.address entry := by
  induction entries generalizing address with
  | nil => cases hz
  | cons entry entries ih =>
    cases hz with
    | head => exact ⟨entry, List.mem_cons_self, rfl⟩
    | tail _ hz =>
      obtain ⟨entry', hmem, heq⟩ := ih hz
      exact ⟨entry', List.mem_cons_of_mem entry hmem, heq⟩

/-! ## What the facts about a zone depend on -/

namespace Zone

variable {m m' : Memory} {z : Zone} {bound : Nat}

/-- The fields other than the link and the counter. -/
theorem Holds.congr (h : z.Holds m)
    (hm : ∀ b, z.address ≤ b → b < z.address + 40 →
      (b < z.address + 24 ∨ z.address + 32 ≤ b) → m' b = m b) : z.Holds m' where
  type := by
    rw [← h.type]
    exact Memory.load_congr (fun i hi => hm _ (by omega) (by omega) (by omega))
  base := by
    rw [← h.base]
    exact Memory.load_congr (fun i hi => hm _ (by omega) (by omega) (by omega))
  length := by
    rw [← h.length]
    exact Memory.load_congr (fun i hi => hm _ (by omega) (by omega) (by omega))
  pageCount := by
    rw [← h.pageCount]
    exact Memory.load_congr (fun i hi => hm _ (by omega) (by omega) (by omega))

theorem ones_congr (hm : ∀ j, j < z.pageCount → m' (z.byte j) = m (z.byte j)) :
    z.ones m' = z.ones m := by
  refine congrArg Finset.card (Finset.filter_congr ?_)
  intro j hj
  rw [hm j (Finset.mem_range.mp hj)]

/-- The whole structure but the link. -/
theorem Built.congr (h : z.Built bound m)
    (hm : ∀ b, z.address ≤ b → b < z.finish →
      (b < z.address + 24 ∨ z.address + 32 ≤ b) → m' b = m b) : z.Built bound m' := by
  have hbyte : ∀ j, j < z.pageCount → m' (z.byte j) = m (z.byte j) := by
    intro j hj
    apply hm <;> simp only [byte, finish] <;> omega
  refine ⟨h.holds.congr ?_, ?_, ?_⟩
  · intro b h1 h2 h3
    exact hm b h1 (by simp only [finish]; omega) h3
  · intro j hj
    rw [hbyte j hj]
    exact h.pages j hj
  · rw [ones_congr hbyte, ← h.freePageCount]
    exact Memory.load_congr (fun i hi => hm _ (by omega) (by simp only [finish]; omega) (by omega))

end Zone

/-! ## One zone -/

/-- The loop over the pages of a zone. -/
theorem pageLoop_spec {m m' : Memory} (z : Zone) {bound : Nat}
    (hend : z.base + 0x1000 * z.pageCount < 2 ^ 64)
    (hclear : ∀ b, z.address + 40 ≤ b → b < z.finish → m b = 0)
    (hm' : m' = (forLoop (initPage z.type bound z.address) z.pageCount (z.base, m)).2) :
    (∀ j, j < z.pageCount → m' (z.byte j) = if z.Marks bound j then 0x01 else 0x00) ∧
    ZoneGetFreePageCount m' z.address
      = ((Finset.range z.pageCount).filter (fun j => z.Marks bound j)).card ∧
    ∀ b, (b < z.address + 40 ∨ z.finish ≤ b) → m' b = m b := by
  subst hm'
  have hcard : ∀ k, ((Finset.range k).filter (fun j => z.Marks bound j)).card ≤ k :=
    fun k => (Finset.card_filter_le _ _).trans (Finset.card_range k).le
  have hloop := forLoop_inv (initPage z.type bound z.address) z.pageCount (z.base, m)
    (fun k s => s.1 = z.page k ∧
      (∀ j, j < k → s.2 (z.byte j) = if z.Marks bound j then 0x01 else 0x00) ∧
      (∀ j, k ≤ j → j < z.pageCount → s.2 (z.byte j) = 0) ∧
      ZoneGetFreePageCount s.2 z.address
        = ((Finset.range k).filter (fun j => z.Marks bound j)).card ∧
      ∀ b, (b < z.address + 40 ∨ z.finish ≤ b) → s.2 b = m b)
    ?_ ?_
  · exact ⟨hloop.2.1, hloop.2.2.2.1, hloop.2.2.2.2⟩
  · refine ⟨by simp [Zone.page], by intro j hj; omega, ?_, ?_, fun b _ => rfl⟩
    · intro j _ hj
      apply hclear <;> simp only [Zone.byte, Zone.finish] <;> omega
    · rw [Finset.range_zero, Finset.filter_empty, Finset.card_empty]
      apply Memory.load_eq_zero
      intro i hi
      exact hclear _ (by omega) (by simp only [Zone.finish]; omega)
  · intro k s hk hs
    obtain ⟨pageAddress, mem⟩ := s
    obtain ⟨haddr, hdone, htodo, hcount, hframe⟩ := hs
    simp only at haddr hdone htodo hcount hframe
    have hnext : (pageAddress + 0x1000) % 2 ^ 64 = z.page (k + 1) := by
      rw [haddr]
      simp only [Zone.page]
      omega
    rw [Finset.range_add_one, Finset.filter_insert]
    by_cases hfree : z.Marks bound k
    · have htest : z.type = .usable ∧ pageAddress ≥ bound := by
        rw [haddr]
        exact hfree
      rw [if_pos hfree]
      simp only [initPage, if_pos htest]
      have hbyte : ∀ j, ((mem.set (z.byte k) 0x01).store (z.address + 40) 8
          (ZoneGetFreePageCount (mem.set (z.byte k) 0x01) z.address + 1)) (z.byte j)
          = if j = k then 0x01 else mem (z.byte j) := by
        intro j
        rw [Memory.store_of_not_mem _ _ (by simp only [Zone.byte]; omega)]
        simp only [Memory.set, Zone.byte, Nat.add_left_cancel_iff]
      refine ⟨hnext, ?_, ?_, ?_, ?_⟩
      · intro j hj
        refine (hbyte j).trans ?_
        by_cases hjk : j = k
        · subst hjk
          rw [if_pos rfl, if_pos hfree]
        · rw [if_neg hjk]
          exact hdone j (by omega)
      · intro j h1 h2
        refine (hbyte j).trans ?_
        rw [if_neg (by omega)]
        exact htodo j (by omega) h2
      · have hnot : k ∉ (Finset.range k).filter (fun j => z.Marks bound j) := by simp
        have hload : ZoneGetFreePageCount (mem.set (ZoneGetPages z.address + k) 0x01) z.address
            = ZoneGetFreePageCount mem z.address :=
          Memory.load_set_of_not_mem _ _ (by simp only [ZoneGetPages]; omega)
        have hle := hcard k
        rw [Finset.card_insert_of_notMem hnot]
        refine (Memory.load_store _ _ _ _).trans ?_
        rw [hload, hcount]
        apply Nat.mod_eq_of_lt
        omega
      · intro b hb
        rw [Memory.store_of_not_mem _ _ (by simp only [Zone.finish] at hb; omega),
          Memory.set_of_ne _ _ (by simp only [Zone.finish, ZoneGetPages] at hb ⊢; omega)]
        exact hframe b hb
    · have htest : ¬ (z.type = .usable ∧ pageAddress ≥ bound) := by
        rw [haddr]
        exact hfree
      rw [if_neg hfree]
      simp only [initPage, if_neg htest]
      refine ⟨hnext, ?_, fun j h1 h2 => htodo j (by omega) h2, hcount, hframe⟩
      intro j hj
      by_cases hjk : j = k
      · subst hjk
        rw [if_neg hfree]
        exact htodo j (Nat.le_refl j) hk
      · exact hdone j (by omega)

/-- The fields that every zone gets. -/
theorem header_spec (m : Memory) (a : Nat) (entry : MemoryEntry) :
    let m' := ((m.store (a + 8) 8 entry.GetAddress).store (a + 4) 4 entry.GetType.code).store
      (a + 16) 8 entry.GetLength
    ZoneGetType m' a = entry.GetType.code ∧ ZoneGetAddress m' a = entry.GetAddress ∧
    ZoneGetLength m' a = entry.GetLength ∧
    ∀ b, (b < a + 4 ∨ a + 24 ≤ b) → m' b = m b := by
  have haddr : entry.GetAddress < 2 ^ 64 := entry.address.toNat_lt
  have hlen : entry.GetLength < 2 ^ 64 := entry.length.toNat_lt
  have hcode : entry.GetType.code < 256 := by
    cases entry.GetType <;> decide
  refine ⟨?_, ?_, ?_, ?_⟩
  · unfold ZoneGetType
    rw [Memory.load_store_of_disjoint _ _ (by omega), Memory.load_store]
    exact Nat.mod_eq_of_lt (by omega)
  · unfold ZoneGetAddress
    rw [Memory.load_store_of_disjoint _ _ (by omega), Memory.load_store_of_disjoint _ _ (by omega),
      Memory.load_store]
    exact Nat.mod_eq_of_lt (by omega)
  · unfold ZoneGetLength
    rw [Memory.load_store]
    exact Nat.mod_eq_of_lt (by omega)
  · intro b hb
    rw [Memory.store_of_not_mem _ _ (by omega), Memory.store_of_not_mem _ _ (by omega),
      Memory.store_of_not_mem _ _ (by omega)]

/-- The pages, if the zone gets any. -/
theorem initPages_spec {m : Memory} {a zonesMemory : Nat} {entry : MemoryEntry}
    (hentry : entry.GetAddress + entry.GetLength < 2 ^ 64)
    (hclear : ∀ b, a + 24 ≤ b → b < a + 48 + pagesOf entry → m b = 0)
    (htype : ZoneGetType m a = entry.GetType.code) (hbase : ZoneGetAddress m a = entry.GetAddress)
    (hlength : ZoneGetLength m a = entry.GetLength) :
    let m' := initPages zonesMemory entry a m
    (zoneOf a entry).Built ((a + zonesMemory) % 2 ^ 64) m' ∧
    ∀ b, (b < a + 32 ∨ a + 48 + pagesOf entry ≤ b) → m' b = m b := by
  by_cases hbig : entry.GetLength > 0x1000
  · have hpages : pagesOf entry = entry.GetLength / 0x1000 := if_pos hbig
    set m1 := m.store (a + 32) 8 (entry.GetLength / 0x1000) with hm1
    have hcount : ZoneGetPageCount m1 a = pagesOf entry := by
      rw [hpages]
      exact (Memory.load_store _ _ _ _).trans (Nat.mod_eq_of_lt (by omega))
    have hbase1 : ZoneGetAddress m1 a = entry.GetAddress :=
      (Memory.load_store_of_disjoint _ _ (by omega)).trans hbase
    have hframe1 : ∀ b, (b < a + 32 ∨ a + 40 ≤ b) → m1 b = m b :=
      fun b hb => Memory.store_of_not_mem _ _ (by omega)
    have heq : initPages zonesMemory entry a m
        = (forLoop (initPage entry.GetType ((a + zonesMemory) % 2 ^ 64) a) (pagesOf entry)
          (entry.GetAddress, m1)).2 := by
      unfold initPages
      simp only [if_pos hbig]
      rw [← hm1, hcount, hbase1]
    obtain ⟨hdone, hfree, hframe⟩ := pageLoop_spec (zoneOf a entry)
      (by simp only [zoneOf]; omega)
      (by
        intro b h1 h2
        simp only [zoneOf, Zone.finish] at h1 h2
        rw [hframe1 b (by omega)]
        exact hclear b (by omega) h2)
      heq
    generalize initPages zonesMemory entry a m = m' at *
    simp only [zoneOf, Zone.finish] at hframe
    have hmem : ∀ b, (b < a + 32 ∨ a + 48 + pagesOf entry ≤ b) → m' b = m b :=
      fun b hb => (hframe b (by omega)).trans (hframe1 b (by omega))
    refine ⟨⟨⟨?_, ?_, ?_, ?_⟩, hdone, ?_⟩, hmem⟩
    · refine (Memory.load_congr fun i hi => hmem (a + 4 + i) (by omega)).trans htype
    · refine (Memory.load_congr fun i hi => hmem (a + 8 + i) (by omega)).trans hbase
    · refine (Memory.load_congr fun i hi => hmem (a + 16 + i) (by omega)).trans hlength
    · refine (Memory.load_congr fun i hi => hframe (a + 32 + i) (by omega)).trans hcount
    · refine hfree.trans (congrArg Finset.card (Finset.filter_congr ?_))
      intro j hj
      rw [hdone j (Finset.mem_range.mp hj)]
      by_cases hf : (zoneOf a entry).Marks ((a + zonesMemory) % 2 ^ 64) j <;> simp [hf]
  · have hpages : pagesOf entry = 0 := if_neg hbig
    have heq : initPages zonesMemory entry a m = m := if_neg hbig
    rw [heq]
    refine ⟨⟨⟨htype, hbase, hlength, ?_⟩, ?_, ?_⟩, fun b _ => rfl⟩
    · change ZoneGetPageCount m a = pagesOf entry
      rw [hpages]
      exact Memory.load_eq_zero m fun i hi => hclear _ (by omega) (by omega)
    · intro j hj
      simp only [zoneOf, hpages] at hj
      omega
    · have hones : (zoneOf a entry).ones m = 0 := by
        simp [Zone.ones, zoneOf, hpages]
      rw [hones]
      exact Memory.load_eq_zero m fun i hi =>
        hclear (a + 40 + i) (by omega) (by omega)

/-- One round of the second pass.  `a` is the address of the zone. -/
theorem initZone_spec {zonesMemory a : Nat} {entry : MemoryEntry} {s : ZoneLoop}
    (ha : s.zonesAddress = a) (hentry : entry.GetAddress + entry.GetLength < 2 ^ 64)
    (hend : a + 48 + pagesOf entry < 2 ^ 64)
    (hclear : ∀ b, a ≤ b → b < a + 48 + pagesOf entry → s.memory b = 0)
    (hprev : s.previousZone ≠ 0 → s.previousZone + 48 ≤ a) :
    let s' := initZone zonesMemory entry s
    s'.zonesAddress = a + 48 + pagesOf entry ∧ s'.previousZone = a ∧
    (zoneOf a entry).Built ((a + zonesMemory) % 2 ^ 64) s'.memory ∧ ZoneGetNext s'.memory a = 0 ∧
    (s.previousZone ≠ 0 → ZoneGetNext s'.memory s.previousZone = a) ∧
    ∀ b, (b < a ∨ a + 48 + pagesOf entry ≤ b) →
      (b < s.previousZone + 24 ∨ s.previousZone + 32 ≤ b ∨ s.previousZone = 0) →
      s'.memory b = s.memory b := by
  subst ha
  set a := s.zonesAddress with ha
  -- the link from the zone before
  set m1 := if s.previousZone ≠ 0 then s.memory.store (s.previousZone + 24) 8 a else s.memory
    with hm1
  have hframe1 : ∀ b, (b < s.previousZone + 24 ∨ s.previousZone + 32 ≤ b ∨ s.previousZone = 0) →
      m1 b = s.memory b := by
    intro b hb
    by_cases hp : s.previousZone ≠ 0
    · rw [hm1, if_pos hp]
      exact Memory.store_of_not_mem _ _ (by omega)
    · rw [hm1, if_neg hp]
  have hclear1 : ∀ b, a ≤ b → b < a + 48 + pagesOf entry → m1 b = 0 := by
    intro b h1 h2
    rw [hframe1 b (by omega)]
    exact hclear b h1 h2
  obtain ⟨htype, hbase, hlength, hframe2⟩ := header_spec m1 a entry
  obtain ⟨hfresh, hframe3⟩ := initPages_spec hentry
    (fun b h1 h2 => (hframe2 b (by omega)).trans (hclear1 b (by omega) h2)) htype hbase hlength
  have hframe : ∀ b, (b < a + 4 ∨ a + 24 ≤ b) → (b < a + 32 ∨ a + 48 + pagesOf entry ≤ b) →
      (initZone zonesMemory entry s).memory b = m1 b :=
    fun b h1 h2 => (hframe3 b h2).trans (hframe2 b h1)
  refine ⟨?_, rfl, hfresh, ?_, ?_, ?_⟩
  · have hcount := hfresh.holds.pageCount
    refine (congrArg (fun n => (a + sizeofZone + n) % 2 ^ 64) hcount).trans ?_
    exact Nat.mod_eq_of_lt hend
  · exact Memory.load_eq_zero _ fun i hi =>
      (hframe _ (by omega) (by omega)).trans (hclear1 _ (by omega) (by omega))
  · intro hp
    have hle := hprev hp
    refine (Memory.load_congr fun i hi => hframe _ (by omega) (by omega)).trans ?_
    rw [hm1, if_pos hp]
    exact (Memory.load_store _ _ _ _).trans (Nat.mod_eq_of_lt (by omega))
  · intro b h1 h2
    exact (hframe b (by omega) (by omega)).trans (hframe1 b h2)

/-! ## The whole table -/

/-- The start of the list of the zones of the entries. -/
def listHead (address : Nat) (entries : List MemoryEntry) : Nat :=
  if entries = [] then 0 else address

/-- The second pass, by induction on the entries that are left.  The zone before
them still gets its link. -/
theorem initZones_spec {zonesMemory a : Nat} {entries : List MemoryEntry} {s : ZoneLoop}
    (ha : s.zonesAddress = a) (ha0 : a ≠ 0)
    (hentries : ∀ entry ∈ entries, entry.GetAddress + entry.GetLength < 2 ^ 64)
    (hend : a + tableSize entries < 2 ^ 64)
    (hclear : ∀ b, a ≤ b → b < a + tableSize entries → s.memory b = 0)
    (hprev : s.previousZone ≠ 0 → s.previousZone + 48 ≤ a) :
    let s' := initZones zonesMemory entries s
    (∀ z ∈ layout a entries, z.Built ((z.address + zonesMemory) % 2 ^ 64) s'.memory) ∧
    Chain (ZoneGetNext s'.memory) (listHead a entries) ((layout a entries).map Zone.address) ∧
    (s.previousZone ≠ 0 → ZoneGetNext s'.memory s.previousZone
      = if entries = [] then ZoneGetNext s.memory s.previousZone else a) ∧
    (∀ b, (b < a ∨ a + tableSize entries ≤ b) →
      (b < s.previousZone + 24 ∨ s.previousZone + 32 ≤ b ∨ s.previousZone = 0) →
      s'.memory b = s.memory b) ∧
    s'.ZoneCount % 2 ^ 32 = (s.ZoneCount + entries.length) % 2 ^ 32 := by
  induction entries generalizing a s with
  | nil => exact ⟨nofun, .nil, fun _ => rfl, fun b _ _ => rfl, rfl⟩
  | cons entry entries ih =>
    rw [tableSize_cons] at hend hclear
    obtain ⟨haddr, hprev1, hfresh, hnext, hlink, hframe⟩ :=
      initZone_spec ha (hentries entry List.mem_cons_self) (by omega)
        (fun b h1 h2 => hclear b h1 (by omega)) hprev
    have hcount1 : (initZone zonesMemory entry s).ZoneCount = (s.ZoneCount + 1) % 2 ^ 32 := rfl
    have hfold : initZones zonesMemory (entry :: entries) s
        = initZones zonesMemory entries (initZone zonesMemory entry s) := rfl
    rw [hfold]
    generalize initZone zonesMemory entry s = s1 at *
    obtain ⟨hfresh', hchain, hlink', hframe', hcount⟩ := ih (s := s1) haddr (by omega)
      (fun e he => hentries e (List.mem_cons_of_mem entry he)) (by omega)
      (by
        intro b h1 h2
        rw [hframe b (by omega) (by omega)]
        exact hclear b (by omega) (by omega))
      (by intro _; omega)
    generalize initZones zonesMemory entries s1 = s' at *
    rw [hprev1] at hlink' hframe'
    refine ⟨?_, ?_, ?_, ?_, ?_⟩
    · intro z hz
      cases hz with
      | head =>
        refine hfresh.congr ?_
        intro b h1 h2 h3
        simp only [zoneOf, Zone.finish] at h1 h2 h3
        exact hframe' b (by omega) (by omega)
      | tail _ hz => exact hfresh' z hz
    · refine .cons ha0 ?_
      have hnext' : ZoneGetNext s'.memory a = listHead (a + 48 + pagesOf entry) entries := by
        rw [hlink' ha0, hnext]
        rfl
      exact hnext' ▸ hchain
    · intro hp
      have hle := hprev hp
      rw [if_neg (List.cons_ne_nil entry entries)]
      refine Eq.trans (Memory.load_congr fun i hi => ?_) (hlink hp)
      exact hframe' (s.previousZone + 24 + i) (by omega) (by omega)
    · intro b h1 h2
      rw [tableSize_cons] at h1
      rw [hframe' b (by omega) (by omega)]
      exact hframe b (by omega) h2
    · rw [hcount, hcount1, List.length_cons]
      omega

theorem initZones_count (zonesMemory : Nat) (entries : List MemoryEntry) (s : ZoneLoop)
    (hs : s.ZoneCount < 2 ^ 32) : (initZones zonesMemory entries s).ZoneCount < 2 ^ 32 := by
  induction entries generalizing s with
  | nil => exact hs
  | cons entry entries ih => exact ih _ (Nat.mod_lt _ (by decide))

end Xeos.Mem
