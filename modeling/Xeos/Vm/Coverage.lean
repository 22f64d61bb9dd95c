import Xeos.Vm.Identity

/-!
# The memory that the map covers

The number of the page table entries comes from the sum of the lengths of the zones, but an
entry stands for a physical address: with a hole in the memory, the pages at its end have no
entry.
-/

namespace Xeos.Vm

open Lib

/-- The `Writeable` flag of an entry. -/
def isWriteable (entry : Nat) : Bool := entry / 2 % 2 == 1

/-- The page tables have an entry for the address. -/
structure SystemMap.HasEntry (map : SystemMap) (a e : Nat) : Prop where
  table : a / 0x1000 / ptEntriesPerPT map.type < map.counts.ptCount
  entry : e = entryAt map.target map.fill.memory
    (tableAt map.target map.base (a / 0x1000 / ptEntriesPerPT map.type))
    (a / 0x1000 % ptEntriesPerPT map.type)
  address : addressField e = a

/-- Every page of the memory has an entry with the flags of its zone, and the pages in the
holes are present and not writeable. -/
structure SystemMap.Coverage (map : SystemMap) (zones : List Zone) : Prop where
  zone : ∀ z ∈ zones, ∀ a, a % 0x1000 = 0 → z.Contains a → ∃ e, map.HasEntry a e ∧
    (isWriteable e = true ↔ z.type = .usable) ∧
    (isPresent e = true ↔ a < (map.base + mapMemory map.counts) % 2 ^ 64)
  hole : ∀ a, a % 0x1000 = 0 → (∃ z ∈ zones, a < z.address + z.length) →
    (∀ z ∈ zones, ¬ z.Contains a) → ∃ e, map.HasEntry a e ∧ isPresent e = true ∧
      isWriteable e = false

/-- The zones are in order and do not overlap. -/
def SortedZones (zones : List Zone) : Prop :=
  zones.Pairwise fun z z' => z.address + z.length ≤ z'.address

/-- A size, rounded up to pages. -/
def roundUp (bytes : Nat) : Nat := (bytes + 0xFFF) / 0x1000 * 0x1000

section Zones

variable {zones : List Zone} {a : Nat}

theorem isWriteable_entryValue {address : Nat} (haligned : address % 0x1000 = 0)
    (present writeable : Bool) :
    isWriteable (entryValue address present writeable) = writeable := by
  unfold isWriteable entryValue
  cases present <;> cases writeable <;> simp only [Bool.toNat_true, Bool.toNat_false] <;>
    first
    | exact beq_iff_eq.mpr (by omega)
    | exact beq_eq_false_iff_ne.mpr (by omega)

theorem roundUp_eq (bytes : Nat) : roundUp bytes = 0x1000 * ptEntriesCount bytes := by
  unfold roundUp ptEntriesCount
  split <;> omega

/-- Zones that do not overlap are not larger than the range that they lie in. -/
theorem GetTotalBytes_le (hsorted : SortedZones zones) {bound : Nat}
    (hbound : ∀ z ∈ zones, z.address + z.length ≤ bound) : GetTotalBytes zones ≤ bound := by
  have hsum : ∀ (zs : List Zone) start n, SortedZones zs → n ≤ start → start ≤ bound →
      (∀ z ∈ zs, start ≤ z.address ∧ z.address + z.length ≤ bound) →
      zs.foldl (fun bytes zone => (bytes + zone.length) % 2 ^ 64) n ≤ bound := by
    intro zs
    induction zs with
    | nil => exact fun start n _ hn hstart _ => hn.trans hstart
    | cons z zs ih =>
      intro start n hzs hn _ hall
      obtain ⟨hhead, htail⟩ := List.pairwise_cons.mp hzs
      have hz := hall z List.mem_cons_self
      refine ih (z.address + z.length) _ htail ?_ hz.2 fun z' hz' =>
        ⟨hhead z' hz', (hall z' (List.mem_cons_of_mem z hz')).2⟩
      exact (Nat.mod_le _ _).trans (by omega)
  exact hsum zones 0 0 hsorted (Nat.le_refl 0) (Nat.zero_le _)
    fun z hz => ⟨Nat.zero_le _, hbound z hz⟩

/-- An address lies in one zone only. -/
theorem Zone.Contains.unique (hsorted : SortedZones zones) {z z' : Zone} (hz : z ∈ zones)
    (hz' : z' ∈ zones) (h : z.Contains a) (h' : z'.Contains a) : z = z' := by
  obtain ⟨i, hi, rfl⟩ := List.mem_iff_getElem.mp hz
  obtain ⟨j, hj, rfl⟩ := List.mem_iff_getElem.mp hz'
  have hpairs := List.pairwise_iff_getElem.mp hsorted
  obtain ⟨h1, h2⟩ := h
  obtain ⟨h1', h2'⟩ := h'
  rcases Nat.lt_trichotomy i j with hlt | rfl | hgt
  · have hle := hpairs i j hi hj hlt
    omega
  · rfl
  · have hle := hpairs j i hj hi hgt
    omega

end Zones

/-! ## The map -/

section Maps

variable {t : Target} {zones : List Zone} {allocPages : Nat → Nat} {m : Memory} {map : SystemMap}
variable {a : Nat}

/-- A page that the memory size reaches has an entry, if its address fits. -/
theorem MapOf.hasEntry (h : MapOf t zones m map)
    (hblock : Block map.type (GetTotalBytes zones) map.base) (haligned : a % 0x1000 = 0)
    (ha : a < GetTotalBytes zones) (hfits : a < 2 ^ (8 * map.type.target.entryBytes)) :
    map.HasEntry a (pageValue map.type.target
      ((map.base + mapMemory map.counts) % 2 ^ 64) zones a) := by
  have hper : 0 < ptEntriesPerPT map.type := by
    cases map.type <;> decide
  have htotal := GetTotalBytes_lt zones
  have hpage : 0x1000 * (a / 0x1000) = a := Nat.mul_div_cancel' (Nat.dvd_of_mod_eq_zero haligned)
  have hcount : a / 0x1000 < ptEntriesCount (GetTotalBytes zones) :=
    lt_ptEntriesCount_iff.mpr (by rw [hpage]; exact ha)
  have hentry := entryAt_pt hblock htotal zones m (ptIndex_lt ha) (Nat.mod_lt (a / 0x1000) hper)
  rw [Nat.div_add_mod'] at hentry
  unfold ptValue at hentry
  rw [if_pos hcount, hpage] at hentry
  refine ⟨?_, ?_, ?_⟩
  · rw [h.counts]
    exact ptIndex_lt ha
  · rw [h.target, h.memory_eq, h.counts]
    exact hentry.symm
  · unfold pageValue
    rw [Nat.mod_eq_of_lt hfits]
    exact addressField_entryValue haligned

/-- A page behind the memory size has none. -/
theorem MapOf.not_hasEntry (h : MapOf t zones m map)
    (hblock : Block map.type (GetTotalBytes zones) map.base) (ha : GetTotalBytes zones ≤ a)
    (haligned : a % 0x1000 = 0) (e : Nat) : ¬ map.HasEntry a e := by
  intro hentry
  have hper : 0 < ptEntriesPerPT map.type := by
    cases map.type <;> decide
  have hpage : 0x1000 * (a / 0x1000) = a := Nat.mul_div_cancel' (Nat.dvd_of_mod_eq_zero haligned)
  have hcount : ¬ a / 0x1000 < ptEntriesCount (GetTotalBytes zones) := by
    rw [lt_ptEntriesCount_iff, hpage]
    omega
  have htable := hentry.table
  rw [h.counts] at htable
  have hvalue := entryAt_pt hblock (GetTotalBytes_lt zones) zones m htable
    (Nat.mod_lt (a / 0x1000) hper)
  rw [Nat.div_add_mod'] at hvalue
  unfold ptValue at hvalue
  rw [if_neg hcount] at hvalue
  have haddress := hentry.address
  rw [hentry.entry, h.target, h.memory_eq, hvalue] at haddress
  have hzero : a = 0 := haddress.symm
  -- without memory there is no table
  have hempty : GetTotalBytes zones = 0 := by omega
  rw [hempty, counts_ptCount] at htable
  have hnone : ptCountOf map.type 0 = 0 := by
    cases map.type <;> rfl
  rw [hnone] at htable
  exact Nat.not_lt_zero _ htable

/-- No entry has an address that is larger than the entry. -/
theorem SystemMap.HasEntry.lt {e : Nat} (h : map.HasEntry a e) :
    a < 2 ^ (8 * map.target.entryBytes) := by
  rw [← h.address, h.entry, ← pow_entryBytes]
  exact (Nat.sub_le _ _).trans_lt (Memory.load_lt _ _ _)

/-- The flags of the entry of a page. -/
theorem flags_pageValue (haligned : a % 0x1000 = 0) (target : Target) (mapEnd : Nat)
    (zones : List Zone) :
    isPresent (pageValue target mapEnd zones a)
      = (if found zones a then decide (a < mapEnd) else true) ∧
    isWriteable (pageValue target mapEnd zones a) = usable zones a := by
  have htarget : a % 2 ^ (8 * target.entryBytes) % 0x1000 = 0 := by
    rcases entryBytes_cases target with h | h <;> rw [h] <;> omega
  exact ⟨isPresent_entryValue htarget, isWriteable_entryValue htarget _ _⟩

theorem usable_eq (hsorted : SortedZones zones) {z : Zone} (hz : z ∈ zones) (h : z.Contains a) :
    found zones a = true ∧ usable zones a = decide (z.type = .usable) := by
  constructor
  · exact List.any_eq_true.mpr ⟨z, hz, decide_eq_true h⟩
  · rw [Bool.eq_iff_iff, decide_eq_true_iff]
    unfold usable
    rw [List.any_eq_true]
    constructor
    · rintro ⟨z', hz', huse⟩
      rw [Bool.and_eq_true, decide_eq_true_iff, decide_eq_true_iff] at huse
      rw [h.unique hsorted hz hz' huse.1]
      exact huse.2
    · intro htype
      exact ⟨z, hz, by rw [decide_eq_true h, decide_eq_true htype, Bool.and_self]⟩

theorem found_eq_false (h : ∀ z ∈ zones, ¬ z.Contains a) :
    found zones a = false ∧ usable zones a = false := by
  constructor
  · exact List.any_eq_false.mpr fun z hz => by simpa using h z hz
  · refine List.any_eq_false.mpr fun z hz => ?_
    rw [decide_eq_false (h z hz), Bool.false_and]
    exact Bool.false_ne_true

/-- An address below the end of a zone is in a zone or in a hole. -/
theorem SystemMap.Coverage.hasEntry (h : map.Coverage zones) (haligned : a % 0x1000 = 0) {z : Zone}
    (hz : z ∈ zones) (ha : a < z.address + z.length) : ∃ e, map.HasEntry a e := by
  by_cases hin : ∃ z ∈ zones, z.Contains a
  · obtain ⟨z', hz', hcontains⟩ := hin
    obtain ⟨e, he, _⟩ := h.zone z' hz' a haligned hcontains
    exact ⟨e, he⟩
  · obtain ⟨e, he, _⟩ := h.hole a haligned ⟨z, hz, ha⟩ fun z' hz' hc => hin ⟨z', hz', hc⟩
    exact ⟨e, he⟩

/-- A zone that ends behind the sum of the zones has pages without an entry. -/
theorem MapOf.not_coverage (h : MapOf t zones m map)
    (hblock : Block map.type (GetTotalBytes zones) map.base) {z : Zone} (hz : z ∈ zones)
    (hend : roundUp (GetTotalBytes zones) < z.address + z.length) : ¬ map.Coverage zones := by
  intro hcoverage
  have haligned : roundUp (GetTotalBytes zones) % 0x1000 = 0 := Nat.mul_mod_left _ _
  have hle : GetTotalBytes zones ≤ roundUp (GetTotalBytes zones) := by
    unfold roundUp
    omega
  obtain ⟨e, he⟩ := hcoverage.hasEntry haligned hz hend
  exact h.not_hasEntry hblock hle haligned e he

/-- The size of an entry is enough for the addresses of the memory, unless PAE is off. -/
theorem MapOf.entryBytes_iff (ht : t.Valid) (h : MapOf t zones m map) :
    GetTotalBytes zones ≤ 2 ^ (8 * map.type.target.entryBytes) ↔
      (t.paeEnabled = false → GetTotalBytes zones ≤ 2 ^ 32) := by
  have htotal := GetTotalBytes_lt zones
  have htype := h.type
  obtain ⟨lp64, paeEnabled⟩ := t
  unfold chooseType at htype
  cases lp64 with
  | true =>
    have hpae : paeEnabled = true := ht rfl
    rw [htype, hpae]
    exact ⟨fun _ => nofun, fun _ => htotal.le⟩
  | false =>
    cases paeEnabled with
    | false =>
      rw [htype]
      exact ⟨fun hle _ => hle, fun hle => hle rfl⟩
    | true =>
      simp only [Bool.false_eq_true, if_false, if_true] at htype
      split at htype
      · rw [htype]
        exact ⟨fun _ => nofun, fun _ => Nat.le_of_lt ‹_›⟩
      · rw [htype]
        exact ⟨fun _ => nofun, fun _ => htotal.le⟩

/-- The map covers the memory when no zone ends behind the sum of all zones, rounded up to
pages, and the addresses fit into the entries. -/
theorem systemMap_coverage_iff (ht : t.Valid) (hsorted : SortedZones zones)
    (hinit : SystemMapInitialize t zones allocPages m = some map)
    (hblock : Block map.type (GetTotalBytes zones) map.base) :
    map.Coverage zones ↔
      (∀ z ∈ zones, z.address + z.length ≤ roundUp (GetTotalBytes zones)) ∧
      (t.paeEnabled = false → GetTotalBytes zones ≤ 2 ^ 32) := by
  have hmap := mapOf_of_initialize ht hinit
  rw [← hmap.entryBytes_iff ht]
  constructor
  · intro hcoverage
    constructor
    · intro z hz
      by_contra hend
      exact hmap.not_coverage hblock hz (not_le.mp hend) hcoverage
    · -- some zone ends behind the last address that fits
      refine GetTotalBytes_le hsorted fun z hz => ?_
      by_contra hend
      have haligned : 2 ^ (8 * map.type.target.entryBytes) % 0x1000 = 0 := by
        rcases entryBytes_cases map.type.target with h | h <;> rw [h] <;> decide
      obtain ⟨e, he⟩ := hcoverage.hasEntry haligned hz (not_le.mp hend)
      have hlt := he.lt
      rw [hmap.target] at hlt
      exact Nat.lt_irrefl _ hlt
  · rintro ⟨hends, hfits⟩
    have hin : ∀ a, a % 0x1000 = 0 → (∃ z ∈ zones, a < z.address + z.length) →
        a < GetTotalBytes zones := by
      rintro a haligned ⟨z, hz, ha⟩
      have hend := hends z hz
      unfold roundUp at hend
      omega
    constructor
    · intro z hz a haligned hcontains
      have ha := hin a haligned ⟨z, hz, by unfold Zone.Contains at hcontains; omega⟩
      have hflags := flags_pageValue haligned map.type.target
        ((map.base + mapMemory map.counts) % 2 ^ 64) zones
      obtain ⟨hfound, husable⟩ := usable_eq hsorted hz hcontains
      refine ⟨_, hmap.hasEntry hblock haligned ha (by omega), ?_, ?_⟩
      · rw [hflags.2, husable, decide_eq_true_iff]
      · rw [hflags.1, hfound, if_pos rfl, decide_eq_true_iff]
    · intro a haligned hbelow hhole
      have ha := hin a haligned hbelow
      have hflags := flags_pageValue haligned map.type.target
        ((map.base + mapMemory map.counts) % 2 ^ 64) zones
      obtain ⟨hfound, husable⟩ := found_eq_false hhole
      refine ⟨_, hmap.hasEntry hblock haligned ha (by omega), ?_, ?_⟩
      · rw [hflags.1, hfound]
        rfl
      · rw [hflags.2, husable]

/-- 16 MB in two zones without a hole. -/
theorem systemMap_coverage_16M :
    ∃ map, SystemMapInitialize ⟨false, false⟩ [⟨.usable, 0, 0x9F000⟩, ⟨.reserved, 0x9F000, 0xF61000⟩]
      (fun _ => 0x200000) (fun _ => 0) = some map ∧
      map.Coverage [⟨.usable, 0, 0x9F000⟩, ⟨.reserved, 0x9F000, 0xF61000⟩] := by
  obtain ⟨map, hinit, htype, hbase, _⟩ := exists_map ⟨false, false⟩
    [⟨.usable, 0, 0x9F000⟩, ⟨.reserved, 0x9F000, 0xF61000⟩] (fun _ => 0)
    (show 0 < 0x200000 by decide)
  have hblock : Block map.type 0x1000000 map.base := by
    rw [htype, hbase]
    exact ⟨by decide, by decide, by decide⟩
  refine ⟨map, hinit, (systemMap_coverage_iff (fun h => Bool.noConfusion h) ?_ hinit hblock).mpr
    ⟨?_, fun _ => by decide⟩⟩
  · unfold SortedZones
    decide
  · decide

/-- The same memory with a hole below 1 MB: its last pages have no entry. -/
theorem not_coverage_hole :
    ∃ map, SystemMapInitialize ⟨false, false⟩ [⟨.usable, 0, 0x9F000⟩, ⟨.usable, 0x100000, 0xF00000⟩]
      (fun _ => 0x200000) (fun _ => 0) = some map ∧ (∀ e, ¬ map.HasEntry 0xFFF000 e) ∧
      ¬ map.Coverage [⟨.usable, 0, 0x9F000⟩, ⟨.usable, 0x100000, 0xF00000⟩] := by
  obtain ⟨map, hinit, htype, hbase, _⟩ := exists_map ⟨false, false⟩
    [⟨.usable, 0, 0x9F000⟩, ⟨.usable, 0x100000, 0xF00000⟩] (fun _ => 0)
    (show 0 < 0x200000 by decide)
  have hblock : Block map.type 0xF9F000 map.base := by
    rw [htype, hbase]
    exact ⟨by decide, by decide, by decide⟩
  have hmap := mapOf_of_initialize (fun h => Bool.noConfusion h) hinit
  refine ⟨map, hinit, hmap.not_hasEntry hblock (by decide) (by decide), ?_⟩
  exact hmap.not_coverage hblock (List.mem_cons_of_mem _ List.mem_cons_self) (by decide)

end Maps

end Xeos.Vm
