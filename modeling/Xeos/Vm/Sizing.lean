import Mathlib.Tactic.Ring
import Xeos.Vm.SystemMap

/-!
# The tables and their block

The counts of the system map are the least that cover the memory, and the loops that fill
the tables take the pages of the block one by one, from its start to its end.

`Filled` is what every loop keeps: the tables so far are the first pages of the block, the
running pointer is behind them, and the rest of the memory is as it was.
-/

namespace Xeos.Vm

open Lib

/-! ## Counts -/

/-- `count` is the least number of tables of `per` entries that cover `n` things. -/
structure Least (n per count : Nat) : Prop where
  covers : n ≤ count * per
  least : ∀ count', n ≤ count' * per → count ≤ count'

theorem Least.of_ceil {n per count : Nat} (hper : 0 < per)
    (hcount : count = n / per + (if n % per = 0 then 0 else 1)) : Least n per count := by
  have hdiv := Nat.div_add_mod n per
  have hmod := Nat.mod_lt n hper
  subst hcount
  constructor
  · split
    · rw [Nat.add_zero, Nat.mul_comm]
      omega
    · rw [Nat.add_mul, Nat.one_mul, Nat.mul_comm]
      omega
  · intro count' hle
    have hfloor : n / per ≤ count' := by
      rw [Nat.mul_comm] at hle
      exact Nat.div_le_of_le_mul hle
    split
    · exact hfloor
    · next hne =>
      refine Nat.lt_of_le_of_ne hfloor fun heq => hne ?_
      rw [← heq, Nat.mul_comm] at hle
      omega

/-- The tables for the least number of tables of the level below. -/
theorem Least.mul {n per per' count count' : Nat} (h : Least n per count)
    (h' : Least count per' count') : Least n (per * per') count' where
  covers := by
    calc n ≤ count * per := h.covers
      _ ≤ count' * per' * per := Nat.mul_le_mul_right _ h'.covers
      _ = count' * (per * per') := by ring
  least count'' hle := by
    refine h'.least count'' (h.least _ ?_)
    rw [Nat.mul_assoc, Nat.mul_comm per' per]
    exact hle

theorem Least.one {n per : Nat} (hpos : 0 < n) (hle : n ≤ per) : Least n per 1 where
  covers := by omega
  least count' h := by
    by_contra hzero
    have : count' = 0 := by omega
    subst this
    omega

/-- The memory sizes that the address space of a mode covers. -/
def MemoryMapType.Covers (type : MemoryMapType) (totalMemoryBytes : Nat) : Prop :=
  match type with
  | .type32 => totalMemoryBytes < 2 ^ 32
  | .type32PAE => totalMemoryBytes ≤ 2 ^ 39
  | .type64 => totalMemoryBytes ≤ 2 ^ 48

/-- The counts are the least ones: a table of each level has `per` times the range of one
of the level below. -/
def LeastCounts (type : MemoryMapType) (pages : Nat) (c : Counts) : Prop :=
  match type with
  | .type32 => Least pages 0x400 c.ptCount ∧ Least pages (0x400 * 0x400) c.pdtCount ∧
      c.pdptCount = 0 ∧ c.pml4tCount = 0
  | .type32PAE => Least pages 0x200 c.ptCount ∧ Least pages (0x200 * 0x200) c.pdtCount ∧
      Least pages (0x200 * 0x200 * 0x200) c.pdptCount ∧ c.pml4tCount = 0
  | .type64 => Least pages 0x200 c.ptCount ∧ Least pages (0x200 * 0x200) c.pdtCount ∧
      Least pages (0x200 * 0x200 * 0x200) c.pdptCount ∧
      Least pages (0x200 * 0x200 * 0x200 * 0x200) c.pml4tCount

theorem ptEntriesCount_least (totalMemoryBytes : Nat) :
    Least totalMemoryBytes 0x1000 (ptEntriesCount totalMemoryBytes) :=
  Least.of_ceil (by decide) rfl

theorem ptCountOf_least (type : MemoryMapType) (totalMemoryBytes : Nat) :
    Least (ptEntriesCount totalMemoryBytes) (ptEntriesPerPT type)
      (ptCountOf type totalMemoryBytes) := by
  refine Least.of_ceil ?_ rfl
  cases type <;> decide

theorem upperCount_least {n : Nat} (hn : 0 < n) : Least n 0x200 (upperCount n) := by
  unfold upperCount
  by_cases hmany : n > 0x200
  · rw [if_pos hmany]
    simp only
    rw [if_neg (by omega)]
    exact Least.of_ceil (by decide) rfl
  · rw [if_neg hmany]
    exact Least.one hn (by omega)

theorem Least.pos {n per count : Nat} (h : Least n per count) (hn : 0 < n) : 0 < count := by
  have hcovers := h.covers
  by_contra hzero
  have : count = 0 := by omega
  subst this
  omega

theorem Least.le {n per count bound : Nat} (h : Least n per count) (hle : n ≤ bound * per) :
    count ≤ bound :=
  h.least bound hle

/-- The counts of a mode are the least ones, and they are small. -/
theorem counts_least {type : MemoryMapType} {totalMemoryBytes : Nat} (hpos : 0 < totalMemoryBytes)
    (hcovers : type.Covers totalMemoryBytes) :
    LeastCounts type (ptEntriesCount totalMemoryBytes) (counts type totalMemoryBytes) ∧
    (counts type totalMemoryBytes).total * 0x1000 + 0x1000 ≤
      if type = .type64 then 2 ^ 64 else 2 ^ 32 := by
  have hpages := ptEntriesCount_least totalMemoryBytes
  have hpages0 := hpages.pos hpos
  have hpt := ptCountOf_least type totalMemoryBytes
  have hpt0 := hpt.pos hpages0
  have hpdt := upperCount_least hpt0
  have hpdt0 := hpdt.pos hpt0
  have hpdpt := upperCount_least hpdt0
  unfold MemoryMapType.Covers at hcovers
  unfold LeastCounts counts Counts.total
  cases type with
  | type32 =>
    simp only [ptEntriesPerPT, if_true] at hpt
    have hle : ptEntriesCount totalMemoryBytes ≤ 0x400 * 0x400 := hpages.le (by omega)
    have hle' := hpt.le hle
    refine ⟨⟨hpt, Least.one hpages0 hle, rfl, rfl⟩, ?_⟩
    rw [if_neg (by decide)]
    simp only
    omega
  | type32PAE =>
    simp only [ptEntriesPerPT, reduceCtorEq, if_false] at hpt
    have hle : ptEntriesCount totalMemoryBytes ≤ 0x200 * 0x200 * 0x200 := hpages.le (by omega)
    have hle' : _ ≤ 0x200 * 0x200 := hpt.le (by omega)
    have hle'' := hpdt.le hle'
    refine ⟨⟨hpt, hpt.mul hpdt, Least.one hpages0 hle, rfl⟩, ?_⟩
    rw [if_neg (by decide)]
    simp only
    omega
  | type64 =>
    simp only [ptEntriesPerPT, reduceCtorEq, if_false] at hpt
    have hle : ptEntriesCount totalMemoryBytes ≤ 0x200 * 0x200 * 0x200 * 0x200 :=
      hpages.le (by omega)
    have hle' : _ ≤ 0x200 * 0x200 * 0x200 := hpt.le (by omega)
    have hle'' : _ ≤ 0x200 * 0x200 := hpdt.le (by omega)
    have hle''' := hpdpt.le hle''
    refine ⟨⟨hpt, hpt.mul hpdt,
      (hpt.mul hpdt).mul hpdpt, Least.one hpages0 hle⟩, ?_⟩
    rw [if_pos rfl]
    simp only
    omega

/-! ## Tables -/

/-- The page `k` of a block. -/
def tableAt (t : Target) (address k : Nat) : Nat := t.pointerAdd address (0x1000 * k)

theorem tableAt_succ (t : Target) (address k : Nat) :
    t.pointerAdd (tableAt t address k) 0x1000 = tableAt t address (k + 1) := by
  unfold tableAt Target.pointerAdd
  rw [Nat.mod_add_mod, Nat.add_assoc, Nat.mul_succ]

/-- The first `k` pages of the block are tables, and the rest of the memory is as it was. -/
structure Filled (t : Target) (address : Nat) (m : Memory) (k : Nat) (s : Fill) : Prop where
  p : s.p = tableAt t address k
  tables : s.tables = (List.range k).map (tableAt t address)
  frame : ∀ b, (∀ i, i < k → b < tableAt t address i ∨ tableAt t address i + 0x1000 ≤ b) →
    s.memory b = m b

/-- A round clears and fills the table at the running pointer. -/
structure Round (t : Target) (s s' : Fill) : Prop where
  p : s'.p = t.pointerAdd s.p 0x1000
  tables : s'.tables = s.tables ++ [s.p]
  page : InPage s.p s.memory s'.memory

section Fill

variable {t : Target} {address k n : Nat} {m : Memory} {s s' : Fill}

theorem Filled.round (h : Filled t address m k s) (hround : Round t s s') :
    Filled t address m (k + 1) s' where
  p := by rw [hround.p, h.p, tableAt_succ]
  tables := by rw [hround.tables, h.tables, h.p, List.range_succ, List.map_append,
    List.map_singleton]
  frame b hb := by
    rw [hround.page b (by rw [h.p]; exact hb k (Nat.lt_succ_self k))]
    exact h.frame b fun i hi => hb i (Nat.lt_succ_of_lt hi)

/-- The loops over the tables of a kind. -/
theorem Filled.loop {body : Nat → Nat × Fill → Nat × Fill} {x : Nat × Fill}
    (h : Filled t address m k x.2) (hbody : ∀ i x, Round t x.2 (body i x).2) (n : Nat) :
    Filled t address m (k + n) (forLoop body n x).2 :=
  forLoop_inv body n x (fun i y => Filled t address m (k + i) y.2) h
    fun i y _ hy => hy.round (hbody i y)

/-- The loops over the entries of a table. -/
theorem inPage_forLoop {table : Nat} {body : Nat → Nat × Memory → Nat × Memory}
    (hbody : ∀ j x, InPage table x.2 (body j x).2) (n : Nat) (x : Nat × Memory) :
    InPage table x.2 (forLoop body n x).2 :=
  forLoop_inv body n x (fun _ y => InPage table x.2 y.2) (InPage.refl _ _)
    fun j y _ hy => hy.trans (hbody j y)

theorem inPage_forBreak {table : Nat} {stop : Nat → Bool}
    {body : Nat → Nat × Memory → Nat × Memory} (hbody : ∀ j x, InPage table x.2 (body j x).2)
    (n i : Nat) (x : Nat × Memory) : InPage table x.2 (forBreak stop body i n x).2 := by
  induction n generalizing i x with
  | zero => exact InPage.refl _ _
  | succ n ih =>
    rw [forBreak]
    split
    · exact InPage.refl _ _
    · exact (hbody i x).trans (ih (i + 1) (body i x))

theorem inPage_visitZone {table entry : Nat} (hentry : EntryOf t table entry)
    (mapEnd address : Nat) (zone : Zone) (x : Bool × Memory) :
    InPage table x.2 (visitZone t mapEnd entry address zone x).2 := by
  have husable : InPage table x.2
      (if zone.type = .usable then PTEntrySetFlag t entry flagWriteable true x.2 else x.2) := by
    split
    · exact inPage_entrySetFlag hentry _ _
    · exact InPage.refl _ _
  unfold visitZone
  simp only
  split
  · split
    · exact husable.trans (inPage_entrySetFlag hentry _ _)
    · exact husable
  · exact InPage.refl _ _

theorem inPage_zones {table entry : Nat} (hentry : EntryOf t table entry)
    (mapEnd address : Nat) (zones : List Zone) (x : Bool × Memory) :
    InPage table x.2
      (zones.foldl (fun s zone => visitZone t mapEnd entry address zone s) x).2 := by
  induction zones generalizing x with
  | nil => exact InPage.refl _ _
  | cons zone zones ih => exact (inPage_visitZone hentry _ _ _ _).trans (ih _)

theorem inPage_initPTEntry (ht : t.Valid) (totalMemoryBytes mapEnd : Nat) (zones : List Zone)
    (pt j : Nat) (x : Nat × Memory) :
    InPage pt x.2 (initPTEntry t totalMemoryBytes mapEnd zones pt j x).2 := by
  have hentry : EntryOf t pt (PTGetEntryAtIndex t pt j) := entryOf_tableGetEntryAtIndex ht pt j
  unfold initPTEntry
  simp only
  split
  · exact InPage.refl _ _
  · have hzones := (inPage_entrySetAddress (m := x.2) hentry x.1).trans
      (inPage_zones hentry mapEnd x.1 zones (false, _))
    split
    · exact hzones.trans (inPage_entrySetFlag hentry _ _)
    · exact hzones

theorem round_initPT (ht : t.Valid) (totalMemoryBytes mapEnd : Nat) (zones : List Zone)
    (perPT i : Nat) (x : Nat × Fill) :
    Round t x.2 (initPT t totalMemoryBytes mapEnd zones perPT i x).2 where
  p := rfl
  tables := rfl
  page := (inPage_tableClear _ _).trans
    (inPage_forLoop (fun j y => inPage_initPTEntry ht _ _ _ _ j y) perPT (x.1, _))

theorem round_initTable {initEntry : Nat → Nat → Nat × Memory → Nat × Memory}
    (hentry : ∀ table j x, InPage table x.2 (initEntry table j x).2) (perPT childCount i : Nat)
    (x : Nat × Fill) : Round t x.2 (initTable t tableClear initEntry perPT childCount i x).2 where
  p := rfl
  tables := rfl
  page := (inPage_tableClear _ _).trans
    (inPage_forBreak (fun j y => hentry _ j y) perPT 0 (x.1, _))

theorem inPage_initPDTEntry (ht : t.Valid) (pdt j : Nat) (x : Nat × Memory) :
    InPage pdt x.2 (initPDTEntry t pdt j x).2 := by
  have hentry := entryOf_tableGetEntryAtIndex ht pdt j
  exact ((inPage_entrySetAddress hentry _).trans (inPage_entrySetFlag hentry _ _)).trans
    (inPage_entrySetFlag hentry _ _)

theorem inPage_initPDPTEntry (t : Target) (type : MemoryMapType) (pdpt j : Nat) (x : Nat × Memory) :
    InPage pdpt x.2 (initPDPTEntry t type pdpt j x).2 := by
  have hentry := entryOf_PDPTGetEntryAtIndex t pdpt j
  have hpresent := (inPage_entrySetAddress (m := x.2) hentry x.1).trans
    (inPage_entrySetFlag hentry flagPresent true)
  unfold initPDPTEntry
  simp only
  split
  · exact hpresent.trans (inPage_entrySetFlag hentry _ _)
  · exact hpresent

theorem inPage_initPML4TEntry (t : Target) (pml4t j : Nat) (x : Nat × Memory) :
    InPage pml4t x.2 (initPML4TEntry t pml4t j x).2 := by
  have hentry := entryOf_PML4TGetEntryAtIndex t pml4t j
  exact ((inPage_entrySetAddress hentry _).trans (inPage_entrySetFlag hentry _ _)).trans
    (inPage_entrySetFlag hentry _ _)

/-- The loops take the pages of the block, as many as there are tables. -/
theorem filled_initTables (ht : t.Valid) (type : MemoryMapType) (totalMemoryBytes : Nat)
    (zones : List Zone) {address : Nat} (haddress : address < 2 ^ t.pointerBits) (m : Memory) :
    Filled t address m (counts type totalMemoryBytes).total
      (initTables t type totalMemoryBytes zones address m).2 := by
  have hstart : Filled t address m 0 ⟨m, address, []⟩ := by
    refine ⟨?_, rfl, fun _ _ => rfl⟩
    unfold tableAt Target.pointerAdd
    rw [Nat.mul_zero, Nat.add_zero, Nat.mod_eq_of_lt haddress]
  have hpts := fun c : Counts => (Filled.loop (x := (0, _)) hstart
    (fun i x => round_initPT ht totalMemoryBytes ((address + mapMemory c) % 2 ^ 64) zones
      (ptEntriesPerPT type) i x) c.ptCount)
  have hpdts := fun c : Counts => Filled.loop (x := (address, _)) (hpts c)
    (fun i x => round_initTable (fun table j x => inPage_initPDTEntry ht table j x)
      (ptEntriesPerPT type) c.ptCount i x) c.pdtCount
  have hpdpts := fun c : Counts => Filled.loop (hpdts c)
    (fun i x => round_initTable (fun table j x => inPage_initPDPTEntry t type table j x)
      (ptEntriesPerPT type) c.pdtCount i x) c.pdptCount
  have hpml4ts := fun c : Counts => Filled.loop (hpdpts c)
    (fun i x => round_initTable (fun table j x => inPage_initPML4TEntry t table j x)
      (ptEntriesPerPT type) c.pdptCount i x) c.pml4tCount
  unfold Counts.total
  cases type with
  | type32 =>
    have h := hpdts (counts .type32 totalMemoryBytes)
    rw [Nat.zero_add] at h
    exact h
  | type32PAE =>
    have h := hpdpts (counts .type32PAE totalMemoryBytes)
    rw [Nat.zero_add] at h
    exact h
  | type64 =>
    have h := hpml4ts (counts .type64 totalMemoryBytes)
    rw [Nat.zero_add] at h
    exact h

end Fill

/-! ## The block -/

/-- The target of a paging mode. -/
def MemoryMapType.target : MemoryMapType → Target
  | .type32 => ⟨false, false⟩
  | .type32PAE => ⟨false, true⟩
  | .type64 => ⟨true, true⟩

theorem MemoryMapType.target_valid (type : MemoryMapType) : type.target.Valid := by
  unfold Target.Valid
  cases type <;> decide

/-- Two pages do not overlap. -/
def Apart (table table' : Nat) : Prop := table + 0x1000 ≤ table' ∨ table' + 0x1000 ≤ table

theorem tableAt_apart {t : Target} {address k k' n : Nat} (hlt : k < k') (hk' : k' < n)
    (hn : n * 0x1000 + 0x1000 ≤ 2 ^ t.pointerBits) :
    Apart (tableAt t address k) (tableAt t address k') := by
  unfold Apart tableAt Target.pointerAdd
  unfold Target.pointerBits at hn ⊢
  cases hlp64 : t.lp64 with
  | false =>
    simp only [hlp64, Bool.false_eq_true, if_false] at hn ⊢
    omega
  | true =>
    simp only [hlp64, if_true] at hn ⊢
    omega

/-- The tables of a system map are as many as the memory needs, and they are the pages of
its block. -/
theorem initTables_sized {type : MemoryMapType} {totalMemoryBytes : Nat}
    (hpos : 0 < totalMemoryBytes) (hcovers : type.Covers totalMemoryBytes) (zones : List Zone)
    {address : Nat} (haddress : address < 2 ^ type.target.pointerBits) (m : Memory) :
    let c := counts type totalMemoryBytes
    let s := (initTables type.target type totalMemoryBytes zones address m).2
    Least totalMemoryBytes 0x1000 (ptEntriesCount totalMemoryBytes) ∧
    LeastCounts type (ptEntriesCount totalMemoryBytes) c ∧
    s.tables = (List.range c.total).map (tableAt type.target address) ∧
    s.tables.Pairwise Apart ∧
    (∀ b, (∀ table ∈ s.tables, b < table ∨ table + 0x1000 ≤ b) → s.memory b = m b) ∧
    s.p = type.target.pointerAdd address (mapMemory c) := by
  intro c s
  obtain ⟨hleast, htotal⟩ := counts_least hpos hcovers
  have hfilled : Filled type.target address m c.total s :=
    filled_initTables type.target_valid type totalMemoryBytes zones haddress m
  have hroom : c.total * 0x1000 + 0x1000 ≤ 2 ^ type.target.pointerBits := by
    cases type <;> exact htotal
  refine ⟨ptEntriesCount_least totalMemoryBytes, hleast, hfilled.tables, ?_, ?_, ?_⟩
  · rw [hfilled.tables]
    refine List.pairwise_map.mpr (List.pairwise_lt_range.imp_of_mem ?_)
    intro k k' _ hk' hlt
    exact tableAt_apart hlt (List.mem_range.mp hk') hroom
  · intro b hb
    refine hfilled.frame b fun i hi => hb _ ?_
    rw [hfilled.tables]
    exact List.mem_map_of_mem (List.mem_range.mpr hi)
  · rw [hfilled.p]
    unfold tableAt mapMemory Counts.total
    congr 1
    ring

/-- 16 MB without PAE: four page tables and their directory. -/
theorem initTables_sized_16M :
    let c := counts .type32 0x1000000
    let s := (initTables MemoryMapType.type32.target .type32 0x1000000 [] 0x200000 fun _ => 0).2
    Least 0x1000000 0x1000 (ptEntriesCount 0x1000000) ∧
    LeastCounts .type32 (ptEntriesCount 0x1000000) c ∧
    s.tables = (List.range c.total).map (tableAt MemoryMapType.type32.target 0x200000) ∧
    s.tables.Pairwise Apart ∧
    (∀ b, (∀ table ∈ s.tables, b < table ∨ table + 0x1000 ≤ b) → s.memory b = 0) ∧
    s.p = MemoryMapType.type32.target.pointerAdd 0x200000 (mapMemory c) :=
  initTables_sized (by decide) (show MemoryMapType.Covers .type32 0x1000000 by
    unfold MemoryMapType.Covers; decide) [] (by decide) _

end Xeos.Vm
