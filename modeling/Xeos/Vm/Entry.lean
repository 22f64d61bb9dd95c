import Xeos.Lib.Memory

/-!
# Page tables and their entries

The functions `XEOS_VM_*` on the four kinds of page tables.  A table and an entry are
addresses.  What the code does depends on the target it is compiled for, and on the PAE
bit of the processor: an entry has 8 bytes on x86-64 and with PAE, and 4 bytes otherwise.

The functions of one name do the same for every kind of table, but for
`XEOS_VM_PDPTGetEntryAtIndex` and `XEOS_VM_PML4TGetEntryAtIndex`.
-/

namespace Xeos.Vm

open Lib

/-- `__LP64__`, and the result of `XEOS_HAL_CPU_PAEEnabled`. -/
structure Target where
  lp64 : Bool
  paeEnabled : Bool

namespace Target

/-- The bits of a pointer. -/
def pointerBits (t : Target) : Nat := if t.lp64 then 64 else 32

/-- A pointer to bytes, moved. -/
def pointerAdd (t : Target) (p n : Nat) : Nat := (p + n) % 2 ^ t.pointerBits

/-- The bytes of an entry. -/
def entryBytes (t : Target) : Nat := if t.lp64 || t.paeEnabled then 8 else 4

end Target

/-! ## Tables -/

/-- The functions that clear a table. -/
def tableClear (object : Nat) (m : Memory) : Memory :=
  if object = 0 then m
  else if object &&& 0xFFF ≠ 0 then m
  else m.fill object 0x1000 0

/-- `XEOS_VM_PTClear`. -/
def PTClear : Nat → Memory → Memory := tableClear

/-- `XEOS_VM_PDTClear`. -/
def PDTClear : Nat → Memory → Memory := tableClear

/-- `XEOS_VM_PDPTClear`. -/
def PDPTClear : Nat → Memory → Memory := tableClear

/-- `XEOS_VM_PML4TClear`. -/
def PML4TClear : Nat → Memory → Memory := tableClear

/-- The entry of a page table or a page directory table. -/
def tableGetEntryAtIndex (t : Target) (object i : Nat) : Nat :=
  if object = 0 then 0
  else if object &&& 0xFFF ≠ 0 then 0
  else if t.paeEnabled then
    if i ≥ 512 then 0 else object + 8 * i
  else if i ≥ 1024 then 0
  else object + 4 * i

/-- `XEOS_VM_PTGetEntryAtIndex`. -/
def PTGetEntryAtIndex : Target → Nat → Nat → Nat := tableGetEntryAtIndex

/-- `XEOS_VM_PDTGetEntryAtIndex`. -/
def PDTGetEntryAtIndex : Target → Nat → Nat → Nat := tableGetEntryAtIndex

/-- `XEOS_VM_PDPTGetEntryAtIndex`.  The second test is made with PAE too. -/
def PDPTGetEntryAtIndex (t : Target) (object i : Nat) : Nat :=
  if object = 0 then 0
  else if object &&& 0xFFF ≠ 0 then 0
  else if t.paeEnabled = true ∧ i ≥ 512 then 0
  else if i ≥ 4 then 0
  else object + 8 * i

/-- `XEOS_VM_PML4TGetEntryAtIndex`. -/
def PML4TGetEntryAtIndex (object i : Nat) : Nat :=
  if object = 0 then 0
  else if object &&& 0xFFF ≠ 0 then 0
  else if i ≥ 512 then 0
  else object + 8 * i

/-! ## Entries -/

/-- `*object &= mask; *object |= value`. -/
def entryUpdate (t : Target) (object mask value : Nat) (m : Memory) : Memory :=
  m.store object t.entryBytes ((m.load object t.entryBytes &&& mask) ||| value)

/-- The functions that set the address of an entry. -/
def entrySetAddress (t : Target) (object address : Nat) (m : Memory) : Memory :=
  if object = 0 then m
  else if address &&& 0xFFF ≠ 0 then m
  else entryUpdate t object 0xFFF address m

/-- `XEOS_VM_PTEntrySetAddress`. -/
def PTEntrySetAddress : Target → Nat → Nat → Memory → Memory := entrySetAddress

/-- `XEOS_VM_PDTEntrySetPT`. -/
def PDTEntrySetPT : Target → Nat → Nat → Memory → Memory := entrySetAddress

/-- `XEOS_VM_PDPTEntrySetPDT`. -/
def PDPTEntrySetPDT : Target → Nat → Nat → Memory → Memory := entrySetAddress

/-- `XEOS_VM_PML4TEntrySetPDPT`. -/
def PML4TEntrySetPDPT : Target → Nat → Nat → Memory → Memory := entrySetAddress

/-- The functions that set or clear a flag of an entry. -/
def entrySetFlag (t : Target) (object flag : Nat) (value : Bool) (m : Memory) : Memory :=
  if object = 0 then m
  else entryUpdate t object (2 ^ (8 * t.entryBytes) - 1 - flag) (if value then flag else 0) m

/-- `XEOS_VM_PTEntrySetFlag`. -/
def PTEntrySetFlag : Target → Nat → Nat → Bool → Memory → Memory := entrySetFlag

/-- `XEOS_VM_PDTEntrySetFlag`. -/
def PDTEntrySetFlag : Target → Nat → Nat → Bool → Memory → Memory := entrySetFlag

/-- `XEOS_VM_PDPTEntrySetFlag`. -/
def PDPTEntrySetFlag : Target → Nat → Nat → Bool → Memory → Memory := entrySetFlag

/-- `XEOS_VM_PML4TEntrySetFlag`. -/
def PML4TEntrySetFlag : Target → Nat → Nat → Bool → Memory → Memory := entrySetFlag

/-- The flags `Present` and `Writeable`, which are the same for every kind of entry. -/
def flagPresent : Nat := 1 <<< 0

def flagWriteable : Nat := 1 <<< 1

/-! ## What an operation does not touch -/

/-- The memories agree outside of a page. -/
def InPage (table : Nat) (m m' : Memory) : Prop :=
  ∀ b, (b < table ∨ table + 0x1000 ≤ b) → m' b = m b

section Frame

variable {t : Target} {table entry : Nat} {m m' m'' : Memory}

theorem InPage.refl (table : Nat) (m : Memory) : InPage table m m := fun _ _ => rfl

theorem InPage.trans (h : InPage table m m') (h' : InPage table m' m'') : InPage table m m'' :=
  fun b hb => (h' b hb).trans (h b hb)

theorem inPage_tableClear (table : Nat) (m : Memory) : InPage table m (tableClear table m) := by
  intro b hb
  unfold tableClear
  split
  · rfl
  split
  · rfl
  · exact Memory.fill_of_not_mem _ _ hb

/-- The entry is `NULL`, or it lies in the table. -/
def EntryOf (t : Target) (table entry : Nat) : Prop :=
  entry = 0 ∨ (table ≤ entry ∧ entry + t.entryBytes ≤ table + 0x1000)

theorem inPage_entryUpdate (hentry : EntryOf t table entry) (hne : entry ≠ 0) (mask value : Nat) :
    InPage table m (entryUpdate t entry mask value m) := by
  intro b hb
  have hin := hentry.resolve_left hne
  exact Memory.store_of_not_mem _ _ (by omega)

theorem inPage_entrySetAddress (hentry : EntryOf t table entry) (address : Nat) :
    InPage table m (entrySetAddress t entry address m) := by
  unfold entrySetAddress
  split
  · exact InPage.refl _ _
  split
  · exact InPage.refl _ _
  · next hne _ => exact inPage_entryUpdate hentry hne _ _

theorem inPage_entrySetFlag (hentry : EntryOf t table entry) (flag : Nat) (value : Bool) :
    InPage table m (entrySetFlag t entry flag value m) := by
  unfold entrySetFlag
  split
  · exact InPage.refl _ _
  · next hne => exact inPage_entryUpdate hentry hne _ _

/-- On x86-64 PAE is always enabled. -/
def Target.Valid (t : Target) : Prop := t.lp64 = true → t.paeEnabled = true

theorem entryOf_tableGetEntryAtIndex (ht : t.Valid) (table i : Nat) :
    EntryOf t table (tableGetEntryAtIndex t table i) := by
  unfold tableGetEntryAtIndex EntryOf Target.entryBytes
  split
  · exact .inl rfl
  split
  · exact .inl rfl
  split
  · next hpae =>
    split
    · exact .inl rfl
    · rw [hpae, Bool.or_true, if_pos rfl]
      omega
  · next hpae =>
    split
    · exact .inl rfl
    · have hlp64 : t.lp64 = false := Bool.eq_false_iff.mpr fun h => hpae (ht h)
      rw [hlp64, Bool.eq_false_iff.mpr hpae, Bool.or_false, if_neg Bool.false_ne_true]
      omega

theorem Target.entryBytes_le (t : Target) : t.entryBytes ≤ 8 := by
  unfold entryBytes
  split <;> omega

theorem entryOf_PDPTGetEntryAtIndex (t : Target) (table i : Nat) :
    EntryOf t table (PDPTGetEntryAtIndex t table i) := by
  have hle := t.entryBytes_le
  unfold PDPTGetEntryAtIndex EntryOf
  repeat' split
  all_goals omega

theorem entryOf_PML4TGetEntryAtIndex (t : Target) (table i : Nat) :
    EntryOf t table (PML4TGetEntryAtIndex table i) := by
  have hle := t.entryBytes_le
  unfold PML4TGetEntryAtIndex EntryOf
  repeat' split
  all_goals omega

end Frame

end Xeos.Vm
