import Xeos.Lib.Bits
import Xeos.Vm.Content

/-!
# The accessors of an entry

The functions `XEOS_VM_*EntryGet*` that read the address and the flags of an entry back,
and what they give after the functions that set them.  The address and every flag of an
entry have bits of their own, in the format with four bytes and in the one with eight, so
that each is read as it was set and no other changes with it.
-/

namespace Xeos.Vm

open Lib

/-! ## Reading an entry -/

/-- The functions that return the address of an entry. -/
def entryGetAddress (t : Target) (object : Nat) (m : Memory) : Nat :=
  if object = 0 then 0
  else m.load object t.entryBytes &&& (2 ^ (8 * t.entryBytes) - 1 - 0xFFF)

/-- `XEOS_VM_PTEntryGetAddress`. -/
def PTEntryGetAddress : Target → Nat → Memory → Nat := entryGetAddress

/-- The functions that return the address of an entry as a pointer to a table. -/
def entryGetTable (t : Target) (object : Nat) (m : Memory) : Nat :=
  entryGetAddress t object m % 2 ^ t.pointerBits

/-- `XEOS_VM_PDTEntryGetPT`. -/
def PDTEntryGetPT : Target → Nat → Memory → Nat := entryGetTable

/-- `XEOS_VM_PDPTEntryGetPDT`. -/
def PDPTEntryGetPDT : Target → Nat → Memory → Nat := entryGetTable

/-- `XEOS_VM_PML4TEntryGetPDPT`. -/
def PML4TEntryGetPDPT : Target → Nat → Memory → Nat := entryGetTable

/-- The functions that return a flag of an entry. -/
def entryGetFlag (t : Target) (object flag : Nat) (m : Memory) : Bool :=
  if object = 0 then false
  else decide (m.load object t.entryBytes &&& flag ≠ 0)

/-- `XEOS_VM_PTEntryGetFlag`. -/
def PTEntryGetFlag : Target → Nat → Nat → Memory → Bool := entryGetFlag

/-- `XEOS_VM_PDTEntryGetFlag`. -/
def PDTEntryGetFlag : Target → Nat → Nat → Memory → Bool := entryGetFlag

/-- `XEOS_VM_PDPTEntryGetFlag`. -/
def PDPTEntryGetFlag : Target → Nat → Nat → Memory → Bool := entryGetFlag

/-- `XEOS_VM_PML4TEntryGetFlag`. -/
def PML4TEntryGetFlag : Target → Nat → Nat → Memory → Bool := entryGetFlag

/-! ## The flags -/

/-- `XEOS_VM_PML4TEntryFlag`. -/
inductive PML4TEntryFlag where
  | present
  | writeable

/-- `XEOS_VM_PDPTEntryFlag`. -/
inductive PDPTEntryFlag where
  | present
  | writeable

/-- `XEOS_VM_PDTEntryFlag`. -/
inductive PDTEntryFlag where
  | present
  | writeable
  | user
  | writeThrough
  | cacheDisbled
  | accessed
  | pageSize
  | gLobal

/-- `XEOS_VM_PTEntryFlag`. -/
inductive PTEntryFlag where
  | present
  | writeable
  | user
  | writeThrough
  | cacheDisbled
  | accessed
  | dirty
  | gLobal

/-- The bit that a flag shifts `1` to. -/
def PML4TEntryFlag.shift : PML4TEntryFlag → Nat
  | present => 0
  | writeable => 1

def PDPTEntryFlag.shift : PDPTEntryFlag → Nat
  | present => 0
  | writeable => 1

def PDTEntryFlag.shift : PDTEntryFlag → Nat
  | present => 0
  | writeable => 1
  | user => 2
  | writeThrough => 3
  | cacheDisbled => 4
  | accessed => 5
  | pageSize => 6
  | gLobal => 8

def PTEntryFlag.shift : PTEntryFlag → Nat
  | present => 0
  | writeable => 1
  | user => 2
  | writeThrough => 3
  | cacheDisbled => 4
  | accessed => 5
  | dirty => 6
  | gLobal => 8

/-! ## The accessors of one kind of entries -/

/-- The functions on one kind of entries, with the flags of the kind. -/
structure Accessors (Flag : Type) where
  /-- The value of a flag is `1 << shift`. -/
  shift : Flag → Nat
  /-- The bits of the addresses that the functions take and return. -/
  addressBits : Target → Nat
  setAddress : Target → Nat → Nat → Memory → Memory
  getAddress : Target → Nat → Memory → Nat
  setFlag : Target → Nat → Nat → Bool → Memory → Memory
  getFlag : Target → Nat → Nat → Memory → Bool

/-- The entries of a page table.  Their address is a `uint64_t`, of which an entry holds
what it has bits for. -/
def ptEntry : Accessors PTEntryFlag where
  shift := PTEntryFlag.shift
  addressBits t := 8 * t.entryBytes
  setAddress := PTEntrySetAddress
  getAddress := PTEntryGetAddress
  setFlag := PTEntrySetFlag
  getFlag := PTEntryGetFlag

def pdtEntry : Accessors PDTEntryFlag where
  shift := PDTEntryFlag.shift
  addressBits := Target.pointerBits
  setAddress := PDTEntrySetPT
  getAddress := PDTEntryGetPT
  setFlag := PDTEntrySetFlag
  getFlag := PDTEntryGetFlag

def pdptEntry : Accessors PDPTEntryFlag where
  shift := PDPTEntryFlag.shift
  addressBits := Target.pointerBits
  setAddress := PDPTEntrySetPDT
  getAddress := PDPTEntryGetPDT
  setFlag := PDPTEntrySetFlag
  getFlag := PDPTEntryGetFlag

def pml4tEntry : Accessors PML4TEntryFlag where
  shift := PML4TEntryFlag.shift
  addressBits := Target.pointerBits
  setAddress := PML4TEntrySetPDPT
  getAddress := PML4TEntryGetPDPT
  setFlag := PML4TEntrySetFlag
  getFlag := PML4TEntryGetFlag

/-- The address and the flags of an entry are read as they were set, and setting one
leaves the others as they were. -/
structure Accessors.Independent {Flag : Type} (a : Accessors Flag) (t : Target) (object : Nat)
    (m : Memory) : Prop where
  getAddress_setAddress : ∀ address, address % 0x1000 = 0 → address < 2 ^ a.addressBits t →
    a.getAddress t object (a.setAddress t object address m) = address
  getFlag_setAddress : ∀ address, address % 0x1000 = 0 → address < 2 ^ a.addressBits t →
    ∀ flag, a.getFlag t object (1 <<< a.shift flag) (a.setAddress t object address m)
      = a.getFlag t object (1 <<< a.shift flag) m
  getFlag_setFlag : ∀ flag value, a.getFlag t object (1 <<< a.shift flag)
    (a.setFlag t object (1 <<< a.shift flag) value m) = value
  getAddress_setFlag : ∀ flag value,
    a.getAddress t object (a.setFlag t object (1 <<< a.shift flag) value m)
      = a.getAddress t object m
  getFlag_setFlag_of_ne : ∀ flag flag' value, flag' ≠ flag →
    a.getFlag t object (1 <<< a.shift flag') (a.setFlag t object (1 <<< a.shift flag) value m)
      = a.getFlag t object (1 <<< a.shift flag') m

/-! ## The words -/

section Words

variable {t : Target} {object address k : Nat} {m : Memory}

theorem load_lt_entry (t : Target) (object : Nat) (m : Memory) :
    m.load object t.entryBytes < 2 ^ (8 * t.entryBytes) := by
  rw [← pow_entryBytes]
  exact m.load_lt _ _

theorem twelve_lt_entry (t : Target) : 12 < 8 * t.entryBytes := by
  rcases entryBytes_cases t with h | h <;> omega

theorem Target.pointerBits_le (t : Target) : t.pointerBits ≤ 8 * t.entryBytes := by
  unfold pointerBits entryBytes
  cases t.lp64 <;> cases t.paeEnabled <;> decide

/-- The address of an entry is its bits from 12 on. -/
theorem entryGetAddress_eq (hne : object ≠ 0) :
    entryGetAddress t object m = m.load object t.entryBytes / 2 ^ 12 * 2 ^ 12 := by
  have hmask : 2 ^ (8 * t.entryBytes) - 1 - 0xFFF = 2 ^ (8 * t.entryBytes) - 2 ^ 12 :=
    Nat.sub_sub _ 1 0xFFF
  unfold entryGetAddress
  rw [if_neg hne, hmask, and_high_mask (load_lt_entry t object m) (twelve_lt_entry t).le]

/-- A flag of an entry is its bit. -/
theorem entryGetFlag_eq (hne : object ≠ 0) (k : Nat) :
    entryGetFlag t object (1 <<< k) m = (m.load object t.entryBytes).testBit k := by
  unfold entryGetFlag
  rw [if_neg hne, Nat.one_shiftLeft, Nat.and_two_pow]
  cases (m.load object t.entryBytes).testBit k <;> simp

/-- The word with a new address keeps its low bits. -/
theorem load_entrySetAddress_or (hne : object ≠ 0) (haligned : address % 0x1000 = 0)
    (hlt : address < 2 ^ (8 * t.entryBytes)) :
    (entrySetAddress t object address m).load object t.entryBytes
      = address + m.load object t.entryBytes % 2 ^ 12 := by
  have hmask : address &&& 0xFFF = 0 :=
    (Nat.and_two_pow_sub_one_eq_mod address 12).trans haligned
  have hlow : m.load object t.entryBytes &&& 0xFFF = m.load object t.entryBytes % 2 ^ 12 :=
    Nat.and_two_pow_sub_one_eq_mod _ 12
  have hrest : m.load object t.entryBytes % 2 ^ 12 < 2 ^ 12 := Nat.mod_lt _ (by decide)
  have hor : m.load object t.entryBytes % 2 ^ 12 ||| address
      = address + m.load object t.entryBytes % 2 ^ 12 := by
    obtain ⟨q, rfl⟩ := Nat.dvd_of_mod_eq_zero haligned
    rw [Nat.or_comm]
    exact (Nat.two_pow_add_eq_or_of_lt hrest q).symm
  have hfits : address + m.load object t.entryBytes % 2 ^ 12 < 2 ^ (8 * t.entryBytes) := by
    rw [← hor]
    exact Nat.or_lt_two_pow
      (hrest.trans (Nat.pow_lt_pow_right (by decide) (twelve_lt_entry t))) hlt
  unfold entrySetAddress entryUpdate
  rw [if_neg hne, if_neg (not_not.mpr hmask), Memory.load_store, hlow, hor, pow_entryBytes,
    Nat.mod_eq_of_lt hfits]

/-- The word with a new flag keeps its other bits. -/
theorem testBit_load_entrySetFlag (hne : object ≠ 0) (hk : k < 12) (value : Bool) (j : Nat) :
    ((entrySetFlag t object (1 <<< k) value m).load object t.entryBytes).testBit j
      = if j = k then value else (m.load object t.entryBytes).testBit j := by
  have hbits := twelve_lt_entry t
  have hflag : 2 ^ k < 2 ^ (8 * t.entryBytes) := Nat.pow_lt_pow_right (by decide) (by omega)
  have hhigh : ∀ i, ¬ i < 8 * t.entryBytes → (m.load object t.entryBytes).testBit i = false := by
    intro i hi
    exact Nat.testBit_lt_two_pow ((load_lt_entry t object m).trans_le
      (Nat.pow_le_pow_right (by decide) (by omega)))
  unfold entrySetFlag entryUpdate
  rw [if_neg hne, Memory.load_store, pow_entryBytes, Nat.one_shiftLeft, Nat.testBit_mod_two_pow,
    Nat.testBit_or, Nat.testBit_and, Nat.sub_sub, Nat.add_comm 1,
    Nat.testBit_two_pow_sub_succ hflag, Nat.testBit_two_pow]
  by_cases hj : j = k
  · subst hj
    cases value <;> simp [show j < 8 * t.entryBytes by omega]
  · by_cases hin : j < 8 * t.entryBytes
    · cases value <;> simp [hj, hin, Ne.symm hj]
    · simp [hj, hin, hhigh j hin]

end Words

/-! ## One kind of entries -/

section Kind

variable {t : Target} {object address k : Nat} {m : Memory}

theorem entryGetAddress_entrySetAddress (hne : object ≠ 0) (haligned : address % 0x1000 = 0)
    (hlt : address < 2 ^ (8 * t.entryBytes)) :
    entryGetAddress t object (entrySetAddress t object address m) = address := by
  rw [entryGetAddress_eq hne, load_entrySetAddress_or hne haligned hlt]
  omega

theorem entryGetFlag_entrySetAddress (hne : object ≠ 0) (haligned : address % 0x1000 = 0)
    (hlt : address < 2 ^ (8 * t.entryBytes)) (hk : k < 12) :
    entryGetFlag t object (1 <<< k) (entrySetAddress t object address m)
      = entryGetFlag t object (1 <<< k) m := by
  have hlow : (address + m.load object t.entryBytes % 2 ^ 12) % 2 ^ 12
      = m.load object t.entryBytes % 2 ^ 12 := by omega
  have hbit : ∀ x : Nat, x.testBit k = (x % 2 ^ 12).testBit k := by
    intro x
    rw [Nat.testBit_mod_two_pow, decide_eq_true hk, Bool.true_and]
  rw [entryGetFlag_eq hne, entryGetFlag_eq hne, load_entrySetAddress_or hne haligned hlt, hbit,
    hlow, ← hbit]

theorem entryGetFlag_entrySetFlag (hne : object ≠ 0) (hk : k < 12) (value : Bool) (j : Nat) :
    entryGetFlag t object (1 <<< j) (entrySetFlag t object (1 <<< k) value m)
      = if j = k then value else entryGetFlag t object (1 <<< j) m := by
  rw [entryGetFlag_eq hne, entryGetFlag_eq hne, testBit_load_entrySetFlag hne hk]

theorem entryGetAddress_entrySetFlag (hne : object ≠ 0) (hk : k < 12) (value : Bool) :
    entryGetAddress t object (entrySetFlag t object (1 <<< k) value m)
      = entryGetAddress t object m := by
  have hquot : (entrySetFlag t object (1 <<< k) value m).load object t.entryBytes / 2 ^ 12
      = m.load object t.entryBytes / 2 ^ 12 := by
    apply Nat.eq_of_testBit_eq
    intro i
    rw [Nat.testBit_div_two_pow, Nat.testBit_div_two_pow, testBit_load_entrySetFlag hne hk,
      if_neg (show i + 12 ≠ k by omega)]
  rw [entryGetAddress_eq hne, entryGetAddress_eq hne, hquot]

/-- The accessors of a kind are independent when its flags are bits of their own below the
address. -/
theorem Accessors.independent_of {Flag : Type} {a : Accessors Flag}
    (hlt : ∀ flag, a.shift flag < 12)
    (hinjective : ∀ flag flag', a.shift flag' = a.shift flag → flag' = flag)
    (hsetAddress : a.setAddress = entrySetAddress) (hsetFlag : a.setFlag = entrySetFlag)
    (hgetFlag : a.getFlag = entryGetFlag)
    (hgetAddress : ∀ t object m,
      a.getAddress t object m = entryGetAddress t object m % 2 ^ a.addressBits t)
    (hbits : ∀ t, a.addressBits t ≤ 8 * t.entryBytes) (t : Target) {object : Nat}
    (hne : object ≠ 0) (m : Memory) : a.Independent t object m := by
  have hentry : ∀ address, address < 2 ^ a.addressBits t → address < 2 ^ (8 * t.entryBytes) :=
    fun address h => h.trans_le (Nat.pow_le_pow_right (by decide) (hbits t))
  constructor
  · intro address haligned h
    rw [hgetAddress, hsetAddress,
      entryGetAddress_entrySetAddress hne haligned (hentry address h), Nat.mod_eq_of_lt h]
  · intro address haligned h flag
    rw [hgetFlag, hsetAddress,
      entryGetFlag_entrySetAddress hne haligned (hentry address h) (hlt flag)]
  · intro flag value
    rw [hgetFlag, hsetFlag, entryGetFlag_entrySetFlag hne (hlt flag), if_pos rfl]
  · intro flag value
    rw [hgetAddress, hgetAddress, hsetFlag, entryGetAddress_entrySetFlag hne (hlt flag)]
  · intro flag flag' value hflag
    have hshift : a.shift flag' ≠ a.shift flag := fun h => hflag (hinjective flag flag' h)
    rw [hgetFlag, hsetFlag, entryGetFlag_entrySetFlag hne (hlt flag), if_neg hshift]

end Kind

/-! ## The four kinds -/

theorem PTEntryGetAddress_mod (t : Target) (object : Nat) (m : Memory) :
    PTEntryGetAddress t object m = entryGetAddress t object m % 2 ^ (8 * t.entryBytes) := by
  have hlt : entryGetAddress t object m < 2 ^ (8 * t.entryBytes) := by
    unfold entryGetAddress
    split
    · exact Nat.two_pow_pos _
    · exact Nat.and_le_left.trans_lt (load_lt_entry t object m)
  exact (Nat.mod_eq_of_lt hlt).symm

/-- The accessors of the four kinds of entries are independent lenses on every entry. -/
theorem entryAccessors_independent (t : Target) (object : Nat) (hne : object ≠ 0) (m : Memory) :
    ptEntry.Independent t object m ∧ pdtEntry.Independent t object m ∧
    pdptEntry.Independent t object m ∧ pml4tEntry.Independent t object m := by
  refine ⟨?pt, ?pdt, ?pdpt, ?pml4t⟩
  case pt =>
    refine Accessors.independent_of ?_ ?_ rfl rfl rfl PTEntryGetAddress_mod (fun _ => le_rfl)
      t hne m
    · intro flag
      cases flag <;> decide
    · intro flag flag' h
      cases flag <;> cases flag' <;> first | rfl | cases h
  case pdt =>
    refine Accessors.independent_of ?_ ?_ rfl rfl rfl (fun _ _ _ => rfl) Target.pointerBits_le
      t hne m
    · intro flag
      cases flag <;> decide
    · intro flag flag' h
      cases flag <;> cases flag' <;> first | rfl | cases h
  case pdpt =>
    refine Accessors.independent_of ?_ ?_ rfl rfl rfl (fun _ _ _ => rfl) Target.pointerBits_le
      t hne m
    · intro flag
      cases flag <;> decide
    · intro flag flag' h
      cases flag <;> cases flag' <;> first | rfl | cases h
  case pml4t =>
    refine Accessors.independent_of ?_ ?_ rfl rfl rfl (fun _ _ _ => rfl) Target.pointerBits_le
      t hne m
    · intro flag
      cases flag <;> decide
    · intro flag flag' h
      cases flag <;> cases flag' <;> first | rfl | cases h

theorem entryAccessors_independent_pae :
    ptEntry.Independent ⟨false, true⟩ 0x101008 (fun _ => 0xFF) ∧
    pdtEntry.Independent ⟨false, true⟩ 0x101008 (fun _ => 0xFF) ∧
    pdptEntry.Independent ⟨false, true⟩ 0x101008 (fun _ => 0xFF) ∧
    pml4tEntry.Independent ⟨false, true⟩ 0x101008 (fun _ => 0xFF) :=
  entryAccessors_independent ⟨false, true⟩ 0x101008 (by decide) _

end Xeos.Vm
