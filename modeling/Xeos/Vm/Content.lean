import Xeos.Vm.Sizing

/-!
# The entries of the tables

What the loops over the entries leave in a table.  An entry is its address with the flags
`Present` and `Writeable` in the low bits, so every operation on one is an equation between
such values, and every operation leaves the other bytes of the memory alone.
-/

namespace Xeos.Vm

open Lib

/-! ## Values -/

/-- The value of an entry. -/
def entryValue (address : Nat) (present writeable : Bool) : Nat :=
  address + present.toNat + 2 * writeable.toNat

theorem or_flag {q r f : Nat} (hr : r < 4) (hf : f < 4) :
    (0x1000 * q + r) ||| f = 0x1000 * q + (r ||| f) := by
  have hor : r ||| f < 2 ^ 12 := Nat.or_lt_two_pow (by omega) (by omega)
  calc (0x1000 * q + r) ||| f
      = (2 ^ 12 * q ||| r) ||| f := by rw [← Nat.two_pow_add_eq_or_of_lt (by omega)]
    _ = 2 ^ 12 * q ||| (r ||| f) := Nat.or_assoc _ _ _
    _ = 0x1000 * q + (r ||| f) := by rw [← Nat.two_pow_add_eq_or_of_lt hor]

theorem entryValue_or_present {address : Nat} (haligned : address % 0x1000 = 0)
    (present writeable : Bool) :
    entryValue address present writeable ||| flagPresent = entryValue address true writeable := by
  obtain ⟨q, rfl⟩ := Nat.dvd_of_mod_eq_zero haligned
  unfold entryValue
  rw [Nat.add_assoc, Nat.add_assoc]
  cases present <;> cases writeable <;> exact or_flag (by decide) (by decide)

theorem entryValue_or_writeable {address : Nat} (haligned : address % 0x1000 = 0)
    (present writeable : Bool) :
    entryValue address present writeable ||| flagWriteable = entryValue address present true := by
  obtain ⟨q, rfl⟩ := Nat.dvd_of_mod_eq_zero haligned
  unfold entryValue
  rw [Nat.add_assoc, Nat.add_assoc]
  cases present <;> cases writeable <;> exact or_flag (by decide) (by decide)

/-- Setting a flag with the mask that clears it first. -/
theorem and_mask_or {n k x : Nat} (hx : x < 2 ^ n) (hk : k < n) :
    (x &&& (2 ^ n - 1 - 2 ^ k)) ||| 2 ^ k = x ||| 2 ^ k := by
  have hlt : 2 ^ k < 2 ^ n := Nat.pow_lt_pow_right (by decide) hk
  apply Nat.eq_of_testBit_eq
  intro i
  rw [Nat.testBit_or, Nat.testBit_or, Nat.testBit_and, Nat.sub_sub, Nat.add_comm 1,
    Nat.testBit_two_pow_sub_succ hlt, Nat.testBit_two_pow]
  by_cases hi : k = i
  · rw [decide_eq_true hi, Bool.or_true, Bool.or_true]
  · rw [decide_eq_false hi, Bool.not_false, Bool.and_true, Bool.or_false, Bool.or_false]
    by_cases hin : i < n
    · rw [decide_eq_true hin, Bool.and_true]
    · have hhigh : x < 2 ^ i := Nat.lt_of_lt_of_le hx (Nat.pow_le_pow_right (by decide) (by omega))
      rw [Nat.testBit_lt_two_pow hhigh, Bool.false_and]

/-! ## One entry -/

/-- The memories agree outside of an entry. -/
def InEntry (t : Target) (entry : Nat) (m m' : Memory) : Prop :=
  ∀ b, (b < entry ∨ entry + t.entryBytes ≤ b) → m' b = m b

section Entry

variable {t : Target} {entry address : Nat} {m m' m'' : Memory} {present writeable : Bool}

theorem InEntry.refl (t : Target) (entry : Nat) (m : Memory) : InEntry t entry m m :=
  fun _ _ => rfl

theorem InEntry.trans (h : InEntry t entry m m') (h' : InEntry t entry m' m'') :
    InEntry t entry m m'' :=
  fun b hb => (h' b hb).trans (h b hb)

theorem inEntry_entryUpdate (mask value : Nat) :
    InEntry t entry m (entryUpdate t entry mask value m) :=
  fun _ hb => Memory.store_of_not_mem _ _ hb

theorem inEntry_entrySetAddress (address : Nat) :
    InEntry t entry m (entrySetAddress t entry address m) := by
  unfold entrySetAddress
  split
  · exact InEntry.refl _ _ _
  split
  · exact InEntry.refl _ _ _
  · exact inEntry_entryUpdate _ _

theorem inEntry_entrySetFlag (flag : Nat) (value : Bool) :
    InEntry t entry m (entrySetFlag t entry flag value m) := by
  unfold entrySetFlag
  split
  · exact InEntry.refl _ _ _
  · exact inEntry_entryUpdate _ _

theorem entryBytes_cases (t : Target) : t.entryBytes = 4 ∨ t.entryBytes = 8 := by
  unfold Target.entryBytes
  split
  · exact .inr rfl
  · exact .inl rfl

theorem pow_entryBytes (t : Target) : 256 ^ t.entryBytes = 2 ^ (8 * t.entryBytes) := by
  have hbyte : 2 ^ 8 = 256 := rfl
  rw [pow_mul, hbyte]

/-- An aligned address and the flags fit in an entry. -/
theorem entryValue_lt (t : Target) (haligned : address % 0x1000 = 0)
    (hlt : address < 2 ^ (8 * t.entryBytes)) (present writeable : Bool) :
    entryValue address present writeable < 2 ^ (8 * t.entryBytes) := by
  have hpresent := Bool.toNat_le present
  have hwriteable := Bool.toNat_le writeable
  unfold entryValue
  rcases entryBytes_cases t with h | h <;> rw [h] at hlt ⊢ <;> omega

/-- The address of an empty entry. -/
theorem load_entrySetAddress (hne : entry ≠ 0) (haligned : address % 0x1000 = 0)
    (hload : m.load entry t.entryBytes = 0) :
    (entrySetAddress t entry address m).load entry t.entryBytes
      = entryValue (address % 2 ^ (8 * t.entryBytes)) false false := by
  have hmask : address &&& 0xFFF = 0 :=
    (Nat.and_two_pow_sub_one_eq_mod address 12).trans haligned
  unfold entrySetAddress entryUpdate entryValue
  rw [if_neg hne, if_neg (not_not.mpr hmask), Memory.load_store, hload, Nat.zero_and, Nat.zero_or,
    pow_entryBytes]
  rfl

/-- A flag of an entry. -/
theorem load_entrySetFlag {k x : Nat} (hne : entry ≠ 0) (hk : k < 8)
    (hload : m.load entry t.entryBytes = x) :
    (entrySetFlag t entry (2 ^ k) true m).load entry t.entryBytes = x ||| 2 ^ k := by
  have hle := t.entryBytes_le
  have hbytes : 8 ≤ 8 * t.entryBytes := by
    rcases entryBytes_cases t with h | h <;> omega
  have hx : x < 2 ^ (8 * t.entryBytes) := by
    rw [← hload, ← pow_entryBytes]
    exact m.load_lt _ _
  have hflag : 2 ^ k < 2 ^ (8 * t.entryBytes) := Nat.pow_lt_pow_right (by decide) (by omega)
  unfold entrySetFlag entryUpdate
  rw [if_neg hne, if_pos rfl, Memory.load_store, hload, and_mask_or hx (by omega), pow_entryBytes,
    Nat.mod_eq_of_lt (Nat.or_lt_two_pow hx hflag)]

theorem load_entrySetFlag_present (hne : entry ≠ 0) (haligned : address % 0x1000 = 0)
    (hload : m.load entry t.entryBytes = entryValue address present writeable) :
    (entrySetFlag t entry flagPresent true m).load entry t.entryBytes
      = entryValue address true writeable :=
  (load_entrySetFlag (k := 0) hne (by decide) hload).trans (entryValue_or_present haligned _ _)

theorem load_entrySetFlag_writeable (hne : entry ≠ 0) (haligned : address % 0x1000 = 0)
    (hload : m.load entry t.entryBytes = entryValue address present writeable) :
    (entrySetFlag t entry flagWriteable true m).load entry t.entryBytes
      = entryValue address present true :=
  (load_entrySetFlag (k := 1) hne (by decide) hload).trans (entryValue_or_writeable haligned _ _)

end Entry

/-! ## The zones -/

/-- The address lies in the zone. -/
def Zone.Contains (zone : Zone) (address : Nat) : Prop :=
  zone.address ≤ address ∧ address - zone.address < zone.length

instance (zone : Zone) (address : Nat) : Decidable (zone.Contains address) :=
  inferInstanceAs (Decidable (_ ∧ _))

/-- The address lies in some zone. -/
def found (zones : List Zone) (address : Nat) : Bool :=
  zones.any fun zone => zone.Contains address

/-- The address lies in a usable zone. -/
def usable (zones : List Zone) (address : Nat) : Bool :=
  zones.any fun zone => decide (zone.Contains address) && decide (zone.type = .usable)

section Zones

variable {t : Target} {entry address target mapEnd : Nat} {m : Memory}

theorem inEntry_visitZone (zone : Zone) (x : Bool × Memory) :
    InEntry t entry x.2 (visitZone t mapEnd entry address zone x).2 := by
  have husable : InEntry t entry x.2
      (if zone.type = .usable then PTEntrySetFlag t entry flagWriteable true x.2 else x.2) := by
    split
    · exact inEntry_entrySetFlag _ _
    · exact InEntry.refl _ _ _
  unfold visitZone
  simp only
  split
  · split
    · exact husable.trans (inEntry_entrySetFlag _ _)
    · exact husable
  · exact InEntry.refl _ _ _

/-- One zone adds the flags that it gives to the address. -/
theorem visitZone_value (address mapEnd : Nat) (hne : entry ≠ 0) (htarget : target % 0x1000 = 0) (zone : Zone) {f : Bool}
    {present writeable : Bool} (hload : m.load entry t.entryBytes
      = entryValue target present writeable) :
    (visitZone t mapEnd entry address zone (f, m)).1 = (f || decide (zone.Contains address)) ∧
    (visitZone t mapEnd entry address zone (f, m)).2.load entry t.entryBytes
      = entryValue target (present || (decide (zone.Contains address) && decide (address < mapEnd)))
        (writeable || (decide (zone.Contains address) && decide (zone.type = .usable))) := by
  unfold visitZone
  by_cases hcontains : zone.Contains address
  · have hin : address ≥ zone.address ∧ address - zone.address < zone.length := hcontains
    have husable : (if zone.type = .usable then PTEntrySetFlag t entry flagWriteable true m
        else m).load entry t.entryBytes
        = entryValue target present (writeable || decide (zone.type = .usable)) := by
      by_cases htype : zone.type = .usable
      · rw [if_pos htype, decide_eq_true htype, Bool.or_true]
        exact load_entrySetFlag_writeable hne htarget hload
      · rw [if_neg htype, decide_eq_false htype, Bool.or_false, hload]
    simp only [if_pos hin, decide_eq_true hcontains, Bool.true_and, Bool.or_true, true_and]
    by_cases hend : address < mapEnd
    · rw [if_pos hend, decide_eq_true hend, Bool.or_true]
      exact load_entrySetFlag_present hne htarget husable
    · rw [if_neg hend, decide_eq_false hend, Bool.or_false, husable]
  · have hout : ¬ (address ≥ zone.address ∧ address - zone.address < zone.length) := hcontains
    simp only [if_neg hout, decide_eq_false hcontains, Bool.false_and, Bool.or_false, true_and]
    exact hload

/-- All zones. -/
theorem zones_value (address mapEnd : Nat) (hne : entry ≠ 0) (htarget : target % 0x1000 = 0) (zones : List Zone) {f : Bool}
    {present writeable : Bool} (hload : m.load entry t.entryBytes
      = entryValue target present writeable) :
    (zones.foldl (fun s zone => visitZone t mapEnd entry address zone s) (f, m)).1
      = (f || found zones address) ∧
    (zones.foldl (fun s zone => visitZone t mapEnd entry address zone s) (f, m)).2.load entry
        t.entryBytes
      = entryValue target (present || (found zones address && decide (address < mapEnd)))
        (writeable || usable zones address) := by
  induction zones generalizing f m present writeable with
  | nil =>
    simp only [List.foldl_nil, found, usable, List.any_nil, Bool.false_and, Bool.or_false]
    exact ⟨trivial, hload⟩
  | cons zone zones ih =>
    obtain ⟨hfound, hvalue⟩ := visitZone_value address mapEnd hne htarget
      zone (f := f) hload
    rw [List.foldl_cons]
    obtain ⟨hfound', hvalue'⟩ := ih (f := (visitZone t mapEnd entry address zone (f, m)).1) hvalue
    rw [← Prod.mk.eta (p := visitZone t mapEnd entry address zone (f, m))]
    refine ⟨hfound'.trans ?_, hvalue'.trans ?_⟩
    · rw [hfound, Bool.or_assoc]
      rfl
    · unfold found usable
      rw [List.any_cons, List.any_cons, Bool.or_assoc, Bool.or_assoc, Bool.and_or_distrib_right]

end Zones

/-! ## One table -/

/-- The entries of a table. -/
def Holds (t : Target) (perPT : Nat) (m : Memory) (table : Nat) (v : Nat → Nat) : Prop :=
  ∀ j, j < perPT → m.load (table + t.entryBytes * j) t.entryBytes = v j

/-- A table with room for its entries. -/
structure IsTable (t : Target) (perPT table : Nat) : Prop where
  notNull : table ≠ 0
  aligned : table % 0x1000 = 0
  size : t.entryBytes * perPT = 0x1000

section Table

variable {t : Target} {perPT table : Nat} {m m' : Memory} {v : Nat → Nat}

theorem IsTable.and_mask (h : IsTable t perPT table) : table &&& 0xFFF = 0 :=
  (Nat.and_two_pow_sub_one_eq_mod table 12).trans h.aligned

theorem entry_end {n j : Nat} (hj : j < n) (w : Nat) : w * j + w ≤ w * n := by
  rw [← Nat.mul_succ]
  exact Nat.mul_le_mul_left w hj

/-- A cleared table. -/
theorem IsTable.cleared (h : IsTable t perPT table) (m : Memory) :
    Holds t perPT (tableClear table m) table fun _ => 0 := by
  intro j hj
  have hend := entry_end hj t.entryBytes
  have hsize := h.size
  unfold tableClear
  rw [if_neg h.notNull, if_neg (not_not.mpr h.and_mask)]
  refine Memory.load_eq_zero _ fun i hi => ?_
  exact Memory.fill_of_mem _ _ (by omega)

/-- Other pages do not matter. -/
theorem Holds.inPage {table' : Nat} (h : Holds t perPT m table v)
    (hsize : t.entryBytes * perPT = 0x1000) (hpage : InPage table' m m')
    (hapart : Apart table table') : Holds t perPT m' table v := by
  intro j hj
  have hend := entry_end hj t.entryBytes
  rw [← h j hj]
  apply Memory.load_congr
  intro i hi
  refine hpage _ ?_
  unfold Apart at hapart
  omega

/-- Other entries do not matter. -/
theorem load_of_inEntry {j k : Nat} (hne : j ≠ k)
    (h : InEntry t (table + t.entryBytes * k) m m') :
    m'.load (table + t.entryBytes * j) t.entryBytes
      = m.load (table + t.entryBytes * j) t.entryBytes := by
  apply Memory.load_congr
  intro i hi
  apply h
  rcases Nat.lt_or_gt_of_ne hne with hlt | hgt
  · have hend := entry_end hlt t.entryBytes
    omega
  · have hend := entry_end hgt t.entryBytes
    omega

/-- A loop whose rounds set the entries of an empty table one by one. -/
theorem forLoop_entries (body : Nat → Nat × Memory → Nat × Memory) {x : Nat → Nat} {n : Nat}
    (hzero : Holds t perPT m table fun _ => 0)
    (hbody : ∀ k m', k < n → m'.load (table + t.entryBytes * k) t.entryBytes = 0 →
      (body k (x k, m')).1 = x (k + 1) ∧
      InEntry t (table + t.entryBytes * k) m' (body k (x k, m')).2 ∧
      (body k (x k, m')).2.load (table + t.entryBytes * k) t.entryBytes = v k)
    (hn : n ≤ perPT) :
    (forLoop body n (x 0, m)).1 = x n ∧
    Holds t perPT (forLoop body n (x 0, m)).2 table fun j => if j < n then v j else 0 := by
  refine forLoop_inv body n (x 0, m) (fun k y => y.1 = x k ∧
    Holds t perPT y.2 table fun j => if j < k then v j else 0) ⟨rfl, ?_⟩ ?_
  · intro j hj
    exact (hzero j hj).trans (if_neg (Nat.not_lt_zero j)).symm
  · rintro k ⟨_, m'⟩ hk ⟨rfl, hholds⟩
    have hempty := (hholds k (by omega)).trans (if_neg (Nat.lt_irrefl k))
    obtain ⟨hnext, hframe, hvalue⟩ := hbody k m' hk hempty
    refine ⟨hnext, fun j hj => ?_⟩
    by_cases hjk : j = k
    · rw [hjk]
      exact hvalue.trans (if_pos (Nat.lt_succ_self k)).symm
    · rw [load_of_inEntry hjk hframe, hholds j hj]
      exact if_congr (by omega) rfl rfl

end Table

/-! ## A page table -/

/-- The value of the entry for a page of the memory. -/
def pageValue (t : Target) (mapEnd : Nat) (zones : List Zone) (address : Nat) : Nat :=
  entryValue (address % 2 ^ (8 * t.entryBytes))
    (if found zones address then decide (address < mapEnd) else true) (usable zones address)

/-- The entry `n` of all page tables. -/
def ptValue (t : Target) (totalMemoryBytes mapEnd : Nat) (zones : List Zone) (n : Nat) : Nat :=
  if n < ptEntriesCount totalMemoryBytes then pageValue t mapEnd zones (0x1000 * n) else 0

section PageTable

variable {t : Target} {perPT table totalMemoryBytes mapEnd : Nat} {zones : List Zone} {m : Memory}

theorem inEntry_zones {entry address : Nat} (x : Bool × Memory) :
    InEntry t entry x.2
      (zones.foldl (fun s zone => visitZone t mapEnd entry address zone s) x).2 := by
  induction zones generalizing x with
  | nil => exact InEntry.refl _ _ _
  | cons zone zones ih => exact (inEntry_visitZone zone x).trans (ih _)

/-- The entries of the page tables and of the page directory tables. -/
theorem tableGetEntryAtIndex_eq {type : MemoryMapType} (htable : table ≠ 0)
    (haligned : table % 0x1000 = 0) {j : Nat} (hj : j < ptEntriesPerPT type) :
    tableGetEntryAtIndex type.target table j = table + type.target.entryBytes * j := by
  have hmask : table &&& 0xFFF = 0 := (Nat.and_two_pow_sub_one_eq_mod table 12).trans haligned
  unfold tableGetEntryAtIndex
  rw [if_neg htable, if_neg (not_not.mpr hmask)]
  cases type with
  | type32 => exact if_neg (Nat.not_le.mpr hj)
  | type32PAE => exact if_neg (Nat.not_le.mpr hj)
  | type64 => exact if_neg (Nat.not_le.mpr hj)

/-- One entry of a page table. -/
theorem initPTEntry_value (mapEnd : Nat) (zones : List Zone) {pt j address : Nat}
    (hentry : PTGetEntryAtIndex t pt j ≠ 0) (haligned : address % 0x1000 = 0)
    (hlt : address < totalMemoryBytes)
    (hload : m.load (PTGetEntryAtIndex t pt j) t.entryBytes = 0) :
    (initPTEntry t totalMemoryBytes mapEnd zones pt j (address, m)).1
      = (address + 0x1000) % 2 ^ 64 ∧
    InEntry t (PTGetEntryAtIndex t pt j) m
      (initPTEntry t totalMemoryBytes mapEnd zones pt j (address, m)).2 ∧
    (initPTEntry t totalMemoryBytes mapEnd zones pt j (address, m)).2.load
      (PTGetEntryAtIndex t pt j) t.entryBytes = pageValue t mapEnd zones address := by
  generalize hentryEq : PTGetEntryAtIndex t pt j = entry at hentry hload
  have htarget : address % 2 ^ (8 * t.entryBytes) % 0x1000 = 0 := by
    rcases entryBytes_cases t with h | h <;> rw [h] <;> omega
  have haddress := load_entrySetAddress hentry haligned hload
  obtain ⟨hfound, hvalue⟩ :=
    zones_value address mapEnd hentry htarget zones (f := false) haddress
  have hframe : InEntry t entry m
      (zones.foldl (fun s zone => visitZone t mapEnd entry address zone s)
        (false, entrySetAddress t entry address m)).2 :=
    (inEntry_entrySetAddress address).trans (inEntry_zones (false, _))
  rw [Bool.false_or] at hfound hvalue
  rw [Bool.false_or] at hvalue
  unfold initPTEntry pageValue PTEntrySetAddress
  simp only [hentryEq, if_neg (Nat.not_le.mpr hlt), hfound]
  cases hin : found zones address with
  | true =>
    rw [hin, Bool.true_and] at hvalue
    simp only [reduceCtorEq, if_false, if_true]
    exact ⟨trivial, hframe, hvalue⟩
  | false =>
    rw [hin, Bool.false_and] at hvalue
    simp only [if_true, Bool.false_eq_true, if_false]
    exact ⟨trivial, hframe.trans (inEntry_entrySetFlag _ _),
      load_entrySetFlag_present hentry htarget hvalue⟩

theorem entryBytes_mul_perPT (type : MemoryMapType) :
    type.target.entryBytes * ptEntriesPerPT type = 0x1000 := by
  cases type <;> rfl

theorem lt_ptEntriesCount_iff {n : Nat} :
    n < ptEntriesCount totalMemoryBytes ↔ 0x1000 * n < totalMemoryBytes := by
  obtain ⟨hcovers, hleast⟩ := ptEntriesCount_least totalMemoryBytes
  constructor
  · intro hn
    by_contra hle
    have hle' := hleast n ((not_lt.mp hle).trans_eq (Nat.mul_comm _ _))
    omega
  · intro hlt
    omega

/-- The address in front of the entry `n` of all page tables. -/
def addressAt (totalMemoryBytes n : Nat) : Nat :=
  0x1000 * min n (ptEntriesCount totalMemoryBytes) % 2 ^ 64

/-- One page table. -/
theorem initPT_value (mapEnd : Nat) (zones : List Zone) {type : MemoryMapType} {i : Nat} {s : Fill}
    (htable : IsTable type.target (ptEntriesPerPT type) s.p) (htotal : totalMemoryBytes < 2 ^ 64)
    (hroom : ptEntriesCount totalMemoryBytes < (i + 1) * ptEntriesPerPT type →
      0x1000 * ptEntriesCount totalMemoryBytes < 2 ^ 64) :
    (initPT type.target totalMemoryBytes mapEnd zones (ptEntriesPerPT type) i
      (addressAt totalMemoryBytes (i * ptEntriesPerPT type), s)).1
      = addressAt totalMemoryBytes ((i + 1) * ptEntriesPerPT type) ∧
    Holds type.target (ptEntriesPerPT type)
      (initPT type.target totalMemoryBytes mapEnd zones (ptEntriesPerPT type) i
        (addressAt totalMemoryBytes (i * ptEntriesPerPT type), s)).2.memory s.p
      fun j => ptValue type.target totalMemoryBytes mapEnd zones (i * ptEntriesPerPT type + j) := by
  have hloop := forLoop_entries (initPTEntry type.target totalMemoryBytes mapEnd zones s.p)
    (x := fun k => addressAt totalMemoryBytes (i * ptEntriesPerPT type + k))
    (v := fun k => ptValue type.target totalMemoryBytes mapEnd zones
      (i * ptEntriesPerPT type + k)) (n := ptEntriesPerPT type)
    (htable.cleared s.memory) ?_ (Nat.le_refl _)
  · obtain ⟨haddress, hholds⟩ := hloop
    refine ⟨?_, fun j hj => (hholds j hj).trans (if_pos hj)⟩
    rw [Nat.succ_mul]
    exact haddress
  · intro k m' hk hempty
    have hentry : PTGetEntryAtIndex type.target s.p k = s.p + type.target.entryBytes * k :=
      tableGetEntryAtIndex_eq htable.notNull htable.aligned hk
    have hnotNull := htable.notNull
    unfold ptValue addressAt
    by_cases hn : i * ptEntriesPerPT type + k < ptEntriesCount totalMemoryBytes
    · have hlt := lt_ptEntriesCount_iff.mp hn
      rw [if_pos hn, Nat.min_eq_left (by omega), Nat.min_eq_left (by omega),
        Nat.mod_eq_of_lt (by omega), ← hentry]
      rw [← hentry] at hempty
      obtain ⟨hnext, hframe, hvalue⟩ := initPTEntry_value mapEnd zones
        (show PTGetEntryAtIndex type.target s.p k ≠ 0 by omega)
        (Nat.mul_mod_right 0x1000 (i * ptEntriesPerPT type + k)) hlt hempty
      exact ⟨hnext, hframe, hvalue⟩
    · have hcount : ptEntriesCount totalMemoryBytes < (i + 1) * ptEntriesPerPT type := by
        rw [Nat.succ_mul]
        omega
      have hsmall := hroom hcount
      have hle := (ptEntriesCount_least totalMemoryBytes).covers
      rw [if_neg hn, Nat.min_eq_right (by omega), Nat.min_eq_right (by omega),
        Nat.mod_eq_of_lt hsmall]
      unfold initPTEntry
      simp only [if_pos (show 0x1000 * ptEntriesCount totalMemoryBytes ≥ totalMemoryBytes by omega)]
      exact ⟨trivial, InEntry.refl _ _ _, hempty⟩

end PageTable

/-! ## A table above the page tables -/

/-- The entry for a child, in the first `limit` entries of a table. -/
def SetsEntry (t : Target) (perPT limit : Nat) (writeable : Bool)
    (initEntry : Nat → Nat → Nat × Memory → Nat × Memory) : Prop :=
  ∀ table j child m, table ≠ 0 → table % 0x1000 = 0 → j < perPT → child % 0x1000 = 0 →
    child < 2 ^ t.pointerBits → m.load (table + t.entryBytes * j) t.entryBytes = 0 →
    (initEntry table j (child, m)).1 = t.pointerAdd child 0x1000 ∧
    InEntry t (table + t.entryBytes * j) m (initEntry table j (child, m)).2 ∧
    (initEntry table j (child, m)).2.load (table + t.entryBytes * j) t.entryBytes
      = if j < limit then entryValue child true writeable else 0

/-- The entry `j` of the table `i` of a level, whose children start at `child`. -/
def upperValue (t : Target) (perPT limit : Nat) (writeable : Bool) (childCount child i j : Nat) :
    Nat :=
  if i * perPT + j < childCount ∧ j < limit then
    entryValue (tableAt t child (i * perPT + j)) true writeable
  else 0

section UpperTable

variable {t : Target} {perPT limit child childCount : Nat} {writeable : Bool} {m : Memory}

theorem pointerBits_cases (t : Target) : t.pointerBits = 32 ∨ t.pointerBits = 64 := by
  unfold Target.pointerBits
  split
  · exact .inr rfl
  · exact .inl rfl

theorem tableAt_lt (t : Target) (address k : Nat) : tableAt t address k < 2 ^ t.pointerBits :=
  Nat.mod_lt _ (Nat.two_pow_pos _)

theorem tableAt_aligned (t : Target) {address : Nat} (haligned : address % 0x1000 = 0) (k : Nat) :
    tableAt t address k % 0x1000 = 0 := by
  unfold tableAt Target.pointerAdd
  rcases pointerBits_cases t with h | h <;> rw [h] <;> omega

/-- One table. -/
theorem initTable_value {initEntry : Nat → Nat → Nat × Memory → Nat × Memory}
    (hsets : SetsEntry t perPT limit writeable initEntry) {i : Nat} {s : Fill}
    (htable : IsTable t perPT s.p) (hchild : child % 0x1000 = 0) :
    (initTable t tableClear initEntry perPT childCount i
        (tableAt t child (min childCount (i * perPT)), s)).1
      = tableAt t child (min childCount ((i + 1) * perPT)) ∧
    Holds t perPT (initTable t tableClear initEntry perPT childCount i
        (tableAt t child (min childCount (i * perPT)), s)).2.memory s.p
      (upperValue t perPT limit writeable childCount child i) := by
  have hbreak : ∀ x, forBreak (fun j => decide (i * perPT + j ≥ childCount)) (initEntry s.p) 0 perPT x
      = forLoop (initEntry s.p) (min perPT (childCount - i * perPT)) x := by
    intro x
    refine forBreak_of_stop x (Nat.min_le_left _ _) (fun j hj => ?_) (fun hstop => ?_)
    · exact decide_eq_false (by omega)
    · exact decide_eq_true (by omega)
  have hloop := forLoop_entries (initEntry s.p)
    (x := fun k => tableAt t child (min childCount (i * perPT) + k))
    (v := fun j => if j < limit then entryValue (tableAt t child (i * perPT + j)) true writeable
      else 0) (n := min perPT (childCount - i * perPT))
    (htable.cleared s.memory) ?_ (Nat.min_le_left _ _)
  · obtain ⟨hlast, hholds⟩ := hloop
    unfold initTable
    simp only [hbreak]
    constructor
    · refine hlast.trans ?_
      rw [Nat.succ_mul]
      congr 1
      omega
    · intro j hj
      refine (hholds j hj).trans ?_
      unfold upperValue
      simp only
      by_cases hj' : i * perPT + j < childCount
      · rw [if_pos (by omega)]
        exact if_congr (by simp only [hj', true_and]) rfl rfl
      · rw [if_neg (by omega), if_neg fun h => hj' h.1]
  · intro k m' hk hempty
    have hstart : min childCount (i * perPT) = i * perPT := by omega
    obtain ⟨hnext, hframe, hvalue⟩ := hsets s.p k (tableAt t child (i * perPT + k)) m'
      htable.notNull htable.aligned (by omega) (tableAt_aligned t hchild _) (tableAt_lt t _ _) hempty
    rw [hstart]
    exact ⟨hnext.trans (tableAt_succ t _ _), hframe, hvalue⟩

end UpperTable

/-! ## The kinds of tables -/

section Kinds

variable (type : MemoryMapType)

theorem pointerBits_le_entry : 2 ^ type.target.pointerBits ≤ 2 ^ (8 * type.target.entryBytes) := by
  cases type <;> decide

/-- The three operations of an entry that leads to a table. -/
theorem load_setEntry {entry child : Nat} {m : Memory} (hne : entry ≠ 0)
    (hchild : child % 0x1000 = 0) (hlt : child < 2 ^ type.target.pointerBits)
    (hload : m.load entry type.target.entryBytes = 0) :
    (entrySetFlag type.target entry flagPresent true
        (entrySetAddress type.target entry child m)).load entry type.target.entryBytes
      = entryValue child true false := by
  have haddress := load_entrySetAddress hne hchild hload
  rw [Nat.mod_eq_of_lt (Nat.lt_of_lt_of_le hlt (pointerBits_le_entry type))] at haddress
  exact load_entrySetFlag_present hne hchild haddress

theorem setsEntry_PDT : SetsEntry type.target (ptEntriesPerPT type) (ptEntriesPerPT type) true
    (initPDTEntry type.target) := by
  intro table j child m hne haligned hj hchild hlt hload
  have hentry : PDTGetEntryAtIndex type.target table j = table + type.target.entryBytes * j :=
    tableGetEntryAtIndex_eq hne haligned hj
  have hnotNull : table + type.target.entryBytes * j ≠ 0 := by omega
  have hpresent := load_setEntry type hnotNull hchild hlt hload
  unfold initPDTEntry
  rw [hentry, if_pos hj]
  refine ⟨rfl, ?_, load_entrySetFlag_writeable hnotNull hchild hpresent⟩
  exact ((inEntry_entrySetAddress _).trans (inEntry_entrySetFlag _ _)).trans
    (inEntry_entrySetFlag _ _)

theorem entrySetAddress_null (t : Target) (address : Nat) (m : Memory) :
    entrySetAddress t 0 address m = m := if_pos rfl

theorem entrySetFlag_null (t : Target) (flag : Nat) (value : Bool) (m : Memory) :
    entrySetFlag t 0 flag value m = m := if_pos rfl

/-- Only four entries of a page directory pointer table are ever set. -/
theorem setsEntry_PDPT (hpae : type ≠ .type32) : SetsEntry type.target (ptEntriesPerPT type) 4
    (decide (type = .type64)) (initPDPTEntry type.target type) := by
  intro table j child m hne haligned hj hchild hlt hload
  have hmask : table &&& 0xFFF = 0 := (Nat.and_two_pow_sub_one_eq_mod table 12).trans haligned
  have hbytes : type.target.entryBytes = 8 := by
    cases type with
    | type32 => exact absurd rfl hpae
    | type32PAE => rfl
    | type64 => rfl
  have hper : ptEntriesPerPT type = 512 := if_neg hpae
  have hentry : PDPTGetEntryAtIndex type.target table j
      = if j < 4 then table + type.target.entryBytes * j else 0 := by
    unfold PDPTGetEntryAtIndex
    rw [if_neg hne, if_neg (not_not.mpr hmask), if_neg (by omega), hbytes]
    by_cases hlimit : j < 4
    · rw [if_pos hlimit, if_neg (by omega)]
    · rw [if_neg hlimit, if_pos (by omega)]
  unfold initPDPTEntry PDPTEntrySetPDT PDPTEntrySetFlag
  simp only [hentry]
  by_cases hlimit : j < 4
  · have hnotNull : table + type.target.entryBytes * j ≠ 0 := by omega
    have hpresent := load_setEntry type hnotNull hchild hlt hload
    have hframe : InEntry type.target (table + type.target.entryBytes * j) m
        (entrySetFlag type.target (table + type.target.entryBytes * j) flagPresent true
          (entrySetAddress type.target (table + type.target.entryBytes * j) child m)) :=
      (inEntry_entrySetAddress _).trans (inEntry_entrySetFlag _ _)
    rw [if_pos hlimit, if_pos hlimit]
    by_cases h64 : type = .type64
    · rw [if_pos h64, decide_eq_true h64]
      exact ⟨trivial, hframe.trans (inEntry_entrySetFlag _ _),
        load_entrySetFlag_writeable hnotNull hchild hpresent⟩
    · rw [if_neg h64, decide_eq_false h64]
      exact ⟨trivial, hframe, hpresent⟩
  · rw [if_neg hlimit, if_neg hlimit]
    simp only [entrySetAddress_null, entrySetFlag_null, ite_self]
    exact ⟨trivial, InEntry.refl _ _ _, hload⟩

theorem setsEntry_PML4T : SetsEntry MemoryMapType.type64.target (ptEntriesPerPT .type64)
    (ptEntriesPerPT .type64) true (initPML4TEntry MemoryMapType.type64.target) := by
  intro table j child m hne haligned hj hchild hlt hload
  have hmask : table &&& 0xFFF = 0 := (Nat.and_two_pow_sub_one_eq_mod table 12).trans haligned
  have hentry : PML4TGetEntryAtIndex table j
      = table + MemoryMapType.type64.target.entryBytes * j := by
    unfold PML4TGetEntryAtIndex
    rw [if_neg hne, if_neg (not_not.mpr hmask)]
    exact if_neg (Nat.not_le.mpr hj)
  have hnotNull : table + MemoryMapType.type64.target.entryBytes * j ≠ 0 := by omega
  have hpresent := load_setEntry .type64 hnotNull hchild hlt hload
  unfold initPML4TEntry
  rw [hentry, if_pos hj]
  refine ⟨rfl, ?_, load_entrySetFlag_writeable hnotNull hchild hpresent⟩
  exact ((inEntry_entrySetAddress _).trans (inEntry_entrySetFlag _ _)).trans
    (inEntry_entrySetFlag _ _)

end Kinds

end Xeos.Vm
