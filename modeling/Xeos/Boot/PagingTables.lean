import Xeos.Boot.Paging

/-!
# What the set-ups write

The memory after each of the three set-ups, and that a walk through it maps the
first twelve megabytes to themselves.
-/

namespace Xeos.Boot

open Lib Lib.Real PageTable

/-- The end of what is mapped. -/
def mapped : Nat := 0xC00000

/-- The page tables: one entry for each page, `b` bytes apart. -/
def PageEntries (m : Memory) (b : Nat) : Prop :=
  ∀ k, k < 3072 → m.load (0x13000 + b * k) b = 3 + 2 ^ 12 * k

/-- A directory with one entry for each page table. -/
def DirectoryEntries (m : Memory) (b bits n : Nat) : Prop :=
  ∀ i, i < 2 ^ bits → m.load (0x12000 + b * i) b = if i < n then 0x13003 + 2 ^ 12 * i else 0

/-- One page table. -/
theorem identity_pages {m : Memory} {b bits i : Nat} (h : PageEntries m b)
    (hi : (i + 1) * 2 ^ bits ≤ 3072) :
    Identity m [⟨b, 12, bits, false, true⟩] (0x13000 + b * (i * 2 ^ bits))
      (i * 2 ^ bits * 2 ^ 12) mapped := by
  intro j hj
  rw [Nat.succ_mul] at hi
  have hk : i * 2 ^ bits + j < 3072 := by
    dsimp only at hj
    omega
  have hload := h _ hk
  rw [Nat.mul_add, ← Nat.add_assoc] at hload
  dsimp only
  rw [hload]
  constructor
  · intro _
    refine ⟨leads_of_mod (by omega), ?_⟩
    rw [Identity, frame_of_lt (by omega)]
    omega
  · intro hle
    rw [mapped] at hle
    omega

/-- A directory with its page tables. -/
theorem identity_directory {m : Memory} {b bits n : Nat} (hpages : PageEntries m b)
    (hdir : DirectoryEntries m b bits n) (hn : n * 2 ^ bits = 3072) (hb : b * 2 ^ bits = 2 ^ 12) :
    Identity m [⟨b, 12 + bits, bits, true, true⟩, ⟨b, 12, bits, false, true⟩] 0x12000 0
      mapped := by
  intro i hi
  have hpow : (2 : Nat) ^ (12 + bits) = 2 ^ bits * 2 ^ 12 := by rw [pow_add, Nat.mul_comm]
  have hstart : 0 + i * 2 ^ (12 + bits) = i * 2 ^ bits * 2 ^ 12 := by
    rw [hpow, Nat.zero_add, Nat.mul_assoc]
  have hcount : i < n ↔ i * 2 ^ bits < 3072 := by
    rw [← hn]
    exact (Nat.mul_lt_mul_right (Nat.two_pow_pos bits)).symm
  dsimp only at hi ⊢
  rw [hdir i hi, hstart]
  by_cases hin : i < n
  · have hle : (i + 1) * 2 ^ bits ≤ n * 2 ^ bits := Nat.mul_le_mul_right _ hin
    have hsmall : i < 3072 := by
      have hpos := Nat.two_pow_pos bits
      have hself : i ≤ i * 2 ^ bits := Nat.le_mul_of_pos_right i hpos
      have := hcount.mp hin
      omega
    rw [if_pos hin]
    constructor
    · intro _
      refine ⟨leads_of_mod (by omega), ?_⟩
      have hframe : frame (0x13003 + 2 ^ 12 * i) = 0x13000 + b * (i * 2 ^ bits) := by
        rw [frame_of_lt (by omega), Nat.mul_left_comm, hb]
        omega
      rw [hframe]
      exact identity_pages hpages (by omega)
    · intro hle'
      have := hcount.mp hin
      rw [mapped] at hle'
      omega
  · rw [if_neg hin]
    constructor
    · intro hlt
      rw [mapped] at hlt
      have := mt hcount.mpr hin
      omega
    · exact fun _ => rfl

/-! ## The memory of a set-up -/

/-- The memory after `.setup`. -/
def tables32 (m : Memory) : Memory :=
  link (link (m.fill 0x12000 0x4000 0) 0x12000 4 0x13003 3) 0x13000 4 3 3072

/-- The page directory and the page tables with PAE. -/
def tablesPdt (m : Memory) : Memory := link (link m 0x12000 8 0x13003 6) 0x13000 8 3 3072

def tablesPae32 (m : Memory) : Memory :=
  tablesPdt (link (m.fill 0x11000 0x8000 0) 0x11000 8 0x12001 1)

def tablesPae64 (m : Memory) : Memory :=
  tablesPdt (link (link (m.fill 0x10000 0x9000 0) 0x10000 8 0x11003 1) 0x11000 8 0x12003 1)

theorem load_fill_zero (m : Memory) {a n b w : Nat} (hle : a ≤ b) (hlt : b + w ≤ a + n) :
    (m.fill a n 0).load b w = 0 := by
  apply Memory.load_eq_zero
  intro i hi
  exact Memory.fill_of_mem m 0 (by omega)

theorem identity_tables32 (m : Memory) :
    Identity (tables32 m) paging32.levels 0x12000 0 mapped := by
  apply identity_directory (n := 3)
  · intro k hk
    exact load_link (Nat.le_refl 4) hk (by omega)
  · intro i hi
    rw [tables32, load_link_of_disjoint (Nat.le_refl 4) (by omega)]
    apply load_link_four (s := 2 ^ 10) _ (by omega) hi
    intro i hi
    exact load_fill_zero m (by omega) (by omega)
  · rfl
  · rfl

/-- The directory and the page tables, in cleared memory. -/
theorem identity_tablesPdt {m : Memory}
    (hzero : ∀ i, i < 3584 → m.load (0x12000 + 8 * i) 8 = 0) :
    Identity (tablesPdt m) [⟨8, 21, 9, true, true⟩, ⟨8, 12, 9, false, true⟩] 0x12000 0
      mapped := by
  apply identity_directory (n := 6)
  · intro k hk
    have hclear : ∀ k, k < 3072 →
        (link m 0x12000 8 0x13003 6).load (0x13000 + 8 * k) 8 = 0 := by
      intro k hk
      rw [load_link_of_disjoint (by omega) (by omega)]
      have h := hzero (512 + k) (by omega)
      rwa [Nat.mul_add, ← Nat.add_assoc] at h
    rw [tablesPdt, load_link_eight hclear (by omega) hk, if_pos hk]
  · intro i hi
    rw [tablesPdt, load_link_of_disjoint (by omega) (by omega)]
    exact load_link_eight hzero (by omega) (by omega)
  · rfl
  · rfl

theorem identity_tablesPae32 (m : Memory) :
    Identity (tablesPae32 m) pagingPae32.levels 0x11000 0 mapped := by
  have hpdt : Identity (tablesPae32 m) [⟨8, 21, 9, true, true⟩, ⟨8, 12, 9, false, true⟩] 0x12000
      0 mapped := by
    apply identity_tablesPdt
    intro i hi
    rw [load_link_of_disjoint (by omega) (by omega)]
    exact load_fill_zero m (by omega) (by omega)
  apply identity_single (e := 0x12001) (by decide)
  · intro i hi
    dsimp only at hi ⊢
    rw [tablesPae32, tablesPdt, load_link_of_disjoint (by omega) (by omega),
      load_link_of_disjoint (by omega) (by omega)]
    have hzero : ∀ j, j < 2 ^ 2 → (m.fill 0x11000 0x8000 0).load (0x11000 + 8 * j) 8 = 0 :=
      fun j hj => load_fill_zero m (by omega) (by omega)
    rw [load_link_eight hzero (by omega) hi]
    split <;> omega
  · exact ⟨by decide, by decide, by decide⟩
  · exact hpdt
  · decide

theorem identity_tablesPae64 (m : Memory) :
    Identity (tablesPae64 m) pagingPae64.levels 0x10000 0 mapped := by
  have hpdt : Identity (tablesPae64 m) [⟨8, 21, 9, true, true⟩, ⟨8, 12, 9, false, true⟩] 0x12000
      0 mapped := by
    apply identity_tablesPdt
    intro i hi
    rw [load_link_of_disjoint (by omega) (by omega), load_link_of_disjoint (by omega) (by omega)]
    exact load_fill_zero m (by omega) (by omega)
  have hpdpt : Identity (tablesPae64 m) [⟨8, 30, 9, true, true⟩, ⟨8, 21, 9, true, true⟩,
      ⟨8, 12, 9, false, true⟩] 0x11000 0 mapped := by
    apply identity_single (e := 0x12003) (by decide)
    · intro i hi
      dsimp only at hi ⊢
      rw [tablesPae64, tablesPdt, load_link_of_disjoint (by omega) (by omega),
        load_link_of_disjoint (by omega) (by omega)]
      have hzero : ∀ j, j < 2 ^ 9 →
          (link (m.fill 0x10000 0x9000 0) 0x10000 8 0x11003 1).load (0x11000 + 8 * j) 8 = 0 := by
        intro j hj
        rw [load_link_of_disjoint (by omega) (by omega)]
        exact load_fill_zero m (by omega) (by omega)
      rw [load_link_eight hzero (by omega) hi]
      split <;> omega
    · exact leads_of_mod (by decide)
    · exact hpdt
    · decide
  apply identity_single (e := 0x11003) (by decide)
  · intro i hi
    dsimp only at hi ⊢
    rw [tablesPae64, tablesPdt, load_link_of_disjoint (by omega) (by omega),
      load_link_of_disjoint (by omega) (by omega), load_link_of_disjoint (by omega) (by omega)]
    have hzero : ∀ j, j < 2 ^ 9 → (m.fill 0x10000 0x9000 0).load (0x10000 + 8 * j) 8 = 0 :=
      fun j hj => load_fill_zero m (by omega) (by omega)
    rw [load_link_eight hzero (by omega) hi]
    split <;> omega
  · exact leads_of_mod (by decide)
  · exact hpdpt
  · decide

end Xeos.Boot
