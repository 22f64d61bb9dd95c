import Mathlib.Tactic.Ring
import Xeos.Lib.Loop
import Xeos.Lib.Memory

/-!
# Page tables

The walk of a processor through page tables in memory.  A mode of paging is a
list of levels: each level takes some bits of the address as the index into a
table, and the entry that it finds there gives the frame of the next table or of
the page.

`Identity m ls table start limit` says that the tables map the addresses from
`start` on that are below `limit` to themselves, present and writeable, and no
other address of their range.  `walk_identity` is the meaning of it for the walk.
-/

namespace Lib.PageTable

/-- One level of tables. -/
structure Level where
  /-- The bytes of an entry. -/
  bytes : Nat
  /-- The lowest bit of the index, and the number of its bits. -/
  shift : Nat
  bits : Nat
  /-- Bit 7 of an entry says that it maps a page itself. -/
  large : Bool
  /-- Bit 1 of an entry says that writing is permitted. -/
  writeBit : Bool
deriving DecidableEq, Repr

def present (e : Nat) : Bool := e % 2 == 1

def writeable (e : Nat) : Bool := e / 2 % 2 == 1

def pageSize (e : Nat) : Bool := e / 2 ^ 7 % 2 == 1

/-- The address in an entry. -/
def frame (e : Nat) : Nat := e / 2 ^ 12 % 2 ^ 40 * 2 ^ 12

/-- The entry for the address `a` in a table of the level. -/
def entry (m : Memory) (l : Level) (table a : Nat) : Nat :=
  m.load (table + l.bytes * (a / 2 ^ l.shift % 2 ^ l.bits)) l.bytes

/-- The address that `a` is mapped to and whether it may be written, with the
permission `w` of the levels above. -/
def walk (m : Memory) : List Level → Nat → Nat → Bool → Option (Nat × Bool)
  | [], page, a, w => some (page + a % 2 ^ 12, w)
  | l :: ls, table, a, w =>
    let e := entry m l table a
    let w := w && (!l.writeBit || writeable e)
    if present e = false then none
    else if l.large && pageSize e then
      some (frame e / 2 ^ l.shift * 2 ^ l.shift + a % 2 ^ l.shift, w)
    else walk m ls (frame e) a w

/-- The levels take the bits below `top` down to the bits of a page. -/
def Chain : List Level → Nat → Prop
  | [], top => top = 12
  | l :: ls, top => l.shift + l.bits = top ∧ Chain ls l.shift

/-- An entry that leads to a writeable frame. -/
structure Leads (l : Level) (e : Nat) : Prop where
  present : present e = true
  small : l.large = true → pageSize e = false
  writeable : l.writeBit = true → writeable e = true

/-- The tables map what is below `limit` to itself, from `start` on. -/
def Identity (m : Memory) : List Level → Nat → Nat → Nat → Prop
  | [], page, start, _ => page = start
  | l :: ls, table, start, limit => ∀ i, i < 2 ^ l.bits →
    (start + i * 2 ^ l.shift < limit →
      Leads l (m.load (table + l.bytes * i) l.bytes) ∧
        Identity m ls (frame (m.load (table + l.bytes * i) l.bytes)) (start + i * 2 ^ l.shift)
          limit) ∧
    (limit ≤ start + i * 2 ^ l.shift →
      PageTable.present (m.load (table + l.bytes * i) l.bytes) = false)

theorem walk_nil (m : Memory) (page a : Nat) (w : Bool) :
    walk m [] page a w = some (page + a % 2 ^ 12, w) := rfl

theorem walk_cons (m : Memory) (l : Level) (ls : List Level) (table a : Nat) (w : Bool) :
    walk m (l :: ls) table a w =
      let e := entry m l table a
      let w := w && (!l.writeBit || writeable e)
      if present e = false then none
      else if l.large && pageSize e then
        some (frame e / 2 ^ l.shift * 2 ^ l.shift + a % 2 ^ l.shift, w)
      else walk m ls (frame e) a w := rfl

theorem walk_leads {m : Memory} {l : Level} {ls : List Level} {table a : Nat} {w : Bool}
    (h : Leads l (entry m l table a)) :
    walk m (l :: ls) table a w = walk m ls (frame (entry m l table a)) a w := by
  have hlarge : (l.large && pageSize (entry m l table a)) = false := by
    cases hl : l.large with
    | false => rfl
    | true => exact h.small hl
  have hwrite : (!l.writeBit || writeable (entry m l table a)) = true := by
    cases hw : l.writeBit with
    | false => rfl
    | true => exact h.writeable hw
  rw [walk_cons]
  simp only [h.present, hlarge, hwrite, Bool.and_true]
  rw [if_neg (by decide), if_neg Bool.false_ne_true]

theorem walk_not_present {m : Memory} {l : Level} {ls : List Level} {table a : Nat} {w : Bool}
    (h : present (entry m l table a) = false) : walk m (l :: ls) table a w = none := by
  rw [walk_cons]
  simp only [h, if_true]

/-- The index of an address in the range of a table. -/
theorem index_eq {start a shift bits : Nat} (hstart : 2 ^ (shift + bits) ∣ start)
    (hle : start ≤ a) (hlt : a < start + 2 ^ (shift + bits)) :
    a / 2 ^ shift % 2 ^ bits = (a - start) / 2 ^ shift ∧ (a - start) / 2 ^ shift < 2 ^ bits := by
  obtain ⟨k, hk⟩ := hstart
  have hpos : 0 < 2 ^ shift := Nat.two_pow_pos shift
  have hpow : 2 ^ (shift + bits) = 2 ^ shift * 2 ^ bits := pow_add 2 shift bits
  have hoff : (a - start) / 2 ^ shift < 2 ^ bits := by
    rw [Nat.div_lt_iff_lt_mul hpos, Nat.mul_comm, ← hpow]
    omega
  refine ⟨?_, hoff⟩
  have ha : a = (a - start) + 2 ^ shift * (2 ^ bits * k) := by
    rw [← Nat.mul_assoc, ← hpow, ← hk]
    omega
  conv_lhs => rw [ha]
  rw [Nat.add_mul_div_left _ _ hpos, Nat.add_mul_mod_self_left, Nat.mod_eq_of_lt hoff]

/-- The walk through tables that map the identity. -/
theorem walk_identity {m : Memory} {ls : List Level} {top table start limit a : Nat} {w : Bool}
    (hchain : Chain ls top) (hid : Identity m ls table start limit) (hstart : 2 ^ top ∣ start)
    (hlimit : 2 ^ 12 ∣ limit) (hlt : start < limit) (hle : start ≤ a) (ha : a < start + 2 ^ top) :
    walk m ls table a w = if a < limit then some (a, w) else none := by
  induction ls generalizing top table start with
  | nil =>
    rw [Chain] at hchain
    rw [Identity] at hid
    subst hchain hid
    have hin : a < limit := by omega
    have hpage : table + a % 2 ^ 12 = a := by omega
    rw [walk_nil, if_pos hin, hpage]
  | cons l ls ih =>
    obtain ⟨htop, hrest⟩ := hchain
    subst htop
    obtain ⟨hindex, hbound⟩ := index_eq hstart hle ha
    have hpos : 0 < 2 ^ l.shift := Nat.two_pow_pos l.shift
    obtain ⟨hleads, hempty⟩ := hid _ hbound
    have hentry : m.load (table + l.bytes * ((a - start) / 2 ^ l.shift)) l.bytes
        = entry m l table a := by
      rw [entry, hindex]
    have hfloor : (a - start) / 2 ^ l.shift * 2 ^ l.shift ≤ a - start := Nat.div_mul_le_self _ _
    have hceil : a - start < (a - start) / 2 ^ l.shift * 2 ^ l.shift + 2 ^ l.shift :=
      Nat.lt_div_mul_add hpos
    rw [hentry] at hleads hempty
    by_cases hin : start + (a - start) / 2 ^ l.shift * 2 ^ l.shift < limit
    · obtain ⟨hlead, hsub⟩ := hleads hin
      rw [walk_leads hlead]
      have hdvd : 2 ^ l.shift ∣ start + (a - start) / 2 ^ l.shift * 2 ^ l.shift :=
        Nat.dvd_add (Nat.dvd_trans (pow_dvd_pow 2 (Nat.le_add_right _ _)) hstart)
          (Nat.dvd_mul_left _ _)
      exact ih hrest hsub hdvd hin (by omega) (by omega)
    · rw [walk_not_present (hempty (by omega)), if_neg (by omega)]

/-- An entry with the low bits of a present and writeable page. -/
theorem leads_of_mod {l : Level} {e : Nat} (h : e % 2 ^ 12 = 3) : Leads l e where
  present := by
    rw [PageTable.present, beq_iff_eq]
    omega
  small _ := by
    rw [pageSize, beq_eq_false_iff_ne]
    omega
  writeable _ := by
    rw [PageTable.writeable, beq_iff_eq]
    omega

theorem frame_of_lt {e : Nat} (h : e < 2 ^ 52) : frame e = e - e % 2 ^ 12 := by
  rw [frame]
  omega

/-- A table whose first entry leads on and whose other entries are empty. -/
theorem identity_single {m : Memory} {l : Level} {ls : List Level} {table limit e : Nat}
    (hlimit : limit ≤ 2 ^ l.shift)
    (hload : ∀ i, i < 2 ^ l.bits → m.load (table + l.bytes * i) l.bytes = if i < 1 then e else 0)
    (hleads : Leads l e) (hid : Identity m ls (frame e) 0 limit) (hpos : 0 < limit) :
    Identity m (l :: ls) table 0 limit := by
  intro i hi
  rw [hload i hi]
  rcases Nat.eq_zero_or_pos i with rfl | hpos'
  · rw [if_pos (by omega), Nat.zero_mul, Nat.add_zero]
    exact ⟨fun _ => ⟨hleads, hid⟩, fun hle => by omega⟩
  · have hfar : 2 ^ l.shift ≤ i * 2 ^ l.shift := Nat.le_mul_of_pos_left _ hpos'
    rw [if_neg (by omega)]
    exact ⟨fun hlt => by omega, fun _ => rfl⟩

/-! ## Tables of consecutive frames -/

/-- Write the low four bytes of `n` entries that are `stride` bytes apart.  The
first one is `first`, and each leads one page further than the one before. -/
def link (m : Memory) (base stride first n : Nat) : Memory :=
  forLoop (fun k m => m.store (base + stride * k) 4 (first + 2 ^ 12 * k)) n m

section Link

variable {m : Memory} {base stride first n : Nat}

theorem link_of_not_mem (hstride : 4 ≤ stride) {b : Nat} (h : b < base ∨ base + stride * n ≤ b) :
    link m base stride first n b = m b := by
  induction n with
  | zero => rfl
  | succ n ih =>
    have hnext : stride * (n + 1) = stride * n + stride := Nat.mul_succ stride n
    have hprev := ih (by omega)
    rw [link, forLoop_succ, Memory.store_of_not_mem _ _ (by omega)]
    exact hprev

/-- The low half of an entry that was written. -/
theorem load_link (hstride : 4 ≤ stride) {k : Nat} (hk : k < n)
    (hfits : first + 2 ^ 12 * k < 2 ^ 32) :
    (link m base stride first n).load (base + stride * k) 4 = first + 2 ^ 12 * k := by
  induction n with
  | zero => omega
  | succ n ih =>
    rw [link, forLoop_succ]
    rcases Nat.lt_or_ge k n with hlt | hge
    · have hapart : stride * k + stride ≤ stride * n := by
        rw [← Nat.mul_succ]
        exact Nat.mul_le_mul_left stride hlt
      rw [Memory.load_store_of_disjoint _ _ (by omega)]
      exact ih hlt
    · have hkn : k = n := by omega
      subst hkn
      rw [Memory.load_store]
      exact Nat.mod_eq_of_lt hfits

theorem load_link_of_disjoint (hstride : 4 ≤ stride) {b w : Nat}
    (h : b + w ≤ base ∨ base + stride * n ≤ b) :
    (link m base stride first n).load b w = m.load b w := by
  apply Memory.load_congr
  intro i hi
  exact link_of_not_mem hstride (by omega)

/-- A table of entries of four bytes in cleared memory. -/
theorem load_link_four {s : Nat} (hzero : ∀ i, i < s → m.load (base + 4 * i) 4 = 0)
    (hfits : first + 2 ^ 12 * n ≤ 2 ^ 32) {i : Nat} (hi : i < s) :
    (link m base 4 first n).load (base + 4 * i) 4 = if i < n then first + 2 ^ 12 * i else 0 := by
  by_cases hin : i < n
  · rw [if_pos hin, load_link (Nat.le_refl 4) hin (by omega)]
  · rw [if_neg hin, load_link_of_disjoint (Nat.le_refl 4) (by omega), hzero i hi]

/-- A table of entries of eight bytes in cleared memory. -/
theorem load_link_eight {size : Nat} (hzero : ∀ i, i < size → m.load (base + 8 * i) 8 = 0)
    (hfits : first + 2 ^ 12 * n ≤ 2 ^ 32) {i : Nat} (hi : i < size) :
    (link m base 8 first n).load (base + 8 * i) 8 = if i < n then first + 2 ^ 12 * i else 0 := by
  by_cases hin : i < n
  · have hhigh : (link m base 8 first n).load (base + 8 * i + 4) 4 = 0 := by
      have hold : m.load (base + 8 * i + 4) 4 = 0 := by
        have happend := m.load_append (base + 8 * i) 4 4
        rw [hzero i hi] at happend
        omega
      rw [← hold]
      apply Memory.load_congr
      intro j hj
      -- the bytes between two entries
      have hgap : ∀ k, k ≤ n → link m base 8 first k (base + 8 * i + 4 + j)
          = m (base + 8 * i + 4 + j) := by
        intro k
        induction k with
        | zero => exact fun _ => rfl
        | succ k ih =>
          intro hk
          rw [link, forLoop_succ, Memory.store_of_not_mem _ _ (by omega)]
          exact ih (by omega)
      exact hgap n (Nat.le_refl n)
    rw [if_pos hin, Memory.load_append _ _ 4 4, hhigh, load_link (by omega) hin (by omega)]
    rfl
  · rw [if_neg hin, load_link_of_disjoint (by omega) (by omega), hzero i hi]

end Link

end Lib.PageTable
