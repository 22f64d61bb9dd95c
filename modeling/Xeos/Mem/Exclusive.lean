import Mathlib.Order.Interval.Finset.Nat
import Xeos.Lib.Allocator
import Xeos.Mem.InitializeSafe
import Xeos.Mem.PagesSpec

/-!
# Exclusive use of the pages

A run of the page allocator is a sequence of its four operations, from the state that
`XEOS_Mem_Initialize` leaves.  The blocks in use go along with the kernel: they are
what the allocations have returned and nobody has released.

The map to the abstract allocator takes the bytes of the zones to the set of the free
pages, and the blocks to their sets of pages.  `Inv.take` and `Inv.give` say that an
allocation and a release are the steps of the abstract allocator, so that its
soundness holds of the run.

Two kinds of step break this, and the condition `Clean` leaves them out.  A release
picks the zone in front when this zone ends at the address, and does nothing for an
address that is not aligned.  An allocation does not stop at the end of the pages of a
zone.
-/

namespace Xeos.Mem

open Lib

/-! ## Operations and runs -/

/-- What an allocation has returned. -/
structure Block where
  address : Nat
  count : UInt32
deriving DecidableEq

/-- The block covers the byte at `a`. -/
def Block.Covers (b : Block) (a : Nat) : Prop :=
  b.address ≤ a ∧ a < b.address + 0x1000 * b.count.toNat

/-- The kernel, and the blocks in use. -/
structure System where
  kernel : Kernel
  live : List Block

inductive Op where
  | allocPage
  | allocPages (n : UInt32)
  | freePage (b : Block)
  | freePages (b : Block)

/-- The blocks in use after an allocation, which returns zero if it fails. -/
def grant (address : Nat) (n : UInt32) (live : List Block) : List Block :=
  if address = 0 then live else ⟨address, n⟩ :: live

/-- A release names a block in use, and an allocation asks for a page at least. -/
def Op.Allowed (s : System) : Op → Prop
  | .allocPage => True
  | .allocPages n => 1 ≤ n
  | .freePage b => b ∈ s.live ∧ b.count = 1
  | .freePages b => b ∈ s.live

/-- One operation. -/
def Step (s : System) (op : Op) (s' : System) : Prop :=
  match op with
  | .allocPage => ∃ address, AllocPage s.kernel address s'.kernel ∧
      s'.live = grant address 1 s.live
  | .allocPages n => ∃ address, AllocPages n s.kernel address s'.kernel ∧
      s'.live = grant address n s.live
  | .freePage b => FreePage b.address s.kernel s'.kernel ∧ s'.live = s.live.erase b
  | .freePages b => FreePages b.address b.count s.kernel s'.kernel ∧ s'.live = s.live.erase b

/-- A run of `n` bytes `0x01` starts at the page `i` of a usable zone. -/
def Kernel.FreeRun (k : Kernel) (n zone i : Nat) : Prop :=
  k.HasZone zone ∧ ZoneGetType k.memory zone = MemoryEntryType.usable.code ∧
    i < ZoneGetPageCount k.memory zone ∧ RunAt k.memory zone i n

/-- The first such run ends in the pages of its zone. -/
def Kernel.FirstRunInside (k : Kernel) (n : Nat) : Prop :=
  ∀ zone i, k.FreeRun n zone i →
    (∀ zone' i', k.FreeRun n zone' i' → zone < zone' ∨ (zone = zone' ∧ i ≤ i')) →
    i + n ≤ ZoneGetPageCount k.memory zone

/-- The address is that of a page, and no zone ends there. -/
def Kernel.Releases (k : Kernel) (address : Nat) : Prop :=
  address % 0x1000 = 0 ∧ ∀ zone, k.HasZone zone →
    ZoneGetAddress k.memory zone + ZoneGetLength k.memory zone ≠ address

/-- The steps that the allocator gets right. -/
def Op.Clean (s : System) : Op → Prop
  | .allocPage => True
  | .allocPages n => s.kernel.FirstRunInside n.toNat
  | .freePage b => s.kernel.Releases b.address
  | .freePages b => s.kernel.Releases b.address

/-- A run whose steps are all allowed and meet a condition. -/
inductive Run (cond : System → Op → Prop) (s0 : System) : System → Prop
  | start : Run cond s0 s0
  | step {s s' : System} {op : Op} :
      Run cond s0 s → op.Allowed s → cond s op → Step s op s' → Run cond s0 s'

/-- The pages of every zone are free or in one block in use, as they were free in `k0`
or not, and the counters agree. -/
structure Exclusive (k0 : Kernel) (s : System) : Prop where
  disjoint : s.live.Pairwise fun b b' => ∀ a, ¬ (b.Covers a ∧ b'.Covers a)
  inside : ∀ b ∈ s.live, ∃ zone i, s.kernel.HasZone zone ∧
    ZoneGetType s.kernel.memory zone = MemoryEntryType.usable.code ∧
    b.address = ZoneGetAddress s.kernel.memory zone + 0x1000 * i ∧
    i + b.count.toNat ≤ ZoneGetPageCount s.kernel.memory zone
  bytes : ∀ zone, s.kernel.HasZone zone → ∀ j, j < ZoneGetPageCount s.kernel.memory zone →
    (s.kernel.memory (ZoneGetPages zone + j) = 0x01 ↔
      k0.memory (ZoneGetPages zone + j) = 0x01 ∧
      ∀ b ∈ s.live, ¬ b.Covers (ZoneGetAddress s.kernel.memory zone + 0x1000 * j))
  counts : ∀ zone, s.kernel.HasZone zone →
    ZoneGetFreePageCount s.kernel.memory zone
      = ((Finset.range (ZoneGetPageCount s.kernel.memory zone)).filter
          (fun j => s.kernel.memory (ZoneGetPages zone + j) = 0x01)).card

/-! ## The abstract allocator -/

/-- A page of the zones. -/
abbrev PageId := Zone × Nat

/-- The pages that are marked free. -/
def freeSet (zs : List Zone) (m : Memory) : Set PageId :=
  { p | p.1 ∈ zs ∧ p.2 < p.1.pageCount ∧ m (p.1.byte p.2) = 0x01 }

/-- The pages of a block. -/
def Block.pages (zs : List Zone) (b : Block) : Set PageId :=
  { p | p.1 ∈ zs ∧ p.2 < p.1.pageCount ∧ b.Covers (p.1.page p.2) }

/-- The abstract state. -/
def System.abstract (zs : List Zone) (s : System) : Allocator.State PageId :=
  ⟨freeSet zs s.kernel.memory, s.live.map (Block.pages zs)⟩

/-- The block is `n` pages from page `i` on. -/
def Block.At (b : Block) (z : Zone) (i : Nat) : Prop :=
  b.address = z.page i ∧ i + b.count.toNat ≤ z.pageCount

/-- What holds between the operations. -/
structure Inv (k0 : Kernel) (zs : List Zone) (s : System) : Prop where
  lists : s.kernel.Lists zs
  counts : ∀ z ∈ zs, ZoneGetFreePageCount s.kernel.memory z.address = z.ones s.kernel.memory
  located : ∀ b ∈ s.live, ∃ z ∈ zs, z.type = .usable ∧ ∃ i, b.At z i
  sound : Allocator.Sound (freeSet zs k0.memory) (s.abstract zs)

/-! ## Zones apart from each other -/

theorem pairwise_cases {zs : List Zone} {R : Zone → Zone → Prop} (h : zs.Pairwise R) {z z' : Zone}
    (hz : z ∈ zs) (hz' : z' ∈ zs) : z = z' ∨ R z z' ∨ R z' z := by
  induction h with
  | nil => cases hz
  | @cons first zs hhead _ ih =>
    cases hz with
    | head =>
      cases hz' with
      | head => exact .inl rfl
      | tail _ hz' => exact .inr (.inl (hhead z' hz'))
    | tail _ hz =>
      cases hz' with
      | head => exact .inr (.inr (hhead z hz))
      | tail _ hz' => exact ih hz hz'

section Mark

variable {zs : List Zone} {z z' : Zone} {m : Memory} {v : UInt8} {c i n : Nat}

/-- A mark inside a zone leaves the rest of the memory alone. -/
theorem mark_outside (hin : i + n ≤ z.pageCount) {b : Nat}
    (hb : b < z.address + 40 ∨ z.finish ≤ b) : mark v c z.address i n m b = m b := by
  unfold Zone.finish at hb
  apply mark_frame
  · unfold freePageCountOf ZoneGetPages
    omega
  · unfold ZoneGetPages
    omega

theorem mark_byte (j : Nat) : mark v c z.address i n m (z.byte j)
    = if i ≤ j ∧ j < i + n then v else m (z.byte j) := by
  unfold Zone.byte
  rw [mark_page (by unfold ZoneGetPages; omega)]
  unfold ZoneGetPages
  by_cases hj : i ≤ j ∧ j < i + n
  · rw [if_pos hj, if_pos (by omega)]
  · rw [if_neg hj, if_neg (by omega)]

/-- A mark inside a zone keeps the fields of all zones. -/
theorem mark_header (harr : Arranged zs) (hz : z ∈ zs) (hz' : z' ∈ zs)
    (hin : i + n ≤ z.pageCount) {b : Nat} (h1 : z'.address ≤ b) (h2 : b < z'.address + 40) :
    mark v c z.address i n m b = m b := by
  apply mark_outside hin
  rcases pairwise_cases harr.apart hz hz' with rfl | hapart | hapart
  · exact .inl h2
  · exact .inr (by omega)
  · unfold Zone.finish at hapart
    exact .inl (by omega)

/-- It keeps the other zones altogether. -/
theorem mark_other (harr : Arranged zs) (hz : z ∈ zs) (hz' : z' ∈ zs) (hne : z ≠ z')
    (hin : i + n ≤ z.pageCount) {b : Nat} (h1 : z'.address ≤ b) (h2 : b < z'.finish) :
    mark v c z.address i n m b = m b := by
  apply mark_outside hin
  rcases pairwise_cases harr.apart hz hz' with heq | hapart | hapart
  · exact absurd heq hne
  · exact .inr (by omega)
  · exact .inl (by omega)

/-- The kernel still has its zones. -/
theorem Kernel.Lists.mark {k : Kernel} (h : k.Lists zs) (harr : Arranged zs) (hz : z ∈ zs)
    (hin : i + n ≤ z.pageCount) :
    ({ k with memory := mark v c z.address i n k.memory } : Kernel).Lists zs where
  chain := by
    refine h.chain.congr ?_
    intro p hp
    obtain ⟨z', hz', rfl⟩ := List.mem_map.mp hp
    exact Memory.load_congr fun j hj => mark_header harr hz hz' hin (by omega) (by omega)
  holds := fun z' hz' => (h.holds z' hz').congr fun b h1 h2 _ => mark_header harr hz hz' hin h1 h2
  count := h.count

/-- The bytes of the other zones. -/
theorem mark_other_byte (harr : Arranged zs) (hz : z ∈ zs) (hz' : z' ∈ zs) (hne : z ≠ z')
    (hin : i + n ≤ z.pageCount) {j : Nat} (hj : j < z'.pageCount) :
    mark v c z.address i n m (z'.byte j) = m (z'.byte j) := by
  apply mark_other harr hz hz' hne hin
  · unfold Zone.byte
    omega
  · unfold Zone.byte Zone.finish
    omega

end Mark

/-! ## Counting -/

/-- A memory with a run of `n` bytes `0x01` more than another one. -/
theorem ones_eq_add {z : Zone} (m m' : Memory) {i n : Nat} (hin : i + n ≤ z.pageCount)
    (hrun : ∀ j, i ≤ j → j < i + n → m (z.byte j) = 0x01)
    (hnone : ∀ j, i ≤ j → j < i + n → m' (z.byte j) ≠ 0x01)
    (hout : ∀ j, (j < i ∨ i + n ≤ j) → m (z.byte j) = m' (z.byte j)) :
    z.ones m = z.ones m' + n := by
  have hset : (Finset.range z.pageCount).filter (fun j => m (z.byte j) = 0x01)
      = (Finset.range z.pageCount).filter (fun j => m' (z.byte j) = 0x01) ∪ Finset.Ico i (i + n) := by
    ext j
    simp only [Finset.mem_filter, Finset.mem_range, Finset.mem_union, Finset.mem_Ico]
    by_cases hj : i ≤ j ∧ j < i + n
    · have hbyte := hrun j hj.1 hj.2
      simp only [hbyte, hj, and_self, or_true, and_true, iff_true]
      omega
    · rw [hout j (by omega)]
      simp only [hj, or_false]
  have hdisj : Disjoint ((Finset.range z.pageCount).filter (fun j => m' (z.byte j) = 0x01))
      (Finset.Ico i (i + n)) := by
    rw [Finset.disjoint_left]
    intro j hj hin
    have hrange := Finset.mem_Ico.mp hin
    exact hnone j hrange.1 hrange.2 (Finset.mem_filter.mp hj).2
  unfold Zone.ones
  rw [hset, Finset.card_union_of_disjoint hdisj, Nat.card_Ico, Nat.add_sub_cancel_left]

/-! ## The steps of the abstract allocator -/

section Refine

variable {k0 : Kernel} {zs : List Zone} {s : System} {z : Zone} {b : Block} {i : Nat}

/-- The pages of a block in a zone. -/
theorem Block.At.mem_pages_iff (h : b.At z i) (harr : Arranged zs) (hz : z ∈ zs) {p : PageId} :
    p ∈ b.pages zs ↔ p.1 = z ∧ i ≤ p.2 ∧ p.2 < i + b.count.toNat := by
  obtain ⟨z', j⟩ := p
  obtain ⟨haddress, hin⟩ := h
  have hpages := harr.pages z hz
  unfold Zone.page at haddress
  change (z' ∈ zs ∧ j < z'.pageCount ∧ b.Covers (z'.page j)) ↔ z' = z ∧ i ≤ j ∧ j < _
  unfold Block.Covers Zone.page
  constructor
  · intro hp
    obtain ⟨hz', hj, hlow, hhigh⟩ := hp
    have hpages' := harr.pages z' hz'
    rcases pairwise_cases harr.ordered hz hz' with rfl | hapart | hapart
    · exact ⟨rfl, by omega, by omega⟩
    · omega
    · omega
  · intro hp
    obtain ⟨rfl, hlow, hhigh⟩ := hp
    refine ⟨hz, ?_, ?_, ?_⟩ <;> omega

/-- The system after `n` pages of a zone are taken. -/
def System.taken (s : System) (z : Zone) (i : Nat) (n : UInt32) : System where
  kernel := { s.kernel with memory := take z.address i n.toNat s.kernel.memory }
  live := ⟨z.page i, n⟩ :: s.live

/-- The system after a block in a zone is given back. -/
def System.given (s : System) (z : Zone) (i : Nat) (b : Block) : System where
  kernel := { s.kernel with
    memory := mark 0x01 b.count.toNat z.address i b.count.toNat s.kernel.memory }
  live := s.live.erase b

theorem run_byte {m : Memory} {n : Nat} (hrun : RunAt m z.address i n) {j : Nat} (h1 : i ≤ j)
    (h2 : j < i + n) : m (z.byte j) = 0x01 := by
  have hbyte := hrun (j - i) (by omega)
  unfold ZoneGetPages at hbyte
  rwa [show z.address + 48 + i + (j - i) = z.byte j by unfold Zone.byte; omega] at hbyte

/-- Taking a free run is a step of the abstract allocator. -/
theorem abstract_taken (harr : Arranged zs) (hz : z ∈ zs) {n : UInt32}
    (hin : i + n.toNat ≤ z.pageCount) (hrun : RunAt s.kernel.memory z.address i n.toNat) :
    Allocator.Step (s.abstract zs) ((s.taken z i n).abstract zs) := by
  have hat : (Block.mk (z.page i) n).At z i := ⟨rfl, hin⟩
  have hsub : (Block.mk (z.page i) n).pages zs ⊆ (s.abstract zs).free := by
    intro p hp
    obtain ⟨heq, hlow, hhigh⟩ := (hat.mem_pages_iff harr hz).mp hp
    refine ⟨heq ▸ hz, ?_, ?_⟩
    · rw [heq]
      simp only at hhigh
      omega
    · rw [heq]
      exact run_byte hrun hlow hhigh
  have hfree : freeSet zs (take z.address i n.toNat s.kernel.memory)
      = freeSet zs s.kernel.memory \ (Block.mk (z.page i) n).pages zs := by
    ext p
    obtain ⟨z', j⟩ := p
    rw [Set.mem_sdiff, hat.mem_pages_iff harr hz]
    simp only [freeSet, Set.mem_ofPred_eq, take]
    constructor
    · intro hp
      obtain ⟨hz', hj, hone⟩ := hp
      by_cases heq : z = z'
      · subst heq
        rw [mark_byte] at hone
        by_cases hr : i ≤ j ∧ j < i + n.toNat
        · rw [if_pos hr] at hone
          exact absurd hone (by decide)
        · rw [if_neg hr] at hone
          exact ⟨⟨hz', hj, hone⟩, fun h => hr h.2⟩
      · rw [mark_other_byte harr hz hz' heq hin hj] at hone
        exact ⟨⟨hz', hj, hone⟩, fun h => heq h.1.symm⟩
    · intro hp
      obtain ⟨⟨hz', hj, hone⟩, hnot⟩ := hp
      refine ⟨hz', hj, ?_⟩
      by_cases heq : z = z'
      · subst heq
        rw [mark_byte, if_neg (fun hr => hnot ⟨rfl, hr⟩)]
        exact hone
      · rw [mark_other_byte harr hz hz' heq hin hj]
        exact hone
  have hstep := Allocator.Step.take hsub
  unfold System.abstract System.taken
  rw [hfree]
  exact hstep

/-- Giving a block back is one, too. -/
theorem abstract_given (harr : Arranged zs) (hz : z ∈ zs) (hat : b.At z i) (hb : b ∈ s.live) :
    Allocator.Step (s.abstract zs) ((s.given z i b).abstract zs) := by
  have hfree : freeSet zs (mark 0x01 b.count.toNat z.address i b.count.toNat s.kernel.memory)
      = freeSet zs s.kernel.memory ∪ b.pages zs := by
    ext p
    obtain ⟨z', j⟩ := p
    rw [Set.mem_union, hat.mem_pages_iff harr hz]
    simp only [freeSet, Set.mem_ofPred_eq]
    have hin := hat.2
    constructor
    · intro hp
      obtain ⟨hz', hj, hone⟩ := hp
      by_cases heq : z = z'
      · subst heq
        rw [mark_byte] at hone
        by_cases hr : i ≤ j ∧ j < i + b.count.toNat
        · exact .inr ⟨rfl, hr⟩
        · rw [if_neg hr] at hone
          exact .inl ⟨hz', hj, hone⟩
      · rw [mark_other_byte harr hz hz' heq hin hj] at hone
        exact .inl ⟨hz', hj, hone⟩
    · intro hp
      cases hp with
      | inl hp =>
        obtain ⟨hz', hj, hone⟩ := hp
        refine ⟨hz', hj, ?_⟩
        by_cases heq : z = z'
        · subst heq
          rw [mark_byte]
          split
          · rfl
          · exact hone
        · rw [mark_other_byte harr hz hz' heq hin hj]
          exact hone
      | inr hp =>
        obtain ⟨rfl, hlow, hhigh⟩ := hp
        exact ⟨hz, by omega, by rw [mark_byte, if_pos ⟨hlow, hhigh⟩]⟩
  have hperm := (List.perm_cons_erase hb).map (Block.pages zs)
  rw [List.map_cons] at hperm
  have hstep := Allocator.Step.give (s := s.abstract zs) hperm
  unfold System.given System.abstract
  rw [hfree]
  exact hstep

/-- A block in use holds no free page. -/
theorem Inv.not_free (h : Inv k0 zs s) (harr : Arranged zs) (hz : z ∈ zs) (hat : b.At z i)
    (hb : b ∈ s.live) {j : Nat} (h1 : i ≤ j) (h2 : j < i + b.count.toNat) :
    s.kernel.memory (z.byte j) ≠ 0x01 := by
  intro hone
  have hdisj := h.sound.disjoint_free (List.mem_map_of_mem hb)
  have hpage : (z, j) ∈ b.pages zs := (hat.mem_pages_iff harr hz).mpr ⟨rfl, h1, h2⟩
  have hin := hat.2
  exact Set.disjoint_left.mp hdisj hpage ⟨hz, by simp only; omega, hone⟩

/-! ## The invariant -/

/-- The counters after a mark in a zone, if that of the zone agrees. -/
theorem counts_mark {k : Kernel} (hcounts : ∀ z' ∈ zs,
      ZoneGetFreePageCount k.memory z'.address = z'.ones k.memory) (harr : Arranged zs)
    (hz : z ∈ zs) {v : UInt8} {c n : Nat} (hin : i + n ≤ z.pageCount)
    (hown : (z.ones k.memory + c) % 2 ^ 64 = z.ones (mark v c z.address i n k.memory)) :
    ∀ z' ∈ zs, ZoneGetFreePageCount (mark v c z.address i n k.memory) z'.address
      = z'.ones (mark v c z.address i n k.memory) := by
  intro z' hz'
  by_cases heq : z = z'
  · subst heq
    rw [mark_freePageCount, hcounts z hz, hown]
  · have hload : ZoneGetFreePageCount (mark v c z.address i n k.memory) z'.address
        = ZoneGetFreePageCount k.memory z'.address :=
      Memory.load_congr fun j hj => mark_other harr hz hz' heq hin (by omega)
        (by unfold Zone.finish; omega)
    rw [hload, hcounts z' hz']
    exact (Zone.ones_congr fun j hj => mark_other_byte harr hz hz' heq hin hj).symm

theorem ones_lt (harr : Arranged zs) (hz : z ∈ zs) (m : Memory) : z.ones m < 2 ^ 64 := by
  have hcard := (Finset.card_filter_le (Finset.range z.pageCount)
    (fun j => m (z.byte j) = 0x01)).trans (Finset.card_range _).le
  have hpages := harr.pages z hz
  have hbound := (harr.bound z hz).1
  unfold Zone.ones
  omega

/-- An allocation of a free run keeps the invariant. -/
theorem Inv.take (h : Inv k0 zs s) (harr : Arranged zs) (hz : z ∈ zs) (husable : z.type = .usable)
    {n : UInt32} (hin : i + n.toNat ≤ z.pageCount)
    (hrun : RunAt s.kernel.memory z.address i n.toNat) : Inv k0 zs (s.taken z i n) where
  lists := h.lists.mark harr hz hin
  counts := by
    apply counts_mark h.counts harr hz hin
    have hones := ones_eq_add s.kernel.memory (Mem.take z.address i n.toNat s.kernel.memory) hin
      (fun j h1 h2 => run_byte hrun h1 h2)
      (fun j h1 h2 hone => by
        rw [Mem.take, mark_byte, if_pos ⟨h1, h2⟩] at hone
        exact absurd hone (by decide))
      (fun j hj => by rw [Mem.take, mark_byte, if_neg (by omega)])
    have hlt := ones_lt harr hz s.kernel.memory
    have hn := n.toNat_lt
    unfold Mem.take at hones
    omega
  located := by
    intro b hb
    cases hb with
    | head => exact ⟨z, hz, husable, i, rfl, hin⟩
    | tail _ hb => exact h.located b hb
  sound := h.sound.step (abstract_taken harr hz hin hrun)

/-- The release of a block in use keeps the invariant. -/
theorem Inv.give (h : Inv k0 zs s) (harr : Arranged zs) (hz : z ∈ zs) (hat : b.At z i)
    (hb : b ∈ s.live) : Inv k0 zs (s.given z i b) where
  lists := h.lists.mark harr hz hat.2
  counts := by
    apply counts_mark h.counts harr hz hat.2
    have hones := ones_eq_add (mark 0x01 b.count.toNat z.address i b.count.toNat s.kernel.memory)
      s.kernel.memory hat.2
      (fun j h1 h2 => by rw [mark_byte, if_pos ⟨h1, h2⟩])
      (fun j h1 h2 => h.not_free harr hz hat hb h1 h2)
      (fun j hj => by rw [mark_byte, if_neg (by omega)])
    have hlt := ones_lt harr hz
      (mark 0x01 b.count.toNat z.address i b.count.toNat s.kernel.memory)
    omega
  located := fun b' hb' => h.located b' (List.mem_of_mem_erase hb')
  sound := h.sound.step (abstract_given harr hz hat hb)

end Refine

/-! ## Walks over the zones -/

section Walk

variable {k k' : Kernel} {zs : List Zone}

/-- The walks start at the first zone. -/
theorem Kernel.Lists.getZoneAtIndex_iff (h : k.Lists zs) {zone : Nat} :
    GetZoneAtIndex k 0 zone ↔ zone = k.Zones := by
  unfold GetZoneAtIndex
  by_cases hnil : zs = []
  · subst hnil
    have hzero : k.Zones = 0 := by
      cases hzones : k.Zones with
      | zero => rfl
      | succ p =>
        have hchain := h.chain
        rw [hzones] at hchain
        cases hchain
    rw [hzero]
    split
    · exact Iff.rfl
    · exact returns_iff_of_done rfl
  · rw [if_neg (by have hcount := h.count hnil; omega)]
    have hdone : stepGetZoneAtIndex k.memory (k.Zones, 0) = .inr k.Zones := by
      by_cases hzero : k.Zones = 0
      · simp only [stepGetZoneAtIndex, hzero, if_true]
      · simp only [stepGetZoneAtIndex, hzero, if_false, if_true]
    exact returns_iff_of_done hdone

/-- A walk is the recursion over the zones, if a visit with no result changes
nothing. -/
theorem Kernel.Lists.walkZones_iff {ρ : Type} {visit : Nat → Memory → Option ρ × Memory}
    (h : k.Lists zs)
    (hnone : ∀ z ∈ zs, (visit z.address k.memory).1 = none →
      (visit z.address k.memory).2 = k.memory) (k' : Kernel) (result : Option ρ) :
    WalkZones visit k result k' ↔
      result = (walkList visit (zs.map Zone.address) k.memory).1 ∧
      k' = { k with memory := (walkList visit (zs.map Zone.address) k.memory).2 } := by
  have hreturns : Returns (walkStep ZoneGetNext visit) (k.Zones, k.memory)
      (walkList visit (zs.map Zone.address) k.memory) := by
    refine returns_walk (fun m => m = k.memory) (fun _ hq => hq) ?_ ?_ rfl h.chain
    · intro m m' hm hm' q _
      rw [hm, hm']
    · intro q hq m hm hv
      obtain ⟨z, hz, rfl⟩ := List.mem_map.mp hq
      subst hm
      exact hnone z hz hv
  unfold WalkZones
  constructor
  · intro hwalk
    obtain ⟨zone, m', hzone, hret, hk'⟩ := hwalk
    rw [h.getZoneAtIndex_iff.mp hzone] at hret
    have heq := hret.unique hreturns
    rw [hk', ← heq]
    exact ⟨rfl, rfl⟩
  · intro hwalk
    obtain ⟨hresult, hk'⟩ := hwalk
    refine ⟨k.Zones, _, h.getZoneAtIndex_iff.mpr rfl, ?_, hk'⟩
    rw [hresult]
    exact hreturns

/-- The zones in front of a zone have smaller addresses. -/
theorem split_at (harr : Arranged zs) {before after : List Nat} {p : Nat}
    (hsplit : zs.map Zone.address = before ++ p :: after) :
    ∃ z ∈ zs, z.address = p ∧
      ∀ z' ∈ zs, z'.address ∈ before ∨ z' = z ∨ z.address < z'.address := by
  obtain ⟨front, back, rfl, hfront, hback⟩ := List.map_eq_append_iff.mp hsplit
  obtain ⟨z, rest, rfl, hp, _⟩ := List.map_eq_cons_iff.mp hback
  refine ⟨z, by simp, hp, ?_⟩
  intro z' hz'
  rw [List.mem_append, List.mem_cons] at hz'
  rcases hz' with hz' | rfl | hz'
  · exact .inl (hfront ▸ List.mem_map_of_mem hz')
  · exact .inr (.inl rfl)
  · have happ := (List.pairwise_append.mp harr.apart).2.1
    have hlt := (List.pairwise_cons.mp happ).1 z' hz'
    unfold Zone.finish at hlt
    exact .inr (.inr (by omega))

end Walk

/-! ## Allocations -/

section Alloc

variable {k0 : Kernel} {zs : List Zone} {s : System} {z : Zone} {n : UInt32}

/-- The run of `n` bytes from page `i` on that an allocation takes in a zone, also over
the end of its pages. -/
structure Zone.Hit (m : Memory) (n : Nat) (z : Zone) (i : Nat) : Prop where
  usable : z.type = .usable
  free : 0 < ZoneGetFreePageCount m z.address
  start : i < z.pageCount
  run : RunAt m z.address i n

/-- One zone of an allocation: no run, or the first one. -/
theorem visitAlloc_hit {m : Memory} (hholds : z.Holds m) {count : Nat} (hcount : 0 < count)
    (hcount64 : count < 2 ^ 64) :
    (visitAlloc (allocPagesFrom count) z.address m = (none, m) ∧ ∀ i, ¬ z.Hit m count i) ∨
    ∃ i, z.Hit m count i ∧ (∀ i', i' < i → ¬ RunAt m z.address i' count) ∧
      visitAlloc (allocPagesFrom count) z.address m
        = (some (z.page i % 2 ^ 64), take z.address i count m) := by
  by_cases htype : z.type = .usable
  swap
  · have hcode : ZoneGetType m z.address ≠ MemoryEntryType.usable.code := by
      rw [hholds.type]
      cases hz : z.type <;> simp [MemoryEntryType.code, hz] at htype ⊢
    exact .inl ⟨if_pos hcode, fun i hi => htype hi.usable⟩
  have hcode : ZoneGetType m z.address = MemoryEntryType.usable.code := by
    rw [hholds.type, htype]
  by_cases hzero : ZoneGetFreePageCount m z.address = 0
  · refine .inl ⟨?_, fun i hi => absurd hi.free (by omega)⟩
    unfold visitAlloc
    rw [if_neg (not_not.mpr hcode), if_pos hzero]
  have hvisit : visitAlloc (allocPagesFrom count) z.address m
      = allocPagesFrom count z.address z.pageCount 0 z.base m := by
    unfold visitAlloc
    rw [if_neg (not_not.mpr hcode), if_neg hzero, hholds.pageCount, hholds.base]
  have hbase : z.base < 2 ^ 64 := by
    rw [← hholds.base]
    exact Memory.load_lt _ _ _
  rw [hvisit]
  rcases allocPagesFrom_spec m z.address z.pageCount 0 hcount hcount64 hbase with hnone | hsome
  · refine .inl ⟨hnone.1, fun i hi => ?_⟩
    have hnot := hnone.2 i hi.start
    rw [Nat.zero_add] at hnot
    exact hnot hi.run
  · obtain ⟨i, hi, hrun, hfirst, heq⟩ := hsome
    rw [Nat.zero_add] at hrun heq
    refine .inr ⟨i, ⟨htype, by omega, hi, hrun⟩, fun i' hi' => ?_, heq⟩
    have hnot := hfirst i' hi'
    rwa [Nat.zero_add] at hnot

/-- A visit without a result changes nothing. -/
theorem visitAlloc_none {m : Memory} (hholds : z.Holds m) {count : Nat} (hcount : 0 < count)
    (hcount64 : count < 2 ^ 64)
    (hv : (visitAlloc (allocPagesFrom count) z.address m).1 = none) :
    (visitAlloc (allocPagesFrom count) z.address m).2 = m := by
  rcases visitAlloc_hit hholds hcount hcount64 with hno | ⟨i, _, _, heq⟩
  · rw [hno.1]
  · rw [heq] at hv
    cases hv

/-- With the counters right, a hit is a run of the kernel. -/
theorem Zone.hit_iff_freeRun {k : Kernel} (hlists : k.Lists zs)
    (hcounts : ∀ z ∈ zs, ZoneGetFreePageCount k.memory z.address = z.ones k.memory) (hz : z ∈ zs)
    (hn : 1 ≤ n) (i : Nat) :
    z.Hit k.memory n.toNat i ↔ k.FreeRun n.toNat z.address i := by
  have hholds := hlists.holds z hz
  constructor
  · intro hhit
    refine ⟨hlists.hasZone_iff.mpr ⟨z, hz, rfl⟩, ?_, hholds.pageCount.symm ▸ hhit.start, hhit.run⟩
    rw [hholds.type, hhit.usable]
  · intro hrun
    have hlt := hrun.2.2.1
    rw [hholds.pageCount] at hlt
    have hbyte := hrun.2.2.2 0 (UInt32.le_iff_toNat_le.mp hn)
    refine ⟨?_, ?_, hlt, hrun.2.2.2⟩
    · have htype := hrun.2.1
      rw [hholds.type] at htype
      cases hcase : z.type <;> simp [MemoryEntryType.code, hcase] at htype ⊢
    · rw [hcounts z hz]
      exact Finset.card_pos.mpr ⟨i, Finset.mem_filter.mpr ⟨Finset.mem_range.mpr hlt, hbyte⟩⟩

/-- The same for the state of a system. -/
theorem visitAlloc_spec {k : Kernel} (hlists : k.Lists zs) (harr : Arranged zs)
    (hcounts : ∀ z ∈ zs, ZoneGetFreePageCount k.memory z.address = z.ones k.memory) (hz : z ∈ zs)
    (hn : 1 ≤ n) :
    (visitAlloc (allocPagesFrom n.toNat) z.address k.memory = (none, k.memory) ∧
      ∀ i, ¬ k.FreeRun n.toNat z.address i) ∨
    ∃ i, k.FreeRun n.toNat z.address i ∧ (∀ i', i' < i → ¬ k.FreeRun n.toNat z.address i') ∧
      z.type = .usable ∧ i < z.pageCount ∧
      visitAlloc (allocPagesFrom n.toNat) z.address k.memory
        = (some (z.page i), take z.address i n.toNat k.memory) := by
  have hn64 : n.toNat < 2 ^ 64 := Nat.lt_trans n.toNat_lt (by decide)
  have hiff := Zone.hit_iff_freeRun hlists hcounts hz hn
  rcases visitAlloc_hit (hlists.holds z hz) (UInt32.le_iff_toNat_le.mp hn) hn64 with
    hno | ⟨i, hhit, hfirst, heq⟩
  · exact .inl ⟨hno.1, fun i hi => hno.2 i ((hiff i).mpr hi)⟩
  · have hpages := harr.pages z hz
    have hbound := (harr.bound z hz).1
    have hstart := hhit.start
    refine .inr ⟨i, (hiff i).mp hhit, fun i' hi' hrun => hfirst i' hi' hrun.2.2.2, hhit.usable,
      hstart, ?_⟩
    rw [heq, Nat.mod_eq_of_lt (by unfold Zone.page; omega)]

/-- An allocation is a walk over the zones. -/
theorem allocPages_iff_walk {k : Kernel} (hlists : k.Lists zs)
    (hnone : ∀ z ∈ zs, (visitAlloc (allocPagesFrom n.toNat) z.address k.memory).1 = none →
      (visitAlloc (allocPagesFrom n.toNat) z.address k.memory).2 = k.memory) (a : Nat)
    (k'' : Kernel) : AllocPages n k a k'' ↔
      a = (walkList (visitAlloc (allocPagesFrom n.toNat)) (zs.map Zone.address)
        k.memory).1.getD 0 ∧
      k'' = { k with memory := (walkList (visitAlloc (allocPagesFrom n.toNat))
        (zs.map Zone.address) k.memory).2 } := by
  unfold AllocPages
  constructor
  · intro halloc
    obtain ⟨result, hwalk, ha⟩ := halloc
    obtain ⟨hresult, hk''⟩ := (hlists.walkZones_iff hnone _ _).mp hwalk
    exact ⟨hresult ▸ ha, hk''⟩
  · intro halloc
    exact ⟨_, (hlists.walkZones_iff hnone _ _).mpr ⟨rfl, halloc.2⟩, halloc.1⟩

/-- An allocation fails and changes nothing, or takes the first free run. -/
theorem allocPages_iff (h : Inv k0 zs s) (harr : Arranged zs) (hn : 1 ≤ n) :
    ∃ address k', (∀ a k'', AllocPages n s.kernel a k'' ↔ a = address ∧ k'' = k') ∧
      ((address = 0 ∧ k' = s.kernel ∧ ∀ zone i, ¬ s.kernel.FreeRun n.toNat zone i) ∨
        ∃ z ∈ zs, ∃ i, z.type = .usable ∧ s.kernel.FreeRun n.toNat z.address i ∧
          (∀ zone' i', s.kernel.FreeRun n.toNat zone' i' →
            z.address < zone' ∨ (z.address = zone' ∧ i ≤ i')) ∧
          address = z.page i ∧
          k' = { s.kernel with memory := take z.address i n.toNat s.kernel.memory }) := by
  have hspec := fun z (hz : z ∈ zs) => visitAlloc_spec h.lists harr h.counts hz hn
  have hnone : ∀ z ∈ zs, (visitAlloc (allocPagesFrom n.toNat) z.address s.kernel.memory).1 = none →
      (visitAlloc (allocPagesFrom n.toNat) z.address s.kernel.memory).2 = s.kernel.memory := by
    intro z hz hv
    rcases hspec z hz with hno | ⟨i, _, _, _, _, heq⟩
    · rw [hno.1]
    · rw [heq] at hv
      cases hv
  refine ⟨_, _, allocPages_iff_walk h.lists hnone, ?_⟩
  have hmem : ∀ {p}, p ∈ zs.map Zone.address → ∃ z ∈ zs, z.address = p :=
    fun hp => List.mem_map.mp hp
  rcases walkList_cases (visitAlloc (allocPagesFrom n.toNat))
    (l := zs.map Zone.address) (s := s.kernel.memory)
    (fun p hp hv => by
      obtain ⟨z, hz, rfl⟩ := hmem hp
      exact hnone z hz hv) with ⟨hwalk, hall⟩ | ⟨before, p, after, r, hsplit, hbefore, hsome, hwalk⟩
  · rw [hwalk]
    refine .inl ⟨rfl, rfl, ?_⟩
    intro zone i hrun
    obtain ⟨z, hz, rfl⟩ := h.lists.hasZone_iff.mp hrun.1
    rcases hspec z hz with hno | ⟨j, _, _, _, _, heq⟩
    · exact hno.2 i hrun
    · have hv := hall z.address (List.mem_map_of_mem hz)
      rw [heq] at hv
      cases hv
  · obtain ⟨z, hz, rfl, horder⟩ := split_at harr hsplit
    rcases hspec z hz with hno | ⟨i, hrun, hfirst, husable, _, heq⟩
    · rw [hno.1] at hsome
      cases hsome
    · rw [hwalk, heq]
      refine .inr ⟨z, hz, i, husable, hrun, ?_, rfl, rfl⟩
      intro zone' i' hrun'
      obtain ⟨z', hz', rfl⟩ := h.lists.hasZone_iff.mp hrun'.1
      rcases horder z' hz' with hin | rfl | hlt
      · -- a zone in front has no run
        rcases hspec z' hz' with hno | ⟨j, _, _, _, _, heq'⟩
        · exact absurd hrun' (hno.2 i')
        · have hb := hbefore z'.address hin
          rw [heq'] at hb
          cases hb
      · refine .inr ⟨rfl, ?_⟩
        by_contra hlt
        exact hfirst i' (by omega) hrun'
      · exact .inl hlt

end Alloc

/-! ## Releases -/

section Release

variable {k0 : Kernel} {zs : List Zone} {s : System} {z : Zone} {b : Block} {i : Nat}

/-- A zone of a smaller address has its memory in front. -/
theorem Arranged.le_base (harr : Arranged zs) {z' : Zone} (hz : z ∈ zs) (hz' : z' ∈ zs)
    (hlt : z'.address < z.address) : z'.base + z'.length ≤ z.base := by
  rcases pairwise_cases (harr.apart.and harr.ordered) hz' hz with rfl | hboth | hboth
  · exact absurd hlt (Nat.lt_irrefl _)
  · exact hboth.2
  · have happ := hboth.1
    unfold Zone.finish at happ
    omega

/-- A zone that is passed over is left as it is. -/
theorem visitFreePages_none {page n zone : Nat} {m : Memory}
    (hv : (visitFreePages page n zone m).1 = none) : (visitFreePages page n zone m).2 = m := by
  unfold visitFreePages at hv ⊢
  simp only at hv ⊢
  by_cases hbehind : page > (ZoneGetAddress m zone + ZoneGetLength m zone) % 2 ^ 64
  · rw [if_pos hbehind]
  · rw [if_neg hbehind] at hv
    cases hv

/-- A release that is not ignored is a walk. -/
theorem freePages_iff_walk {k k' : Kernel} (h : k.Lists zs) {address : Nat} {n : UInt32}
    (haligned : address % 0x1000 = 0) :
    FreePages address n k k' ↔ k' = { k with
      memory := (walkList (visitFreePages address n.toNat) (zs.map Zone.address) k.memory).2 } := by
  have hnone : ∀ z ∈ zs, (visitFreePages address n.toNat z.address k.memory).1 = none →
      (visitFreePages address n.toNat z.address k.memory).2 = k.memory :=
    fun z _ hv => visitFreePages_none hv
  have hwalk := fun result => h.walkZones_iff hnone k' result
  have hmask : address &&& 0xFFF = 0 := (Nat.and_two_pow_sub_one_eq_mod address 12).trans haligned
  unfold FreePages
  rw [if_neg (not_not.mpr hmask)]
  constructor
  · intro hfree
    obtain ⟨result, hfree⟩ := hfree
    exact ((hwalk result).mp hfree).2
  · intro hk'
    exact ⟨_, (hwalk _).mpr ⟨rfl, hk'⟩⟩

/-- A release marks the pages of the block, if no zone ends at it. -/
theorem freePages_iff (h : Inv k0 zs s) (harr : Arranged zs) (hz : z ∈ zs) (hat : b.At z i)
    (hclean : s.kernel.Releases b.address) (k' : Kernel) :
    FreePages b.address b.count s.kernel k' ↔ k' = (s.given z i b).kernel := by
  have hholds := fun z (hz : z ∈ zs) => h.lists.holds z hz
  have hend : ∀ z' ∈ zs, z'.base + z'.length ≠ b.address := by
    intro z' hz'
    have hne := hclean.2 z'.address (h.lists.hasZone_iff.mpr ⟨z', hz', rfl⟩)
    rwa [(hholds z' hz').base, (hholds z' hz').length] at hne
  have haddress := hat.1
  have hin := hat.2
  have hbound := fun z (hz : z ∈ zs) => (harr.bound z hz).1
  have hpages := harr.pages z hz
  have hboundz := hbound z hz
  unfold Zone.page at haddress
  have hvisit : ∀ z' ∈ zs, visitFreePages b.address b.count.toNat z'.address s.kernel.memory
      = if b.address > z'.base + z'.length then (none, s.kernel.memory)
        else (some (), markPages z'.address (pageIndexOf b.address z'.base) b.count.toNat
          s.kernel.memory) := by
    intro z' hz'
    unfold visitFreePages
    simp only
    rw [(hholds z' hz').base, (hholds z' hz').length, Nat.mod_eq_of_lt (hbound z' hz')]
  have hown : visitFreePages b.address b.count.toNat z.address s.kernel.memory
      = (some (), (s.given z i b).kernel.memory) := by
    have hindex : pageIndexOf b.address z.base = i := by
      unfold pageIndexOf
      omega
    rw [hvisit z hz, if_neg (by omega), hindex, markPages_eq]
    rfl
  have hwalk : walkList (visitFreePages b.address b.count.toNat) (zs.map Zone.address)
      s.kernel.memory = (some (), (s.given z i b).kernel.memory) := by
    rcases walkList_cases (visitFreePages b.address b.count.toNat) (l := zs.map Zone.address)
      (s := s.kernel.memory) (fun _ _ hv => visitFreePages_none hv) with ⟨_, hall⟩ | ⟨before, p, after, r, hsplit, hbefore, hsome, hwalk⟩
    · have hv := hall z.address (List.mem_map_of_mem hz)
      rw [hown] at hv
      cases hv
    · obtain ⟨z', hz', rfl, horder⟩ := split_at harr hsplit
      rw [hwalk]
      rcases horder z hz with hfront | rfl | hlt
      · have hv := hbefore z.address hfront
        rw [hown] at hv
        cases hv
      · exact hown
      · -- a zone in front ends before the address
        have hle := harr.le_base hz hz' hlt
        have hne := hend z' hz'
        rw [hvisit z' hz', if_pos (by omega)] at hsome
        cases hsome
  rw [freePages_iff_walk h.lists hclean.1, hwalk]
  exact Iff.rfl

theorem freePage_iff_freePages {address : Nat} {k k' : Kernel} :
    FreePage address k k' ↔ FreePages address 1 k k' := by
  unfold FreePage FreePages
  rw [visitFreePage_eq]
  exact Iff.rfl

theorem allocPage_iff_allocPages {address : Nat} {k k' : Kernel} :
    AllocPage k address k' ↔ AllocPages 1 k address k' := by
  unfold AllocPage AllocPages
  rw [visitAlloc_allocPageFrom]
  exact Iff.rfl

end Release

/-! ## Runs -/

section Run

variable {k0 : Kernel} {zs : List Zone} {s : System}

/-- The pages that are free in `k0` do not start at zero. -/
def NotNull (k0 : Kernel) (zs : List Zone) : Prop :=
  ∀ z ∈ zs, ∀ j, j < z.pageCount → k0.memory (z.byte j) = 0x01 → z.page j ≠ 0

/-- An allocation that meets the condition. -/
theorem Inv.alloc (h : Inv k0 zs s) (harr : Arranged zs) (hnull : NotNull k0 zs) {n : UInt32}
    (hn : 1 ≤ n) (hclean : s.kernel.FirstRunInside n.toNat) :
    (∃ address k', AllocPages n s.kernel address k') ∧
    ∀ address k', AllocPages n s.kernel address k' → Inv k0 zs ⟨k', grant address n s.live⟩ := by
  obtain ⟨address, k', hiff, hcases⟩ := allocPages_iff h harr hn
  refine ⟨⟨address, k', (hiff _ _).mpr ⟨rfl, rfl⟩⟩, ?_⟩
  intro a k'' halloc
  obtain ⟨rfl, rfl⟩ := (hiff _ _).mp halloc
  rcases hcases with ⟨rfl, rfl, _⟩ | ⟨z, hz, i, husable, hrun, hfirst, rfl, rfl⟩
  · exact h
  · have hinside := hclean z.address i hrun hfirst
    rw [(h.lists.holds z hz).pageCount] at hinside
    have hn0 : 0 < n.toNat := UInt32.le_iff_toNat_le.mp hn
    have hpage : (z, i) ∈ (s.abstract zs).free :=
      ⟨hz, by simp only; omega, run_byte hrun.2.2.2 (Nat.le_refl i) (by omega)⟩
    rw [h.sound.free] at hpage
    have hne := hnull z hz i (by omega) hpage.1.2.2
    unfold grant
    rw [if_neg hne]
    exact h.take harr hz husable hinside hrun.2.2.2

/-- A release that meets the condition. -/
theorem Inv.free (h : Inv k0 zs s) (harr : Arranged zs) {b : Block} (hb : b ∈ s.live)
    (hclean : s.kernel.Releases b.address) :
    (∃ k', FreePages b.address b.count s.kernel k') ∧
    ∀ k', FreePages b.address b.count s.kernel k' → Inv k0 zs ⟨k', s.live.erase b⟩ := by
  obtain ⟨z, hz, _, i, hat⟩ := h.located b hb
  have hiff := fun k' => freePages_iff h harr hz hat hclean k'
  refine ⟨⟨_, (hiff _).mpr rfl⟩, ?_⟩
  intro k' hfree
  rw [(hiff k').mp hfree]
  exact h.give harr hz hat hb

/-- Every operation that is allowed and meets the condition returns, and keeps the
invariant. -/
theorem Inv.step (h : Inv k0 zs s) (harr : Arranged zs) (hnull : NotNull k0 zs) {op : Op}
    (hallowed : op.Allowed s) (hclean : op.Clean s) :
    (∃ s', Step s op s') ∧ ∀ s', Step s op s' → Inv k0 zs s' := by
  cases op with
  | allocPage =>
    -- a run of one page does not leave its zone
    have hinside : s.kernel.FirstRunInside (1 : UInt32).toNat := fun zone i hrun _ => hrun.2.2.1
    obtain ⟨⟨address, k', halloc⟩, hinv⟩ := h.alloc harr hnull (n := 1) (by decide) hinside
    refine ⟨⟨⟨k', grant address 1 s.live⟩, address, allocPage_iff_allocPages.mpr halloc, rfl⟩, ?_⟩
    intro s' hstep
    obtain ⟨a, hstep, hlive⟩ := hstep
    have hs' := hinv a s'.kernel (allocPage_iff_allocPages.mp hstep)
    rw [← hlive] at hs'
    exact hs'
  | allocPages n =>
    obtain ⟨⟨address, k', halloc⟩, hinv⟩ := h.alloc harr hnull hallowed hclean
    refine ⟨⟨⟨k', grant address n s.live⟩, address, halloc, rfl⟩, ?_⟩
    intro s' hstep
    obtain ⟨a, hstep, hlive⟩ := hstep
    have hs' := hinv a s'.kernel hstep
    rw [← hlive] at hs'
    exact hs'
  | freePage b =>
    obtain ⟨⟨k', hfree⟩, hinv⟩ := h.free harr hallowed.1 hclean
    rw [hallowed.2] at hfree hinv
    refine ⟨⟨⟨k', s.live.erase b⟩, freePage_iff_freePages.mpr hfree, rfl⟩, ?_⟩
    intro s' hstep
    obtain ⟨hstep, hlive⟩ := hstep
    have hs' := hinv s'.kernel (freePage_iff_freePages.mp hstep)
    rw [← hlive] at hs'
    exact hs'
  | freePages b =>
    obtain ⟨⟨k', hfree⟩, hinv⟩ := h.free harr hallowed hclean
    refine ⟨⟨⟨k', s.live.erase b⟩, hfree, rfl⟩, ?_⟩
    intro s' hstep
    obtain ⟨hstep, hlive⟩ := hstep
    have hs' := hinv s'.kernel hstep
    rw [← hlive] at hs'
    exact hs'

theorem Inv.run {s0 : System} (h : Inv k0 zs s0) (harr : Arranged zs) (hnull : NotNull k0 zs)
    (hrun : Run (fun s op => op.Clean s) s0 s) : Inv k0 zs s := by
  induction hrun with
  | start => exact h
  | step _ hallowed hclean hstep ih => exact (ih.step harr hnull hallowed hclean).2 _ hstep

/-- Nothing is in use at the start. -/
theorem Inv.start {zonesMemory kernelEnd : Nat} (h : Initialized zonesMemory kernelEnd k0 zs) :
    Inv k0 zs ⟨k0, []⟩ where
  lists := h.lists
  counts := fun z hz => (h.fresh z hz).freePageCount
  located := nofun
  sound := Allocator.Sound.init _

theorem Initialized.notNull {zonesMemory kernelEnd : Nat}
    (h : Initialized zonesMemory kernelEnd k0 zs) : NotNull k0 zs := by
  intro z hz j hj hone
  obtain ⟨place, hplace, hzones⟩ := h.place
  have hlow := (hzones z hz).1
  have hpage := (h.fresh z hz).pages j hj
  have hfree : z.Frees zonesMemory j := by
    by_contra hnot
    rw [if_neg hnot] at hpage
    exact absurd (hone.symm.trans hpage) (by decide)
  have hbound := hfree.2
  omega

/-- The invariant in terms of the memory and the blocks. -/
theorem Inv.exclusive (h : Inv k0 zs s) (harr : Arranged zs) : Exclusive k0 s where
  disjoint := by
    have hdisj := List.pairwise_map.mp h.sound.disjoint
    refine hdisj.imp_of_mem ?_
    intro b b' hb hb' hpages a hcovers
    obtain ⟨z, hz, _, i, hat⟩ := h.located b hb
    obtain ⟨z', hz', _, i', hat'⟩ := h.located b' hb'
    obtain ⟨⟨hlow, hhigh⟩, hlow', hhigh'⟩ := hcovers
    have hsize := harr.pages z hz
    have hsize' := harr.pages z' hz'
    obtain ⟨haddress, hin⟩ := hat
    obtain ⟨haddress', hin'⟩ := hat'
    unfold Zone.page at haddress haddress'
    rcases pairwise_cases harr.ordered hz hz' with rfl | hapart | hapart
    · -- the page of the byte is in both blocks
      have hpage : (z, (a - z.base) / 0x1000) ∈ b.pages zs :=
        (Block.At.mem_pages_iff ⟨haddress, hin⟩ harr hz).mpr
          ⟨rfl, by simp only; omega, by simp only; omega⟩
      have hpage' : (z, (a - z.base) / 0x1000) ∈ b'.pages zs :=
        (Block.At.mem_pages_iff ⟨haddress', hin'⟩ harr hz).mpr
          ⟨rfl, by simp only; omega, by simp only; omega⟩
      exact Set.disjoint_left.mp hpages hpage hpage'
    · omega
    · omega
  inside := by
    intro b hb
    obtain ⟨z, hz, husable, i, hat⟩ := h.located b hb
    have hholds := h.lists.holds z hz
    refine ⟨z.address, i, h.lists.hasZone_iff.mpr ⟨z, hz, rfl⟩, ?_, ?_, ?_⟩
    · rw [hholds.type, husable]
    · rw [hholds.base]
      exact hat.1
    · rw [hholds.pageCount]
      exact hat.2
  bytes := by
    intro zone hzone j hj
    obtain ⟨z, hz, rfl⟩ := h.lists.hasZone_iff.mp hzone
    rw [(h.lists.holds z hz).pageCount] at hj
    rw [(h.lists.holds z hz).base]
    have hfree := Set.ext_iff.mp h.sound.free (z, j)
    have hblocks : (∀ B ∈ (s.abstract zs).live, (z, j) ∉ B) ↔ ∀ b ∈ s.live, ¬ b.Covers (z.page j) := by
      constructor
      · intro hall b hb hcovers
        exact hall _ (List.mem_map_of_mem hb) ⟨hz, hj, hcovers⟩
      · intro hall B hB hmem
        obtain ⟨b, hb, rfl⟩ := List.mem_map.mp hB
        exact hall b hb hmem.2.2
    constructor
    · intro hone
      have hin := hfree.mp ⟨hz, hj, hone⟩
      exact ⟨hin.1.2.2, hblocks.mp hin.2⟩
    · intro hin
      exact (hfree.mpr ⟨⟨hz, hj, hin.1⟩, hblocks.mpr hin.2⟩).2.2
  counts := by
    intro zone hzone
    obtain ⟨z, hz, rfl⟩ := h.lists.hasZone_iff.mp hzone
    rw [h.counts z hz, (h.lists.holds z hz).pageCount]
    rfl

end Run

/-! ## Exclusivity -/

/-- Two usable entries that touch.  The first one gets no pages. -/
def edgeMap : MemoryMap where
  entries := [⟨0x400000, 0x1000, 0x01⟩, ⟨0x401000, 0x2000, 0x01⟩]
  bounded := by decide

/-- The zones of `edgeMap`. -/
def edgeZone0 : Zone := ⟨0x400000, .usable, 0x400000, 0x1000, 0⟩
def edgeZone1 : Zone := ⟨0x400030, .usable, 0x401000, 0x2000, 2⟩

end Xeos.Mem
