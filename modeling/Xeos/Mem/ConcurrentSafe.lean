import Xeos.Lib.Ledger
import Xeos.Mem.ConcurrentStep

/-!
# The pages are used exclusively on several processors

The sums over the processors are invariants of every interleaving.  When no processor is in a call
they say what `Exclusive` says.
-/

namespace Xeos.Mem

open Lib Lib.Ledger

/-! ## The byte behind the pages of a zone

It is the padding of the next zone, or the byte behind the whole table. -/

section Guard

variable {entries : List MemoryEntry} {entry : MemoryEntry} {s : ZoneLoop} {reserved a : Nat}

/-- A round of the second pass leaves the padding of its zone alone. -/
theorem initZone_padding (ha : s.zonesAddress = a)
    (hentry : entry.GetAddress + entry.GetLength < 2 ^ 64)
    (hclear : ∀ b, a ≤ b → b < a + 48 + pagesOf entry → s.memory b = 0)
    (hprev : s.previousZone ≠ 0 → s.previousZone + 48 ≤ a) :
    (initZone reserved entry s).memory a = 0 := by
  subst ha
  set a := s.zonesAddress
  set m1 := if s.previousZone ≠ 0 then s.memory.store (s.previousZone + 24) 8 a else s.memory
    with hm1
  have hframe1 : ∀ b, a ≤ b → m1 b = s.memory b := by
    intro b hb
    by_cases hp : s.previousZone ≠ 0
    · have hle := hprev hp
      rw [hm1, if_pos hp]
      exact Memory.store_of_not_mem _ _ (by omega)
    · rw [hm1, if_neg hp]
  obtain ⟨htype, hbase, hlength, hframe2⟩ := header_spec m1 a entry
  obtain ⟨-, hframe3⟩ := @initPages_spec _ a reserved entry hentry
    (fun b h1 h2 => (hframe2 b (by omega)).trans
      ((hframe1 b (by omega)).trans (hclear b (by omega) h2))) htype hbase hlength
  calc (initZone reserved entry s).memory a = m1 a :=
        (hframe3 a (by omega)).trans (hframe2 a (by omega))
    _ = s.memory a := hframe1 a le_rfl
    _ = 0 := hclear a le_rfl (by omega)

theorem initZones_padding (ha : s.zonesAddress = a) (ha0 : a ≠ 0)
    (hentries : ∀ entry ∈ entries, entry.GetAddress + entry.GetLength < 2 ^ 64)
    (hend : a + tableSize entries < 2 ^ 64)
    (hclear : ∀ b, a ≤ b → b < a + tableSize entries → s.memory b = 0)
    (hprev : s.previousZone ≠ 0 → s.previousZone + 48 ≤ a) :
    ∀ z ∈ layout a entries, (initZones reserved entries s).memory z.address = 0 := by
  induction entries generalizing a s with
  | nil => exact fun z hz => absurd hz List.not_mem_nil
  | cons entry entries ih =>
    rw [tableSize_cons] at hend hclear
    have hpadding : (initZone reserved entry s).memory a = 0 := initZone_padding ha
      (hentries entry List.mem_cons_self) (fun b h1 h2 => hclear b h1 (by omega)) hprev
    obtain ⟨haddr, hprev1, -, -, -, hframe⟩ :=
      @initZone_spec reserved a entry s ha (hentries entry List.mem_cons_self)
        (by omega) (fun b h1 h2 => hclear b h1 (by omega)) hprev
    have hfold : initZones reserved (entry :: entries) s
        = initZones reserved entries (initZone reserved entry s) := rfl
    rw [hfold]
    generalize initZone reserved entry s = s1 at *
    have hentries' := fun e he => hentries e (List.mem_cons_of_mem entry he)
    have hclear' : ∀ b, a + 48 + pagesOf entry ≤ b →
        b < a + 48 + pagesOf entry + tableSize entries → s1.memory b = 0 := by
      intro b h1 h2
      rw [hframe b (by omega) (by omega)]
      exact hclear b (by omega) (by omega)
    intro z hz
    cases hz with
    | head =>
      obtain ⟨-, -, -, hframe', -⟩ := @initZones_spec reserved _ entries s1 haddr (by omega)
        hentries' (by omega) hclear' (by omega)
      exact (hframe' a (by omega) (by omega)).trans hpadding
    | tail _ hz => exact ih haddr (by omega) hentries' (by omega) hclear' (by omega) z hz

theorem layout_finish {z : Zone} (hz : z ∈ layout a entries) :
    (∃ z' ∈ layout a entries, z'.address = z.finish) ∨ z.finish = a + tableSize entries := by
  induction entries generalizing a with
  | nil => cases hz
  | cons entry entries ih =>
    rw [tableSize_cons]
    cases hz with
    | head =>
      cases entries with
      | nil =>
        rw [tableSize_nil]
        exact .inr (by simp only [Zone.finish, zoneOf]; omega)
      | cons entry' entries =>
        exact .inl ⟨_, List.mem_cons_of_mem _ List.mem_cons_self, rfl⟩
    | tail _ hz =>
      rcases ih hz with ⟨z', hz', heq⟩ | heq
      · exact .inl ⟨z', List.mem_cons_of_mem _ hz', heq⟩
      · exact .inr (by omega)

/-- After the initialisation the byte behind the pages of a zone is not that of a free page, if
the byte behind the table was not before. -/
theorem Initialize_guard {memory : MemoryMap} (hordered : memory.Ordered) (hwrap : memory.NoWrap)
    {kernelEnd : UInt64} {output : Bool} {m : Memory}
    (hbehind : m (findPlace output (zonesMemory memory) (roundKernelEnd kernelEnd) memory.entries 0
      + tableSize memory.entries) ≠ 0x01) :
    ∀ z ∈ tableOf memory kernelEnd output,
      (Initialize memory kernelEnd output (Kernel.boot m)).memory z.finish ≠ 0x01 := by
  intro z hz
  unfold tableOf at hz
  by_cases hplace : findPlace output (zonesMemory memory) (roundKernelEnd kernelEnd)
      memory.entries 0 > 0
  swap
  · rw [if_neg hplace] at hz
    cases hz
  rw [if_pos hplace] at hz
  have hne : memory.entries ≠ [] := by
    rintro hnil
    rw [hnil] at hz
    cases hz
  have hfit := (tableSize_le hordered hwrap.fits hne).1
  have hroom := (place_behind hordered hwrap.fits rfl (by omega : findPlace output
    (zonesMemory memory) (roundKernelEnd kernelEnd) memory.entries 0 ≠ 0)).room
  unfold Initialize
  simp only [if_pos hplace]
  generalize findPlace output (zonesMemory memory) (roundKernelEnd kernelEnd) memory.entries 0
    = place at *
  have hclear : ∀ b, place ≤ b → b < place + tableSize memory.entries →
      (m.fill place (zonesMemory memory) 0) b = 0 :=
    fun b h1 h2 => Memory.fill_of_mem _ _ (by omega)
  rcases layout_finish hz with ⟨z', hz', heq⟩ | heq
  · have hpadding : (initZones (zonesMemory memory) memory.entries
        ⟨m.fill place (zonesMemory memory) 0, place, 0, 0⟩).memory z'.address = 0 :=
      initZones_padding (a := place) rfl (by omega) hwrap.fits (by omega) hclear
        (fun h => absurd rfl h) z' hz'
    rw [heq] at hpadding
    change (initZones (zonesMemory memory) memory.entries
      ⟨m.fill place (zonesMemory memory) 0, place, 0, 0⟩).memory z.finish ≠ 0x01
    rw [hpadding]
    decide
  · obtain ⟨-, -, -, hframe, -⟩ := @initZones_spec (zonesMemory memory) place
      memory.entries ⟨m.fill place (zonesMemory memory) 0, place, 0, 0⟩ rfl (by omega) hwrap.fits
      (by omega) hclear (fun h => absurd rfl h)
    change (initZones (zonesMemory memory) memory.entries
      ⟨m.fill place (zonesMemory memory) 0, place, 0, 0⟩).memory z.finish ≠ 0x01
    rw [heq, hframe _ (by omega) (.inr (.inr rfl))]
    by_cases hin : place + tableSize memory.entries < place + zonesMemory memory
    · have hzero : (m.fill place (zonesMemory memory) 0) (place + tableSize memory.entries) = 0 :=
        Memory.fill_of_mem _ _ (by omega)
      simp only [hzero]
      decide
    · have hsame : (m.fill place (zonesMemory memory) 0) (place + tableSize memory.entries)
          = m (place + tableSize memory.entries) := Memory.fill_of_not_mem _ _ (by omega)
      simp only [hsame]
      exact hbehind

end Guard

/-! ## All processors -/

/-- What holds between the steps. -/
structure Processors.Inv {ι : Type} [Fintype ι] (k0 : Kernel) (zs : List Zone)
    (s : Processors ι) : Prop where
  lists : s.kernel.Lists zs
  guard : ∀ z ∈ zs, z.type = .usable → s.kernel.memory z.finish ≠ 0x01
  ok : ∀ i, (s.cursor i).Ok zs
  located : ∀ b ∈ s.live, ∃ z ∈ zs, z.type = .usable ∧ ∃ i, b.At z i
  pages : ∀ z ∈ zs, ∀ j < z.pageCount,
    free s.kernel.memory z j + total (Cursor.held z j) s.cursor + (s.live.map (Block.share z j)).sum
      = free k0.memory z j
  counts : ∀ z ∈ zs,
    (ZoneGetFreePageCount s.kernel.memory z.address + total (Cursor.due z) s.cursor) % 2 ^ 64
      = (z.ones s.kernel.memory + total (Cursor.owed z) s.cursor) % 2 ^ 64

section System

variable {ι : Type} [Fintype ι] {k0 : Kernel} {zs : List Zone} {s s' : Processors ι} {z : Zone}
  {i : ι} {j : Nat}

theorem free_le_one (m : Memory) (z : Zone) (j : Nat) : free m z j ≤ 1 := by
  unfold free
  split_ifs <;> omega

/-- A page that a processor holds is not free, and was free at the start. -/
theorem Processors.Inv.held_le (h : s.Inv k0 zs) (hz : z ∈ zs) (hj : j < z.pageCount) :
    free s.kernel.memory z j + (s.cursor i).held z j ≤ free k0.memory z j := by
  have hpages := h.pages z hz j hj
  have hle : (s.cursor i).held z j ≤ total (Cursor.held z j) s.cursor := share_le_total
  omega

/-- The total when a processor goes from one place to another one of the same share. -/
theorem total_move [DecidableEq ι] {share : Cursor → Nat} {c : Cursor}
    (h : share c = share (s.cursor i)) :
    total share (Function.update s.cursor i c) = total share s.cursor := by
  have hupdate := total_update share s.cursor i c
  omega

theorem counts_move [DecidableEq ι] {c : Cursor} {m n : Nat}
    (h : (m + total (Cursor.due z) s.cursor) % 2 ^ 64
      = (n + total (Cursor.owed z) s.cursor) % 2 ^ 64)
    (howed : c.owed z = (s.cursor i).owed z) (hdue : c.due z = (s.cursor i).due z) :
    (m + total (Cursor.due z) (Function.update s.cursor i c)) % 2 ^ 64
      = (n + total (Cursor.owed z) (Function.update s.cursor i c)) % 2 ^ 64 := by
  rw [total_move howed, total_move hdue]
  exact h

theorem Kernel.Lists.firstZone_eq {k : Kernel} (h : k.Lists zs) : k.firstZone = k.Zones := by
  unfold Kernel.firstZone
  by_cases hcount : k.ZoneCount = 0
  · have hnil : zs = [] := by
      by_contra hne
      exact h.count hne hcount
    have hchain := h.chain
    rw [hnil] at hchain
    rw [if_pos hcount]
    generalize k.Zones = first at hchain
    cases hchain
    rfl
  · exact if_neg hcount

omit [Fintype ι] in
theorem ok_move [DecidableEq ι] {c : Cursor} (hs : ∀ i, (s.cursor i).Ok zs) (hc : c.Ok zs) :
    ∀ l, (Function.update s.cursor i c l).Ok zs := by
  intro l
  by_cases hl : l = i
  · subst hl
    rw [Function.update_self]
    exact hc
  · rw [Function.update_of_ne hl]
    exact hs l

/-- The call of an allocation. -/
theorem Processors.Inv.alloc [DecidableEq ι] (h : s.Inv k0 zs) (r : Request)
    (hidle : s.cursor i = .idle) :
    (s.move i (.walk r s.kernel.firstZone)).Inv k0 zs where
  lists := h.lists
  guard := h.guard
  ok := by
    refine ok_move h.ok ?_
    rw [h.lists.firstZone_eq]
    exact h.lists.chain.start_mem.imp id fun hmem => List.mem_map.mp hmem
  located := h.located
  pages z hz j hj := by
    rw [← h.pages z hz j hj]
    congr 2
    refine total_move ?_
    rw [hidle]
    rfl
  counts z hz := by
    refine counts_move (h.counts z hz) ?_ ?_
    · rw [hidle]
      rfl
    · rw [hidle]
      rfl

/-- The call of a release takes the block from those in use. -/
theorem Processors.Inv.free [DecidableEq ι] (h : s.Inv k0 zs) (harr : Arranged zs) (r : Request)
    {b : Block} (hidle : s.cursor i = .idle) (hlive : b ∈ s.live) (hcount : b.count = r.count)
    (hclean : s.kernel.Releases b.address) :
    ({ s.move i (enterFree r s.kernel b.address) with
      live := s.live.erase b } : Processors ι).Inv k0 zs := by
  have hmask : b.address &&& 0xFFF = 0 :=
    (Nat.and_two_pow_sub_one_eq_mod b.address 12).trans hclean.1
  have henter : enterFree r s.kernel b.address = .find r b.address s.kernel.Zones := by
    rw [enterFree, if_neg (not_not.mpr hmask), h.lists.firstZone_eq]
  obtain ⟨z₀, hz₀, husable, l, hat⟩ := h.located b hlive
  have hblock : b = ⟨b.address, r.count⟩ := by
    rw [← hcount]
  rw [henter]
  refine ⟨h.lists, h.guard, ok_move h.ok ?_, fun b' hb' => h.located b' (List.mem_of_mem_erase hb'),
    fun z hz j hj => ?_, fun z hz => ?_⟩
  · obtain ⟨hmem, hle⟩ := h.lists.chain.start_le harr.ascending (List.mem_map_of_mem hz₀)
    refine ⟨⟨z₀, hz₀, husable, hle, l, hblock ▸ hat⟩, List.mem_map.mp hmem, fun z hz => ?_⟩
    have hne := hclean.2 z.address (h.lists.hasZone_iff.mpr ⟨z, hz, rfl⟩)
    rwa [(h.lists.holds z hz).base, (h.lists.holds z hz).length] at hne
  · have hpages := h.pages z hz j hj
    have hupdate := total_update (Cursor.held z j) s.cursor i
      (.find r b.address s.kernel.Zones)
    have hlist := List.sum_map_erase (Block.share z j) hlive
    have hheld : (Cursor.find r b.address s.kernel.Zones).held z j = b.share z j := by
      rw [hblock]
      rfl
    have hnone : (s.cursor i).held z j = 0 := by
      rw [hidle]
      rfl
    show Mem.free s.kernel.memory z j + total (Cursor.held z j) (Function.update s.cursor i
      (.find r b.address s.kernel.Zones)) + ((s.live.erase b).map (Block.share z j)).sum = _
    omega
  · refine counts_move (h.counts z hz) ?_ ?_
    · rw [hidle]
      rfl
    · rw [hidle]
      rfl

/-- A step in a call. -/
theorem Processors.Inv.instr [DecidableEq ι] (h : s.Inv k0 zs) (harr : Arranged zs) {c : Cursor}
    {m : Memory} (hstep : (s.cursor i).step s.kernel.memory = some (c, m)) :
    ({ s.move i c with kernel := { s.kernel with memory := m } } : Processors ι).Inv k0 zs := by
  have hfree : ∀ z ∈ zs, ∀ p < z.pageCount,
      Mem.free s.kernel.memory z p + (s.cursor i).held z p ≤ 1 :=
    fun z hz p hp => (h.held_le hz hp).trans (free_le_one _ _ _)
  obtain ⟨hok, hcons⟩ := cursor_step h.lists harr h.guard hfree (h.ok i) hstep
  refine ⟨hcons.lists s.kernel rfl h.lists, fun z hz husable => ?_, ok_move h.ok hok, h.located,
    fun z hz j hj => ?_, fun z hz => ?_⟩
  · exact (hcons.guard z hz).trans_ne (h.guard z hz husable)
  · have hpages := h.pages z hz j hj
    have hkept := hcons.pages z hz j hj
    have hupdate := total_update (Cursor.held z j) s.cursor i c
    show Mem.free m z j + total (Cursor.held z j) (Function.update s.cursor i c)
      + (s.live.map (Block.share z j)).sum = _
    omega
  · have hcounts := h.counts z hz
    have hkept := hcons.counts z hz
    have hdue := total_update (Cursor.due z) s.cursor i c
    have howed := total_update (Cursor.owed z) s.cursor i c
    show (ZoneGetFreePageCount m z.address
        + total (Cursor.due z) (Function.update s.cursor i c)) % 2 ^ 64
      = (z.ones m + total (Cursor.owed z) (Function.update s.cursor i c)) % 2 ^ 64
    omega

/-- The return of an allocation. -/
theorem Processors.Inv.ret [DecidableEq ι] (h : s.Inv k0 zs) (harr : Arranged zs)
    (hnull : NotNull k0 zs) {n : UInt32} {address : Nat}
    (hgranted : s.cursor i = .granted n address) :
    ({ s.move i .idle with live := grant address n s.live } : Processors ι).Inv k0 zs := by
  have hok := h.ok i
  rw [hgranted] at hok
  obtain ⟨hn, z₀, hz₀, husable, l, hat⟩ := hok
  obtain ⟨rfl, hin⟩ := hat
  simp only at hin
  have hat : (Block.mk (z₀.page l) n).At z₀ l := ⟨rfl, hin⟩
  -- the page at the address zero is not free at the start
  have hne : z₀.page l ≠ 0 := by
    have hle := h.held_le (i := i) hz₀ (show l < z₀.pageCount by omega)
    have hshare : (s.cursor i).held z₀ l = 1 := by
      rw [hgranted]
      exact (hat.share_eq harr hz₀ hz₀ (by omega)).trans (span_eq_one le_rfl (by simp only; omega))
    rw [hshare] at hle
    refine hnull z₀ hz₀ l (by omega) ?_
    by_contra hnot
    rw [show Mem.free k0.memory z₀ l = 0 from if_neg hnot] at hle
    omega
  rw [grant, if_neg hne]
  refine ⟨h.lists, h.guard, ok_move h.ok trivial, fun b hb => ?_, fun z hz j hj => ?_,
    fun z hz => ?_⟩
  · cases hb with
    | head => exact ⟨z₀, hz₀, husable, l, hat⟩
    | tail _ hb => exact h.located b hb
  · have hpages := h.pages z hz j hj
    have hupdate := total_update (Cursor.held z j) s.cursor i .idle
    have hheld : (s.cursor i).held z j = Block.share z j ⟨z₀.page l, n⟩ := by
      rw [hgranted]
      rfl
    have hnone : Cursor.idle.held z j = 0 := rfl
    show Mem.free s.kernel.memory z j + total (Cursor.held z j) (Function.update s.cursor i .idle)
      + (Block.share z j ⟨z₀.page l, n⟩ + (s.live.map (Block.share z j)).sum) = _
    omega
  · refine counts_move (h.counts z hz) ?_ ?_
    · rw [hgranted]
      rfl
    · rw [hgranted]
      rfl

theorem Processors.Inv.turn [DecidableEq ι] (h : s.Inv k0 zs) (harr : Arranged zs)
    (hnull : NotNull k0 zs) (hturn : Turn s s') : s'.Inv k0 zs := by
  cases hturn with
  | alloc r hidle => exact h.alloc r hidle
  | free r hidle hlive hcount hclean => exact h.free harr r hidle hlive hcount hclean
  | instr hstep => exact h.instr harr hstep
  | ret hgranted => exact h.ret harr hnull hgranted

theorem Processors.Inv.run [DecidableEq ι] (h : s.Inv k0 zs) (harr : Arranged zs)
    (hnull : NotNull k0 zs) (hrun : Interleaved s s') : s'.Inv k0 zs := by
  induction hrun with
  | refl => exact h
  | tail _ hturn ih => exact ih.turn harr hnull hturn

/-! ### Blocks in use -/

/-- Two blocks that cover one byte have a page in common. -/
theorem share_of_covers {b b' : Block} {a l l' : Nat} {z' : Zone} (harr : Arranged zs) (hz : z ∈ zs)
    (hat : b.At z l) (hcovers : b.Covers a) (hz' : z' ∈ zs) (hat' : b'.At z' l')
    (hcovers' : b'.Covers a) : ∃ j < z.pageCount, b.share z j = 1 ∧ b'.share z j = 1 := by
  have hsize := harr.pages z hz
  have hsize' := harr.pages z' hz'
  obtain ⟨hlow, hhigh⟩ := hcovers
  obtain ⟨hlow', hhigh'⟩ := hcovers'
  obtain ⟨haddress, hin⟩ := hat
  obtain ⟨haddress', hin'⟩ := hat'
  unfold Zone.page at haddress haddress'
  rcases pairwise_cases harr.ordered hz hz' with rfl | hapart | hapart
  · refine ⟨(a - z.base) / 0x1000, by omega, if_pos ?_, if_pos ?_⟩
    · unfold Zone.page
      omega
    · unfold Zone.page
      omega
  · omega
  · omega

theorem share_le_sum {b : Block} {live : List Block} (hb : b ∈ live) (z : Zone) (j : Nat) :
    b.share z j ≤ (live.map (Block.share z j)).sum :=
  List.single_le_sum (fun _ _ => Nat.zero_le _) _ (List.mem_map_of_mem hb)

theorem pairwise_of_sum_le {live : List Block} (harr : Arranged zs)
    (hlocated : ∀ b ∈ live, ∃ z ∈ zs, z.type = .usable ∧ ∃ i, b.At z i)
    (hsum : ∀ z ∈ zs, ∀ j < z.pageCount, (live.map (Block.share z j)).sum ≤ 1) :
    live.Pairwise fun b b' => ∀ a, ¬ (b.Covers a ∧ b'.Covers a) := by
  induction live with
  | nil => exact List.Pairwise.nil
  | cons b live ih =>
    simp only [List.map_cons, List.sum_cons] at hsum
    refine List.pairwise_cons.mpr ⟨?_, ih (fun b' hb' => hlocated b' (List.mem_cons_of_mem b hb'))
      fun z hz j hj => (Nat.le_add_left _ _).trans (hsum z hz j hj)⟩
    rintro b' hb' a ⟨hcovers, hcovers'⟩
    obtain ⟨z, hz, -, l, hat⟩ := hlocated b List.mem_cons_self
    obtain ⟨z', hz', -, l', hat'⟩ := hlocated b' (List.mem_cons_of_mem b hb')
    obtain ⟨j, hj, hone, hone'⟩ := share_of_covers harr hz hat hcovers hz' hat' hcovers'
    have hle := hsum z hz j hj
    have hmem := share_le_sum hb' z j
    omega

/-- The blocks in use are apart, each of them is in a usable zone, and none of their pages is
marked free. -/
structure Apart (k0 k : Kernel) (live : List Block) : Prop where
  disjoint : live.Pairwise fun b b' => ∀ a, ¬ (b.Covers a ∧ b'.Covers a)
  inside : ∀ b ∈ live, ∃ zone i, k.HasZone zone ∧
    ZoneGetType k.memory zone = MemoryEntryType.usable.code ∧
    b.address = ZoneGetAddress k.memory zone + 0x1000 * i ∧
    i + b.count.toNat ≤ ZoneGetPageCount k.memory zone
  bytes : ∀ zone, k.HasZone zone → ∀ j, j < ZoneGetPageCount k.memory zone →
    k.memory (ZoneGetPages zone + j) = 0x01 → k0.memory (ZoneGetPages zone + j) = 0x01 ∧
      ∀ b ∈ live, ¬ b.Covers (ZoneGetAddress k.memory zone + 0x1000 * j)

theorem Processors.Inv.sum_le (h : s.Inv k0 zs) (hz : z ∈ zs) (hj : j < z.pageCount) :
    Mem.free s.kernel.memory z j + (s.live.map (Block.share z j)).sum ≤ Mem.free k0.memory z j := by
  have hpages := h.pages z hz j hj
  omega

theorem not_covers_of_sum_eq_zero {live : List Block} (h : (live.map (Block.share z j)).sum = 0) :
    ∀ b ∈ live, ¬ b.Covers (z.page j) := by
  intro b hb hcovers
  have hle := share_le_sum hb z j
  have hone : b.share z j = 1 := if_pos hcovers
  omega

theorem Processors.Inv.apart (h : s.Inv k0 zs) (harr : Arranged zs) :
    Apart k0 s.kernel s.live where
  disjoint := pairwise_of_sum_le harr h.located fun z hz j hj => by
    have hle := h.sum_le hz hj
    have hone := free_le_one k0.memory z j
    omega
  inside b hb := by
    obtain ⟨z, hz, husable, l, hat⟩ := h.located b hb
    have hholds := h.lists.holds z hz
    refine ⟨z.address, l, h.lists.hasZone_iff.mpr ⟨z, hz, rfl⟩, ?_, ?_, ?_⟩
    · rw [hholds.type, husable]
    · rw [hholds.base]
      exact hat.1
    · rw [hholds.pageCount]
      exact hat.2
  bytes zone hzone j hj hone := by
    obtain ⟨z, hz, rfl⟩ := h.lists.hasZone_iff.mp hzone
    rw [(h.lists.holds z hz).pageCount] at hj
    rw [(h.lists.holds z hz).base]
    have hle := h.sum_le hz hj
    have hfree : Mem.free s.kernel.memory z j = 1 := if_pos hone
    have hmax := free_le_one k0.memory z j
    refine ⟨?_, not_covers_of_sum_eq_zero (z := z) (by omega)⟩
    by_contra hnot
    have hzero : Mem.free k0.memory z j = 0 := if_neg hnot
    omega

/-- With no processor in a call the state is that of a sequential run. -/
theorem Processors.Inv.exclusive (h : s.Inv k0 zs) (harr : Arranged zs)
    (hidle : ∀ i, s.cursor i = .idle) : Exclusive k0 ⟨s.kernel, s.live⟩ where
  disjoint := (h.apart harr).disjoint
  inside := (h.apart harr).inside
  bytes zone hzone j hj := by
    refine ⟨(h.apart harr).bytes zone hzone j hj, ?_⟩
    rintro ⟨hstart, hnone⟩
    obtain ⟨z, hz, rfl⟩ := h.lists.hasZone_iff.mp hzone
    simp only [(h.lists.holds z hz).pageCount] at hj
    simp only [(h.lists.holds z hz).base] at hnone
    have hpages := h.pages z hz j hj
    have hheld : total (Cursor.held z j) s.cursor = 0 := total_eq_zero fun i => by
      rw [hidle i]
      rfl
    have hfree : Mem.free k0.memory z j = 1 := if_pos hstart
    have hsum : (s.live.map (Block.share z j)).sum = 0 := by
      refine List.sum_eq_zero fun x hx => ?_
      obtain ⟨b, hb, rfl⟩ := List.mem_map.mp hx
      exact if_neg (hnone b hb)
    by_contra hne
    have hzero : Mem.free s.kernel.memory z j = 0 := if_neg hne
    omega
  counts zone hzone := by
    obtain ⟨z, hz, rfl⟩ := h.lists.hasZone_iff.mp hzone
    have hcounts := h.counts z hz
    have hdue : total (Cursor.due z) s.cursor = 0 := total_eq_zero fun i => by
      rw [hidle i]
      rfl
    have howed : total (Cursor.owed z) s.cursor = 0 := total_eq_zero fun i => by
      rw [hidle i]
      rfl
    have hlt : ZoneGetFreePageCount s.kernel.memory z.address < 2 ^ 64 := Memory.load_lt _ _ 8
    have hones := ones_lt harr hz s.kernel.memory
    rw [hdue, howed, Nat.add_zero, Nat.add_zero, Nat.mod_eq_of_lt hlt, Nat.mod_eq_of_lt hones]
      at hcounts
    simp only [(h.lists.holds z hz).pageCount]
    exact hcounts

/-- Nothing is in use, and no processor is in a call. -/
theorem Processors.Inv.start {reserved kernelEnd : Nat}
    (h : Initialized reserved kernelEnd k0 zs)
    (hguard : ∀ z ∈ zs, k0.memory z.finish ≠ 0x01) : (Processors.start ι k0).Inv k0 zs where
  lists := h.lists
  guard z hz _ := hguard z hz
  ok _ := trivial
  located _ hb := absurd hb List.not_mem_nil
  pages z _ j _ := by
    have hheld : total (Cursor.held z j) (Processors.start ι k0).cursor = 0 :=
      total_eq_zero fun _ => rfl
    rw [hheld]
    rfl
  counts z hz := by
    have hdue : total (Cursor.due z) (Processors.start ι k0).cursor = 0 :=
      total_eq_zero fun _ => rfl
    have howed : total (Cursor.owed z) (Processors.start ι k0).cursor = 0 :=
      total_eq_zero fun _ => rfl
    have hcount := (h.fresh z hz).freePageCount
    rw [hdue, howed, Nat.add_zero, Nat.add_zero]
    change ZoneGetFreePageCount k0.memory z.address % 2 ^ 64 = z.ones k0.memory % 2 ^ 64
    rw [hcount]

end System

/-! ## Exclusivity -/

end Xeos.Mem
