import Xeos.Mem.Shares

/-!
# The steps of a processor in the allocator

What the variables of a processor stand for at each place in the functions (`Cursor.Ok`), and one
lemma for each place: the next step keeps this, and the shares.  A release finds the zone of its
block because the zones are in ascending order and none of them ends at the block.
-/

namespace Xeos.Mem

open Lib

/-! ## One processor -/

/-- A usable zone of the list with the property is at the address. -/
def Within (zs : List Zone) (zone : Nat) (P : Zone → Prop) : Prop :=
  ∃ z ∈ zs, z.address = zone ∧ z.type = .usable ∧ P z

/-- The variables of a processor stand for zones and pages. -/
def Cursor.Ok (zs : List Zone) : Cursor → Prop
  | .idle => True
  | .walk _ zone => zone = 0 ∨ ∃ z ∈ zs, z.address = zone
  | .scan _ zone i address => Within zs zone fun z => i ≤ z.pageCount ∧ address = z.page i
  | .claimOne zone i address | .countOne zone i address =>
    Within zs zone fun z => i < z.pageCount ∧ address = z.page i
  | .claim n zone i address j hasPages => Within zs zone fun z =>
    i < z.pageCount ∧ address = z.page i ∧ i + j ≤ z.pageCount ∧ j ≤ n.toNat ∧
      hasPages = decide (0 < j)
  | .count n zone i address j => Within zs zone fun z =>
    i < z.pageCount ∧ address = z.page i ∧ i + j < z.pageCount ∧ j < n.toNat
  | .undo _ zone i address j k => Within zs zone fun z =>
    i < z.pageCount ∧ address = z.page i ∧ i + j ≤ z.pageCount ∧ k ≤ j
  | .countUndo _ zone i address j k => Within zs zone fun z =>
    i < z.pageCount ∧ address = z.page i ∧ i + j ≤ z.pageCount ∧ k < j
  | .granted n address =>
    0 < n.toNat ∧ ∃ z ∈ zs, z.type = .usable ∧ ∃ i, (Block.mk address n).At z i
  | .find r page zone =>
    (∃ z ∈ zs, z.type = .usable ∧ zone ≤ z.address ∧ ∃ i, (Block.mk page r.count).At z i) ∧
      (∃ z ∈ zs, z.address = zone) ∧ ∀ z ∈ zs, z.base + z.length ≠ page
  | .releaseOne zone i => Within zs zone fun z => i < z.pageCount
  | .countReleaseOne zone => ∃ z ∈ zs, z.address = zone
  | .release n zone i k => Within zs zone fun z => i + n.toNat ≤ z.pageCount ∧ k ≤ n.toNat
  | .countRelease n zone i k => Within zs zone fun z => i + n.toNat ≤ z.pageCount ∧ k < n.toNat

section Step

attribute [local simp] Cursor.step Cursor.owed Cursor.due

variable {zs : List Zone} {z : Zone} {k : Kernel} {m' : Memory} {c c' : Cursor}

theorem span_eq_zero {j zone lo hi : Nat} (h : hi ≤ lo) : span z j zone lo hi = 0 :=
  if_neg (by omega)

theorem span_append {j zone lo mid hi : Nat} (h : lo ≤ mid) (h' : mid ≤ hi) :
    span z j zone lo hi = span z j zone lo mid + span z j zone mid hi := by
  unfold span
  split_ifs <;> omega

/-- The share of a block that is `n` pages of a zone. -/
theorem Block.At.share_eq {b : Block} {i j : Nat} {z' : Zone} (h : b.At z i) (harr : Arranged zs)
    (hz : z ∈ zs) (hz' : z' ∈ zs) (hj : j < z'.pageCount) :
    b.share z' j = span z' j z.address i (i + b.count.toNat) := by
  have hpages := h.mem_pages_iff harr hz (p := (z', j))
  have hmem : (z', j) ∈ b.pages zs ↔ b.Covers (z'.page j) :=
    ⟨fun h => h.2.2, fun h => ⟨hz', hj, h⟩⟩
  rw [hmem] at hpages
  have hiff : (b.address ≤ z'.page j ∧ z'.page j < b.address + 0x1000 * b.count.toNat)
      ↔ z.address = z'.address ∧ i ≤ j ∧ j < i + b.count.toNat := by
    rw [harr.address_eq_iff hz hz', eq_comm]
    exact hpages
  unfold Block.share span
  rw [if_congr hiff rfl rfl]

theorem nextPage_page (harr : Arranged zs) (hz : z ∈ zs) {i : Nat} (hi : i < z.pageCount) :
    nextPage (z.page i) = z.page (i + 1) := by
  have hpages := harr.pages z hz
  have hbound := (harr.bound z hz).1
  unfold nextPage Zone.page
  omega

theorem page_zero (z : Zone) : z.base = z.page 0 := by
  unfold Zone.page
  omega

theorem byte_eq (z : Zone) (i : Nat) : ZoneGetPages z.address + i = z.byte i := rfl

theorem Arranged.ascending (harr : Arranged zs) : (zs.map Zone.address).Pairwise (· < ·) := by
  refine List.pairwise_map.mpr (harr.apart.imp fun {z z'} h => ?_)
  unfold Zone.finish at h
  omega

/-- The end of the walk, or the next zone. -/
theorem Kernel.Lists.next (hlists : k.Lists zs) (hz : z ∈ zs) :
    ZoneGetNext k.memory z.address = 0 ∨ ∃ z' ∈ zs, z'.address = ZoneGetNext k.memory z.address :=
  (hlists.chain.next_mem (List.mem_map_of_mem hz)).imp id fun h => List.mem_map.mp h

/-- A processor without a share. -/
structure Cursor.Bare (c : Cursor) : Prop where
  held : ∀ z j, c.held z j = 0
  owed : ∀ z, c.owed z = 0
  due : ∀ z, c.due z = 0

theorem bare_idle : Cursor.idle.Bare := ⟨fun _ _ => rfl, fun _ => rfl, fun _ => rfl⟩

theorem bare_walk (r : Request) (zone : Nat) : (Cursor.walk r zone).Bare :=
  ⟨fun _ _ => rfl, fun _ => rfl, fun _ => rfl⟩

theorem bare_scan (r : Request) (zone i address : Nat) : (Cursor.scan r zone i address).Bare :=
  ⟨fun _ _ => rfl, fun _ => rfl, fun _ => rfl⟩

theorem bare_claimOne (zone i address : Nat) : (Cursor.claimOne zone i address).Bare :=
  ⟨fun _ _ => rfl, fun _ => rfl, fun _ => rfl⟩

theorem bare_claim (n : UInt32) (zone i address : Nat) (hasPages : Bool) :
    (Cursor.claim n zone i address 0 hasPages).Bare :=
  ⟨fun _ _ => span_eq_zero le_rfl, fun _ => rfl, fun _ => rfl⟩

/-- A step between such places. -/
theorem Conserves.bare {m : Memory} (h : c.Bare) (h' : c'.Bare) : Conserves zs m m c c' :=
  .quiet (fun z _ j _ => (h'.held z j).trans (h.held z j).symm)
    (fun z => (h'.owed z).trans (h.owed z).symm) fun z => (h'.due z).trans (h.due z).symm

theorem walk_step {r : Request} {zone : Nat} (hlists : k.Lists zs)
    (hok : (Cursor.walk r zone).Ok zs)
    (hstep : (Cursor.walk r zone).step k.memory = some (c', m')) :
    c'.Ok zs ∧ Conserves zs k.memory m' (.walk r zone) c' := by
  simp only [Cursor.step] at hstep
  by_cases hzero : zone = 0
  · rw [if_pos hzero] at hstep
    cases hstep
    exact ⟨trivial, .bare (bare_walk _ _) bare_idle⟩
  obtain ⟨z, hz, rfl⟩ := hok.resolve_left hzero
  have hholds := hlists.holds z hz
  have hnext : (Cursor.walk r (ZoneGetNext k.memory z.address)).Ok zs := hlists.next hz
  rw [if_neg hzero] at hstep
  by_cases htype : ZoneGetType k.memory z.address ≠ MemoryEntryType.usable.code
  · rw [if_pos htype] at hstep
    cases hstep
    exact ⟨hnext, .bare (bare_walk _ _) (bare_walk _ _)⟩
  rw [if_neg htype] at hstep
  have husable : z.type = .usable := by
    rw [hholds.type] at htype
    cases hcase : z.type <;> simp [MemoryEntryType.code, hcase] at htype ⊢
  by_cases hcount : ZoneGetFreePageCount k.memory z.address = 0
  · rw [if_pos hcount] at hstep
    cases hstep
    exact ⟨hnext, .bare (bare_walk _ _) (bare_walk _ _)⟩
  · rw [if_neg hcount] at hstep
    cases hstep
    have hbase : ZoneGetAddress k.memory z.address = z.page 0 := hholds.base.trans (page_zero z)
    exact ⟨⟨z, hz, rfl, husable, Nat.zero_le _, hbase⟩, .bare (bare_walk _ _) (bare_scan _ _ _ _)⟩

theorem scan_step {r : Request} {zone i address : Nat} (hlists : k.Lists zs) (harr : Arranged zs)
    (hok : (Cursor.scan r zone i address).Ok zs)
    (hstep : (Cursor.scan r zone i address).step k.memory = some (c', m')) :
    c'.Ok zs ∧ Conserves zs k.memory m' (.scan r zone i address) c' := by
  obtain ⟨z, hz, rfl, husable, hi, rfl⟩ := hok
  simp only [Cursor.step, (hlists.holds z hz).pageCount] at hstep
  have hbare := bare_scan r z.address i (z.page i)
  by_cases hlt : i < z.pageCount
  · rw [if_pos hlt] at hstep
    by_cases hone : k.memory (ZoneGetPages z.address + i) = 1
    · rw [if_pos hone] at hstep
      cases r with
      | page =>
        cases hstep
        exact ⟨⟨z, hz, rfl, husable, hlt, rfl⟩, .bare hbare (bare_claimOne _ _ _)⟩
      | pages n =>
        cases hstep
        exact ⟨⟨z, hz, rfl, husable, hlt, rfl, hi, Nat.zero_le _, rfl⟩,
          .bare hbare (bare_claim _ _ _ _ _)⟩
    · rw [if_neg hone] at hstep
      cases hstep
      exact ⟨⟨z, hz, rfl, husable, hlt, nextPage_page harr hz hlt⟩,
        .bare hbare (bare_scan _ _ _ _)⟩
  · rw [if_neg hlt] at hstep
    cases hstep
    exact ⟨hlists.next hz, .bare hbare (bare_walk _ _)⟩

/-- The compare and swap of a page of a zone: the page was free, or nothing is written. -/
theorem compareAndSwap_cases (m : Memory) (zone i : Nat) :
    (m (ZoneGetPages zone + i) = 0x01 ∧ CompareAndSwap8 m 1 0 (ZoneGetPages zone + i)
      = (true, mark 0x00 0 zone i 1 m)) ∨
    (m (ZoneGetPages zone + i) ≠ 0x01 ∧
      CompareAndSwap8 m 1 0 (ZoneGetPages zone + i) = (false, m)) := by
  unfold CompareAndSwap8
  by_cases hone : m (ZoneGetPages zone + i) = 0x01
  · rw [if_pos hone, set_eq_mark]
    exact .inl ⟨hone, rfl⟩
  · rw [if_neg hone]
    exact .inr ⟨hone, rfl⟩

theorem claimOne_step {zone i address : Nat} (harr : Arranged zs)
    (hok : (Cursor.claimOne zone i address).Ok zs)
    (hstep : (Cursor.claimOne zone i address).step k.memory = some (c', m')) :
    c'.Ok zs ∧ Conserves zs k.memory m' (.claimOne zone i address) c' := by
  obtain ⟨z, hz, rfl, husable, hi, rfl⟩ := hok
  simp only [Cursor.step] at hstep
  rcases compareAndSwap_cases k.memory z.address i with ⟨hone, hcas⟩ | ⟨-, hcas⟩
  · rw [hcas] at hstep
    cases hstep
    exact ⟨⟨z, hz, rfl, husable, hi, rfl⟩, .claimed harr hz hi hone
      (fun _ _ => (Nat.zero_add _).symm) (fun _ => (Nat.zero_add _).symm) fun _ => rfl⟩
  · rw [hcas] at hstep
    cases hstep
    exact ⟨⟨z, hz, rfl, husable, hi, nextPage_page harr hz hi⟩,
      .bare (bare_claimOne _ _ _) (bare_scan _ _ _ _)⟩

theorem countOne_step {zone i address : Nat} (harr : Arranged zs)
    (hok : (Cursor.countOne zone i address).Ok zs)
    (hstep : (Cursor.countOne zone i address).step k.memory = some (c', m')) :
    c'.Ok zs ∧ Conserves zs k.memory m' (.countOne zone i address) c' := by
  obtain ⟨z, hz, rfl, husable, hi, rfl⟩ := hok
  have hat : (Block.mk (z.page i) 1).At z i := ⟨rfl, hi⟩
  rw [Cursor.step, decrement_eq_mark (v := 0x00)] at hstep
  cases hstep
  refine ⟨⟨by decide, z, hz, husable, i, hat⟩, .counted harr hz ?_ fun z' => ?_⟩
  · intro z' hz' j hj
    exact hat.share_eq harr hz hz' hj
  · by_cases hzone : z.address = z'.address
    · simp [hzone]
    · simp [hzone]

theorem claim_step {n : UInt32} {zone i address j : Nat} {hasPages : Bool} (harr : Arranged zs)
    (hguard : ∀ z ∈ zs, z.type = .usable → k.memory z.finish ≠ 0x01)
    (hok : (Cursor.claim n zone i address j hasPages).Ok zs)
    (hstep : (Cursor.claim n zone i address j hasPages).step k.memory = some (c', m')) :
    c'.Ok zs ∧ Conserves zs k.memory m' (.claim n zone i address j hasPages) c' := by
  obtain ⟨z, hz, rfl, husable, hi, rfl, hin, hj, rfl⟩ := hok
  simp only [Cursor.step] at hstep
  by_cases hlt : j < n.toNat
  · rw [if_pos hlt] at hstep
    rcases compareAndSwap_cases k.memory z.address (i + j) with ⟨hone, hcas⟩ | ⟨-, hcas⟩
    · -- the byte behind the pages is not a free page
      have hpage : i + j < z.pageCount := by
        rcases Nat.lt_or_eq_of_le hin with hlt' | heq
        · exact hlt'
        · rw [heq] at hone
          exact absurd hone (hguard z hz husable)
      rw [Nat.add_assoc, hcas] at hstep
      cases hstep
      refine ⟨⟨z, hz, rfl, husable, hi, rfl, hpage, hlt⟩, .claimed harr hz hpage hone
        (fun z' l => span_append (by omega) (by omega)) (fun _ => (Nat.zero_add _).symm)
        fun _ => rfl⟩
    · rw [Nat.add_assoc, hcas] at hstep
      cases hstep
      exact ⟨⟨z, hz, rfl, husable, hi, rfl, hin, Nat.zero_le _⟩,
        .quiet (fun _ _ _ _ => rfl) (fun _ => rfl) fun _ => rfl⟩
  · rw [if_neg hlt] at hstep
    obtain rfl : j = n.toNat := by omega
    by_cases hpages : decide (0 < n.toNat) = true
    · have hat : (Block.mk (z.page i) n).At z i := ⟨rfl, hin⟩
      rw [if_pos hpages] at hstep
      cases hstep
      exact ⟨⟨of_decide_eq_true hpages, z, hz, husable, i, hat⟩,
        .quiet (fun z' hz' l hl => hat.share_eq harr hz hz' hl) (fun _ => rfl) fun _ => rfl⟩
    · rw [if_neg hpages] at hstep
      have hzero : n.toNat = 0 := by
        rw [decide_eq_true_iff] at hpages
        omega
      rw [hzero]
      cases hstep
      exact ⟨⟨z, hz, rfl, husable, hi, nextPage_page harr hz hi⟩,
        .bare (bare_claim _ _ _ _ _) (bare_scan _ _ _ _)⟩

theorem count_step {n : UInt32} {zone i address j : Nat} (harr : Arranged zs)
    (hok : (Cursor.count n zone i address j).Ok zs)
    (hstep : (Cursor.count n zone i address j).step k.memory = some (c', m')) :
    c'.Ok zs ∧ Conserves zs k.memory m' (.count n zone i address j) c' := by
  obtain ⟨z, hz, rfl, husable, hi, rfl, hin, hj⟩ := hok
  rw [Cursor.step, decrement_eq_mark (v := 0x00)] at hstep
  cases hstep
  refine ⟨⟨z, hz, rfl, husable, hi, rfl, hin, hj, (decide_eq_true (Nat.succ_pos j)).symm⟩,
    .counted harr hz (fun _ _ _ _ => rfl) fun z' => ?_⟩
  by_cases hzone : z.address = z'.address
  · simp [hzone]
  · simp [hzone]

/-- The byte of a page that a processor holds. -/
theorem ne_one_of_held {m : Memory} {p : Nat} (hz : z ∈ zs) (hp : p < z.pageCount)
    (hfree : ∀ z ∈ zs, ∀ j < z.pageCount, free m z j + c.held z j ≤ 1) (hheld : c.held z p = 1) :
    m (z.byte p) ≠ 0x01 := by
  intro hone
  have hle := hfree z hz p hp
  rw [hheld, free, if_pos hone] at hle
  omega

theorem span_eq_one {j lo hi : Nat} (hlo : lo ≤ j) (hhi : j < hi) : span z j z.address lo hi = 1 :=
  if_pos ⟨rfl, hlo, hhi⟩

theorem undo_step {n : UInt32} {zone i address j l : Nat} (harr : Arranged zs)
    (hfree : ∀ z ∈ zs, ∀ p < z.pageCount,
      free k.memory z p + (Cursor.undo n zone i address j l).held z p ≤ 1)
    (hok : (Cursor.undo n zone i address j l).Ok zs)
    (hstep : (Cursor.undo n zone i address j l).step k.memory = some (c', m')) :
    c'.Ok zs ∧ Conserves zs k.memory m' (.undo n zone i address j l) c' := by
  obtain ⟨z, hz, rfl, husable, hi, rfl, hin, hl⟩ := hok
  simp only [Cursor.step] at hstep
  by_cases hlt : l < j
  · have hpage : i + l < z.pageCount := by omega
    have hne : k.memory (z.byte (i + l)) ≠ 0x01 :=
      ne_one_of_held hz hpage hfree (span_eq_one (by omega) (by omega))
    rw [if_pos hlt, Nat.add_assoc, set_eq_mark] at hstep
    cases hstep
    refine ⟨⟨z, hz, rfl, husable, hi, rfl, hin, hlt⟩, .released harr hz hpage hne
      (fun z' p => ?_) (fun _ => rfl) fun _ => (Nat.zero_add _).symm⟩
    rw [Nat.add_comm]
    exact span_append (by omega) (by omega)
  · rw [if_neg hlt] at hstep
    cases hstep
    exact ⟨⟨z, hz, rfl, husable, hi, nextPage_page harr hz hi⟩,
      .bare ⟨fun _ _ => span_eq_zero (by omega), fun _ => rfl, fun _ => rfl⟩ (bare_scan _ _ _ _)⟩

theorem countUndo_step {n : UInt32} {zone i address j l : Nat} (harr : Arranged zs)
    (hok : (Cursor.countUndo n zone i address j l).Ok zs)
    (hstep : (Cursor.countUndo n zone i address j l).step k.memory = some (c', m')) :
    c'.Ok zs ∧ Conserves zs k.memory m' (.countUndo n zone i address j l) c' := by
  obtain ⟨z, hz, rfl, husable, hi, rfl, hin, hl⟩ := hok
  rw [Cursor.step, increment_eq_mark (v := 0x00)] at hstep
  cases hstep
  refine ⟨⟨z, hz, rfl, husable, hi, rfl, hin, hl⟩,
    .counted harr hz (fun _ _ _ _ => rfl) fun z' => ?_⟩
  by_cases hzone : z.address = z'.address
  · simp [hzone]
  · simp [hzone]

/-! ### Releases -/

theorem conserves_find {m : Memory} {r : Request} {page zone zone' : Nat} :
    Conserves zs m m (.find r page zone) (.find r page zone') :=
  .quiet (fun _ _ _ _ => rfl) (fun _ => rfl) fun _ => rfl

theorem pageIndexOf_page (harr : Arranged zs) (hz : z ∈ zs) {i : Nat} (hi : i ≤ z.pageCount) :
    pageIndexOf (z.page i) z.base = i := by
  have hpages := harr.pages z hz
  have hbound := (harr.bound z hz).1
  unfold pageIndexOf Zone.page
  omega

theorem find_step {r : Request} {page zone : Nat} (hlists : k.Lists zs) (harr : Arranged zs)
    (hok : (Cursor.find r page zone).Ok zs)
    (hstep : (Cursor.find r page zone).step k.memory = some (c', m')) :
    c'.Ok zs ∧ Conserves zs k.memory m' (.find r page zone) c' := by
  obtain ⟨⟨z, hz, husable, hle, i, hat⟩, ⟨z', hz', rfl⟩, hend⟩ := hok
  have hholds := hlists.holds z' hz'
  have hne : z'.address ≠ 0 := hlists.chain.ne_zero (List.mem_map_of_mem hz')
  have hbound := (harr.bound z' hz').1
  have hpages := harr.pages z hz
  obtain ⟨rfl, hin⟩ := hat
  simp only [Cursor.step, if_neg hne, hholds.base, hholds.length, Nat.mod_eq_of_lt hbound] at hstep
  by_cases hfront : z'.address < z.address
  · -- a zone in front ends before the block
    have hbase := harr.le_base hz hz' hfront
    have hends := hend z' hz'
    obtain ⟨hnext, hnextLe⟩ := hlists.chain.next_le harr.ascending (List.mem_map_of_mem hz')
      (List.mem_map_of_mem hz) hfront
    unfold Zone.page at hends hstep
    rw [if_pos (by omega)] at hstep
    cases hstep
    exact ⟨⟨⟨z, hz, husable, hnextLe, i, rfl, hin⟩, List.mem_map.mp hnext, hend⟩, conserves_find⟩
  · obtain rfl := harr.eq_of_address hz hz' (by omega)
    have hinside : ¬ z.page i > z.base + z.length := by
      unfold Zone.page
      omega
    have hat : (Block.mk (z.page i) r.count).At z i := ⟨rfl, hin⟩
    simp only at hin
    rw [if_neg hinside, pageIndexOf_page harr hz (by omega)] at hstep
    cases r with
    | page =>
      cases hstep
      exact ⟨⟨z, hz, rfl, husable, hin⟩,
        .quiet (fun z' hz' j hj => (hat.share_eq harr hz hz' hj).symm) (fun _ => rfl) fun _ => rfl⟩
    | pages n =>
      cases hstep
      exact ⟨⟨z, hz, rfl, husable, hin, Nat.zero_le _⟩,
        .quiet (fun z' hz' j hj => (hat.share_eq harr hz hz' hj).symm) (fun _ => rfl) fun _ => rfl⟩

theorem releaseOne_step {zone i : Nat} (harr : Arranged zs)
    (hfree : ∀ z ∈ zs, ∀ p < z.pageCount,
      free k.memory z p + (Cursor.releaseOne zone i).held z p ≤ 1)
    (hok : (Cursor.releaseOne zone i).Ok zs)
    (hstep : (Cursor.releaseOne zone i).step k.memory = some (c', m')) :
    c'.Ok zs ∧ Conserves zs k.memory m' (.releaseOne zone i) c' := by
  obtain ⟨z, hz, rfl, husable, hi⟩ := hok
  have hne : k.memory (z.byte i) ≠ 0x01 :=
    ne_one_of_held hz hi hfree (span_eq_one le_rfl (Nat.lt_succ_self i))
  rw [Cursor.step, set_eq_mark] at hstep
  cases hstep
  exact ⟨⟨z, hz, rfl⟩, .released harr hz hi hne (fun _ _ => (Nat.zero_add _).symm) (fun _ => rfl)
    fun _ => (Nat.zero_add _).symm⟩

theorem countReleaseOne_step {zone : Nat} (harr : Arranged zs)
    (hok : (Cursor.countReleaseOne zone).Ok zs)
    (hstep : (Cursor.countReleaseOne zone).step k.memory = some (c', m')) :
    c'.Ok zs ∧ Conserves zs k.memory m' (.countReleaseOne zone) c' := by
  obtain ⟨z, hz, rfl⟩ := hok
  rw [Cursor.step, increment_eq_mark (v := 0x00)] at hstep
  cases hstep
  refine ⟨trivial, .counted harr hz (fun _ _ _ _ => rfl) fun z' => ?_⟩
  by_cases hzone : z.address = z'.address
  · simp [hzone]
  · simp [hzone]

theorem release_step {n : UInt32} {zone i l : Nat} (harr : Arranged zs)
    (hfree : ∀ z ∈ zs, ∀ p < z.pageCount,
      free k.memory z p + (Cursor.release n zone i l).held z p ≤ 1)
    (hok : (Cursor.release n zone i l).Ok zs)
    (hstep : (Cursor.release n zone i l).step k.memory = some (c', m')) :
    c'.Ok zs ∧ Conserves zs k.memory m' (.release n zone i l) c' := by
  obtain ⟨z, hz, rfl, husable, hin, hl⟩ := hok
  simp only [Cursor.step] at hstep
  by_cases hlt : l < n.toNat
  · have hpage : i + l < z.pageCount := by omega
    have hne : k.memory (z.byte (i + l)) ≠ 0x01 :=
      ne_one_of_held hz hpage hfree (span_eq_one le_rfl (by omega))
    rw [if_pos hlt, Nat.add_assoc, set_eq_mark] at hstep
    cases hstep
    refine ⟨⟨z, hz, rfl, husable, hin, hlt⟩, .released harr hz hpage hne
      (fun z' p => ?_) (fun _ => rfl) fun _ => (Nat.zero_add _).symm⟩
    rw [Nat.add_comm]
    exact span_append (by omega) (by omega)
  · rw [if_neg hlt] at hstep
    cases hstep
    exact ⟨trivial, .bare ⟨fun _ _ => span_eq_zero (by omega), fun _ => rfl, fun _ => rfl⟩
      bare_idle⟩

theorem countRelease_step {n : UInt32} {zone i l : Nat} (harr : Arranged zs)
    (hok : (Cursor.countRelease n zone i l).Ok zs)
    (hstep : (Cursor.countRelease n zone i l).step k.memory = some (c', m')) :
    c'.Ok zs ∧ Conserves zs k.memory m' (.countRelease n zone i l) c' := by
  obtain ⟨z, hz, rfl, husable, hin, hl⟩ := hok
  rw [Cursor.step, increment_eq_mark (v := 0x00)] at hstep
  cases hstep
  refine ⟨⟨z, hz, rfl, husable, hin, hl⟩,
    .counted harr hz (fun _ _ _ _ => rfl) fun z' => ?_⟩
  by_cases hzone : z.address = z'.address
  · simp [hzone]
  · simp [hzone]

/-- A step of a processor keeps what its variables stand for, and the shares. -/
theorem cursor_step (hlists : k.Lists zs) (harr : Arranged zs)
    (hguard : ∀ z ∈ zs, z.type = .usable → k.memory z.finish ≠ 0x01)
    (hfree : ∀ z ∈ zs, ∀ p < z.pageCount, free k.memory z p + c.held z p ≤ 1) (hok : c.Ok zs)
    (hstep : c.step k.memory = some (c', m')) : c'.Ok zs ∧ Conserves zs k.memory m' c c' := by
  cases c with
  | idle => cases hstep
  | walk => exact walk_step hlists hok hstep
  | scan => exact scan_step hlists harr hok hstep
  | claimOne => exact claimOne_step harr hok hstep
  | countOne => exact countOne_step harr hok hstep
  | claim => exact claim_step harr hguard hok hstep
  | count => exact count_step harr hok hstep
  | undo => exact undo_step harr hfree hok hstep
  | countUndo => exact countUndo_step harr hok hstep
  | granted => cases hstep
  | find => exact find_step hlists harr hok hstep
  | releaseOne => exact releaseOne_step harr hfree hok hstep
  | countReleaseOne => exact countReleaseOne_step harr hok hstep
  | release => exact release_step harr hfree hok hstep
  | countRelease => exact countRelease_step harr hok hstep

end Step

end Xeos.Mem
