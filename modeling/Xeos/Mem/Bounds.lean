import Xeos.Mem.FirstFit

/-!
# The indices of the page arrays

The operations of the allocator, with a log of the indices of `pages[ ]` that they read
or write.  An allocation leaves the pages of a zone at the end of a run of free pages that
is too short, and a release leaves them at the address at which a zone ends.
-/

namespace Xeos.Mem

open Lib

/-! ## The operations with their uses -/

/-- The indices that `claimPages` uses. -/
def claimUses (zone i : Nat) : Nat → Nat → Memory → List Nat
  | 0, _, _ => []
  | left + 1, j, m =>
    (i + j) ::
      match CompareAndSwap8 m 1 0 (ZoneGetPages zone + i + j) with
      | (false, _) => (List.range j).map (i + ·)
      | (true, m) => claimUses zone i left (j + 1) (Decrement64 m (freePageCountOf zone))

/-- The indices that `allocPagesFrom` uses. -/
def allocPagesUses (n zone : Nat) : Nat → Nat → Memory → List Nat
  | 0, _, _ => []
  | left + 1, i, m =>
    i ::
      if m (ZoneGetPages zone + i) = 1 then
        claimUses zone i n 0 m ++
          match claimPages zone i n 0 false m with
          | (true, _) => []
          | (false, m) => allocPagesUses n zone left (i + 1) m
      else allocPagesUses n zone left (i + 1) m

/-- The indices that an allocation uses in a zone. -/
def visitAllocUses (n zone : Nat) (m : Memory) : List Nat :=
  if ZoneGetType m zone ≠ MemoryEntryType.usable.code then []
  else if ZoneGetFreePageCount m zone = 0 then []
  else allocPagesUses n zone (ZoneGetPageCount m zone) 0 m

/-- The index that `XEOS_Mem_FreePage` uses in a zone. -/
def visitFreePageUses (page zone : Nat) (m : Memory) : List Nat :=
  let base := ZoneGetAddress m zone
  if page > (base + ZoneGetLength m zone) % 2 ^ 64 then [] else [pageIndexOf page base]

/-- The indices that `XEOS_Mem_FreePages` uses in a zone. -/
def visitFreePagesUses (page n zone : Nat) (m : Memory) : List Nat :=
  let base := ZoneGetAddress m zone
  if page > (base + ZoneGetLength m zone) % 2 ^ 64 then []
  else (List.range n).map (pageIndexOf page base + ·)

/-- The walk over the zones, with its log. -/
def WalkUses {ρ : Type} (visit : Nat → Memory → Option ρ × Memory)
    (uses : Nat → Memory → List Nat) (k : Kernel) (result : Option ρ) (k' : Kernel)
    (log : List (Nat × Nat)) : Prop :=
  ∃ zone m', GetZoneAtIndex k 0 zone ∧
    Returns (walkStep (fun t => ZoneGetNext t.1) (logVisit visit uses)) (zone, k.memory, [])
      (result, m', log) ∧
    k' = { k with memory := m' }

/-- `XEOS_Mem_AllocPages`, with its log. -/
def AllocPagesUses (n : UInt32) (k : Kernel) (address : Nat) (k' : Kernel)
    (log : List (Nat × Nat)) : Prop :=
  ∃ result, WalkUses (visitAlloc (allocPagesFrom n.toNat)) (visitAllocUses n.toNat) k result k'
    log ∧ address = result.getD 0

/-- `XEOS_Mem_FreePage`, with its log. -/
def FreePageUses (address : Nat) (k k' : Kernel) (log : List (Nat × Nat)) : Prop :=
  if address &&& 0xFFF ≠ 0 then k' = k ∧ log = []
  else ∃ result, WalkUses (visitFreePage address) (visitFreePageUses address) k result k' log

/-- `XEOS_Mem_FreePages`, with its log. -/
def FreePagesUses (address : Nat) (n : UInt32) (k k' : Kernel) (log : List (Nat × Nat)) : Prop :=
  if address &&& 0xFFF ≠ 0 then k' = k ∧ log = []
  else ∃ result, WalkUses (visitFreePages address n.toNat) (visitFreePagesUses address n.toNat) k
    result k' log

section Log

variable {ρ : Type} {visit : Nat → Memory → Option ρ × Memory} {uses : Nat → Memory → List Nat}
  {k k' : Kernel}

/-- The log does not change what the walk does. -/
theorem exists_walkUses_iff {result : Option ρ} :
    (∃ log, WalkUses visit uses k result k' log) ↔ WalkZones visit k result k' := by
  constructor
  · rintro ⟨log, zone, m', hzone, hreturns, hk'⟩
    exact ⟨zone, m', hzone, returns_logVisit_iff.mp ⟨log, hreturns⟩, hk'⟩
  · rintro ⟨zone, m', hzone, hreturns, hk'⟩
    obtain ⟨log, hlog⟩ := returns_logVisit_iff.mpr hreturns
    exact ⟨log, zone, m', hzone, hlog, hk'⟩

theorem exists_allocPagesUses_iff {n : UInt32} {address : Nat} :
    (∃ log, AllocPagesUses n k address k' log) ↔ AllocPages n k address k' := by
  unfold AllocPagesUses AllocPages
  rw [exists_comm]
  refine exists_congr fun result => ?_
  rw [exists_and_right, exists_walkUses_iff]

theorem exists_freePagesUses_iff {n : UInt32} {address : Nat} :
    (∃ log, FreePagesUses address n k k' log) ↔ FreePages address n k k' := by
  unfold FreePagesUses FreePages
  by_cases haligned : address &&& 0xFFF ≠ 0
  · simp only [haligned, ne_eq, not_false_eq_true, if_true, exists_and_left, exists_eq, and_true]
  · simp only [haligned, if_false]
    rw [exists_comm]
    exact exists_congr fun result => exists_walkUses_iff

/-- What is in the log, when the visits without a result change nothing. -/
theorem Kernel.Lists.mem_log {zs : List Zone} (h : k.Lists zs)
    (hnone : ∀ z ∈ zs, (visit z.address k.memory).1 = none →
      (visit z.address k.memory).2 = k.memory) {result : Option ρ} {log : List (Nat × Nat)}
    (hwalk : WalkUses visit uses k result k' log) (zone x : Nat) :
    (zone, x) ∈ log ↔ ∃ front, ∃ z : Zone, ∃ back, zs = front ++ z :: back ∧ z.address = zone ∧
      (∀ z' ∈ front, (visit z'.address k.memory).1 = none) ∧ x ∈ uses zone k.memory := by
  have hmap : ∀ p ∈ zs.map Zone.address, (visit p k.memory).1 = none →
      (visit p k.memory).2 = k.memory := by
    intro p hp
    obtain ⟨z, hz, rfl⟩ := List.mem_map.mp hp
    exact hnone z hz
  obtain ⟨start, m', hstart, hreturns, _⟩ := hwalk
  rw [h.getZoneAtIndex_iff.mp hstart] at hreturns
  have hkeep : ∀ q ∈ zs.map Zone.address, ∀ t : Memory × List (Nat × Nat), t.1 = k.memory →
      (logVisit visit uses q t).1 = none → (logVisit visit uses q t).2.1 = k.memory := by
    rintro q hq ⟨m, log⟩ rfl hv
    exact hmap q hq hv
  have hlist : Returns (walkStep (fun t => ZoneGetNext t.1) (logVisit visit uses))
      (k.Zones, k.memory, [])
      (walkList (logVisit visit uses) (zs.map Zone.address) (k.memory, [])) := by
    refine returns_walk (fun t => t.1 = k.memory) (fun _ hq => hq) ?_ hkeep rfl h.chain
    intro t t' ht ht' q _
    rw [ht, ht']
  have hlog := congrArg (fun r => r.2.2) (hreturns.unique hlist)
  simp only at hlog
  rw [hlog, mem_walkList_logVisit hmap]
  simp only [List.not_mem_nil, false_or]
  constructor
  · rintro ⟨before, after, hsplit, hbefore, hx⟩
    obtain ⟨front, rest, rfl, rfl, hrest⟩ := List.map_eq_append_iff.mp hsplit
    obtain ⟨z, back, rfl, hz, _⟩ := List.map_eq_cons_iff.mp hrest
    exact ⟨front, z, back, rfl, hz, fun z' hz' => hbefore _ (List.mem_map_of_mem hz'), hx⟩
  · rintro ⟨front, z, back, rfl, rfl, hfront, hx⟩
    refine ⟨front.map Zone.address, back.map Zone.address, by simp, ?_, hx⟩
    intro q hq
    obtain ⟨z', hz', rfl⟩ := List.mem_map.mp hq
    exact hfront z' hz'

end Log

/-! ## The uses in one zone -/

section Zone

variable {m : Memory} {zone bound : Nat}

theorem RunAt.mono {i n n' : Nat} (h : RunAt m zone i n) (hle : n' ≤ n) : RunAt m zone i n' :=
  fun j hj => h j (by omega)

theorem runAt_succ {i n : Nat} :
    RunAt m zone i (n + 1) ↔ RunAt m zone i n ∧ m (ZoneGetPages zone + i + n) = 0x01 := by
  constructor
  · exact fun h => ⟨h.mono (Nat.le_succ n), h n (Nat.lt_succ_self n)⟩
  · rintro ⟨h, hlast⟩ j hj
    rcases Nat.lt_succ_iff_lt_or_eq.mp hj with hlt | rfl
    · exact h j hlt
    · exact hlast

/-- The loop that claims pages reads on while they are free. -/
theorem claimUses_lt_iff {i left j : Nat} (hj : j + left < 2 ^ 64) (hrun : RunAt m zone i j) :
    (∀ x ∈ claimUses zone i left j (take zone i j m), x < bound) ↔
      ∀ j', j ≤ j' → j' < j + left → RunAt m zone i j' → i + j' < bound := by
  induction left generalizing j with
  | zero =>
    constructor
    · intro _ j' h1 h2
      omega
    · intro _ x hx
      cases hx
  | succ left ih =>
    have hbyte : take zone i j m (ZoneGetPages zone + i + j) = m (ZoneGetPages zone + i + j) := by
      unfold take
      rw [mark_page (by omega), if_neg (by omega)]
    by_cases hone : m (ZoneGetPages zone + i + j) = 0x01
    · have hcas : CompareAndSwap8 (take zone i j m) 1 0 (ZoneGetPages zone + i + j)
          = (true, (take zone i j m).set (ZoneGetPages zone + i + j) 0) :=
        if_pos (hbyte.trans hone)
      have hnext : Decrement64 ((take zone i j m).set (ZoneGetPages zone + i + j) 0)
          (freePageCountOf zone) = take zone i (j + 1) m := mark_succ (by omega)
      have huses : claimUses zone i (left + 1) j (take zone i j m)
          = (i + j) :: claimUses zone i left (j + 1) (take zone i (j + 1) m) := by
        rw [claimUses, hcas]
        simp only
        rw [hnext]
      rw [huses, List.forall_mem_cons, ih (by omega) (runAt_succ.mpr ⟨hrun, hone⟩)]
      constructor
      · rintro ⟨hhead, htail⟩ j' h1 h2 hrun'
        rcases Nat.eq_or_lt_of_le h1 with rfl | hlt
        · exact hhead
        · exact htail j' hlt (by omega) hrun'
      · exact fun h => ⟨h j (Nat.le_refl j) (by omega) hrun,
          fun j' h1 h2 => h j' (by omega) (by omega)⟩
    · have hcas : CompareAndSwap8 (take zone i j m) 1 0 (ZoneGetPages zone + i + j)
          = (false, take zone i j m) := if_neg (fun h => hone (hbyte.symm.trans h))
      have huses : claimUses zone i (left + 1) j (take zone i j m)
          = (i + j) :: (List.range j).map (i + ·) := by
        rw [claimUses, hcas]
      rw [huses, List.forall_mem_cons]
      constructor
      · rintro ⟨hhead, _⟩ j' h1 _ hrun'
        rcases Nat.eq_or_lt_of_le h1 with rfl | hlt
        · exact hhead
        · exact absurd (hrun' j hlt) hone
      · intro h
        have hhead := h j (Nat.le_refl j) (by omega) hrun
        -- the pages given back are in front of it
        refine ⟨hhead, fun x hx => ?_⟩
        obtain ⟨k, hk, rfl⟩ := List.mem_map.mp hx
        have hlt := List.mem_range.mp hk
        omega

theorem claimUses_zero_lt_iff {i n : Nat} (hn : n < 2 ^ 64) :
    (∀ x ∈ claimUses zone i n 0 m, x < bound) ↔
      ∀ j, j < n → RunAt m zone i j → i + j < bound := by
  have hiff : (∀ x ∈ claimUses zone i n 0 (take zone i 0 m), x < bound) ↔ _ :=
    claimUses_lt_iff (by omega) runAt_zero
  rw [take_zero] at hiff
  rw [hiff]
  simp only [Nat.zero_le, Nat.zero_add, true_implies]

/-- The search reads a page, and on from it while the pages are free, for every page up to
the first run. -/
theorem allocPagesUses_lt_iff {n left i : Nat} (hn : 0 < n) (hn64 : n < 2 ^ 64) :
    (∀ x ∈ allocPagesUses n zone left i m, x < bound) ↔
      ∀ c, c < left → (∀ c', c' < c → ¬ RunAt m zone (i + c') n) →
        ∀ j, j < n → RunAt m zone (i + c) j → i + c + j < bound := by
  induction left generalizing i with
  | zero =>
    constructor
    · exact fun _ c hc => absurd hc (Nat.not_lt_zero c)
    · exact fun _ x hx => nomatch hx
  | succ left ih =>
    have hpage : (∀ x ∈ allocPagesUses n zone (left + 1) i m, x < bound) ↔
        (∀ j, j < n → RunAt m zone i j → i + j < bound) ∧
        (¬ RunAt m zone i n → ∀ x ∈ allocPagesUses n zone left (i + 1) m, x < bound) := by
      rw [allocPagesUses, List.forall_mem_cons]
      by_cases hone : m (ZoneGetPages zone + i) = 1
      · rw [if_pos hone, List.forall_mem_append, claimUses_zero_lt_iff hn64, claimPages_eq hn64]
        by_cases hrun : RunAt m zone i n
        · rw [if_pos hrun, decide_eq_true hn]
          constructor
          · exact fun h => ⟨h.2.1, fun hnot => absurd hrun hnot⟩
          · exact fun h => ⟨h.1 0 hn runAt_zero, h.1, fun x hx => nomatch hx⟩
        · rw [if_neg hrun]
          constructor
          · exact fun h => ⟨h.2.1, fun _ => h.2.2⟩
          · exact fun h => ⟨h.1 0 hn runAt_zero, h.1, h.2 hrun⟩
      · rw [if_neg hone]
        have hrun : ∀ j, 0 < j → ¬ RunAt m zone i j := fun j hj h => hone (h 0 hj)
        constructor
        · rintro ⟨hhead, htail⟩
          refine ⟨fun j _ hj => ?_, fun _ => htail⟩
          cases j with
          | zero => exact hhead
          | succ j => exact absurd hj (hrun _ (Nat.succ_pos j))
        · exact fun h => ⟨h.1 0 hn runAt_zero, h.2 (hrun n hn)⟩
    rw [hpage, ih]
    constructor
    · rintro ⟨hhead, htail⟩ c hc hfirst j hj hrun
      cases c with
      | zero => exact hhead j hj hrun
      | succ c =>
        have hgo := htail (hfirst 0 (Nat.succ_pos c)) c (by omega)
          (fun c' hc' => by
            have hnot := hfirst (c' + 1) (by omega)
            rwa [show i + (c' + 1) = i + 1 + c' by omega] at hnot)
          j hj
        rw [show i + (c + 1) = i + 1 + c by omega] at hrun ⊢
        exact hgo hrun
    · intro h
      refine ⟨fun j hj hrun => h 0 (Nat.succ_pos left) (fun c hc => absurd hc (Nat.not_lt_zero c))
        j hj hrun, fun hnot c hc hfirst j hj hrun => ?_⟩
      have hgo := h (c + 1) (by omega)
        (fun c' hc' => by
          cases c' with
          | zero => exact hnot
          | succ c' =>
            have hnot' := hfirst c' (by omega)
            rwa [show i + 1 + c' = i + (c' + 1) by omega] at hnot')
        j hj
      rw [show i + 1 + c = i + (c + 1) by omega] at hrun ⊢
      exact hgo hrun

end Zone

/-! ## The uses in a walk -/

/-- Every index in the log is one of the pages of its zone. -/
def InBounds (k : Kernel) (log : List (Nat × Nat)) : Prop :=
  ∀ use ∈ log, use.2 < ZoneGetPageCount k.memory use.1

section Walk

variable {ρ : Type} {visit : Nat → Memory → Option ρ × Memory} {uses : Nat → Memory → List Nat}
  {k : Kernel} {zs : List Zone}

/-- The uses of the zones up to the first one with a result are what counts. -/
theorem Kernel.Lists.inBounds_iff (h : k.Lists zs)
    (hnone : ∀ z ∈ zs, (visit z.address k.memory).1 = none →
      (visit z.address k.memory).2 = k.memory) :
    (∀ result k' log, WalkUses visit uses k result k' log → InBounds k log) ↔
      ∀ (front : List Zone) (z : Zone) (back : List Zone), zs = front ++ z :: back →
        (∀ z' ∈ front, (visit z'.address k.memory).1 = none) →
        ∀ x ∈ uses z.address k.memory, x < z.pageCount := by
  have hcount : ∀ {front back : List Zone} {z : Zone}, zs = front ++ z :: back →
      ZoneGetPageCount k.memory z.address = z.pageCount :=
    fun hsplit => (h.holds _ (by rw [hsplit]; simp)).pageCount
  constructor
  · intro hin front z back hsplit hfront x hx
    have hreturns := (h.walkZones_iff hnone
      { k with memory := (walkList visit (zs.map Zone.address) k.memory).2 } _).mpr ⟨rfl, rfl⟩
    obtain ⟨log, hlog⟩ : ∃ log, WalkUses visit uses k _ _ log := exists_walkUses_iff.mpr hreturns
    rw [← hcount hsplit]
    exact hin _ _ log hlog (z.address, x)
      ((h.mem_log hnone hlog _ _).mpr ⟨front, z, back, hsplit, rfl, hfront, hx⟩)
  · intro hin result k' log hlog use huse
    obtain ⟨front, z, back, hsplit, hz, hfront, hx⟩ :=
      (h.mem_log hnone hlog use.1 use.2).mp huse
    rw [← hz] at hx ⊢
    rw [hcount hsplit]
    exact hin front z back hsplit hfront _ hx

end Walk

/-! ## Allocations -/

/-- The pages from page `i` to the end of a zone that an allocation searches are free, and
fewer than `n`. -/
structure Zone.ShortTail (m : Memory) (n : Nat) (z : Zone) (i : Nat) : Prop where
  usable : z.type = .usable
  free : 0 < ZoneGetFreePageCount m z.address
  start : i < z.pageCount
  short : z.pageCount < i + n
  run : RunAt m z.address i (z.pageCount - i)

/-- The search ends in front of every such tail, at a run of `n` pages of a zone. -/
def NoShortTail (m : Memory) (n : Nat) (zs : List Zone) : Prop :=
  ∀ front z back, zs = front ++ z :: back → ∀ i, z.ShortTail m n i →
    (∃ z' ∈ front, ∃ i', z'.Candidate m n i') ∨ ∃ i', i' < i ∧ z.Candidate m n i'

section Alloc

variable {k : Kernel} {zs : List Zone} {z : Zone} {m : Memory} {n : Nat}

theorem visitAllocUses_lt_iff (hholds : z.Holds m) (hn : 0 < n) (hn64 : n < 2 ^ 64) :
    (∀ x ∈ visitAllocUses n z.address m, x < z.pageCount) ↔
      (z.type = .usable → 0 < ZoneGetFreePageCount m z.address →
        ∀ c, c < z.pageCount → (∀ c', c' < c → ¬ RunAt m z.address c' n) →
          ∀ j, j < n → RunAt m z.address c j → c + j < z.pageCount) := by
  unfold visitAllocUses
  by_cases htype : z.type = .usable
  · rw [if_neg (by rw [hholds.type, htype]; exact not_not.mpr rfl)]
    by_cases hfree : ZoneGetFreePageCount m z.address = 0
    · rw [if_pos hfree]
      exact iff_of_true nofun fun _ hpos => absurd hfree (Nat.ne_of_gt hpos)
    · rw [if_neg hfree, hholds.pageCount, allocPagesUses_lt_iff hn hn64]
      simp only [Nat.zero_add, htype, Nat.pos_of_ne_zero hfree, true_implies]
  · have hcode : ZoneGetType m z.address ≠ MemoryEntryType.usable.code := by
      rw [hholds.type]
      cases hz : z.type <;> simp [MemoryEntryType.code, hz] at htype ⊢
    rw [if_pos hcode]
    exact iff_of_true nofun fun husable => absurd husable htype

theorem visitAlloc_none_iff (hholds : z.Holds m) (hn : 0 < n) (hn64 : n < 2 ^ 64) :
    (visitAlloc (allocPagesFrom n) z.address m).1 = none ↔ ∀ i, ¬ z.Hit m n i := by
  rcases visitAlloc_hit hholds hn hn64 with ⟨heq, hno⟩ | ⟨i, hhit, _, heq⟩
  · rw [heq]
    exact iff_of_true rfl hno
  · rw [heq]
    exact iff_of_false (by simp) fun hno => hno i hhit

/-- A zone whose uses are in bounds takes its runs from its own pages. -/
theorem exists_candidate (hn : 0 < n)
    (hin : z.type = .usable → 0 < ZoneGetFreePageCount m z.address →
      ∀ c, c < z.pageCount → (∀ c', c' < c → ¬ RunAt m z.address c' n) →
        ∀ j, j < n → RunAt m z.address c j → c + j < z.pageCount) {i : Nat} (hhit : z.Hit m n i) :
    ∃ i', i' ≤ i ∧ z.Candidate m n i' := by
  -- the lowest run
  have hex : ∃ c, RunAt m z.address c n := ⟨i, hhit.run⟩
  have hle : Nat.find hex ≤ i := Nat.find_min' hex hhit.run
  have hrun := Nat.find_spec hex
  have hstart := hhit.start
  have hlast := hin hhit.usable hhit.free (Nat.find hex) (by omega)
    (fun c' hc' => Nat.find_min hex hc') (n - 1) (by omega) (hrun.mono (by omega))
  exact ⟨Nat.find hex, hle, hhit.usable, hhit.free, by omega, hrun⟩

theorem allocUses_iff (h : k.Lists zs) (hn : 0 < n) (hn64 : n < 2 ^ 64) :
    (∀ (front : List Zone) (z : Zone) (back : List Zone), zs = front ++ z :: back →
      (∀ z' ∈ front, (visitAlloc (allocPagesFrom n) z'.address k.memory).1 = none) →
      ∀ x ∈ visitAllocUses n z.address k.memory, x < z.pageCount) ↔
      NoShortTail k.memory n zs := by
  have hmem : ∀ {front z back}, zs = front ++ z :: back → ∀ z' ∈ front ++ [z], z' ∈ zs := by
    intro front z back hsplit z' hz'
    rw [hsplit, ← List.singleton_append, ← List.append_assoc]
    exact List.mem_append_left back hz'
  have hfront : ∀ {front z back}, zs = front ++ z :: back → ∀ z' ∈ front, z' ∈ zs :=
    fun hsplit z' hz' => hmem hsplit z' (List.mem_append_left _ hz')
  have hlast : ∀ {front z back}, zs = front ++ z :: back → z ∈ zs :=
    fun hsplit => hmem hsplit _ (List.mem_append_right _ List.mem_cons_self)
  constructor
  · intro hin front z back hsplit i htail
    by_contra hnot
    obtain ⟨hnone, hlow⟩ := not_or.mp hnot
    -- no zone in front has a run: the first one that has would have one inside
    have hnohit : ∀ z' ∈ front, ∀ i', ¬ z'.Hit k.memory n i' := by
      have hprefix : ∀ d rest, front = d ++ rest → ∀ z' ∈ d, ∀ i', ¬ z'.Hit k.memory n i' := by
        intro d
        induction d using List.reverseRecOn with
        | nil => exact fun _ _ _ hz' => nomatch hz'
        | append_singleton d zd ih =>
          intro rest hrest z' hz' i' hhit
          have hd := ih (zd :: rest) (by rw [hrest, List.append_assoc, List.singleton_append])
          rcases List.mem_append.mp hz' with hz' | hz'
          · exact hd z' hz' i' hhit
          · rw [List.mem_singleton.mp hz'] at hhit
            have hzd : zd ∈ front := by
              rw [hrest]
              simp
            have hsplit' : zs = d ++ zd :: (rest ++ z :: back) := by
              rw [hsplit, hrest]
              simp
            have huses := hin d zd _ hsplit' fun z1 hz1 =>
              (visitAlloc_none_iff (h.holds z1 (hfront hsplit' z1 hz1)) hn hn64).mpr (hd z1 hz1)
            obtain ⟨i1, _, hcand⟩ := exists_candidate hn
              ((visitAllocUses_lt_iff (h.holds zd (hfront hsplit zd hzd)) hn hn64).mp huses) hhit
            exact hnone ⟨zd, hzd, i1, hcand⟩
      exact hprefix front [] (List.append_nil front).symm
    have huses := (visitAllocUses_lt_iff (h.holds z (hlast hsplit)) hn hn64).mp
      (hin front z back hsplit fun z' hz' =>
        (visitAlloc_none_iff (h.holds z' (hfront hsplit z' hz')) hn hn64).mpr (hnohit z' hz'))
    have hstart := htail.start
    have hshort := htail.short
    have hnorun : ∀ c', c' < i → ¬ RunAt k.memory z.address c' n := by
      intro c' hc' hrun
      obtain ⟨i1, hle, hcand⟩ := exists_candidate hn huses
        (i := c') ⟨htail.usable, htail.free, by omega, hrun⟩
      exact hlow ⟨i1, by omega, hcand⟩
    have hend := huses htail.usable htail.free i hstart hnorun (z.pageCount - i) (by omega) htail.run
    omega
  · intro hno front z back hsplit hnone
    rw [visitAllocUses_lt_iff (h.holds z (hlast hsplit)) hn hn64]
    intro husable hfree c hc hfirst j hj hrun
    by_contra hover
    have htail : z.ShortTail k.memory n c :=
      ⟨husable, hfree, hc, by omega, hrun.mono (by omega)⟩
    rcases hno front z back hsplit c htail with ⟨z', hz', i', hcand⟩ | ⟨i', hi', hcand⟩
    · have hz'zs := hfront hsplit z' hz'
      exact (visitAlloc_none_iff (h.holds z' hz'zs) hn hn64).mp (hnone z' hz') i' (hcand.hit hn)
    · exact hfirst i' hi' hcand.run

end Alloc

/-! ## Releases -/

section Free

variable {k : Kernel} {zs : List Zone} {z : Zone} {m : Memory} {address n : Nat}

/-- The address is that of a page of the zone. -/
structure Zone.Contains (z : Zone) (address : Nat) : Prop where
  low : z.base ≤ address
  high : address < z.base + 0x1000 * z.pageCount

theorem visitFreePages_none_iff (hholds : z.Holds m) (hbound : z.base + z.length < 2 ^ 64) :
    (visitFreePages address n z.address m).1 = none ↔ z.base + z.length < address := by
  unfold visitFreePages
  simp only
  rw [hholds.base, hholds.length, Nat.mod_eq_of_lt hbound]
  by_cases hover : address > z.base + z.length
  · rw [if_pos hover]
    exact iff_of_true rfl hover
  · rw [if_neg hover]
    exact iff_of_false (by simp) hover

/-- A release in a zone that is not passed over. -/
theorem visitFreePagesUses_lt_iff (hholds : z.Holds m) (hbound : z.base + z.length < 2 ^ 64)
    (hlow : z.base ≤ address) (hhigh : address ≤ z.base + z.length) (hn : 0 < n) :
    (∀ x ∈ visitFreePagesUses address n z.address m, x < z.pageCount) ↔
      (address - z.base) / 0x1000 + n ≤ z.pageCount := by
  have hindex : pageIndexOf address z.base = (address - z.base) / 0x1000 := by
    unfold pageIndexOf
    congr 1
    omega
  unfold visitFreePagesUses
  simp only
  rw [hholds.base, hholds.length, Nat.mod_eq_of_lt hbound, if_neg (by omega), hindex]
  constructor
  · intro hall
    have hlast := hall _ (List.mem_map_of_mem (List.mem_range.mpr (show n - 1 < n by omega)))
    omega
  · intro hle x hx
    obtain ⟨j, hj, rfl⟩ := List.mem_map.mp hx
    have hlt := List.mem_range.mp hj
    omega

theorem visitFreePageUses_eq (page : Nat) : visitFreePageUses page = visitFreePagesUses page 1 := by
  funext zone m
  unfold visitFreePageUses visitFreePagesUses
  simp [List.range_succ]

/-- The release of pages of a zone stays in bounds if no zone ends at the address. -/
theorem freeUses_iff (h : k.Lists zs) (harr : Arranged zs) (hz : z ∈ zs)
    (hcontains : z.Contains address) (hn : 0 < n)
    (hinside : (address - z.base) / 0x1000 + n ≤ z.pageCount) :
    (∀ (front : List Zone) (z' : Zone) (back : List Zone), zs = front ++ z' :: back →
      (∀ z1 ∈ front, (visitFreePages address n z1.address k.memory).1 = none) →
      ∀ x ∈ visitFreePagesUses address n z'.address k.memory, x < z'.pageCount) ↔
      ∀ z' ∈ zs, z'.base + z'.length ≠ address := by
  have hlow := hcontains.low
  have hhigh := hcontains.high
  have hpages := harr.pages z hz
  have hnone : ∀ z' ∈ zs, (visitFreePages address n z'.address k.memory).1 = none ↔
      z'.base + z'.length < address :=
    fun z' hz' => visitFreePages_none_iff (h.holds z' hz') (harr.bound z' hz').1
  constructor
  · intro hin z' hz' hend
    -- the first zone that ends at the address
    have hsome : (zs.find? fun z => z.base + z.length = address).isSome :=
      List.find?_isSome.mpr ⟨z', hz', decide_eq_true hend⟩
    obtain ⟨z1, hfind⟩ := Option.isSome_iff_exists.mp hsome
    obtain ⟨hdec, front, back, hsplit, hfirst⟩ := List.find?_eq_some_iff_append.mp hfind
    have hend1 := of_decide_eq_true hdec
    have hz1 : z1 ∈ zs := by
      rw [hsplit]
      simp
    have hpages1 := harr.pages z1 hz1
    have hpass : ∀ z2 ∈ front, z2.base + z2.length < address := by
      intro z2 hz2
      have horder := harr.ordered
      rw [hsplit] at horder
      have hle := (List.pairwise_append.mp horder).2.2 z2 hz2 z1 List.mem_cons_self
      have hne : z2.base + z2.length ≠ address := by simpa using hfirst z2 hz2
      omega
    have huses := hin front z1 back hsplit fun z2 hz2 =>
      (hnone z2 (by rw [hsplit]; exact List.mem_append_left _ hz2)).mpr (hpass z2 hz2)
    have hle := (visitFreePagesUses_lt_iff (h.holds z1 hz1) (harr.bound z1 hz1).1 (by omega)
      (by omega) hn).mp huses
    omega
  · intro hends front z' back hsplit hfront
    have hz' : z' ∈ zs := by
      rw [hsplit]
      simp
    by_cases hpassed : z'.base + z'.length < address
    · -- nothing is used in a zone that is passed over
      unfold visitFreePagesUses
      simp only
      rw [(h.holds z' hz').base, (h.holds z' hz').length,
        Nat.mod_eq_of_lt (harr.bound z' hz').1, if_pos hpassed]
      exact nofun
    · have hne := hends z' hz'
      rcases pairwise_cases harr.ordered hz hz' with rfl | hafter | hbefore
      · rw [visitFreePagesUses_lt_iff (h.holds z hz) (harr.bound z hz).1 hlow (by omega) hn]
        omega
      · -- the zone of the address is in front of this one, and it has not been passed over
        have hzfront : z ∈ front := by
          have hmem := hz
          rw [hsplit, List.mem_append, List.mem_cons] at hmem
          rcases hmem with hmem | rfl | hmem
          · exact hmem
          · omega
          · have horder := harr.ordered
            rw [hsplit] at horder
            have hle := (List.pairwise_cons.mp (List.pairwise_append.mp horder).2.1).1 z hmem
            omega
        have hlt := (hnone z hz).mp (hfront z hzfront)
        omega
      · omega

end Free

/-! ## The zones of the initialisation -/

theorem tableOf_arranged {memory : MemoryMap} (hordered : memory.Ordered) (hfits : memory.Fits)
    (kernelEnd : UInt64) (output : Bool) : Arranged (tableOf memory kernelEnd output) := by
  unfold tableOf
  by_cases hplace : findPlace output (zonesMemory memory) (roundKernelEnd kernelEnd)
      memory.entries 0 = 0
  · simp only [hplace, gt_iff_lt, Nat.lt_irrefl, if_false]
    exact ⟨.nil, .nil, nofun, nofun⟩
  · have hne : memory.entries ≠ [] := fun hnil => hplace (by rw [hnil]; rfl)
    have hfit := (tableSize_le hordered hfits hne).1
    have hroom := (place_behind hordered hfits rfl hplace).room
    simp only [gt_iff_lt, Nat.pos_of_ne_zero hplace, if_true]
    exact layout_arranged hordered hfits (by omega)

section Bounds

variable {memory : MemoryMap} {k : Kernel} {zs : List Zone}

theorem allocPagesUses_inBounds_iff (h : k.Lists zs) {n : UInt32} (hn : 1 ≤ n) :
    (∃ address k', AllocPages n k address k') ∧
    ((∀ address k' log, AllocPagesUses n k address k' log → InBounds k log) ↔
      NoShortTail k.memory n.toNat zs) := by
  have hn0 : 0 < n.toNat := UInt32.le_iff_toNat_le.mp hn
  have hn64 : n.toNat < 2 ^ 64 := Nat.lt_trans n.toNat_lt (by decide)
  have hnone := fun z (hz : z ∈ zs) => visitAlloc_none (h.holds z hz) hn0 hn64
  refine ⟨⟨_, _, (allocPages_iff_walk h hnone _ _).mpr ⟨rfl, rfl⟩⟩, ?_⟩
  rw [← allocUses_iff h hn0 hn64, ← h.inBounds_iff hnone]
  constructor
  · exact fun hall result k' log hlog => hall _ k' log ⟨result, hlog, rfl⟩
  · rintro hall address k' log ⟨result, hlog, _⟩
    exact hall result k' log hlog

theorem freePagesUses_inBounds_iff (h : k.Lists zs) (harr : Arranged zs) {z : Zone} (hz : z ∈ zs)
    {address : Nat} (haligned : address % 0x1000 = 0) (hcontains : z.Contains address)
    {n : UInt32} (hn : 1 ≤ n)
    (hinside : (address - z.base) / 0x1000 + n.toNat ≤ z.pageCount) :
    (∃ k', FreePages address n k k') ∧
    ((∀ k' log, FreePagesUses address n k k' log → InBounds k log) ↔
      ∀ z' ∈ zs, z'.base + z'.length ≠ address) := by
  have hn0 : 0 < n.toNat := UInt32.le_iff_toNat_le.mp hn
  have hmask : address &&& 0xFFF = 0 := (Nat.and_two_pow_sub_one_eq_mod address 12).trans haligned
  refine ⟨⟨_, (freePages_iff_walk h haligned).mpr rfl⟩, ?_⟩
  rw [← freeUses_iff h harr hz hcontains hn0 hinside,
    ← h.inBounds_iff (fun z' _ => visitFreePages_none)]
  unfold FreePagesUses
  simp only [hmask, ne_eq, not_true_eq_false, if_false]
  constructor
  · exact fun hall result k' log hlog => hall k' log ⟨result, hlog⟩
  · rintro hall k' log ⟨result, hlog⟩
    exact hall result k' log hlog

theorem freePageUses_iff (address : Nat) (k k' : Kernel) (log : List (Nat × Nat)) :
    FreePageUses address k k' log ↔ FreePagesUses address 1 k k' log := by
  unfold FreePageUses FreePagesUses
  rw [visitFreePage_eq, visitFreePageUses_eq]
  exact Iff.rfl

end Bounds

end Xeos.Mem
