import Xeos.Boot.Proc
import Xeos.Lib.Loop

/-!
# Finding a file in the root directory

`XEOS.16.io.fat12.findFile` goes through the entries of the root directory at `ES:DI` and
compares the name of each with the one at `DS:SI`.  `pusha` and `popa` stand around the
comparison, so only its flags are left of it.

The search keeps a record of the bytes that are compared.  `findFile_spec` says that these
are bytes of the name and of the entries, and that the result is the first entry with the
name.
-/

namespace Xeos.Boot

open Lib Lib.Real

/-! ## The routine -/

/-- `@XEOS.io.fat12.mbr.maxRootDirEntries` -/
def maxRootDirEntries : Nat := 224

/-- The search, with the addresses of the bytes that it has compared. -/
structure Search where
  cpu : Cpu
  compared : List Nat

/-- The state in front of `rep cmpsb`. -/
def startCompare (c : Cpu) : Cpu := (pusha c).setWord .cx 11

/-- The comparison of the name with that of the entry at `ES:DI`, and whether they are equal. -/
def compareName (c : Cpu) : Cpu × Bool :=
  let c := startCompare c
  let compared := c.repe Cpu.cmpsb (c.word .cx)
  (popa compared.1, compared.2)

/-- The bytes that the comparison reads. -/
def comparedBytes (c : Cpu) : List Nat :=
  let c := startCompare c
  (c.repeRounds Cpu.cmpsb (c.word .cx)).flatMap
    fun t => [t.linear .ds (t.word .si), t.linear .es (t.word .di)]

/-- `.loop` of `XEOS.16.io.fat12.findFile`, with what follows it. -/
def findLoop (s : Search) : Search ⊕ Search :=
  let compared := s.compared ++ comparedBytes s.cpu
  let (c, equal) := compareName s.cpu
  if equal then
    -- `.success`
    let c := c.setWord .ax 0
    .inr ⟨c.setWord .di (c.word .di + 26), compared⟩
  else
    let c := c.setWord .di (c.word .di + 32)
    let c := c.setWord .cx (c.word .cx + 2 ^ 16 - 1)
    if c.word .cx = 0 then
      -- `.failure`
      .inr ⟨c.setWord .ax 1, compared⟩
    else .inl ⟨c, compared⟩

/-- `XEOS.16.io.fat12.findFile` comes to one of its `ret`, with the result `r`. -/
def findFile (c : Cpu) (r : Search) : Prop :=
  Returns findLoop ⟨c.setWord .cx maxRootDirEntries, []⟩ r

/-! ## The directory -/

/-- The address of the byte `j` of the name. -/
def nameByte (c : Cpu) (j : Nat) : Nat := c.linear .ds (c.word .si + j)

/-- The address of the byte `j` of the entry number `i`. -/
def entryByte (c : Cpu) (i j : Nat) : Nat := c.linear .es (c.word .di + 32 * i + j)

/-- The entry has the name. -/
def HasName (c : Cpu) (i : Nat) : Prop :=
  ∀ j, j < 11 → c.mem (nameByte c j) = c.mem (entryByte c i j)

instance (c : Cpu) (i : Nat) : Decidable (HasName c i) :=
  inferInstanceAs (Decidable (∀ j, j < 11 → _))

/-- The bytes that `pusha` takes. -/
def pushaBytes : Nat := 16

/-- The byte is not in the stack that the search uses. -/
def OffStack (c : Cpu) (a : Nat) : Prop := a + pushaBytes < c.top ∨ c.top ≤ a

/-- What the caller sees to: the direction flag is clear, and the stack has room and is apart
from the name and the directory. -/
structure FindReady (c : Cpu) : Prop where
  direction : c.flags.getLsbD 10 = false
  room : pushaBytes ≤ c.word .sp
  name : ∀ j, j < 11 → OffStack c (nameByte c j)
  directory : ∀ i j, i < maxRootDirEntries → j < 11 → OffStack c (entryByte c i j)

/-- What the search is for. -/
structure Finds (c : Cpu) (r : Search) : Prop where
  found : ∀ i, i < maxRootDirEntries → HasName c i → (∀ k, k < i → ¬ HasName c k) →
    r.cpu.word .ax = 0 ∧ r.cpu.word .di = (c.word .di + 32 * i + 26) % 2 ^ 16
  missing : (∀ i, i < maxRootDirEntries → ¬ HasName c i) → r.cpu.word .ax = 1
  si : r.cpu.word .si = c.word .si
  sp : r.cpu.reg .sp = c.reg .sp
  seg : r.cpu.seg = c.seg
  mem : ∀ a, OffStack c a → r.cpu.mem a = c.mem a
  compared : ∀ a ∈ r.compared, (∃ j, j < 11 ∧ a = nameByte c j) ∨
    ∃ i j, i < maxRootDirEntries ∧ j < 11 ∧ a = entryByte c i j

/-! ## One comparison -/

/-- What the search keeps of the state. -/
structure Kept (c d : Cpu) : Prop where
  seg : d.seg = c.seg
  flags : d.flags = c.flags
  sp : d.reg .sp = c.reg .sp
  mem : ∀ a, OffStack c a → d.mem a = c.mem a

namespace Kept

variable {c d e : Cpu}

theorem refl (c : Cpu) : Kept c c := ⟨rfl, rfl, rfl, fun _ _ => rfl⟩

theorem top (h : Kept c d) : d.top = c.top := by
  simp only [Cpu.top, Cpu.linear, Cpu.word, h.seg, h.sp]

theorem trans (h : Kept c d) (h' : Kept d e) : Kept c e where
  seg := h'.seg.trans h.seg
  flags := h'.flags.trans h.flags
  sp := h'.sp.trans h.sp
  mem a ha := by
    rw [h'.mem a (by rw [OffStack, h.top]; exact ha), h.mem a ha]

theorem setWord {r : Reg} (h : Kept c d) (hr : r ≠ .sp) (v : Nat) : Kept c (d.setWord r v) where
  seg := h.seg
  flags := h.flags
  sp := by rw [Cpu.reg_setWord_of_ne _ _ _ _ (Ne.symm hr), h.sp]
  mem a ha := h.mem a ha

end Kept

section Compare

variable {c : Cpu}

/-- The words of `pusha`, as `popa` takes them. -/
def pushaFrame (c : Cpu) : List (Nat × Nat) := pushaSlots.reverse.map (Slot.saved c) ++ []

theorem bytes_pushaSlots (c : Cpu) : bytes (pushaSlots.map (Slot.saved c)) = pushaBytes := rfl

theorem pusha_stacked (hroom : pushaBytes ≤ c.word .sp) : Stacked c (pusha c) (pushaFrame c) := by
  have hpush : Stacked c (c.pushAll pushaSlots c) ((pushaSlots.map (Slot.saved c)).reverse ++ []) := by
    apply (Stacked.refl c).pushAll
    rw [bytes_pushaSlots, bytes_nil, Nat.add_zero]
    exact hroom
  rw [pushaFrame, List.map_reverse]
  exact hpush

theorem mem_pusha (hroom : pushaBytes ≤ c.word .sp) {a : Nat} (ha : OffStack c a) :
    (pusha c).mem a = c.mem a := by
  apply (Stacked.refl c).mem_pushAll
  · rw [bytes_pushaSlots, bytes_nil, Nat.add_zero]
    exact hroom
  · rw [bytes_pushaSlots]
    exact ha

/-- The state in front of `rep cmpsb` is that in front of the comparison but for `CX` and the
stack. -/
theorem startCompare_eq (c : Cpu) :
    (startCompare c).word .cx = 11 ∧ (startCompare c).seg = c.seg ∧
      (startCompare c).flags = c.flags ∧ (startCompare c).mem = (pusha c).mem ∧
      ∀ r, r ≠ .sp → r ≠ .cx → (startCompare c).word r = c.word r := by
  refine ⟨Cpu.word_setWord _ _ _, ?_, ?_, Cpu.mem_setWord _ _ _, fun r hsp hcx => ?_⟩
  · rw [startCompare, Cpu.seg_setWord, pusha, Cpu.seg_pushAll]
  · rw [startCompare, Cpu.flags_setWord, pusha, Cpu.flags_pushAll]
  · rw [startCompare, Cpu.word_setWord_of_ne _ _ _ _ hcx, Cpu.word, pusha,
      Cpu.reg_pushAll_of_ne _ _ _ _ hsp, Cpu.word]

/-- The comparison, for the value of `CX`: the kernel would run one of a given number of
rounds. -/
theorem compareName_eq {c : Cpu} {n : Nat} (hcx : (startCompare c).word .cx = n) :
    compareName c = (popa ((startCompare c).repe Cpu.cmpsb n).1,
      ((startCompare c).repe Cpu.cmpsb n).2) := by
  subst hcx
  rfl

/-- `popa` restores what the comparison changes. -/
theorem compareName_kept (hdf : c.flags.getLsbD 10 = false) (hroom : pushaBytes ≤ c.word .sp) :
    Kept c (compareName c).1 ∧ ∀ r, r ≠ .sp → (compareName c).1.word r = c.word r := by
  obtain ⟨-, hseg, hflags, hmem, -⟩ := startCompare_eq c
  have hdf' : (startCompare c).flags.getLsbD 10 = false := by rw [hflags, hdf]
  obtain ⟨n, hcx⟩ : ∃ n, (startCompare c).word .cx = n := ⟨_, rfl⟩
  obtain ⟨hsame, hmem', -, -⟩ := repe_cmpsb_linear (n := n) hdf'
  have hsp : ((startCompare c).repe Cpu.cmpsb n).1.reg .sp = (pusha c).reg .sp := by
    rw [hsame.reg .sp (by simp), startCompare, Cpu.reg_setWord_of_ne _ _ _ _ (by simp)]
  have hstack : Stacked c ((startCompare c).repe Cpu.cmpsb n).1 (pushaFrame c) := by
    apply (pusha_stacked hroom).keep
    · rw [hsame.seg, hseg, pusha, Cpu.seg_pushAll]
    · exact hsp
    · intro a _ _
      rw [hmem', hmem]
  have hplain : ∀ t ∈ pushaSlots.reverse, t.Plain := by decide
  rw [compareName_eq hcx]
  refine ⟨⟨?_, ?_, ?_, ?_⟩, ?_⟩
  · funext s
    have hslot : .seg s ∉ pushaSlots.reverse := by cases s <;> decide
    rw [popa, Cpu.seg_popAll_of_not_mem hslot, hsame.seg, hseg]
  · have hflags' : ((startCompare c).repe Cpu.cmpsb n).1.flags = c.flags := hsame.flags.trans hflags
    exact hstack.flags_popAll hplain (Or.inr hflags')
  · have hend := (hstack.popAll hplain).sp
    rw [bytes_nil, Nat.add_zero] at hend
    exact BitVec.eq_of_toNat_eq hend
  · intro a ha
    rw [popa, hstack.mem_popAll hplain, hmem', hmem, mem_pusha hroom ha]
  · intro r hr
    have hslot : .word r ∈ pushaSlots.reverse := by
      cases r with
      | sp => exact absurd rfl hr
      | _ => decide
    exact hstack.word_popAll hplain hr (Or.inl hslot)

theorem nameByte_startCompare (j : Nat) :
    (startCompare c).linear .ds ((startCompare c).word .si + j) = nameByte c j := by
  obtain ⟨-, hseg, -, -, hword⟩ := startCompare_eq c
  rw [Cpu.linear, hseg, hword .si (by decide) (by decide), nameByte, Cpu.linear]

theorem entryByte_startCompare (j : Nat) :
    (startCompare c).linear .es ((startCompare c).word .di + j) = entryByte c 0 j := by
  obtain ⟨-, hseg, -, -, hword⟩ := startCompare_eq c
  rw [Cpu.linear, hseg, hword .di (by decide) (by decide), entryByte, Cpu.linear]
  rfl

/-- The comparison is with the first entry at `ES:DI`. -/
theorem compareName_iff (hdf : c.flags.getLsbD 10 = false) (hroom : pushaBytes ≤ c.word .sp)
    (hname : ∀ j, j < 11 → OffStack c (nameByte c j))
    (hentry : ∀ j, j < 11 → OffStack c (entryByte c 0 j)) :
    (compareName c).2 = true ↔ HasName c 0 := by
  obtain ⟨heleven, -, hflags, hmem, -⟩ := startCompare_eq c
  have hdf' : (startCompare c).flags.getLsbD 10 = false := by rw [hflags, hdf]
  obtain ⟨n, hcx⟩ : ∃ n, (startCompare c).word .cx = n := ⟨_, rfl⟩
  obtain ⟨-, -, hiff, -⟩ := repe_cmpsb_linear (n := n) hdf'
  rw [compareName_eq hcx]
  refine hiff.trans ?_
  rw [← hcx, heleven]
  refine forall_congr' fun j => forall_congr' fun hj => ?_
  rw [nameByte_startCompare, entryByte_startCompare, hmem, mem_pusha hroom (hname j hj),
    mem_pusha hroom (hentry j hj)]

/-- The bytes that it reads. -/
theorem mem_comparedBytes (hdf : c.flags.getLsbD 10 = false) {a : Nat} (ha : a ∈ comparedBytes c) :
    ∃ j, j < 11 ∧ (a = nameByte c j ∨ a = entryByte c 0 j) := by
  obtain ⟨hcx, -, hflags, -, -⟩ := startCompare_eq c
  have hdf' : (startCompare c).flags.getLsbD 10 = false := by rw [hflags, hdf]
  obtain ⟨-, -, -, hreads⟩ := repe_cmpsb_linear (n := 11) hdf'
  rw [comparedBytes, hcx] at ha
  obtain ⟨t, ht, hmem⟩ := List.mem_flatMap.mp ha
  obtain ⟨j, hj, hds, hes⟩ := hreads t ht
  rw [hds, hes, nameByte_startCompare, entryByte_startCompare] at hmem
  simp only [List.mem_cons, List.not_mem_nil, or_false] at hmem
  exact ⟨j, hj, hmem⟩

end Compare

/-! ## The search -/

/-- The search is in front of the entry number `i`, and has not found the name before. -/
structure AtEntry (c : Cpu) (i : Nat) (s : Search) : Prop where
  kept : Kept c s.cpu
  si : s.cpu.word .si = c.word .si
  di : s.cpu.word .di = (c.word .di + 32 * i) % 2 ^ 16
  cx : s.cpu.word .cx + i = maxRootDirEntries
  bound : i < maxRootDirEntries
  missing : ∀ k, k < i → ¬ HasName c k
  compared : ∀ a ∈ s.compared, (∃ j, j < 11 ∧ a = nameByte c j) ∨
    ∃ k j, k < maxRootDirEntries ∧ j < 11 ∧ a = entryByte c k j

section Loop

variable {c : Cpu} {i : Nat} {s : Search}

theorem AtEntry.nameByte (h : AtEntry c i s) (j : Nat) :
    nameByte s.cpu j = Xeos.Boot.nameByte c j := by
  rw [Xeos.Boot.nameByte, Cpu.linear, h.kept.seg, h.si, Xeos.Boot.nameByte, Cpu.linear]

theorem AtEntry.entryByte (h : AtEntry c i s) (j : Nat) :
    entryByte s.cpu 0 j = Xeos.Boot.entryByte c i j := by
  rw [Xeos.Boot.entryByte, Cpu.linear, h.kept.seg, h.di, Xeos.Boot.entryByte, Cpu.linear]
  omega

theorem AtEntry.offStack_iff (h : AtEntry c i s) {a : Nat} : OffStack s.cpu a ↔ OffStack c a := by
  rw [OffStack, OffStack, h.kept.top]

theorem AtEntry.direction (h : AtEntry c i s) (hc : FindReady c) :
    s.cpu.flags.getLsbD 10 = false := by
  rw [h.kept.flags, hc.direction]

theorem AtEntry.room (h : AtEntry c i s) (hc : FindReady c) : pushaBytes ≤ s.cpu.word .sp := by
  rw [Cpu.word, h.kept.sp]
  exact hc.room

theorem AtEntry.start (c : Cpu) : AtEntry c 0 ⟨c.setWord .cx maxRootDirEntries, []⟩ where
  kept := (Kept.refl c).setWord (by decide) _
  si := Cpu.word_setWord_of_ne _ _ _ _ (by decide)
  di := by
    have hlt := c.word_lt .di
    have hne : Reg.di ≠ Reg.cx := nofun
    rw [Cpu.word_setWord_of_ne _ _ _ _ hne, Nat.mul_zero, Nat.add_zero, Nat.mod_eq_of_lt hlt]
  cx := Cpu.word_setWord _ _ _
  bound := by decide
  missing k hk := absurd hk (Nat.not_lt_zero k)
  compared a ha := absurd ha List.not_mem_nil

/-- What the comparison with the entry finds. -/
theorem AtEntry.compareName_iff (h : AtEntry c i s) (hc : FindReady c) :
    (compareName s.cpu).2 = true ↔ HasName c i := by
  have hname : ∀ j, j < 11 → OffStack s.cpu (Xeos.Boot.nameByte s.cpu j) := by
    intro j hj
    rw [h.offStack_iff, h.nameByte]
    exact hc.name j hj
  have hentry : ∀ j, j < 11 → OffStack s.cpu (Xeos.Boot.entryByte s.cpu 0 j) := by
    intro j hj
    rw [h.offStack_iff, h.entryByte]
    exact hc.directory i j h.bound hj
  rw [Xeos.Boot.compareName_iff (h.direction hc) (h.room hc) hname hentry]
  refine forall_congr' fun j => forall_congr' fun hj => ?_
  rw [h.nameByte, h.entryByte, h.kept.mem _ (hc.name j hj),
    h.kept.mem _ (hc.directory i j h.bound hj)]

theorem AtEntry.compared_append (h : AtEntry c i s) (hc : FindReady c) :
    ∀ a ∈ s.compared ++ comparedBytes s.cpu, (∃ j, j < 11 ∧ a = Xeos.Boot.nameByte c j) ∨
      ∃ k j, k < maxRootDirEntries ∧ j < 11 ∧ a = Xeos.Boot.entryByte c k j := by
  intro a ha
  rcases List.mem_append.mp ha with hold | hnew
  · exact h.compared a hold
  · obtain ⟨j, hj, ha⟩ := mem_comparedBytes (h.direction hc) hnew
    rw [h.nameByte, h.entryByte] at ha
    exact ha.imp (fun ha => ⟨j, hj, ha⟩) fun ha => ⟨i, j, h.bound, hj, ha⟩

/-- One round of the loop: the entry has the name, or it is the last one, or the next one
follows. -/
theorem AtEntry.step (h : AtEntry c i s) (hc : FindReady c) :
    (∃ r, findLoop s = .inr r ∧ Finds c r) ∨
      ∃ s', findLoop s = .inl s' ∧ AtEntry c (i + 1) s' ∧ s'.cpu.word .cx < s.cpu.word .cx := by
  obtain ⟨hkept, hword⟩ := compareName_kept (h.direction hc) (h.room hc)
  have hiff := h.compareName_iff hc
  have hcompared := h.compared_append hc
  have hall : Kept c (compareName s.cpu).1 := h.kept.trans hkept
  have hcx := h.cx
  unfold findLoop
  generalize compareName s.cpu = e at *
  obtain ⟨d, equal⟩ := e
  dsimp only at hkept hword hiff hall ⊢
  have hdi : d.word .di = (c.word .di + 32 * i) % 2 ^ 16 := (hword .di (by decide)).trans h.di
  have hsi : d.word .si = c.word .si := (hword .si (by decide)).trans h.si
  have hcx' : d.word .cx = s.cpu.word .cx := hword .cx (by decide)
  cases equal with
  | true =>
    left
    have hhas : HasName c i := hiff.mp rfl
    have hkept' : Kept c ((d.setWord .ax 0).setWord .di ((d.setWord .ax 0).word .di + 26)) :=
      (hall.setWord (by decide) _).setWord (by decide) _
    have hda : Reg.di ≠ Reg.ax := nofun
    have had : Reg.ax ≠ Reg.di := nofun
    have hsa : Reg.si ≠ Reg.ax := nofun
    have hsd : Reg.si ≠ Reg.di := nofun
    refine ⟨_, rfl, ⟨?_, fun hnone => absurd hhas (hnone i h.bound), ?_, hkept'.sp, hkept'.seg,
      hkept'.mem, hcompared⟩⟩
    · intro k hk hk' hfirst
      have heq : k = i := by
        rcases Nat.lt_trichotomy k i with hlt | heq | hlt
        · exact absurd hk' (h.missing k hlt)
        · exact heq
        · exact absurd hhas (hfirst i hlt)
      subst heq
      constructor
      · rw [Cpu.word_setWord_of_ne _ _ _ _ had, Cpu.word_setWord]
        exact Nat.zero_mod _
      · rw [Cpu.word_setWord, Cpu.word_setWord_of_ne _ _ _ _ hda, hdi]
        omega
    · rw [Cpu.word_setWord_of_ne _ _ _ _ hsd, Cpu.word_setWord_of_ne _ _ _ _ hsa, hsi]
  | false =>
    have hnot : ¬ HasName c i := fun hhas => absurd (hiff.mpr hhas) Bool.false_ne_true
    have hmissing : ∀ k, k < i + 1 → ¬ HasName c k := by
      intro k hk
      rcases Nat.lt_succ_iff_lt_or_eq.mp hk with hlt | rfl
      · exact h.missing k hlt
      · exact hnot
    obtain ⟨d', hd'⟩ : ∃ d', d' = d.setWord .di (d.word .di + 32) := ⟨_, rfl⟩
    have hcd : Reg.cx ≠ Reg.di := nofun
    have hdc : Reg.di ≠ Reg.cx := nofun
    have hsd : Reg.si ≠ Reg.di := nofun
    have hsc : Reg.si ≠ Reg.cx := nofun
    have hsa : Reg.si ≠ Reg.ax := nofun
    have hbound := h.bound
    have hnext : (d'.setWord .cx (d'.word .cx + 2 ^ 16 - 1)).word .cx + (i + 1)
        = maxRootDirEntries := by
      have hsmall : maxRootDirEntries = 224 := rfl
      rw [Cpu.word_setWord, hd', Cpu.word_setWord_of_ne _ _ _ _ hcd, hcx']
      omega
    have hkept' : Kept c (d'.setWord .cx (d'.word .cx + 2 ^ 16 - 1)) := by
      rw [hd']
      exact (hall.setWord (by decide) _).setWord (by decide) _
    have hsi' : (d'.setWord .cx (d'.word .cx + 2 ^ 16 - 1)).word .si = c.word .si := by
      rw [Cpu.word_setWord_of_ne _ _ _ _ hsc, hd', Cpu.word_setWord_of_ne _ _ _ _ hsd, hsi]
    have hdi' : (d'.setWord .cx (d'.word .cx + 2 ^ 16 - 1)).word .di
        = (c.word .di + 32 * (i + 1)) % 2 ^ 16 := by
      rw [Cpu.word_setWord_of_ne _ _ _ _ hdc, hd', Cpu.word_setWord, hdi]
      omega
    rw [if_neg Bool.false_ne_true, ← hd']
    generalize d'.setWord .cx (d'.word .cx + 2 ^ 16 - 1) = e at *
    by_cases hlast : e.word .cx = 0
    · left
      have hend : Kept c (e.setWord .ax 1) := hkept'.setWord (by decide) _
      rw [if_pos hlast]
      refine ⟨_, rfl, ⟨?_, fun _ => Cpu.word_setWord _ _ _, ?_, hend.sp, hend.seg, hend.mem,
        hcompared⟩⟩
      · intro k hk hhas _
        exact absurd hhas (hmissing k (by omega))
      · rw [Cpu.word_setWord_of_ne _ _ _ _ hsa, hsi']
    · right
      rw [if_neg hlast]
      have hlt : e.word .cx < s.cpu.word .cx := by omega
      exact ⟨_, rfl, ⟨hkept', hsi', hdi', hnext, by omega, hmissing, hcompared⟩, hlt⟩

end Loop

/-- `XEOS.16.io.fat12.findFile` ends, and finds the first entry that has the name. -/
theorem findFile_spec {c : Cpu} (h : FindReady c) : ∃ r, findFile c r ∧ Finds c r := by
  refine returns_of_variant (fun s => ∃ i, AtEntry c i s) (fun s => s.cpu.word .cx) (Finds c) ?_
    ⟨0, AtEntry.start c⟩
  rintro s ⟨i, hi⟩
  rcases hi.step h with hend | ⟨s', hs', hnext, hlt⟩
  · exact Or.inl hend
  · exact Or.inr ⟨s', hs', ⟨i + 1, hnext⟩, hlt⟩

/-- A stack apart from the name and the directory. -/
theorem findFile_zeros : ∃ c, FindReady c ∧ ∃ r, findFile c r ∧ Finds c r := by
  obtain ⟨c, hc⟩ : ∃ c : Cpu, c = ⟨Function.update (fun _ => 0) .sp 0x1000,
    Function.update (fun _ => 0) .ss 0x8000, 0, fun _ => 0, fun _ => 0⟩ := ⟨_, rfl⟩
  have hlow : ∀ s off, s ≠ .ss → OffStack c (c.linear s off) := by
    intro s off hs
    have hseg : (c.seg s).toNat = 0 := by
      simp [hc, Function.update_of_ne hs]
    have htop : c.top = 0x81000 := by rw [hc]; rfl
    have hlt := Nat.mod_lt off (show 0 < 2 ^ 16 by omega)
    left
    rw [Cpu.linear, hseg, htop, pushaBytes]
    omega
  have hready : FindReady c := by
    refine ⟨?_, ?_, fun j _ => hlow .ds _ (by decide), fun i j _ _ => hlow .es _ (by decide)⟩
    · rw [hc]
      rfl
    · rw [hc]
      decide
  exact ⟨c, hready, findFile_spec hready⟩

end Xeos.Boot
