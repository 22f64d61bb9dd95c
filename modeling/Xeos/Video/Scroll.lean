import Xeos.Video.Console

/-!
# What a scroll does to the screen

`ScrollSpec c c' n` is the purpose of `XEOS_Video_Scroll(n)`: the sticky rows
stay, every other row moves up by `n`, the rows that nothing moves into are
blank, and no access leaves the screen.

The copy loop and the last blanking loop of the source have bounds computed from
`n` alone, while their base pointer is moved down by the sticky lines.  So the
loops run over `videoRows` rows below the sticky ones, and the last sticky-many
of these are off the screen.  `scroll_touches_past_screen` is that defect, and
`scroll_spec_iff` says that nothing else goes wrong.
-/

namespace Xeos.Video

open Lib

/-- The address of byte `k` of row `r` of the screen. -/
def rowByte (r k : Nat) : Nat := videoMem + r * (videoCols * 2) + k

/-- The byte that a blank row has at offset `k`. -/
def blankByte (attr : UInt8) (k : Nat) : UInt8 := if k % 2 = 0 then 0x20 else attr

/-- The address lies on the screen. -/
def OnScreen (a : Nat) : Prop := videoMem ≤ a ∧ a < videoMem + videoRows * (videoCols * 2)

/-- What `XEOS_Video_Scroll(n)` is for.  `c` is the console before the call and
`c'` the console after it; `c'.accesses` holds the accesses of the call. -/
structure ScrollSpec (c c' : Console) (n : Nat) : Prop where
  /-- The sticky rows stay. -/
  sticky : ∀ r k, r < c.stickyLines → k < videoCols * 2 →
    c'.mem (rowByte r k) = c.mem (rowByte r k)
  /-- Row `r + n` moves to row `r`. -/
  moved : ∀ r k, c.stickyLines ≤ r → r + n < videoRows → k < videoCols * 2 →
    c'.mem (rowByte r k) = c.mem (rowByte (r + n) k)
  /-- Every other row below the sticky ones is blank. -/
  blank : ∀ r k, c.stickyLines ≤ r → r < videoRows → videoRows ≤ r + n →
    k < videoCols * 2 → c'.mem (rowByte r k) = blankByte c.videoAttribute k
  /-- The call neither reads nor writes past the last row. -/
  onScreen : ∀ a, a ∈ c'.accesses → OnScreen a

/-! ## The blanking loops -/

@[simp]
theorem write_mem (c : Console) (a : Nat) (v : UInt8) : (c.write a v).mem = c.mem.set a v := rfl

@[simp]
theorem write_accesses (c : Console) (a : Nat) (v : UInt8) :
    (c.write a v).accesses = a :: c.accesses := rfl

@[simp]
theorem write_videoAttribute (c : Console) (a : Nat) (v : UInt8) :
    (c.write a v).videoAttribute = c.videoAttribute := rfl

@[simp]
theorem moveCursor_mem (c : Console) (x y : Nat) : (moveCursor c x y).mem = c.mem := rfl

@[simp]
theorem moveCursor_accesses (c : Console) (x y : Nat) :
    (moveCursor c x y).accesses = c.accesses := rfl

@[simp]
theorem untraced_mem (c : Console) : c.untraced.mem = c.mem := rfl

@[simp]
theorem untraced_stickyLines (c : Console) : c.untraced.stickyLines = c.stickyLines := rfl

@[simp]
theorem untraced_videoAttribute (c : Console) :
    c.untraced.videoAttribute = c.videoAttribute := rfl

theorem not_mem_untraced_accesses (c : Console) (a : Nat) : a ∉ c.untraced.accesses :=
  List.not_mem_nil

/-- The memory `m` with `n` blank cells from `base`. -/
def blanked (m : Memory) (attr : UInt8) (base n : Nat) : Memory :=
  fun b => if base ≤ b ∧ b < base + 2 * n then blankByte attr (b - base) else m b

theorem blanked_of_mem (m : Memory) (attr : UInt8) {base n b : Nat}
    (h : base ≤ b ∧ b < base + 2 * n) : blanked m attr base n b = blankByte attr (b - base) := by
  simp [blanked, h]

theorem blanked_of_not_mem (m : Memory) (attr : UInt8) {base n b : Nat}
    (h : b < base ∨ base + 2 * n ≤ b) : blanked m attr base n b = m b := by
  have hb : ¬(base ≤ b ∧ b < base + 2 * n) := by omega
  simp [blanked, hb]

/-- One more blank cell. -/
theorem blanked_succ (m : Memory) (attr : UInt8) (base n : Nat) :
    ((blanked m attr base n).set (base + 2 * n) 0x20).set (base + 2 * n + 1) attr
      = blanked m attr base (n + 1) := by
  funext b
  by_cases h1 : b = base + 2 * n + 1
  · subst h1
    rw [Memory.set_same, blanked_of_mem _ _ (by omega), blankByte, if_neg (by omega)]
  · rw [Memory.set_of_ne _ _ h1]
    by_cases h0 : b = base + 2 * n
    · subst h0
      rw [Memory.set_same, blanked_of_mem _ _ (by omega), blankByte, if_pos (by omega)]
    · rw [Memory.set_of_ne _ _ h0]
      rcases Nat.lt_or_ge b base with hlt | hge
      · rw [blanked_of_not_mem _ _ (by omega), blanked_of_not_mem _ _ (by omega)]
      · rcases Nat.lt_or_ge b (base + 2 * n) with hin | hout
        · rw [blanked_of_mem _ _ (by omega), blanked_of_mem _ _ (by omega)]
        · rw [blanked_of_not_mem _ _ (by omega), blanked_of_not_mem _ _ (by omega)]

/-- A blanking loop writes its cells and touches nothing else. -/
theorem blankCells_spec (base n : Nat) (c : Console) :
    (blankCells base n c).mem = blanked c.mem c.videoAttribute base n ∧
      (∀ a, a ∈ (blankCells base n c).accesses →
        a ∈ c.accesses ∨ base ≤ a ∧ a < base + 2 * n) ∧
      (∀ a, a ∈ c.accesses → a ∈ (blankCells base n c).accesses) := by
  have hinv := forLoop_inv (fun k c => blankCell c (base + 2 * k)) n c
    (fun k t => t.videoAttribute = c.videoAttribute ∧
      t.mem = blanked c.mem c.videoAttribute base k ∧
      (∀ a, a ∈ t.accesses → a ∈ c.accesses ∨ base ≤ a ∧ a < base + 2 * k) ∧
      (∀ a, a ∈ c.accesses → a ∈ t.accesses))
  refine (hinv ⟨rfl, ?_, fun a ha => Or.inl ha, fun a ha => ha⟩ ?_).2
  · funext b
    rw [blanked_of_not_mem _ _ (by omega)]
  · rintro k t _ ⟨hattr, hmem, hacc, hkeep⟩
    refine ⟨?_, ?_, ?_, ?_⟩
    · simp [blankCell, hattr]
    · simp only [blankCell, write_mem, hmem, hattr]
      exact blanked_succ c.mem c.videoAttribute base k
    · intro a ha
      simp only [blankCell, write_accesses, List.mem_cons] at ha
      rcases ha with rfl | rfl | ha
      · right
        omega
      · right
        omega
      · rcases hacc a ha with h | h
        · exact Or.inl h
        · right
          omega
    · intro a ha
      simp only [blankCell, write_accesses, List.mem_cons]
      exact Or.inr (Or.inr (hkeep a ha))

/-! ## The copy loop -/

/-- The copy loop moves its bytes down by `videoCols * 2 * n` addresses.  The
reads run ahead of the writes, so every byte that is read is still the old one. -/
theorem copyLoop_spec (base n count : Nat) (c : Console) :
    let c' := forLoop (copyByte base n) count c
    c'.videoAttribute = c.videoAttribute ∧
      c'.mem = c.mem.copy c.mem base (base + videoCols * 2 * n) count ∧
      (∀ a, a ∈ c'.accesses →
        a ∈ c.accesses ∨ base ≤ a ∧ a < base + videoCols * 2 * n + count) ∧
      (0 < count → base + videoCols * 2 * n + (count - 1) ∈ c'.accesses) := by
  refine forLoop_inv (copyByte base n) count c (fun k t => t.videoAttribute = c.videoAttribute ∧
    t.mem = c.mem.copy c.mem base (base + videoCols * 2 * n) k ∧
    (∀ a, a ∈ t.accesses → a ∈ c.accesses ∨ base ≤ a ∧ a < base + videoCols * 2 * n + k) ∧
    (0 < k → base + videoCols * 2 * n + (k - 1) ∈ t.accesses)) ?_ ?_
  · refine ⟨rfl, ?_, fun a ha => Or.inl ha, fun h => absurd h (by omega)⟩
    rw [Memory.copy_zero]
  · rintro k t _ ⟨hattr, hmem, hacc, _⟩
    have hread : t.mem (base + (k + videoCols * 2 * n))
        = c.mem (base + videoCols * 2 * n + k) := by
      rw [hmem, Memory.copy_of_not_mem _ _ (by omega)]
      congr 1
      omega
    refine ⟨?_, ?_, ?_, ?_⟩
    · simp [copyByte, Console.read, hattr]
    · simp only [copyByte, Console.read, write_mem, hread, hmem]
      rw [Memory.set_eq_copy, Memory.copy_append]
    · intro a ha
      simp only [copyByte, Console.read, write_accesses, List.mem_cons] at ha
      rcases ha with rfl | rfl | ha
      · right
        omega
      · right
        omega
      · rcases hacc a ha with h | h
        · exact Or.inl h
        · right
          omega
    · intro _
      simp only [copyByte, Console.read, write_accesses, List.mem_cons]
      right
      left
      omega

/-! ## Clearing the screen -/

/-- `XEOS_Video_Clear` blanks the screen and touches nothing else. -/
theorem clear_spec (c : Console) :
    (clear c).mem = blanked c.mem c.videoAttribute videoMem (videoCols * videoRows) ∧
      (∀ a, a ∈ (clear c).accesses → a ∈ c.accesses ∨ OnScreen a) := by
  have hattr : c.videoAttribute.toNat < 256 := c.videoAttribute.toNat_lt
  have hvalue : (c.videoAttribute.toNat <<< 8) % 2 ^ 16 ||| 0x20
      = c.videoAttribute.toNat * 256 + 0x20 := by
    have hor : c.videoAttribute.toNat <<< 8 ||| 0x20 = c.videoAttribute.toNat * 256 + 0x20 := by
      rw [← Nat.shiftLeft_add_eq_or_of_lt (by decide : 0x20 < 2 ^ 8), Nat.shiftLeft_eq]
    rw [← hor, Nat.shiftLeft_eq, Nat.mod_eq_of_lt (by omega)]
  have hlow : UInt8.ofNat (c.videoAttribute.toNat * 256 + 0x20) = 0x20 := by
    apply UInt8.toNat_inj.mp
    rw [UInt8.toNat_ofNat']
    simp only [UInt8.reduceToNat]
    omega
  have hhigh : UInt8.ofNat ((c.videoAttribute.toNat * 256 + 0x20) >>> 8)
      = c.videoAttribute := by
    apply UInt8.toNat_inj.mp
    rw [UInt8.toNat_ofNat', Nat.shiftRight_eq_div_pow]
    omega
  have hinv := forLoop_inv
    (fun i (c' : Console) =>
      (c'.write (videoMem + 2 * i) (UInt8.ofNat (c.videoAttribute.toNat * 256 + 0x20))).write
        (videoMem + 2 * i + 1)
        (UInt8.ofNat ((c.videoAttribute.toNat * 256 + 0x20) >>> 8)))
    (videoCols * videoRows) c
    (fun k t => t.mem = blanked c.mem c.videoAttribute videoMem k ∧
      (∀ a, a ∈ t.accesses → a ∈ c.accesses ∨ videoMem ≤ a ∧ a < videoMem + 2 * k))
    (by
      refine ⟨?_, fun a ha => Or.inl ha⟩
      funext b
      rw [blanked_of_not_mem _ _ (by omega)])
    (by
      rintro k t _ ⟨hmem, hacc⟩
      refine ⟨?_, ?_⟩
      · simp only [write_mem, hmem, hlow, hhigh]
        exact blanked_succ c.mem c.videoAttribute videoMem k
      · intro a ha
        simp only [write_accesses, List.mem_cons] at ha
        rcases ha with rfl | rfl | ha
        · right
          omega
        · right
          omega
        · rcases hacc a ha with h | h
          · exact Or.inl h
          · right
            omega)
  have hscreen : ∀ a, videoMem ≤ a ∧ a < videoMem + 2 * (videoCols * videoRows) → OnScreen a := by
    intro a ha
    simp only [OnScreen, videoCols, videoRows] at ha ⊢
    omega
  simp only [clear, hvalue]
  split
  · refine ⟨?_, ?_⟩
    · rw [moveCursor_mem]
      exact hinv.1
    · intro a ha
      rw [moveCursor_accesses] at ha
      exact (hinv.2 a ha).imp id (hscreen a)
  · exact ⟨hinv.1, fun a ha => (hinv.2 a ha).imp id (hscreen a)⟩

/-! ## The scroll -/

/-- The defect.  With a sticky line, a scroll by less than the screen reads the
row `videoRows - 1` rows below the sticky ones, which is off the screen. -/
theorem scroll_touches_past_screen (c : Console) (n : Nat) (hs : 0 < c.stickyLines)
    (hn : n < videoRows) : ∃ a, a ∈ (scroll c n).accesses ∧ ¬ OnScreen a := by
  have hcount : 0 < videoCols * (videoRows - n) * 2 := by
    simp only [videoCols, videoRows] at hn ⊢
    omega
  have hlast := (copyLoop_spec (videoMem + c.stickyLines * videoCols * 2) n
    (videoCols * (videoRows - n) * 2) c).2.2.2 hcount
  refine ⟨videoMem + c.stickyLines * videoCols * 2 + videoCols * 2 * n
    + (videoCols * (videoRows - n) * 2 - 1), ?_, ?_⟩
  · rw [scroll, if_neg (by omega)]
    exact (blankCells_spec _ _ _).2.2 _ hlast
  · simp only [OnScreen, videoCols, videoRows] at hn ⊢
    omega

/-- Blanking every row from the sticky ones down is the scroll by a whole screen. -/
theorem blankRows_spec (c c' : Console) (n : Nat) (hn : videoRows ≤ n)
    (hs : c.stickyLines < videoRows)
    (hmem : c'.mem = blanked c.mem c.videoAttribute (videoMem + c.stickyLines * videoCols * 2)
      (videoCols * videoRows - c.stickyLines * videoCols))
    (hacc : ∀ a, a ∈ c'.accesses → OnScreen a) : ScrollSpec c c' n := by
  refine ⟨?_, ?_, ?_, hacc⟩
  · intro r k hr hk
    rw [hmem, blanked_of_not_mem]
    simp only [rowByte, videoCols] at hk ⊢
    omega
  · intro r k _ hr _
    omega
  · intro r k hr hrows _ hk
    have hin : videoMem + c.stickyLines * videoCols * 2 ≤ rowByte r k ∧
        rowByte r k < videoMem + c.stickyLines * videoCols * 2
          + 2 * (videoCols * videoRows - c.stickyLines * videoCols) := by
      simp only [rowByte, videoCols, videoRows] at hs hk hrows ⊢
      omega
    have hparity : (rowByte r k - (videoMem + c.stickyLines * videoCols * 2)) % 2 = k % 2 := by
      simp only [rowByte, videoCols] at hin ⊢
      omega
    rw [hmem, blanked_of_mem _ _ hin, blankByte, hparity, blankByte]

/-- A scroll by less than the screen does its work when no line is sticky. -/
theorem scroll_spec_of_no_sticky (c : Console) (n : Nat) (hs : c.stickyLines = 0)
    (hn : n < videoRows) : ScrollSpec c (scroll c.untraced n) n := by
  obtain ⟨hattr, hcmem, hcacc, _⟩ := copyLoop_spec videoMem n
    (videoCols * (videoRows - n) * 2) c.untraced
  obtain ⟨hbmem, hbacc, _⟩ := blankCells_spec (videoMem + videoCols * (videoRows - n) * 2)
    (videoCols * n) (forLoop (copyByte videoMem n) (videoCols * (videoRows - n) * 2) c.untraced)
  have hscroll : scroll c.untraced n = blankCells (videoMem + videoCols * (videoRows - n) * 2)
      (videoCols * n)
      (forLoop (copyByte videoMem n) (videoCols * (videoRows - n) * 2) c.untraced) := by
    rw [scroll, if_neg (by omega)]
    simp only [untraced_stickyLines, hs, Nat.zero_mul, Nat.add_zero]
  refine ⟨?_, ?_, ?_, ?_⟩
  · intro r k hr _
    omega
  · intro r k _ hr hk
    have hsrc : videoMem + videoCols * 2 * n + (rowByte r k - videoMem) = rowByte (r + n) k := by
      simp only [rowByte, videoCols]
      omega
    rw [hscroll, hbmem, blanked_of_not_mem, hcmem, Memory.copy_of_mem, hsrc, untraced_mem]
    · simp only [rowByte, videoCols, videoRows] at hr hk ⊢
      omega
    · simp only [rowByte, videoCols, videoRows] at hr hk ⊢
      omega
  · intro r k _ hrows hrn hk
    have hparity : (rowByte r k - (videoMem + videoCols * (videoRows - n) * 2)) % 2 = k % 2 := by
      simp only [rowByte, videoCols, videoRows] at hrn ⊢
      omega
    rw [hscroll, hbmem, blanked_of_mem, hattr, blankByte, hparity, untraced_videoAttribute,
      blankByte]
    · simp only [rowByte, videoCols, videoRows] at hrows hrn hk ⊢
      omega
  · intro a ha
    rw [hscroll] at ha
    simp only [OnScreen, videoCols, videoRows] at hn hbacc hcacc ⊢
    rcases hbacc a ha with h | h
    · rcases hcacc a h with h' | h'
      · exact absurd h' (not_mem_untraced_accesses c a)
      · omega
    · omega

/-- A scroll by at least the screen blanks everything below the sticky lines. -/
theorem scroll_spec_of_whole_screen (c : Console) (n : Nat) (hs : c.stickyLines < videoRows)
    (hn : videoRows ≤ n) : ScrollSpec c (scroll c.untraced n) n := by
  by_cases h0 : c.stickyLines = 0
  · have hscroll : scroll c.untraced n = clear c.untraced := by
      rw [scroll, if_pos hn, untraced_stickyLines, if_pos h0]
    refine blankRows_spec c _ n hn hs ?_ ?_
    · rw [hscroll, (clear_spec c.untraced).1, h0]
      rfl
    · intro a ha
      rw [hscroll] at ha
      rcases (clear_spec c.untraced).2 a ha with h | h
      · exact absurd h (not_mem_untraced_accesses c a)
      · exact h
  · have hscroll : scroll c.untraced n = moveCursor
        (blankCells (videoMem + c.stickyLines * videoCols * 2)
          (videoCols * videoRows - c.stickyLines * videoCols) c.untraced) 0
        (blankCells (videoMem + c.stickyLines * videoCols * 2)
          (videoCols * videoRows - c.stickyLines * videoCols) c.untraced).stickyLines := by
      rw [scroll, if_pos hn, untraced_stickyLines, if_neg h0]
    obtain ⟨hbmem, hbacc, _⟩ := blankCells_spec (videoMem + c.stickyLines * videoCols * 2)
      (videoCols * videoRows - c.stickyLines * videoCols) c.untraced
    refine blankRows_spec c _ n hn hs ?_ ?_
    · rw [hscroll, moveCursor_mem, hbmem]
      rfl
    · intro a ha
      rw [hscroll, moveCursor_accesses] at ha
      rcases hbacc a ha with h | h
      · exact absurd h (not_mem_untraced_accesses c a)
      · simp only [OnScreen, videoCols, videoRows] at hs h ⊢
        omega

/-- `XEOS_Video_Scroll(n)` does its work exactly when no line is sticky or the
scroll covers the whole screen. -/
theorem scroll_spec_iff (c : Console) (n : Nat) (hs : c.stickyLines < videoRows) :
    ScrollSpec c (scroll c.untraced n) n ↔ c.stickyLines = 0 ∨ videoRows ≤ n := by
  constructor
  · intro h
    by_contra hno
    obtain ⟨hs0, hn⟩ := not_or.mp hno
    obtain ⟨a, ha, hoff⟩ := scroll_touches_past_screen c.untraced n
      (Nat.pos_of_ne_zero hs0) (Nat.lt_of_not_le hn)
    exact hoff (h.onScreen a ha)
  · rintro (h0 | hn)
    · rcases Nat.lt_or_ge n videoRows with hlt | hge
      · exact scroll_spec_of_no_sticky c n h0 hlt
      · exact scroll_spec_of_whole_screen c n hs hge
    · exact scroll_spec_of_whole_screen c n hs hn

/-- The console `XEOS_Main` has after it printed the header: one sticky line,
white on black. -/
def headerConsole : Console where
  mem := fun _ => 0x20
  videoAttribute := 0x0F
  x := 0
  y := 1
  stickyLines := 1
  ports := []
  accesses := []

theorem scroll_spec_iff_header :
    ScrollSpec headerConsole (scroll headerConsole.untraced 25) 25 :=
  (scroll_spec_iff headerConsole 25 (by decide)).mpr (Or.inr (by decide))

/-- Below the header, a scroll by one line leaves the screen. -/
theorem not_scroll_spec_header :
    ¬ ∀ (c : Console) (n : Nat), c.stickyLines < videoRows →
      ScrollSpec c (scroll c.untraced n) n := by
  intro h
  obtain ⟨a, ha, hoff⟩ := scroll_touches_past_screen headerConsole.untraced 1
    (by decide) (by decide)
  exact hoff ((h headerConsole 1 (by decide)).onScreen a ha)

end Xeos.Video
