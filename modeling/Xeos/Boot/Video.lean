import Xeos.Lib.Loop
import Xeos.Lib.Memory

/-!
# The console of the boot loader

`XEOS.32.video.print` and `XEOS.64.video.print` with what they call.  The two files differ in
the width of the registers only.  The screen is a part of the memory, and the position of the
cursor and the attribute are variables of one byte.

A character after the last column and a row below the last one are not put right before the
next byte of the string is read.  `available` is that part of the loop, and it is in front of
the terminating zero too, so the position is inside the screen whenever a call returns:
`print_shows`.
-/

namespace Xeos.Boot.Video

open Lib

/-! ## The code -/

/-- Protected mode and long mode. -/
inductive Mode
  | mode32 | mode64

def Mode.bits : Mode → Nat
  | .mode32 => 32
  | .mode64 => 64

/-- `@XEOS.32.video.memory` -/
def videoMemory : Nat := 0xB8000

def screenCols : Nat := 80
def screenRows : Nat := 25

/-- The memory and the variables, with the registers of the CRT controller.  `writes` are the
addresses of the words that were written through `EDI`. -/
structure Console where
  mem : Memory
  cursorX : Nat
  cursorY : Nat
  attr : UInt8
  /-- The register that the controller has selected. -/
  index : Nat
  crt : Nat → Nat
  writes : List Nat

/-- `mov [ edi ], WORD ax` -/
def Console.write (c : Console) (edi ax : Nat) : Console :=
  { c with mem := c.mem.store edi 2 ax, writes := edi :: c.writes }

/-- `out dx, al`.  The source calls the port of the index `registers.data` and the one of the
data `registers.index`. -/
def Console.out (c : Console) (dx al : Nat) : Console :=
  if dx = 0x03D4 then { c with index := al }
  else if dx = 0x03D5 then { c with crt := fun r => if r = c.index then al else c.crt r }
  else c

section Code

variable (m : Mode)

/-- `@XEOS.32.video._currentPosition` -/
def currentPosition (c : Console) : Nat :=
  let ecx := screenCols * 2
  let eax := c.cursorY
  let eax := eax * ecx % 2 ^ m.bits
  let saved := eax
  let eax := eax / 2 ^ 8 * 2 ^ 8 + c.cursorX
  -- `mul cl` writes `AX` only
  let eax := eax / 2 ^ 16 * 2 ^ 16 + eax % 2 ^ 8 * 0x02
  let eax := (eax + saved) % 2 ^ m.bits
  (videoMemory + eax) % 2 ^ m.bits

/-- `XEOS.32.video.cursor.move` -/
def cursorMove (bh bl : Nat) (c : Console) : Console :=
  let c := { c with cursorX := bh, cursorY := bl }
  let eax := bl * screenCols % 2 ^ m.bits
  -- `add al, bh` does not carry into `AH`
  let eax := eax / 2 ^ 8 * 2 ^ 8 + (eax % 2 ^ 8 + bh) % 2 ^ 8
  let ebx := eax
  let c := c.out 0x03D4 0x000E
  let c := c.out 0x03D5 (ebx / 2 ^ 8 % 2 ^ 8)
  let c := c.out 0x03D4 0x000F
  c.out 0x03D5 (ebx % 2 ^ 8)

/-- `XEOS.32.video.cursor.update` -/
def cursorUpdate (c : Console) : Console := cursorMove m c.cursorX c.cursorY c

/-- `.scroll`: one character moves a row up. -/
def scrollChar (s : Nat × Console) : Nat × Console :=
  let (edi, c) := s
  let ax := c.mem.load ((edi + screenCols * 2) % 2 ^ m.bits) 2
  ((edi + 2) % 2 ^ m.bits, c.write edi ax)

/-- `.clear`: a space with the attribute. -/
def clearChar (s : Nat × Console) : Nat × Console :=
  let (edi, c) := s
  ((edi + 2) % 2 ^ m.bits, c.write edi (c.attr.toNat * 2 ^ 8 + 0x20))

/-- `XEOS.32.video.scroll` -/
def scroll (c : Console) : Console :=
  let ecx := (screenRows - 1) * screenCols % 2 ^ m.bits
  let s := forLoop (fun _ => scrollChar m) ecx (videoMemory, c)
  let (_, c) := forLoop (fun _ => clearChar m) screenCols s
  let c := { c with cursorY := (c.cursorY + 2 ^ 8 - 1) % 2 ^ 8 }
  cursorUpdate m c

/-- `XEOS.32.video.print` from `.repeat` to `.rowAvailable` -/
def available (c : Console) : Console :=
  let c := if c.cursorX = screenCols then
    { c with cursorY := (c.cursorY + 1) % 2 ^ 8, cursorX := 0 } else c
  if c.cursorY = screenRows then scroll m c else c

/-- One byte of the string at `ESI`.  `lodsb` goes upwards. -/
def printByte (s : Nat × Console) : (Nat × Console) ⊕ Console :=
  let (esi, c) := s
  let c := available m c
  let edi := currentPosition m c
  let al := c.mem esi
  let esi := (esi + 1) % 2 ^ m.bits
  if al = 0 then .inr (cursorUpdate m c)
  else if al = 10 then .inl (esi, { c with cursorY := (c.cursorY + 1) % 2 ^ 8 })
  else if al = 13 then .inl (esi, { c with cursorX := 0 })
  else
    let c := c.write edi (c.attr.toNat * 2 ^ 8 + al.toNat)
    .inl (esi, { c with cursorX := (c.cursorX + 1) % 2 ^ 8 })

end Code

/-! ## The screen -/

/-- What a reader sees, row by row: a character with its attribute in each cell, and the place
of the next one. -/
structure Screen where
  cell : Nat → Nat → UInt8 × UInt8
  x : Nat
  y : Nat

namespace Screen

variable (attr : UInt8)

/-- One row down.  Below the last row the screen scrolls up by one line. -/
def down (s : Screen) : Screen :=
  if s.y + 1 < screenRows then { s with y := s.y + 1 }
  else { s with
    cell := fun r k => if r + 1 < screenRows then s.cell (r + 1) k else (0x20, attr) }

/-- A character at the place of the cursor, which goes on to the next row after the last
column. -/
def put (ch : UInt8) (s : Screen) : Screen :=
  let s := { s with cell := fun r k => if r = s.y ∧ k = s.x then (ch, attr) else s.cell r k }
  if s.x + 1 < screenCols then { s with x := s.x + 1 } else down attr { s with x := 0 }

/-- One byte of a text. -/
def writeByte (s : Screen) (ch : UInt8) : Screen :=
  if ch = 10 then down attr s else if ch = 13 then { s with x := 0 } else put attr ch s

def writeText (text : List UInt8) (s : Screen) : Screen := text.foldl (writeByte attr) s

end Screen

/-- The address of a cell. -/
def cellAddress (r k : Nat) : Nat := videoMemory + r * (screenCols * 2) + k * 2

/-- The bytes of the screen. -/
def OnScreen (a : Nat) : Prop := videoMemory ≤ a ∧ a < cellAddress screenRows 0

instance (a : Nat) : Decidable (OnScreen a) := inferInstanceAs (Decidable (_ ∧ _))

/-- The addresses of the cells. -/
def IsCell (a : Nat) : Prop := ∃ r k, r < screenRows ∧ k < screenCols ∧ a = cellAddress r k

/-- The memory and the cursor of the console are those of the screen, and the cursor is inside
it. -/
structure Shows (c : Console) (s : Screen) : Prop where
  x : c.cursorX = s.x
  y : c.cursorY = s.y
  x_lt : s.x < screenCols
  y_lt : s.y < screenRows
  char : ∀ r k, r < screenRows → k < screenCols → c.mem (cellAddress r k) = (s.cell r k).1
  color : ∀ r k, r < screenRows → k < screenCols → c.mem (cellAddress r k + 1) = (s.cell r k).2

/-- The screen of a console. -/
def screenOf (c : Console) : Screen where
  cell r k := (c.mem (cellAddress r k), c.mem (cellAddress r k + 1))
  x := c.cursorX
  y := c.cursorY

theorem shows_screenOf {c : Console} (hx : c.cursorX < screenCols) (hy : c.cursorY < screenRows) :
    Shows c (screenOf c) :=
  ⟨rfl, rfl, hx, hy, fun _ _ _ _ => rfl, fun _ _ _ _ => rfl⟩

/-- What a part of the code leaves alone: the attribute and the memory outside of the screen.
The words that it writes are cells. -/
structure Keeps (c c' : Console) : Prop where
  attr : c'.attr = c.attr
  mem : ∀ a, ¬ OnScreen a → c'.mem a = c.mem a
  writes : ∀ a, a ∈ c'.writes → a ∈ c.writes ∨ IsCell a

namespace Keeps

variable {c c' c'' : Console}

theorem refl (c : Console) : Keeps c c := ⟨rfl, fun _ _ => rfl, fun _ ha => Or.inl ha⟩

theorem trans (h : Keeps c c') (h' : Keeps c' c'') : Keeps c c'' where
  attr := h'.attr.trans h.attr
  mem a ha := (h'.mem a ha).trans (h.mem a ha)
  writes a ha := (h'.writes a ha).elim (h.writes a) Or.inr

/-- Code that writes the variables and the ports only. -/
theorem of_eq (hattr : c'.attr = c.attr) (hmem : c'.mem = c.mem) (hwrites : c'.writes = c.writes) :
    Keeps c c' :=
  ⟨hattr, fun a _ => by rw [hmem], fun a ha => Or.inl (hwrites ▸ ha)⟩

end Keeps

/-! ## One cell -/

theorem cellAddress_lt {r k : Nat} (hr : r < screenRows) (hk : k < screenCols) :
    cellAddress r k + 2 ≤ cellAddress screenRows 0 := by
  simp only [cellAddress, screenRows, screenCols] at *
  omega

/-- Two cells are the same or apart. -/
theorem cellAddress_inj {r r' k k' : Nat} (hk : k < screenCols) (hk' : k' < screenCols) {i j : Nat}
    (hi : i < 2) (hj : j < 2) (h : cellAddress r k + i = cellAddress r' k' + j) :
    r = r' ∧ k = k' ∧ i = j := by
  simp only [cellAddress, screenCols] at *
  omega

/-- Writing a cell. -/
theorem Keeps.write {c : Console} {r k : Nat} (hr : r < screenRows) (hk : k < screenCols)
    (ax : Nat) : Keeps c (c.write (cellAddress r k) ax) := by
  have hlt := cellAddress_lt hr hk
  refine ⟨rfl, ?_, ?_⟩
  · intro a ha
    apply Memory.store_of_not_mem
    simp only [OnScreen, cellAddress] at ha hlt ⊢
    omega
  · intro a ha
    rcases List.mem_cons.mp ha with rfl | hmem
    · exact Or.inr ⟨r, k, hr, hk, rfl⟩
    · exact Or.inl hmem

/-- The bytes of a word that was written. -/
theorem store_bytes (m : Memory) (a : Nat) (high low : UInt8) :
    m.store a 2 (high.toNat * 2 ^ 8 + low.toNat) a = low
      ∧ m.store a 2 (high.toNat * 2 ^ 8 + low.toNat) (a + 1) = high := by
  have hlow := low.toNat_lt
  have hhigh := high.toNat_lt
  constructor
  · rw [Memory.store, if_pos (by omega), Nat.sub_self]
    apply UInt8.toNat_inj.mp
    rw [UInt8.toNat_ofNat']
    omega
  · rw [Memory.store, if_pos (by omega), Nat.add_sub_cancel_left, Nat.pow_one]
    apply UInt8.toNat_inj.mp
    rw [UInt8.toNat_ofNat']
    omega

theorem write_mem_of_not_mem {c : Console} {a b ax : Nat} (h : b < a ∨ a + 2 ≤ b) :
    (c.write a ax).mem b = c.mem b :=
  Memory.store_of_not_mem _ _ h

section Code

variable {m : Mode} {c c' : Console} {s : Screen}

theorem Mode.pow_bits (m : Mode) : 2 ^ 32 ≤ 2 ^ m.bits := by
  cases m <;> decide

/-- The pointer into the video memory. -/
theorem currentPosition_eq (m : Mode) (hx : c.cursorX < screenCols) (hy : c.cursorY < screenRows) :
    currentPosition m c = cellAddress c.cursorY c.cursorX := by
  have hbits := m.pow_bits
  rw [screenCols] at hx
  rw [screenRows] at hy
  have hrow : c.cursorY * (80 * 2) % 2 ^ m.bits = c.cursorY * 160 := Nat.mod_eq_of_lt (by omega)
  have hcol : c.cursorY * 160 / 2 ^ 8 * 2 ^ 8 + c.cursorX < 2 ^ 16 := by omega
  have hoff : (c.cursorY * 160 / 2 ^ 8 * 2 ^ 8 + c.cursorX) / 2 ^ 16 * 2 ^ 16
      + (c.cursorY * 160 / 2 ^ 8 * 2 ^ 8 + c.cursorX) % 2 ^ 8 * 2 = c.cursorX * 2 := by omega
  simp only [currentPosition, cellAddress, screenCols, videoMemory, hrow, hoff]
  rw [Nat.mod_eq_of_lt (show c.cursorX * 2 + c.cursorY * 160 < 2 ^ m.bits by omega),
    Nat.mod_eq_of_lt (by omega)]
  omega

/-! ## Scrolling -/

/-- The state of the loop that moves the characters after `n` of them. -/
structure Moved (c : Console) (n : Nat) (s : Nat × Console) : Prop where
  edi : s.1 = videoMemory + 2 * n
  keeps : Keeps c s.2
  x : s.2.cursorX = c.cursorX
  y : s.2.cursorY = c.cursorY
  before : ∀ i, i < 2 * n → s.2.mem (videoMemory + i) = c.mem (videoMemory + i + screenCols * 2)
  after : ∀ i, 2 * n ≤ i → s.2.mem (videoMemory + i) = c.mem (videoMemory + i)

theorem isCell_of_lt {n : Nat} (hn : n < screenRows * screenCols) :
    ∃ r k, r < screenRows ∧ k < screenCols ∧ videoMemory + 2 * n = cellAddress r k := by
  refine ⟨n / screenCols, n % screenCols, ?_, Nat.mod_lt _ (by decide), ?_⟩
  · rw [Nat.div_lt_iff_lt_mul (by decide)]
    exact hn
  · have hdiv := Nat.div_add_mod n screenCols
    simp only [cellAddress, screenCols] at hdiv ⊢
    omega

theorem scrollChar_moved (m : Mode) {n : Nat} {t : Nat × Console}
    (hn : n < (screenRows - 1) * screenCols) (h : Moved c n t) :
    Moved c (n + 1) (scrollChar m t) := by
  obtain ⟨edi, d⟩ := t
  obtain ⟨hedi, hkeeps, hx, hy, hbefore, hafter⟩ := h
  have hbits := m.pow_bits
  dsimp only at hedi hkeeps hx hy hbefore hafter
  subst hedi
  have hrange : n < screenRows * screenCols := Nat.lt_of_lt_of_le hn (by decide)
  obtain ⟨r, k, hr, hk, hcell⟩ := isCell_of_lt hrange
  simp only [screenRows, screenCols] at hn
  have hnext : (videoMemory + 2 * n + 2) % 2 ^ m.bits = videoMemory + 2 * (n + 1) := by
    rw [videoMemory] at *
    exact Nat.mod_eq_of_lt (by omega)
  have hfrom : (videoMemory + 2 * n + screenCols * 2) % 2 ^ m.bits
      = videoMemory + (2 * n + screenCols * 2) := by
    rw [videoMemory, screenCols, Nat.mod_eq_of_lt (by omega), Nat.add_assoc]
  have hmem : (d.write (videoMemory + 2 * n)
      (d.mem.load (videoMemory + (2 * n + screenCols * 2)) 2)).mem
      = d.mem.copy d.mem (videoMemory + 2 * n) (videoMemory + (2 * n + screenCols * 2)) 2 :=
    Memory.store_load _ _ _ _ _
  simp only [scrollChar, hnext, hfrom]
  refine ⟨rfl, ?_, hx, hy, ?_, ?_⟩
  · rw [hcell]
    exact hkeeps.trans (Keeps.write hr hk _)
  · intro i hi
    dsimp only
    rw [hmem]
    by_cases hlt : i < 2 * n
    · rw [Memory.copy_of_not_mem _ _ (by omega), hbefore i hlt]
    · rw [Memory.copy_of_mem _ _ (by omega), Nat.add_assoc, hafter _ (by omega)]
      congr 1
      omega
  · intro i hi
    dsimp only
    rw [hmem, Memory.copy_of_not_mem _ _ (by omega), hafter i (by omega)]

/-- The state of the loop that clears the last row after `n` cells. -/
structure Cleared (c : Console) (n : Nat) (s : Nat × Console) : Prop where
  edi : s.1 = cellAddress (screenRows - 1) n
  keeps : Keeps c s.2
  x : s.2.cursorX = c.cursorX
  y : s.2.cursorY = c.cursorY
  blank : ∀ k, k < n → s.2.mem (cellAddress (screenRows - 1) k) = 0x20 ∧
    s.2.mem (cellAddress (screenRows - 1) k + 1) = c.attr
  above : ∀ a, a < cellAddress (screenRows - 1) 0 → s.2.mem a = c.mem a

theorem clearChar_cleared (m : Mode) {n : Nat} {t : Nat × Console} (hn : n < screenCols)
    (h : Cleared c n t) : Cleared c (n + 1) (clearChar m t) := by
  obtain ⟨edi, d⟩ := t
  obtain ⟨hedi, hkeeps, hx, hy, hblank, habove⟩ := h
  have hbits := m.pow_bits
  dsimp only at hedi hkeeps hx hy hblank habove
  subst hedi
  have hnext : (cellAddress (screenRows - 1) n + 2) % 2 ^ m.bits
      = cellAddress (screenRows - 1) (n + 1) := by
    simp only [cellAddress, screenRows, screenCols, videoMemory] at *
    rw [Nat.mod_eq_of_lt (by omega)]
    omega
  obtain ⟨hlow, hhigh⟩ := store_bytes d.mem (cellAddress (screenRows - 1) n) d.attr 0x20
  simp only [clearChar, hnext]
  refine ⟨rfl, hkeeps.trans (Keeps.write (by decide) hn _), hx, hy, ?_, ?_⟩
  · intro k hk
    dsimp only
    by_cases heq : k = n
    · subst heq
      exact ⟨hlow, hhigh.trans hkeeps.attr⟩
    · have hother := hblank k (by omega)
      rw [write_mem_of_not_mem (by simp only [cellAddress]; omega),
        write_mem_of_not_mem (by simp only [cellAddress]; omega)]
      exact hother
  · intro a ha
    dsimp only
    rw [write_mem_of_not_mem (by simp only [cellAddress] at ha ⊢; omega), habove a ha]

theorem cursorUpdate_keeps (m : Mode) (c : Console) :
    Keeps c (cursorUpdate m c) ∧ (cursorUpdate m c).mem = c.mem ∧
      (cursorUpdate m c).cursorX = c.cursorX ∧ (cursorUpdate m c).cursorY = c.cursorY :=
  ⟨Keeps.of_eq rfl rfl rfl, rfl, rfl, rfl⟩

/-- A scroll with the cursor below the last row. -/
theorem scroll_spec (m : Mode) (hy : c.cursorY = screenRows) :
    Keeps c (scroll m c) ∧ (scroll m c).cursorX = c.cursorX ∧
      (scroll m c).cursorY = screenRows - 1 ∧
      (∀ r k i, r < screenRows - 1 → k < screenCols → i < 2 →
        (scroll m c).mem (cellAddress r k + i) = c.mem (cellAddress (r + 1) k + i)) ∧
      ∀ k, k < screenCols → (scroll m c).mem (cellAddress (screenRows - 1) k) = 0x20 ∧
        (scroll m c).mem (cellAddress (screenRows - 1) k + 1) = c.attr := by
  have hcount : (screenRows - 1) * screenCols % 2 ^ m.bits = (screenRows - 1) * screenCols := by
    cases m <;> decide
  obtain ⟨s, hs⟩ : ∃ s, s = forLoop (fun _ => scrollChar m) ((screenRows - 1) * screenCols)
    (videoMemory, c) := ⟨_, rfl⟩
  obtain ⟨t, ht⟩ : ∃ t, t = forLoop (fun _ => clearChar m) screenCols s := ⟨_, rfl⟩
  have hmoved : Moved c ((screenRows - 1) * screenCols) s := by
    rw [hs]
    apply forLoop_inv _ _ _ (fun n => Moved c n)
    · exact ⟨rfl, Keeps.refl c, rfl, rfl, fun i hi => absurd hi (Nat.not_lt_zero i), fun _ _ => rfl⟩
    · exact fun n u hn hu => scrollChar_moved m hn hu
  have hstart : s.1 = cellAddress (screenRows - 1) 0 := hmoved.edi
  have hcleared : Cleared s.2 screenCols t := by
    rw [ht]
    apply forLoop_inv _ _ _ (fun n => Cleared s.2 n)
    · exact ⟨hstart, Keeps.refl _, rfl, rfl, fun k hk => absurd hk (Nat.not_lt_zero k),
        fun _ _ => rfl⟩
    · exact fun n u hn hu => clearChar_cleared m hn hu
  have hdef : scroll m c
      = cursorUpdate m { t.2 with cursorY := (t.2.cursorY + 2 ^ 8 - 1) % 2 ^ 8 } := by
    rw [ht, hs, scroll, hcount]
  have hset : Keeps t.2 { t.2 with cursorY := (t.2.cursorY + 2 ^ 8 - 1) % 2 ^ 8 } :=
    Keeps.of_eq rfl rfl rfl
  obtain ⟨hkeeps, hmem, hx, hupdate⟩ :=
    cursorUpdate_keeps m { t.2 with cursorY := (t.2.cursorY + 2 ^ 8 - 1) % 2 ^ 8 }
  rw [hdef, hmem, hx, hupdate]
  refine ⟨(hmoved.keeps.trans hcleared.keeps).trans (hset.trans hkeeps), ?_, ?_, ?_, ?_⟩
  · exact hcleared.x.trans hmoved.x
  · have hrow : t.2.cursorY = screenRows := (hcleared.y.trans hmoved.y).trans hy
    dsimp only
    rw [hrow]
    rfl
  · intro r k i hr hk hi
    have hlow : cellAddress r k + i < cellAddress (screenRows - 1) 0 := by
      simp only [cellAddress, screenRows, screenCols] at *
      omega
    have hoff : cellAddress r k + i = videoMemory + (r * (screenCols * 2) + k * 2 + i) := by
      rw [cellAddress]
      omega
    rw [hcleared.above _ hlow, hoff, hmoved.before]
    · congr 1
      simp only [cellAddress, screenCols]
      omega
    · simp only [cellAddress, screenRows, screenCols] at *
      omega
  · intro k hk
    rw [← hmoved.keeps.attr]
    exact hcleared.blank k hk

/-! ## The loop of the text -/

/-- A console whose cursor is on the row below that of the screen. -/
theorem available_down (m : Mode) {d : Console} {attr : UInt8} (h : Shows c s)
    (hattr : d.attr = attr) (hmem : d.mem = c.mem) (hx : d.cursorX = c.cursorX)
    (hy : d.cursorY = c.cursorY + 1) :
    Shows (available m d) (s.down attr) ∧ Keeps d (available m d) := by
  have hxlt := h.x_lt
  have hylt := h.y_lt
  have hcol : d.cursorX ≠ screenCols := by
    rw [hx, h.x]
    omega
  rw [available, if_neg hcol, Screen.down]
  by_cases hlast : s.y + 1 < screenRows
  · have hrow : d.cursorY ≠ screenRows := by
      rw [hy, h.y]
      omega
    rw [if_neg hrow, if_pos hlast]
    refine ⟨⟨hx.trans h.x, by rw [hy, h.y], hxlt, hlast, ?_, ?_⟩, Keeps.refl d⟩
    · intro r k hr hk
      rw [hmem, h.char r k hr hk]
    · intro r k hr hk
      rw [hmem, h.color r k hr hk]
  · have hrow : d.cursorY = screenRows := by
      rw [hy, h.y]
      omega
    have hbottom : s.y = screenRows - 1 := by omega
    obtain ⟨hkeeps, hx', hy', hmoved, hblank⟩ := scroll_spec m hrow
    rw [if_pos hrow, if_neg hlast]
    refine ⟨⟨by rw [hx', hx, h.x], by rw [hy', hbottom], hxlt, hylt, ?_, ?_⟩, hkeeps⟩
    · intro r k hr hk
      dsimp only
      by_cases hup : r + 1 < screenRows
      · have hcell := hmoved r k 0 (by omega) hk (by omega)
        rw [if_pos hup, ← h.char (r + 1) k hup hk, ← hmem]
        exact hcell
      · have hr' : r = screenRows - 1 := by omega
        rw [if_neg hup, hr', (hblank k hk).1]
    · intro r k hr hk
      dsimp only
      by_cases hup : r + 1 < screenRows
      · have hcell := hmoved r k 1 (by omega) hk (by omega)
        rw [if_pos hup, ← h.color (r + 1) k hup hk, ← hmem]
        exact hcell
      · have hr' : r = screenRows - 1 := by omega
        rw [if_neg hup, hr', (hblank k hk).2, hattr]

/-- A console with the cursor inside the screen. -/
theorem available_of_shows (m : Mode) (h : Shows c s) : available m c = c := by
  have hx := h.x
  have hy := h.y
  have hxlt := h.x_lt
  have hylt := h.y_lt
  have hcol : c.cursorX ≠ screenCols := by omega
  rw [available, if_neg hcol, if_neg (by omega)]

/-- A console with the cursor after the last column. -/
theorem available_of_col (m : Mode) (hx : c.cursorX = screenCols) (hy : c.cursorY < 2 ^ 8 - 1) :
    available m c = available m { c with cursorX := 0, cursorY := c.cursorY + 1 } := by
  have hzero : (0 : Nat) ≠ screenCols := by decide
  rw [available, available, if_pos hx, if_neg hzero, Nat.mod_eq_of_lt (by omega)]

/-- A character at the cursor. -/
theorem write_shows (h : Shows c s) (ch : UInt8) :
    Shows (c.write (cellAddress c.cursorY c.cursorX) (c.attr.toNat * 2 ^ 8 + ch.toNat))
      { s with cell := fun r k => if r = s.y ∧ k = s.x then (ch, c.attr) else s.cell r k } := by
  have hx := h.x
  have hy := h.y
  have hxlt := h.x_lt
  obtain ⟨hlow, hhigh⟩ := store_bytes c.mem (cellAddress c.cursorY c.cursorX) c.attr ch
  have hother : ∀ r k i, k < screenCols → i < 2 → ¬ (r = s.y ∧ k = s.x) →
      (c.write (cellAddress c.cursorY c.cursorX) (c.attr.toNat * 2 ^ 8 + ch.toNat)).mem
        (cellAddress r k + i) = c.mem (cellAddress r k + i) := by
    intro r k i hk hi hne
    apply write_mem_of_not_mem
    simp only [cellAddress, screenCols] at *
    omega
  refine ⟨hx, hy, hxlt, h.y_lt, ?_, ?_⟩
  · intro r k hr hk
    dsimp only
    by_cases hcell : r = s.y ∧ k = s.x
    · rw [if_pos hcell, hcell.1, hcell.2, ← hx, ← hy]
      exact hlow
    · rw [if_neg hcell, ← h.char r k hr hk]
      exact hother r k 0 hk (by omega) hcell
  · intro r k hr hk
    dsimp only
    by_cases hcell : r = s.y ∧ k = s.x
    · rw [if_pos hcell, hcell.1, hcell.2, ← hx, ← hy]
      exact hhigh
    · rw [if_neg hcell, ← h.color r k hr hk]
      exact hother r k 1 hk (by omega) hcell

/-- A byte of the string that is not zero, and what the next round does first. -/
theorem printByte_shows (m : Mode) {esi : Nat} {ch : UInt8} (h : Shows (available m c) s)
    (hread : (available m c).mem esi = ch) (hch : ch ≠ 0) (hesi : esi + 1 < 2 ^ m.bits) :
    ∃ d, printByte m (esi, c) = .inl (esi + 1, d) ∧
      Shows (available m d) (s.writeByte (available m c).attr ch) ∧
      Keeps (available m c) (available m d) := by
  have hx := h.x
  have hy := h.y
  have hxlt := h.x_lt
  have hylt := h.y_lt
  have hbyte : screenRows < 2 ^ 8 - 1 := by decide
  have hbyte' : screenCols < 2 ^ 8 := by decide
  have hzero : 0 < screenCols := by decide
  have hpos := currentPosition_eq m (c := available m c) (by omega) (by omega)
  rw [printByte]
  generalize available m c = e at *
  dsimp only
  rw [hread, if_neg hch, Nat.mod_eq_of_lt hesi, Screen.writeByte]
  by_cases hlf : ch = 10
  · rw [if_pos hlf, if_pos hlf, Nat.mod_eq_of_lt (by omega)]
    obtain ⟨hshows, hkeeps⟩ := available_down m (d := { e with cursorY := e.cursorY + 1 }) h rfl rfl
      rfl rfl
    have hset : Keeps e { e with cursorY := e.cursorY + 1 } := Keeps.of_eq rfl rfl rfl
    exact ⟨_, rfl, hshows, hset.trans hkeeps⟩
  rw [if_neg hlf, if_neg hlf]
  by_cases hcr : ch = 13
  · rw [if_pos hcr, if_pos hcr]
    have hshows : Shows { e with cursorX := 0 } { s with x := 0 } :=
      ⟨rfl, hy, hzero, hylt, h.char, h.color⟩
    have hset : Keeps e { e with cursorX := 0 } := Keeps.of_eq rfl rfl rfl
    refine ⟨_, rfl, ?_, ?_⟩
    · rw [available_of_shows m hshows]
      exact hshows
    · rw [available_of_shows m hshows]
      exact hset
  rw [if_neg hcr, if_neg hcr, hpos, Screen.put]
  have hwrite := write_shows h ch
  have hkeeps : Keeps e (e.write (cellAddress e.cursorY e.cursorX)
      (e.attr.toNat * 2 ^ 8 + ch.toNat)) := Keeps.write (by omega) (by omega) _
  obtain ⟨f, hf⟩ : ∃ f, f = e.write (cellAddress e.cursorY e.cursorX)
    (e.attr.toNat * 2 ^ 8 + ch.toNat) := ⟨_, rfl⟩
  have hfx : f.cursorX = e.cursorX := by rw [hf]; rfl
  have hfy : f.cursorY = e.cursorY := by rw [hf]; rfl
  rw [← hf] at hwrite hkeeps ⊢
  refine ⟨_, rfl, ?_⟩
  rw [hfx, Nat.mod_eq_of_lt (by omega)]
  dsimp only
  by_cases hcol : s.x + 1 < screenCols
  · rw [if_pos hcol]
    have hset : Keeps f { f with cursorX := e.cursorX + 1 } := Keeps.of_eq rfl rfl rfl
    have hshows : Shows { f with cursorX := e.cursorX + 1 }
        { s with
          cell := fun r k => if r = s.y ∧ k = s.x then (ch, e.attr) else s.cell r k
          x := s.x + 1 } :=
      ⟨by dsimp only; omega, hwrite.y, hcol, hylt, hwrite.char, hwrite.color⟩
    rw [available_of_shows m hshows]
    exact ⟨hshows, hkeeps.trans hset⟩
  · have hlast : e.cursorX + 1 = screenCols := by omega
    have hstart : Shows { f with cursorX := 0 }
        { s with
          cell := fun r k => if r = s.y ∧ k = s.x then (ch, e.attr) else s.cell r k
          x := 0 } :=
      ⟨rfl, hwrite.y, hzero, hylt, hwrite.char, hwrite.color⟩
    have hset : Keeps f { f with cursorX := 0, cursorY := f.cursorY + 1 } := Keeps.of_eq rfl rfl rfl
    obtain ⟨hshows, hdown⟩ := available_down m
      (d := { f with cursorX := 0, cursorY := f.cursorY + 1 }) hstart hkeeps.attr rfl rfl rfl
    rw [if_neg hcol, available_of_col m hlast (by dsimp only; omega)]
    dsimp only
    exact ⟨hshows, hkeeps.trans (hset.trans hdown)⟩

theorem available_keeps (m : Mode) (c : Console) : Keeps c (available m c) := by
  rw [available]
  have hset : Keeps c (if c.cursorX = screenCols then
      { c with cursorY := (c.cursorY + 1) % 2 ^ 8, cursorX := 0 } else c) := by
    split
    · exact Keeps.of_eq rfl rfl rfl
    · exact Keeps.refl c
  generalize (if c.cursorX = screenCols then
      { c with cursorY := (c.cursorY + 1) % 2 ^ 8, cursorX := 0 } else c) = d at hset ⊢
  split
  · next hrow => exact hset.trans (scroll_spec m hrow).1
  · exact hset

/-! ## A call -/

/-- The string `text` with its terminating zero at `esi`, apart from the screen. -/
structure TextAt (m : Mode) (mem : Memory) (esi : Nat) (text : List UInt8) : Prop where
  nonzero : ∀ ch ∈ text, ch ≠ 0
  byte : ∀ i (hi : i < text.length), mem (esi + i) = text[i]
  zero : mem (esi + text.length) = 0
  apart : ∀ i, i ≤ text.length → ¬ OnScreen (esi + i)
  fits : esi + text.length + 1 < 2 ^ m.bits

/-- `XEOS.32.video.print` with the address of the string in `ESI`. -/
def Prints (m : Mode) (esi : Nat) (c c' : Console) : Prop := Returns (printByte m) (esi, c) c'

/-- A call ends, and shows the text. -/
theorem print_available {text : List UInt8} {esi : Nat} (h : Shows (available m c) s)
    (htext : TextAt m (available m c).mem esi text) :
    ∃ c', Prints m esi c c' ∧ Shows c' (s.writeText (available m c).attr text) ∧
      Keeps (available m c) c' := by
  induction text generalizing c s esi with
  | nil =>
    obtain ⟨hkeeps, hmem, hx, hy⟩ := cursorUpdate_keeps m (available m c)
    have hread : (available m c).mem esi = 0 := htext.zero
    refine ⟨cursorUpdate m (available m c), Returns.done ?_, ?_, hkeeps⟩
    · rw [printByte]
      dsimp only
      rw [if_pos hread]
    · exact ⟨hx.trans h.x, hy.trans h.y, h.x_lt, h.y_lt, by rw [hmem]; exact h.char,
        by rw [hmem]; exact h.color⟩
  | cons ch text ih =>
    have hfits := htext.fits
    rw [List.length_cons] at hfits
    have hread : (available m c).mem esi = ch := htext.byte 0 (Nat.zero_lt_succ _)
    have hch : ch ≠ 0 := htext.nonzero ch List.mem_cons_self
    obtain ⟨d, hstep, hshows, hkeeps⟩ := printByte_shows m h hread hch (by omega)
    have hrest : TextAt m (available m d).mem (esi + 1) text := by
      have hsame : ∀ i, i ≤ text.length → (available m d).mem (esi + 1 + i)
          = (available m c).mem (esi + (i + 1)) := by
        intro i hi
        have happart := htext.apart (i + 1) (Nat.succ_le_succ hi)
        rw [Nat.add_assoc, Nat.add_comm 1 i, hkeeps.mem _ happart]
      refine ⟨fun b hb => htext.nonzero b (List.mem_cons_of_mem ch hb), ?_, ?_, ?_, by omega⟩
      · intro i hi
        rw [hsame i (by omega)]
        exact htext.byte (i + 1) (Nat.succ_lt_succ hi)
      · rw [hsame _ (Nat.le_refl _)]
        exact htext.zero
      · intro i hi
        rw [Nat.add_assoc, Nat.add_comm 1 i]
        exact htext.apart (i + 1) (Nat.succ_le_succ hi)
    obtain ⟨c', hprints, hshows', hkeeps'⟩ := ih hshows hrest
    rw [hkeeps.attr] at hshows'
    exact ⟨c', Returns.next hstep hprints, hshows', hkeeps.trans hkeeps'⟩

theorem print_shows {text : List UInt8} {esi : Nat} (h : Shows c s)
    (htext : TextAt m c.mem esi text) :
    ∃ c', Prints m esi c c' ∧ Shows c' (s.writeText c.attr text) ∧ Keeps c c' := by
  have hsame := available_of_shows m h
  have hprint := @print_available m c s text esi (by rw [hsame]; exact h)
    (by rw [hsame]; exact htext)
  rw [hsame] at hprint
  exact hprint

end Code

/-! ## Runs -/

/-- A call of the routine.  Before it the caller may set the attribute and write the memory
outside of the screen. -/
structure Call where
  mem : Memory
  attr : UInt8
  esi : Nat
  text : List UInt8

namespace Call

def before (k : Call) (c : Console) : Console :=
  { c with attr := k.attr, mem := fun a => if OnScreen a then c.mem a else k.mem a }

def Valid (m : Mode) (k : Call) : Prop := TextAt m k.mem k.esi k.text

end Call

/-- The calls one after the other. -/
inductive Run (m : Mode) : List Call → Console → Console → Prop
  | nil (c) : Run m [] c c
  | cons {k ks c d c'} (first : Prints m k.esi (k.before c) d) (rest : Run m ks d c') :
      Run m (k :: ks) c c'

/-- The screen after the texts. -/
def Screen.writeTexts (s : Screen) (ks : List Call) : Screen :=
  ks.foldl (fun s k => s.writeText k.attr k.text) s

theorem before_shows {c : Console} {s : Screen} {k : Call} (h : Shows c s) :
    Shows (k.before c) s := by
  have hon : ∀ r j i, r < screenRows → j < screenCols → i < 2 → OnScreen (cellAddress r j + i) := by
    intro r j i hr hj hi
    have hlt := cellAddress_lt hr hj
    simp only [OnScreen, cellAddress] at hlt ⊢
    omega
  refine ⟨h.x, h.y, h.x_lt, h.y_lt, ?_, ?_⟩
  · intro r j hr hj
    rw [Call.before]
    dsimp only
    have hcell : OnScreen (cellAddress r j) := hon r j 0 hr hj (by omega)
    rw [if_pos hcell, h.char r j hr hj]
  · intro r j hr hj
    rw [Call.before]
    dsimp only
    rw [if_pos (hon r j 1 hr hj (by omega)), h.color r j hr hj]

/-- One call, with what the caller has done before it. -/
theorem call_shows {m : Mode} {k : Call} (hvalid : k.Valid m) {c : Console} {s : Screen}
    (h : Shows c s) : ∃ c', Prints m k.esi (k.before c) c' ∧ Shows c' (s.writeText k.attr k.text) ∧
      Keeps (k.before c) c' := by
  have htext : TextAt m (k.before c).mem k.esi k.text := by
    have hmem : ∀ i, i ≤ k.text.length → (k.before c).mem (k.esi + i) = k.mem (k.esi + i) :=
      fun i hi => if_neg (hvalid.apart i hi)
    refine ⟨hvalid.nonzero, ?_, ?_, hvalid.apart, hvalid.fits⟩
    · intro i hi
      rw [hmem i (Nat.le_of_lt hi), hvalid.byte i hi]
    · rw [hmem _ (Nat.le_refl _), hvalid.zero]
  exact print_shows (before_shows h) htext

theorem run_shows (m : Mode) {ks : List Call} (hks : ∀ k ∈ ks, k.Valid m) {c : Console} {s : Screen}
    (h : Shows c s) : ∃ c', Run m ks c c' ∧ Shows c' (s.writeTexts ks) ∧
      ∀ a, a ∈ c'.writes → a ∈ c.writes ∨ IsCell a := by
  induction ks generalizing c s with
  | nil => exact ⟨c, Run.nil c, h, fun a ha => Or.inl ha⟩
  | cons k ks ih =>
    obtain ⟨d, hprints, hshows, hkeeps⟩ := call_shows (hks k List.mem_cons_self) h
    obtain ⟨c', hrun, hshows', hwrites⟩ := ih (fun k' hk' => hks k' (List.mem_cons_of_mem k hk')) hshows
    refine ⟨c', Run.cons hprints hrun, hshows', ?_⟩
    intro a ha
    rcases hwrites a ha with hd | hcell
    · exact hkeeps.writes a hd
    · exact Or.inr hcell

/-- Any number of calls, from a cursor inside the screen. -/
theorem run_print (m : Mode) {ks : List Call} (hks : ∀ k ∈ ks, k.Valid m) {c : Console}
    (hx : c.cursorX < screenCols) (hy : c.cursorY < screenRows) :
    ∃ c', Run m ks c c' ∧ c'.cursorX < screenCols ∧ c'.cursorY < screenRows ∧
      Shows c' ((screenOf c).writeTexts ks) ∧ ∀ a, a ∈ c'.writes → a ∈ c.writes ∨ IsCell a := by
  obtain ⟨c', hrun, hshows, hwrites⟩ := run_shows m hks (shows_screenOf hx hy)
  exact ⟨c', hrun, by rw [hshows.x]; exact hshows.x_lt, by rw [hshows.y]; exact hshows.y_lt, hshows,
    hwrites⟩

/-- The cursor in the last cell, and the text `A` at address 0. -/
def cornerConsole : Console where
  mem _ := 0
  cursorX := 79
  cursorY := 24
  attr := 0x0F
  index := 0
  crt _ := 0
  writes := []

def cornerCall : Call where
  mem a := if a = 0 then 0x41 else 0
  attr := 0x0F
  esi := 0
  text := [0x41]

theorem cornerCall_valid : cornerCall.Valid .mode32 where
  nonzero := List.forall_mem_singleton.mpr (by decide)
  byte i hi := by
    have hzero : i = 0 := Nat.lt_one_iff.mp hi
    subst hzero
    rfl
  zero := rfl
  apart i hi := by
    have hlt : i ≤ 1 := hi
    simp only [OnScreen, cornerCall, videoMemory]
    omega
  fits := by decide

theorem run_print_corner : ∃ c', Run .mode32 [cornerCall] cornerConsole c' ∧
    c'.cursorX = 0 ∧ c'.cursorY = 24 ∧ c'.mem (cellAddress 23 79) = 0x41 := by
  obtain ⟨c', hrun, -, -, hshows, -⟩ := @run_print .mode32 [cornerCall]
    (by simpa using cornerCall_valid) cornerConsole (by decide) (by decide)
  refine ⟨c', hrun, hshows.x, hshows.y, ?_⟩
  rw [hshows.char 23 79 (by decide) (by decide)]
  rfl

end Xeos.Boot.Video
