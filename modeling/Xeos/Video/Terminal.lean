import Xeos.Lib.Paper
import Xeos.Video.Cursor

/-!
# The console as a terminal

What the console is for: a `Terminal` prints on paper without an end, and the screen shows the
sticky lines at the start of it and the rows at its end.  `Writes` are the runs of the calls that
print, clear the screen or choose a colour, with the terminal beside the console.

`XEOS_Video_Scroll` moves the rows behind the screen too, as many of them as there are sticky
lines, and takes the last row of the screen from there.  These rows are blank, and stay so.
-/

namespace Xeos.Video

open Lib Printf

/-! ## Colours -/

/-- `XEOS_Video_SetFG` -/
def setFG (color : UInt8) (c : Console) : Console :=
  { c with videoAttribute := (c.videoAttribute &&& 0xF0) ||| color }

/-- `XEOS_Video_SetBG` -/
def setBG (color : UInt8) (c : Console) : Console :=
  { c with videoAttribute := (c.videoAttribute &&& (0x0F : UInt8)) ||| (color <<< 4) }

/-! ## The terminal -/

structure Cell where
  glyph : UInt8
  attr : UInt8
deriving DecidableEq, Repr

instance : NeZero videoCols := ⟨by decide⟩

/-- What was printed, and the colours of the next cell. -/
structure Terminal where
  paper : Paper Cell videoCols
  attr : UInt8

namespace Terminal

def char (t : Terminal) (ch : UInt8) : Terminal :=
  if ch = 0 then t
  else if ch = 0x0A then { t with paper := t.paper.wrap.feed }
  else { t with paper := t.paper.put ⟨ch, t.attr⟩ }

def write (t : Terminal) (chars : List UInt8) : Terminal := chars.foldl char t

def clear (t : Terminal) : Terminal := { t with paper := .empty Cell videoCols }

def setFG (t : Terminal) (color : UInt8) : Terminal :=
  { t with attr := (t.attr &&& 0xF0) ||| color }

def setBG (t : Terminal) (color : UInt8) : Terminal :=
  { t with attr := (t.attr &&& (0x0F : UInt8)) ||| (color <<< 4) }

/-- The characters that take a cell. -/
def glyphs (chars : List UInt8) : List UInt8 := chars.filter fun ch => ch ≠ 0 ∧ ch ≠ 0x0A

theorem char_cases (t : Terminal) (ch : UInt8) :
    (t.char ch).attr = t.attr ∧
      (t.char ch).paper.cells = t.paper.cells ++ (glyphs [ch]).map fun ch => ⟨ch, t.attr⟩ := by
  rw [char]
  split
  · next hnul =>
    rw [hnul]
    exact ⟨rfl, (List.append_nil _).symm⟩
  · next hnul =>
    split
    · next hline =>
      rw [hline]
      exact ⟨rfl, by rw [Paper.cells_feed, Paper.cells_wrap]; exact (List.append_nil _).symm⟩
    · next hline =>
      have hglyphs : glyphs [ch] = [ch] := List.filter_cons_of_pos (decide_eq_true ⟨hnul, hline⟩)
      rw [hglyphs]
      exact ⟨rfl, Paper.cells_put _ _⟩

/-- The cells of the paper are the characters that were printed, in their order. -/
theorem cells_write (t : Terminal) (chars : List UInt8) :
    (t.write chars).paper.cells
      = t.paper.cells ++ (glyphs chars).map fun ch => ⟨ch, t.attr⟩ := by
  induction chars generalizing t with
  | nil => exact (List.append_nil _).symm
  | cons ch chars ih =>
    obtain ⟨hattr, hcells⟩ := t.char_cases ch
    have hsplit : glyphs (ch :: chars) = glyphs [ch] ++ glyphs chars :=
      List.filter_append [ch] chars
    rw [hsplit, List.map_append, ← List.append_assoc, ← hcells, ← hattr]
    exact ih (t.char ch)

end Terminal

/-- Runs of the calls, and what they print.  The sticky lines stay. -/
inductive Writes (c : Console) (t : Terminal) : Console → Terminal → Prop
  | refl : Writes c t c t
  | putc {c' t'} (h : Writes c t c' t') (ch : UInt8) (updateCursor : Bool) :
      Writes c t (putc ch updateCursor c') (t'.char ch)
  | print {c' t'} (h : Writes c t c' t') (s : CString) : Writes c t (print s c') (t'.write s.val)
  | vprintf {c' t' lp64 format args count out} (h : Writes c t c' t')
      (hreturned : ProcessFormatString ⟨lp64, true, args⟩ format (.returned count out)) :
      Writes c t (vprintf out c') (t'.write (charsOf out))
  | clear {c' t'} (h : Writes c t c' t') : Writes c t (clear c') t'.clear
  | setFG {c' t'} (h : Writes c t c' t') (color : UInt8) :
      Writes c t (setFG color c') (t'.setFG color)
  | setBG {c' t'} (h : Writes c t c' t') (color : UInt8) :
      Writes c t (setBG color c') (t'.setBG color)

/-! ## What the screen shows -/

/-- A row of the screen shows a line: its cells, and spaces behind them. -/
structure ShowsLine (m : Memory) (r : Nat) (l : List Cell) : Prop where
  cell : ∀ k (h : k < l.length), m (rowByte r (2 * k)) = l[k].glyph ∧
    m (rowByte r (2 * k + 1)) = l[k].attr
  space : ∀ k, l.length ≤ k → k < videoCols → m (rowByte r (2 * k)) = 0x20

/-- The rows of the screen when `place` is the one that is being printed.  Before it is one of the
last two rows, it is also the number of that line. -/
structure Displays (m : Memory) (pinned place : Nat) (p : Paper Cell videoCols) : Prop where
  place_le : place ≤ p.rows.length
  first : place < videoRows - 2 → place = p.rows.length
  line : ∀ r, r ≤ place → ShowsLine m r (p.line (p.lineAt pinned place r))
  blank : ∀ r, place < r → r < videoRows + pinned → ShowsLine m r []

/-- The console shows the end of the paper, below the pinned lines at its start. -/
structure Shows (c : Console) (pinned : Nat) (t : Terminal) : Prop where
  attr : c.videoAttribute = t.attr
  stickyLines : c.stickyLines = pinned
  x : c.x = t.paper.row.length
  y : c.y = t.paper.place videoRows
  displays : Displays c.mem pinned c.y t.paper

theorem ShowsLine.congr {m m' : Memory} {r r' : Nat} {l : List Cell} (h : ShowsLine m r l)
    (heq : ∀ k, k < videoCols * 2 → m' (rowByte r' k) = m (rowByte r k))
    (hfits : l.length ≤ videoCols) : ShowsLine m' r' l where
  cell k hk := by
    rw [heq _ (by omega), heq _ (by omega)]
    exact h.cell k hk
  space k hk hcols := by
    rw [heq _ (by omega)]
    exact h.space k hk hcols

theorem rowByte_ne {r r' k k' : Nat} (h : r ≠ r') (hk : k < videoCols * 2)
    (hk' : k' < videoCols * 2) : rowByte r k ≠ rowByte r' k' := by
  simp only [rowByte, videoCols] at hk hk' ⊢
  omega

/-- A cell that is written in another row. -/
theorem ShowsLine.set_other {m : Memory} {r r' n : Nat} {l : List Cell} (ch attr : UInt8)
    (h : ShowsLine m r' l) (hr : r' ≠ r) (hn : n < videoCols) (hfits : l.length ≤ videoCols) :
    ShowsLine ((m.set (rowByte r (2 * n)) ch).set (rowByte r (2 * n) + 1) attr) r' l := by
  refine h.congr (fun k hk => ?_) hfits
  have hlow : rowByte r' k ≠ rowByte r (2 * n) :=
    rowByte_ne hr hk (show 2 * n < videoCols * 2 by omega)
  have hhigh : rowByte r' k ≠ rowByte r (2 * n) + 1 :=
    rowByte_ne hr hk (show 2 * n + 1 < videoCols * 2 by omega)
  rw [Memory.set_of_ne _ _ hhigh, Memory.set_of_ne _ _ hlow]

/-- A cell that is written behind the line. -/
theorem ShowsLine.set_next {m : Memory} {r : Nat} {l : List Cell} (ch attr : UInt8)
    (h : ShowsLine m r l) :
    ShowsLine ((m.set (rowByte r (2 * l.length)) ch).set (rowByte r (2 * l.length) + 1) attr) r
      (l ++ [⟨ch, attr⟩]) := by
  refine ⟨fun k hk => ?_, fun k hk hcols => ?_⟩
  · rw [List.length_append, List.length_singleton] at hk
    rcases Nat.lt_or_ge k l.length with hold | hnew
    · rw [List.getElem_append_left hold, Memory.set_of_ne, Memory.set_of_ne, Memory.set_of_ne,
        Memory.set_of_ne]
      · exact h.cell k hold
      all_goals
        simp only [rowByte]
        omega
    · obtain rfl : k = l.length := by omega
      rw [List.getElem_append_right (Nat.le_refl _), Memory.set_of_ne, Memory.set_same]
      · refine ⟨by simp, ?_⟩
        have hnext : rowByte r (2 * l.length + 1) = rowByte r (2 * l.length) + 1 := rfl
        rw [hnext, Memory.set_same]
        simp
      · simp only [rowByte]
        omega
  · rw [List.length_append, List.length_singleton] at hk
    rw [Memory.set_of_ne, Memory.set_of_ne]
    · exact h.space k (by omega) hcols
    all_goals
      simp only [rowByte]
      omega

namespace Displays

variable {m : Memory} {pinned place : Nat} {p p' : Paper Cell videoCols}

theorem line_fits (p : Paper Cell videoCols) (j : Nat) : (p.line j).length ≤ videoCols := by
  rcases Nat.lt_or_ge j (p.rows ++ [p.row]).length with hj | hj
  · rw [Paper.line, List.getD_eq_getElem _ _ hj]
    rcases List.mem_append.mp (List.getElem_mem hj) with h | h
    · exact p.rows_fit _ h
    · rw [List.mem_singleton.mp h]
      exact p.row_fits
  · rw [Paper.line, List.getD_eq_default _ _ hj]
    exact Nat.zero_le _

/-- A line that is finished does not change the screen. -/
theorem feed (h : Displays m pinned place p) (hplace : place < videoRows - 1)
    (hpinned : pinned < videoRows - 1) : Displays m pinned (place + 1) p.feed where
  place_le := by
    rw [Paper.feed_rows_length]
    exact Nat.succ_le_succ h.place_le
  first hlt := by
    rw [Paper.feed_rows_length, h.first (by omega)]
  line r hr := by
    have hle := h.place_le
    rcases Nat.lt_or_ge place r with hlt | hge
    · have hlast : p.feed.lineAt pinned (place + 1) r = p.rows.length + 1 := by
        rw [Paper.lineAt, Paper.feed_rows_length]
        split
        · rw [← h.first (by omega)]
          omega
        · omega
      rw [hlast, ← Paper.feed_rows_length, Paper.line_length]
      exact h.blank r hlt (by omega)
    · have hsame : p.feed.lineAt pinned (place + 1) r = p.lineAt pinned place r := by
        rw [Paper.lineAt, Paper.lineAt, Paper.feed_rows_length]
        split <;> omega
      have hnumber : p.lineAt pinned place r ≤ p.rows.length := by
        rw [Paper.lineAt]
        split <;> omega
      rw [hsame, Paper.feed_line _ hnumber]
      exact h.line r hge
  blank r hr hlt := h.blank r (by omega) hlt

/-- A cell is written behind the row that is being printed. -/
theorem put {ch attr : UInt8} (h : Displays m pinned place p) (hrows : p'.rows = p.rows)
    (hrow : p'.row = p.row ++ [⟨ch, attr⟩]) (hpinned : pinned < videoRows - 1) :
    Displays ((m.set (rowByte place (2 * p.row.length)) ch).set
      (rowByte place (2 * p.row.length) + 1) attr) pinned place p' := by
  have hle := h.place_le
  have hroom : p.row.length < videoCols := by
    have hfits := p'.row_fits
    rw [hrow, List.length_append, List.length_singleton] at hfits
    exact hfits
  have hown : p.lineAt pinned place place = p.rows.length := by
    rw [Paper.lineAt, Nat.sub_self, Nat.sub_zero]
    split
    · exact h.first (by omega)
    · rfl
  refine ⟨hrows ▸ hle, hrows ▸ h.first, fun r hr => ?_, fun r hr hlt => ?_⟩
  · have hsame : p'.lineAt pinned place r = p.lineAt pinned place r := by
      rw [Paper.lineAt, Paper.lineAt, hrows]
    rw [hsame]
    rcases Nat.lt_or_ge r place with hlt | hge
    · have hnumber : p.lineAt pinned place r < p.rows.length := by
        rw [Paper.lineAt]
        split <;> omega
      rw [Paper.line_of_lt hrows hnumber]
      exact (h.line r hr).set_other ch attr (by omega) hroom (line_fits p _)
    · obtain rfl : r = place := by omega
      have hline := h.line r (Nat.le_refl r)
      rw [hown, Paper.line_length] at hline
      rw [hown, ← hrows, Paper.line_length, hrow]
      exact hline.set_next ch attr
  · exact (h.blank r hr hlt).set_other ch attr (by omega) hroom (Nat.zero_le _)

end Displays

/-! ## The scroll -/

theorem videoAttribute_blankCells (base n : Nat) (c : Console) :
    (blankCells base n c).videoAttribute = c.videoAttribute :=
  forLoop_inv _ n c (fun _ t => t.videoAttribute = c.videoAttribute) rfl fun _ _ _ h => h

/-- A scroll by one row, with the memory as the loops leave it. -/
theorem scroll_one_eq (c : Console) :
    (scroll c 1).mem = blanked (c.mem.copy c.mem (rowByte c.stickyLines 0)
        (rowByte (c.stickyLines + 1) 0) (videoCols * (videoRows - 1) * 2)) c.videoAttribute
        (rowByte (c.stickyLines + (videoRows - 1)) 0) videoCols ∧
      (scroll c 1).videoAttribute = c.videoAttribute := by
  obtain ⟨hattr, hcopy, -, -⟩ := copyLoop_spec (videoMem + c.stickyLines * videoCols * 2) 1
    (videoCols * (videoRows - 1) * 2) c
  obtain ⟨hblank, -, -⟩ := blankCells_spec
    (videoMem + c.stickyLines * videoCols * 2 + videoCols * (videoRows - 1) * 2) (videoCols * 1)
    (forLoop (copyByte (videoMem + c.stickyLines * videoCols * 2) 1)
      (videoCols * (videoRows - 1) * 2) c)
  have hbase : rowByte c.stickyLines 0 = videoMem + c.stickyLines * videoCols * 2 := by
    simp only [rowByte, videoCols]
    omega
  have hsource : rowByte (c.stickyLines + 1) 0
      = videoMem + c.stickyLines * videoCols * 2 + videoCols * 2 * 1 := by
    simp only [rowByte, videoCols]
    omega
  have hend : rowByte (c.stickyLines + (videoRows - 1)) 0
      = videoMem + c.stickyLines * videoCols * 2 + videoCols * (videoRows - 1) * 2 := by
    simp only [rowByte, videoCols, videoRows]
    omega
  rw [scroll, if_neg (by decide), hbase, hsource, hend]
  refine ⟨?_, (videoAttribute_blankCells _ _ _).trans hattr⟩
  rw [← hattr, ← hcopy]
  exact hblank

theorem scroll_one_row (c : Console) {k : Nat} (hk : k < videoCols * 2) :
    (∀ r, r < c.stickyLines → (scroll c 1).mem (rowByte r k) = c.mem (rowByte r k)) ∧
      (∀ r, c.stickyLines ≤ r → r < c.stickyLines + (videoRows - 1) →
        (scroll c 1).mem (rowByte r k) = c.mem (rowByte (r + 1) k)) ∧
      (scroll c 1).mem (rowByte (c.stickyLines + (videoRows - 1)) k)
        = blankByte c.videoAttribute k := by
  have hcols : videoCols = 80 := rfl
  have hrows : videoRows = 25 := rfl
  rw [(scroll_one_eq c).1]
  simp only [rowByte]
  rw [hcols] at hk ⊢
  rw [hrows]
  refine ⟨fun r hr => ?_, fun r hr hlt => ?_, ?_⟩
  · rw [blanked_of_not_mem _ _ (by omega), Memory.copy_of_not_mem _ _ (by omega)]
  · rw [blanked_of_not_mem _ _ (by omega), Memory.copy_of_mem _ _ (by omega)]
    congr 1
    omega
  · rw [blanked_of_mem _ _ (by omega)]
    congr 1
    omega

/-- The last row is free, and the others are one row higher. -/
theorem Displays.scroll {c : Console} {p : Paper Cell videoCols}
    (h : Displays c.mem c.stickyLines (videoRows - 1) p) (hpinned : c.stickyLines < videoRows - 1) :
    Displays (scroll c 1).mem c.stickyLines (videoRows - 2) p := by
  have hrows : videoRows = 25 := rfl
  have hle := h.place_le
  refine ⟨by omega, fun hlt => absurd hlt (Nat.lt_irrefl _), fun r hr => ?_, fun r hr hlt => ?_⟩
  · rcases Nat.lt_or_ge r c.stickyLines with hpin | hmoved
    · have hnumber : p.lineAt c.stickyLines (videoRows - 2) r
          = p.lineAt c.stickyLines (videoRows - 1) r := by
        rw [Paper.lineAt, Paper.lineAt, if_pos hpin, if_pos hpin]
      rw [hnumber]
      exact (h.line r (by omega)).congr (fun k hk => (scroll_one_row c hk).1 r hpin)
        (line_fits p _)
    · have hnumber : p.lineAt c.stickyLines (videoRows - 2) r
          = p.lineAt c.stickyLines (videoRows - 1) (r + 1) := by
        rw [Paper.lineAt, Paper.lineAt, if_neg (by omega), if_neg (by omega)]
        omega
      rw [hnumber]
      exact (h.line (r + 1) (by omega)).congr
        (fun k hk => (scroll_one_row c hk).2.1 r hmoved (by omega)) (line_fits p _)
  · rcases Nat.lt_or_ge r (c.stickyLines + (videoRows - 1)) with hmoved | hlast
    · exact (h.blank (r + 1) (by omega) (by omega)).congr
        (fun k hk => (scroll_one_row c hk).2.1 r (by omega) hmoved) (Nat.zero_le _)
    · obtain rfl : r = c.stickyLines + (videoRows - 1) := by omega
      refine ⟨fun k hk => absurd hk (Nat.not_lt_zero k), fun k _ hcols => ?_⟩
      rw [(scroll_one_row c (show 2 * k < videoCols * 2 by omega)).2.2, blankByte,
        if_pos (Nat.mul_mod_right 2 k)]

/-! ## The calls -/

section Calls

variable {c : Console} {t : Terminal} {pinned : Nat}

theorem Shows.wrapLine (h : Shows c pinned t) (hpinned : pinned < videoRows - 1) :
    Shows (wrapLine c) pinned { t with paper := t.paper.wrap } := by
  rw [Video.wrapLine, Paper.wrap, ← h.x]
  split
  · next hfull =>
    have hcols : videoCols = 80 := rfl
    have hrows : videoRows = 25 := rfl
    have hrow : t.paper.row ≠ [] := by
      intro hempty
      have hx := h.x
      rw [hempty, List.length_nil] at hx
      omega
    have hy := h.y
    rw [Paper.place, if_neg hrow] at hy
    refine ⟨h.attr, h.stickyLines, rfl, ?_, h.displays.feed (by omega) hpinned⟩
    change c.y + 1 = min t.paper.feed.rows.length (videoRows - 1)
    rw [Paper.feed_rows_length]
    omega
  · exact h

/-- In front of a cell or a line feed, with a free row below. -/
structure Ready (c : Console) (pinned : Nat) (t : Terminal) : Prop where
  attr : c.videoAttribute = t.attr
  stickyLines : c.stickyLines = pinned
  x : c.x = t.paper.row.length
  y : c.y = min t.paper.rows.length (videoRows - 2)
  displays : Displays c.mem pinned c.y t.paper

theorem Shows.makeRoom (h : Shows c pinned t) (hpinned : pinned < videoRows - 1) :
    Ready (makeRoom c) pinned t := by
  have hrows : videoRows = 25 := rfl
  have hy := h.y
  rw [Paper.place] at hy
  rw [Video.makeRoom]
  split
  · next hlast =>
    have hsame := sameCursor_scroll (show 1 < videoRows by decide) c
    have hdisplays := h.displays
    rw [hlast, ← h.stickyLines] at hdisplays
    have hle := hdisplays.place_le
    have hscrolled := hdisplays.scroll (h.stickyLines ▸ hpinned)
    have hattr := (scroll_one_eq c).2
    generalize Video.scroll c 1 = u at hsame hscrolled hattr
    have hplace : u.y - 1 = videoRows - 2 := by
      rw [hsame.y, hlast]
      rfl
    refine ⟨hattr.trans h.attr, hsame.stickyLines.trans h.stickyLines, hsame.x.trans h.x, ?_, ?_⟩
    · change u.y - 1 = _
      omega
    · change Displays u.mem pinned (u.y - 1) t.paper
      rw [hplace, ← h.stickyLines]
      exact hscrolled
  · next hlast =>
    refine ⟨h.attr, h.stickyLines, h.x, ?_, h.displays⟩
    split at hy <;> omega

theorem Ready.putCell (h : Ready c pinned { t with paper := t.paper.wrap })
    (hpinned : pinned < videoRows - 1) {ch : UInt8} (hnul : ch ≠ 0) :
    Shows (putCell ch c) pinned (t.char ch) := by
  have hrows : videoRows = 25 := rfl
  have hy : c.y = min t.paper.wrap.rows.length (videoRows - 2) := h.y
  rw [Video.putCell, Terminal.char, if_neg hnul]
  split
  · refine ⟨h.attr, h.stickyLines, rfl, ?_, h.displays.feed (by omega) hpinned⟩
    change c.y + 1 = min t.paper.wrap.feed.rows.length (videoRows - 1)
    rw [Paper.feed_rows_length]
    omega
  · have hcell : rowByte c.y (2 * t.paper.wrap.row.length) = cursorCell c := by
      have hx : c.x = t.paper.wrap.row.length := h.x
      rw [cursorCell, hx]
      simp only [rowByte, videoCols]
      omega
    have hput : Displays _ pinned c.y (t.paper.put ⟨ch, c.videoAttribute⟩) :=
      h.displays.put rfl rfl hpinned
    have hattr : c.videoAttribute = t.attr := h.attr
    rw [hcell] at hput
    rw [← hattr]
    refine ⟨rfl, h.stickyLines, ?_, ?_, hput⟩
    · change c.x + 1 = (t.paper.wrap.row ++ [_]).length
      rw [List.length_append, List.length_singleton]
      exact congrArg (· + 1) h.x
    · rw [Paper.place, if_neg]
      · exact h.y
      · exact List.append_ne_nil_of_right_ne_nil _ (List.cons_ne_nil _ _)

theorem Shows.moveCursor (h : Shows c pinned t) : Shows (moveCursor c c.x c.y) pinned t :=
  ⟨h.attr, h.stickyLines, h.x, h.y, h.displays⟩

theorem Shows.putc (h : Shows c pinned t) (hpinned : pinned < videoRows - 1) (ch : UInt8)
    (updateCursor : Bool) : Shows (putc ch updateCursor c) pinned (t.char ch) := by
  rw [Video.putc]
  split
  · next hnul =>
    rw [Terminal.char, if_pos hnul]
    exact h
  · next hnul =>
    have hput := ((h.wrapLine hpinned).makeRoom hpinned).putCell hpinned hnul
    generalize Video.putCell ch (Video.makeRoom (Video.wrapLine c)) = u at hput
    cases updateCursor
    · exact hput
    · exact hput.moveCursor

theorem Shows.putAll (h : Shows c pinned t) (hpinned : pinned < videoRows - 1)
    (chars : List UInt8) : Shows (putAll chars c) pinned (t.write chars) := by
  induction chars generalizing c t with
  | nil => exact h
  | cons ch chars ih => exact ih (h.putc hpinned ch false)

theorem Shows.print (h : Shows c pinned t) (hpinned : pinned < videoRows - 1) (s : CString) :
    Shows (print s c) pinned (t.write s.val) :=
  (h.putAll hpinned s.val).moveCursor

theorem Shows.setFG (h : Shows c pinned t) (color : UInt8) :
    Shows (setFG color c) pinned (t.setFG color) :=
  ⟨by rw [Video.setFG, Terminal.setFG, h.attr], h.stickyLines, h.x, h.y, h.displays⟩

theorem Shows.setBG (h : Shows c pinned t) (color : UInt8) :
    Shows (setBG color c) pinned (t.setBG color) :=
  ⟨by rw [Video.setBG, Terminal.setBG, h.attr], h.stickyLines, h.x, h.y, h.displays⟩

/-- The cursor goes to the first cell, and nothing else than the cells changes. -/
theorem clear_fields (c : Console) : (clear c).x = 0 ∧ (clear c).y = 0 ∧
    (clear c).stickyLines = c.stickyLines ∧ (clear c).videoAttribute = c.videoAttribute := by
  have hloop : ∀ value : Nat, ∃ u, forLoop (fun i c =>
      (c.write (videoMem + 2 * i) (UInt8.ofNat value)).write (videoMem + 2 * i + 1)
        (UInt8.ofNat (value >>> 8))) (videoCols * videoRows) c = u ∧ u.x = c.x ∧ u.y = c.y ∧
      u.stickyLines = c.stickyLines ∧ u.videoAttribute = c.videoAttribute := by
    intro value
    exact ⟨_, rfl, forLoop_inv _ _ c (fun _ u => u.x = c.x ∧ u.y = c.y ∧
      u.stickyLines = c.stickyLines ∧ u.videoAttribute = c.videoAttribute) ⟨rfl, rfl, rfl, rfl⟩
      fun _ _ _ h => h⟩
  obtain ⟨u, hu, hx, hy, hsticky, hattr⟩ :=
    hloop ((c.videoAttribute.toNat <<< 8) % 2 ^ 16 ||| 0x20)
  unfold Video.clear
  dsimp only
  rw [hu]
  split_ifs with hmoved
  · exact ⟨rfl, rfl, hsticky, hattr⟩
  · exact ⟨by omega, by omega, hsticky, hattr⟩

/-- A screen that was cleared is blank, and so are the rows behind it if they were. -/
theorem displays_clear
    (hbelow : ∀ r, videoRows ≤ r → r < videoRows + pinned → ShowsLine c.mem r []) :
    Displays (clear c).mem pinned 0 (.empty Cell videoCols) := by
  have hblank : ∀ r, r < videoRows + pinned → ShowsLine (clear c).mem r [] := by
    intro r hr
    refine ⟨fun k hk => absurd hk (Nat.not_lt_zero k), fun k hk hcols => ?_⟩
    rw [(clear_spec c).1]
    rcases Nat.lt_or_ge r videoRows with hon | hoff
    · have hcell : videoMem ≤ rowByte r (2 * k) ∧
          rowByte r (2 * k) < videoMem + 2 * (videoCols * videoRows) := by
        simp only [rowByte, videoCols, videoRows] at hcols hon ⊢
        omega
      have hparity : (rowByte r (2 * k) - videoMem) % 2 = 0 := by
        simp only [rowByte, videoCols]
        omega
      rw [blanked_of_mem _ _ hcell, blankByte, if_pos hparity]
    · have hcell : videoMem + 2 * (videoCols * videoRows) ≤ rowByte r (2 * k) := by
        simp only [rowByte, videoCols, videoRows] at hoff ⊢
        omega
      rw [blanked_of_not_mem _ _ (Or.inr hcell)]
      exact (hbelow r hoff hr).space k hk hcols
  refine ⟨Nat.le_refl 0, fun _ => rfl, fun r hr => ?_, fun r _ hlt => hblank r hlt⟩
  obtain rfl : r = 0 := Nat.le_zero.mp hr
  have hline : (Paper.empty Cell videoCols).line ((Paper.empty Cell videoCols).lineAt pinned 0 0)
      = [] := by
    rw [Paper.lineAt, Nat.sub_zero, Paper.empty, List.length_nil, ite_self]
    rfl
  rw [hline]
  exact hblank 0 (Nat.lt_of_lt_of_le (by decide) (Nat.le_add_right videoRows pinned))

theorem Shows.clear (h : Shows c pinned t) : Shows (clear c) pinned t.clear := by
  obtain ⟨hx, hy, hsticky, hattr⟩ := clear_fields c
  have hon : c.y < videoRows := by
    have hrows : videoRows = 25 := rfl
    have hy := h.y
    rw [Paper.place] at hy
    split at hy <;> omega
  have hdisplays : Displays (Video.clear c).mem pinned 0 (.empty Cell videoCols) :=
    displays_clear fun r hr hlt => h.displays.blank r (by omega) hlt
  refine ⟨hattr.trans h.attr, hsticky.trans h.stickyLines, hx, ?_, ?_⟩
  · rw [hy]
    exact (Nat.zero_min _).symm
  · rw [hy]
    exact hdisplays

end Calls

/-! ## Runs -/

theorem Writes.shows {c c' : Console} {t t' : Terminal} {pinned : Nat}
    (hpinned : pinned < videoRows - 1) (hrun : Writes c t c' t') (h : Shows c pinned t) :
    Shows c' pinned t' := by
  induction hrun with
  | refl => exact h
  | putc _ ch updateCursor ih => exact ih.putc hpinned ch updateCursor
  | print _ s ih => exact ih.print hpinned s
  | vprintf _ _ ih => exact (ih.putAll hpinned _).moveCursor
  | clear _ ih => exact ih.clear
  | setFG _ color ih => exact ih.setFG color
  | setBG _ color ih => exact ih.setBG color

/-- The screen after `XEOS_Video_Clear` and `XEOS_Video_SetStickyLines`. -/
theorem shows_start {c : Console} {pinned : Nat} (hpinned : pinned < videoRows - 1)
    (hbelow : ∀ r, videoRows ≤ r → r < videoRows + pinned → ShowsLine c.mem r []) :
    Shows (setStickyLines (clear c) pinned) pinned ⟨.empty Cell videoCols, c.videoAttribute⟩ := by
  have hlines : pinned < videoRows := Nat.lt_of_lt_of_le hpinned (Nat.sub_le _ _)
  obtain ⟨hx, hy, -, hattr⟩ := clear_fields c
  have hdisplays := displays_clear hbelow
  rw [setStickyLines, if_pos hlines]
  generalize clear c = u at hx hy hattr hdisplays
  refine ⟨hattr, rfl, hx, hy.trans (Nat.zero_min _).symm, ?_⟩
  change Displays u.mem pinned u.y _
  rw [hy]
  exact hdisplays

/-- In every run the screen shows the sticky lines at the start of what was printed, the rows at
its end, and blank rows below them. -/
theorem screen_shows_terminal {c c' : Console} {t : Terminal} {pinned : Nat}
    (hpinned : pinned < videoRows - 1)
    (hbelow : ∀ r, videoRows ≤ r → r < videoRows + pinned → ShowsLine c.mem r [])
    (hrun : Writes (setStickyLines (clear c) pinned) ⟨.empty Cell videoCols, c.videoAttribute⟩
      c' t) : Shows c' pinned t :=
  hrun.shows hpinned (shows_start hpinned hbelow)

/-- A line below the header of `XEOS_Main`. -/
theorem screen_shows_terminal_header : ∃ c t, Shows c 1 t ∧
    t.paper.rows = [[⟨0x58, 0x1F⟩]] ∧ t.paper.row = [] :=
  ⟨_, _, screen_shows_terminal (c := headerConsole) (by decide)
    (fun _ _ _ => ⟨fun k hk => absurd hk (Nat.not_lt_zero k), fun _ _ _ => rfl⟩)
    (.print (.setBG .refl 1) ⟨[0x58, 0x0A], by decide⟩), rfl, rfl⟩

end Xeos.Video
