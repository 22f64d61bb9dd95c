import Mathlib.Tactic.SplitIfs
import Xeos.Video.Printf
import Xeos.Video.Scroll

/-!
# The cursor

`XEOS_Video_Putc`, `XEOS_Video_Print` and `XEOS_Video_VPrintf` over the console, and the runs
of these calls with the ones that clear and scroll the screen.

A new line and a scroll are put off to the next character: the cursor may stand behind the
last column, and on the last row in its first column.  `CursorFits` is what the calls keep.
-/

namespace Xeos.Video

open Lib Printf

/-! ## The calls -/

/-- The line wrap of `XEOS_Video_Putc`. -/
def wrapLine (c : Console) : Console :=
  if c.x = videoCols then { c with x := 0, y := c.y + 1 } else c

/-- The scroll of `XEOS_Video_Putc`. -/
def makeRoom (c : Console) : Console :=
  if c.y = videoRows - 1 then
    let c := scroll c 1
    { c with y := c.y - 1 }
  else c

/-- The address of the cell under the cursor. -/
def cursorCell (c : Console) : Nat := videoMem + 2 * (c.x + c.y * videoCols)

/-- The new line or the cell that `XEOS_Video_Putc` makes of a character. -/
def putCell (ch : UInt8) (c : Console) : Console :=
  if ch = 0x0A then { c with y := c.y + 1, x := 0 }
  else
    let mem := cursorCell c
    let c := (c.write mem ch).write (mem + 1) c.videoAttribute
    { c with x := c.x + 1 }

/-- `XEOS_Video_Putc` -/
def putc (ch : UInt8) (updateCursor : Bool) (c : Console) : Console :=
  if ch = 0 then c
  else
    let c := putCell ch (makeRoom (wrapLine c))
    if updateCursor then moveCursor c c.x c.y else c

/-- The characters of `XEOS_Video_Print`, and of the handler of `XEOS_Video_VPrintf`. -/
def putAll (chars : List UInt8) (c : Console) : Console :=
  chars.foldl (fun c ch => putc ch false c) c

/-- `XEOS_Video_Print` -/
def print (s : CString) (c : Console) : Console :=
  let c := putAll s.val c
  moveCursor c c.x c.y

/-- The characters among the events of the format engine. -/
def charsOf (out : List Event) : List UInt8 :=
  out.filterMap fun
    | .char ch => some ch
    | .store _ _ => none

/-- `XEOS_Video_VPrintf`, when the format engine has returned with these events. -/
def vprintf (out : List Event) (c : Console) : Console :=
  let c := putAll (charsOf out) c
  moveCursor c c.x c.y

/-! ## Runs -/

/-- The events of the format engine so far. -/
def Printf.Phase.out : Phase → List Event
  | .outer s | .inner _ s | .string _ _ _ s => s.out

/-- A call.  The handler of `XEOS_Video_VPrintf` is not `NULL`. -/
inductive Call where
  | putc (ch : UInt8) (updateCursor : Bool)
  | print (s : CString)
  | vprintf (lp64 : Bool) (format : CString) (args : Args)
  | clear
  | scroll (n : Nat)
  | setStickyLines (lines : Nat)

/-- The console when a call returns. -/
inductive Call.Ends (c : Console) : Call → Console → Prop
  | putc (ch : UInt8) (updateCursor : Bool) : Ends c (.putc ch updateCursor) (Video.putc ch updateCursor c)
  | print (s : CString) : Ends c (.print s) (Video.print s c)
  | vprintf {lp64 : Bool} {format : CString} {args : Args} {count : Int32} {out : List Event}
      (h : ProcessFormatString ⟨lp64, true, args⟩ format (.returned count out)) :
      Ends c (.vprintf lp64 format args) (Video.vprintf out c)
  | clear : Ends c .clear (Video.clear c)
  | scroll (n : Nat) : Ends c (.scroll n) (Video.scroll c n)
  | setStickyLines (lines : Nat) :
      Ends c (.setStickyLines lines) (Video.setStickyLines c lines)

/-- The console in a call that prints, between two of its characters.  The call need not
return. -/
inductive Call.Passes (c : Console) : Call → Console → Prop
  | print {s : CString} {chars : List UInt8} (h : chars <+: s.val) :
      Passes c (.print s) (putAll chars c)
  | vprintf {lp64 : Bool} {format : CString} {args : Args} {φ : Phase} {chars : List UInt8}
      (hvisits : Visits (step ⟨lp64, true, args⟩) (start format) φ) (h : chars <+: charsOf φ.out) :
      Passes c (.vprintf lp64 format args) (putAll chars c)

/-- The console between two calls. -/
inductive Reached : Console → Prop
  | boot {c : Console} (hx : c.x = 0) (hy : c.y = 0) (hsticky : c.stickyLines = 0) : Reached c
  | call {c c' : Console} {call : Call} (h : Reached c) (hends : call.Ends c c') : Reached c'

/-- The console between two calls, or between two characters of a call. -/
def Shown (c : Console) : Prop := Reached c ∨ ∃ c₀ call, Reached c₀ ∧ Call.Passes c₀ call c

/-! ## The invariant -/

/-- The cursor is on a row, behind the last column at most, and on the last row only in the
first column. -/
structure CursorFits (c : Console) : Prop where
  x : c.x ≤ videoCols
  y : c.y ≤ videoRows - 1
  last : c.y = videoRows - 1 → c.x = 0

/-- What every call keeps. -/
structure CursorInv (c : Console) : Prop extends CursorFits c where
  sticky : c.stickyLines < videoRows

/-- The cursor and the sticky lines are those of another console. -/
structure SameCursor (c c' : Console) : Prop where
  x : c'.x = c.x
  y : c'.y = c.y
  stickyLines : c'.stickyLines = c.stickyLines

theorem SameCursor.loop {body : Nat → Console → Console}
    (hbody : ∀ k t, SameCursor t (body k t)) (n : Nat) (c : Console) :
    SameCursor c (forLoop body n c) := by
  refine forLoop_inv body n c (fun _ t => SameCursor c t) ⟨rfl, rfl, rfl⟩ ?_
  intro k t _ ht
  have hk := hbody k t
  exact ⟨hk.x.trans ht.x, hk.y.trans ht.y, hk.stickyLines.trans ht.stickyLines⟩

theorem SameCursor.inv {c c' : Console} (h : SameCursor c c') (hc : CursorInv c) : CursorInv c' := by
  refine ⟨⟨?_, ?_, ?_⟩, ?_⟩
  · rw [h.x]
    exact hc.x
  · rw [h.y]
    exact hc.y
  · rw [h.x, h.y]
    exact hc.last
  · rw [h.stickyLines]
    exact hc.sticky

theorem sameCursor_blankCells (base n : Nat) (c : Console) :
    SameCursor c (blankCells base n c) := by
  refine SameCursor.loop ?_ n c
  intro k t
  exact ⟨rfl, rfl, rfl⟩

theorem sameCursor_copyBytes (base n count : Nat) (c : Console) :
    SameCursor c (forLoop (copyByte base n) count c) := by
  refine SameCursor.loop ?_ count c
  intro k t
  exact ⟨rfl, rfl, rfl⟩

/-- A scroll by less than the screen leaves the cursor where it is. -/
theorem sameCursor_scroll {n : Nat} (hn : n < videoRows) (c : Console) :
    SameCursor c (scroll c n) := by
  have hcopy := sameCursor_copyBytes (videoMem + c.stickyLines * videoCols * 2) n
    (videoCols * (videoRows - n) * 2) c
  have hblank := sameCursor_blankCells
    (videoMem + c.stickyLines * videoCols * 2 + videoCols * (videoRows - n) * 2) (videoCols * n)
    (forLoop (copyByte (videoMem + c.stickyLines * videoCols * 2) n)
      (videoCols * (videoRows - n) * 2) c)
  unfold scroll
  rw [if_neg (show ¬ n ≥ videoRows by omega)]
  exact ⟨hblank.x.trans hcopy.x, hblank.y.trans hcopy.y,
    hblank.stickyLines.trans hcopy.stickyLines⟩

/-- A move to the start of a line. -/
theorem CursorInv.moveCursor_zero {c : Console} (h : CursorInv c) {y : Nat}
    (hy : y ≤ videoRows - 1) : CursorInv (moveCursor c 0 y) :=
  ⟨⟨Nat.zero_le _, hy, fun _ => rfl⟩, h.sticky⟩

/-- A move to where the cursor is. -/
theorem CursorInv.moveCursor {c : Console} (h : CursorInv c) : CursorInv (moveCursor c c.x c.y) :=
  ⟨⟨h.x, h.y, h.last⟩, h.sticky⟩

theorem CursorInv.clear {c : Console} (h : CursorInv c) : CursorInv (clear c) := by
  have hloop : ∀ value : Nat, CursorInv (forLoop (fun i c =>
      (c.write (videoMem + 2 * i) (UInt8.ofNat value)).write (videoMem + 2 * i + 1)
        (UInt8.ofNat (value >>> 8))) (videoCols * videoRows) c) := by
    intro value
    refine SameCursor.inv (SameCursor.loop ?_ _ c) h
    intro k t
    exact ⟨rfl, rfl, rfl⟩
  unfold Video.clear
  dsimp only
  split_ifs
  · exact (hloop _).moveCursor_zero (Nat.zero_le _)
  · exact hloop _

theorem CursorInv.scroll {c : Console} (h : CursorInv c) (n : Nat) : CursorInv (scroll c n) := by
  by_cases hn : n < videoRows
  · exact (sameCursor_scroll hn c).inv h
  unfold Video.scroll
  rw [if_pos (show n ≥ videoRows by omega)]
  split_ifs
  · exact h.clear
  · have hblank := sameCursor_blankCells (videoMem + c.stickyLines * videoCols * 2)
      (videoCols * videoRows - c.stickyLines * videoCols) c
    refine (hblank.inv h).moveCursor_zero ?_
    have hlt := h.sticky
    rw [hblank.stickyLines]
    omega

/-- Before a character is put, the cursor is moved to a cell above the last row. -/
theorem makeRoom_spec {c : Console} (h : CursorInv c) :
    (makeRoom (wrapLine c)).x < videoCols ∧ (makeRoom (wrapLine c)).y < videoRows - 1 ∧
      (makeRoom (wrapLine c)).stickyLines < videoRows := by
  obtain ⟨⟨hx, hy, hlast⟩, hsticky⟩ := h
  have hcols : videoCols = 80 := rfl
  have hrows : videoRows = 25 := rfl
  have hwrap : (wrapLine c).x < videoCols ∧ (wrapLine c).y ≤ videoRows - 1 ∧
      (wrapLine c).stickyLines < videoRows := by
    unfold wrapLine
    split_ifs with hend
    · refine ⟨show 0 < videoCols by omega, show c.y + 1 ≤ videoRows - 1 from ?_, hsticky⟩
      have hrow : c.y ≠ videoRows - 1 := by
        intro hy'
        have hzero := hlast hy'
        omega
      omega
    · exact ⟨by omega, hy, hsticky⟩
  obtain ⟨hwx, hwy, hws⟩ := hwrap
  unfold makeRoom
  split_ifs with hrow
  · have hsame := sameCursor_scroll (show 1 < videoRows by omega) (wrapLine c)
    generalize Video.scroll (wrapLine c) 1 = t at hsame
    obtain ⟨htx, hty, hts⟩ := hsame
    exact ⟨show t.x < videoCols by omega, show t.y - 1 < videoRows - 1 by omega,
      show t.stickyLines < videoRows by omega⟩
  · exact ⟨hwx, by omega, hws⟩

theorem CursorInv.putc {c : Console} (h : CursorInv c) (ch : UInt8) (updateCursor : Bool) :
    CursorInv (putc ch updateCursor c) := by
  have hput : CursorInv (putCell ch (makeRoom (wrapLine c))) := by
    obtain ⟨hx, hy, hsticky⟩ := makeRoom_spec h
    generalize makeRoom (wrapLine c) = t at hx hy hsticky
    have hrows : videoRows = 25 := rfl
    unfold putCell
    split_ifs with hline
    · exact ⟨⟨Nat.zero_le _, show t.y + 1 ≤ videoRows - 1 by omega, fun _ => rfl⟩, hsticky⟩
    · refine ⟨⟨show t.x + 1 ≤ videoCols by omega, show t.y ≤ videoRows - 1 by omega, ?_⟩, hsticky⟩
      intro hlast
      exact absurd hlast (show ¬ t.y = videoRows - 1 by omega)
  unfold Video.putc
  generalize putCell ch (makeRoom (wrapLine c)) = t at hput
  dsimp only
  split_ifs
  · exact h
  · exact hput.moveCursor
  · exact hput

theorem CursorInv.putAll {c : Console} (h : CursorInv c) (chars : List UInt8) :
    CursorInv (putAll chars c) := by
  induction chars generalizing c with
  | nil => exact h
  | cons ch chars ih => exact ih (h.putc ch false)

theorem CursorInv.ends {c c' : Console} {call : Call} (h : CursorInv c) (hends : call.Ends c c') :
    CursorInv c' := by
  cases hends with
  | putc ch updateCursor => exact h.putc ch updateCursor
  | print s => exact (h.putAll s.val).moveCursor
  | vprintf hreturned => exact (h.putAll _).moveCursor
  | clear => exact h.clear
  | scroll n => exact h.scroll n
  | setStickyLines lines =>
    unfold Video.setStickyLines
    split_ifs with hlines
    · exact ⟨⟨h.x, h.y, h.last⟩, hlines⟩
    · exact h

/-- The invariant over whole runs. -/
theorem Reached.inv {c : Console} (h : Reached c) : CursorInv c := by
  induction h with
  | boot hx hy hsticky =>
    exact ⟨⟨by omega, by omega, fun _ => hx⟩, hsticky ▸ (show 0 < videoRows by decide)⟩
  | call _ hends ih => exact ih.ends hends

theorem Shown.inv {c : Console} (h : Shown c) : CursorInv c := by
  rcases h with hreached | ⟨c₀, call, hreached, hpasses⟩
  · exact hreached.inv
  · cases hpasses with
    | print hprefix => exact hreached.inv.putAll _
    | vprintf hvisits hprefix => exact hreached.inv.putAll _

/-! ## The cells -/

/-- The addresses that `XEOS_Video_Putc` writes a character and its attribute to. -/
def putcCells (ch : UInt8) (c : Console) : List Nat :=
  if ch = 0 ∨ ch = 0x0A then []
  else [cursorCell (makeRoom (wrapLine c)), cursorCell (makeRoom (wrapLine c)) + 1]

/-- They are all that it accesses but for the scroll. -/
theorem putc_accesses {ch : UInt8} (hnul : ch ≠ 0) (updateCursor : Bool) (c : Console) :
    (putc ch updateCursor c).accesses
      = (putcCells ch c).reverse ++ (makeRoom (wrapLine c)).accesses := by
  have hput : (putCell ch (makeRoom (wrapLine c))).accesses
      = (putcCells ch c).reverse ++ (makeRoom (wrapLine c)).accesses := by
    unfold putCell putcCells
    by_cases hline : ch = 0x0A
    · rw [if_pos hline, if_pos (Or.inr hline)]
      rfl
    · rw [if_neg hline, if_neg (not_or.mpr ⟨hnul, hline⟩)]
      rfl
  unfold putc
  rw [if_neg hnul, ← hput]
  cases updateCursor <;> rfl

theorem putcCells_onScreen {c : Console} (h : CursorInv c) (ch : UInt8) :
    ∀ a ∈ putcCells ch c, OnScreen a := by
  obtain ⟨hx, hy, -⟩ := makeRoom_spec h
  have hcols : videoCols = 80 := rfl
  have hrows : videoRows = 25 := rfl
  intro a ha
  unfold putcCells at ha
  unfold OnScreen
  split_ifs at ha with hch
  · exact absurd ha List.not_mem_nil
  · rw [List.mem_cons, List.mem_singleton] at ha
    unfold cursorCell at ha
    rw [hcols] at hx ha ⊢
    rw [hrows] at hy ⊢
    omega

/-- At every moment of every run the cursor is on the screen, and so is the cell of the next
character. -/
theorem cursor_stays {c : Console} (h : Shown c) :
    CursorFits c ∧ ∀ ch, ∀ a ∈ putcCells ch c, OnScreen a :=
  ⟨h.inv.toCursorFits, putcCells_onScreen h.inv⟩

/-- The console at boot. -/
def booted : Console where
  mem := fun _ => 0
  videoAttribute := 0x0F
  x := 0
  y := 0
  stickyLines := 0
  ports := []
  accesses := []

/-- After a scroll that leaves 24 sticky lines the cursor is on the last row. -/
theorem cursor_stays_sticky :
    let c := scroll (setStickyLines booted 24) 25
    CursorFits c ∧ ∀ ch, ∀ a ∈ putcCells ch c, OnScreen a :=
  cursor_stays (Or.inl (.call (.call (.boot rfl rfl rfl) (.setStickyLines 24)) (.scroll 25)))

end Xeos.Video
