import Xeos.Video.Terminal

/-!
# The status of a step

`__XEOS_Main_PromptWithStatus`, with which the kernel tells of its steps: a message behind the
prompt, and the status in brackets at the right of the screen.
-/

namespace Xeos.Video

open Lib Printf

/-! ## The calls -/

/-- `XEOS_Video_ColorWhite` -/
def colorWhite : UInt8 := 0x0F

/-- `XEOS_Video_ColorCyanLight` -/
def colorCyanLight : UInt8 := 0x0B

/-- `__XEOS_Video_PromptPart1` -/
def promptPart1 : CString := ⟨[0x5B, 0x20], by decide⟩

/-- `__XEOS_Video_PromptPart2` -/
def promptPart2 : CString := ⟨[0x58, 0x45, 0x4F, 0x53], by decide⟩

/-- `__XEOS_Video_PromptPart3` -/
def promptPart3 : CString := ⟨[0x20, 0x5D, 0x3E, 0x20], by decide⟩

def newLine : CString := ⟨[0x0A], by decide⟩

def space : CString := ⟨[0x20], by decide⟩

/-- `XEOS_Video_GetPromptLength` -/
def getPromptLength : Nat :=
  promptPart1.val.length + promptPart2.val.length + promptPart3.val.length

/-- `XEOS_Video_PrintPrompt` -/
def printPrompt (c : Console) : Console :=
  let c := if c.x ≠ 0 then print newLine c else c
  let c := setFG colorWhite c
  let c := print promptPart1 c
  let c := setFG colorCyanLight c
  let c := print promptPart2 c
  let c := setFG colorWhite c
  print promptPart3 c

/-- The loops that print spaces. -/
def spaces (n : Nat) (c : Console) : Console := forLoop (fun _ c => print space c) n c

/-- The message of `__XEOS_Main_PromptWithStatus`. -/
def tell (message : Option CString) (c : Console) : Console :=
  match message with
  | some message => print space (print message (printPrompt c))
  | none => c

/-- The spaces of `__XEOS_Main_PromptWithStatus` in front of a status of that length. -/
def align (statusLength : Nat) (c : Console) : Console :=
  let x := c.x
  let cols := 80
  if x + statusLength > cols - 1 then
    let c := print newLine c
    if statusLength + getPromptLength < cols then spaces (cols - 1 - statusLength) c
    else spaces getPromptLength c
  else spaces (cols - 1 - (x + statusLength)) c

/-- The status in its brackets. -/
def putStatus (status : CString) (statusColor : UInt8) (c : Console) : Console :=
  let c := print ⟨[0x5B, 0x20], by decide⟩ c
  let c := setFG statusColor c
  let c := print status c
  let c := setFG colorWhite c
  print ⟨[0x20, 0x5D, 0x0A], by decide⟩ c

/-- `__XEOS_Main_PromptWithStatus`, with the variable `__lastPromptMessage`. -/
def promptWithStatus (lastPromptMessage message : Option CString) (status : CString)
    (statusColor : UInt8) (c : Console) : Option CString × Console :=
  let r := if message.isSome ∧ lastPromptMessage.isSome then (none, print newLine c)
    else (lastPromptMessage, c)
  let statusLength := status.val.length + 4
  (r.1, putStatus status statusColor (align statusLength (tell message r.2)))

/-! ## What they print -/

namespace Terminal

variable {t : Terminal} {chars : List UInt8}

theorem write_append (t : Terminal) (a b : List UInt8) :
    t.write (a ++ b) = (t.write a).write b :=
  List.foldl_append

/-- Characters that the row has room for. -/
theorem write_row (hnul : 0 ∉ chars) (hline : 0x0A ∉ chars)
    (hroom : t.paper.row.length + chars.length ≤ videoCols) :
    (t.write chars).paper.rows = t.paper.rows ∧
      (t.write chars).paper.row = t.paper.row ++ chars.map fun ch => ⟨ch, t.attr⟩ := by
  induction chars generalizing t with
  | nil => exact ⟨rfl, (List.append_nil _).symm⟩
  | cons ch chars ih =>
    rw [List.length_cons] at hroom
    rw [List.mem_cons, not_or] at hnul hline
    have hwrap : t.paper.wrap = t.paper := if_neg (by omega)
    have hchar : t.char ch = { t with paper := t.paper.put ⟨ch, t.attr⟩ } := by
      rw [char, if_neg (Ne.symm hnul.1), if_neg (Ne.symm hline.1)]
    have hrow : (t.char ch).paper.row = t.paper.row ++ [⟨ch, t.attr⟩] := by
      rw [hchar]
      change t.paper.wrap.row ++ [_] = _
      rw [hwrap]
    have hrows : (t.char ch).paper.rows = t.paper.rows := by
      rw [hchar]
      change t.paper.wrap.rows = t.paper.rows
      rw [hwrap]
    have hattr : (t.char ch).attr = t.attr := by rw [hchar]
    have hfits : (t.char ch).paper.row.length + chars.length ≤ videoCols := by
      rw [hrow, List.length_append, List.length_singleton]
      omega
    obtain ⟨hrows', hrow'⟩ := ih hnul.2 hline.2 hfits
    refine ⟨hrows'.trans hrows, hrow'.trans ?_⟩
    rw [hrow, hattr, List.append_assoc]
    rfl

/-- A line feed behind a row that is not full. -/
theorem write_newLine (t : Terminal) : (t.write [0x0A]).paper = t.paper.wrap.feed := rfl

end Terminal

section Calls

variable {c : Console} {t : Terminal} {pinned : Nat}

theorem length_of_glyphs {cells : List Cell} {text : List UInt8}
    (h : cells.map Cell.glyph = text) : cells.length = text.length := by
  rw [← h, List.length_map]

/-- A text that the row has room for. -/
theorem Shows.printRow (h : Shows c pinned t) (hpinned : pinned < videoRows - 1) (s : CString)
    (hline : 0x0A ∉ s.val) (hroom : t.paper.row.length + s.val.length ≤ videoCols) :
    ∃ t' cells, Shows (Video.print s c) pinned t' ∧ t'.paper.rows = t.paper.rows ∧
      t'.paper.row = t.paper.row ++ cells ∧ cells.map Cell.glyph = s.val := by
  obtain ⟨hrows, hrow⟩ := Terminal.write_row s.property hline hroom
  refine ⟨_, _, h.print hpinned s, hrows, hrow, ?_⟩
  rw [List.map_map]
  exact List.map_id _

/-- A text with a line feed at its end, in a row that stays shorter than the screen. -/
theorem Shows.printLine (h : Shows c pinned t) (hpinned : pinned < videoRows - 1) (s : CString)
    {text : List UInt8} (hs : s.val = text ++ [0x0A]) (hline : 0x0A ∉ text)
    (hroom : t.paper.row.length + text.length < videoCols) :
    ∃ t' cells, Shows (Video.print s c) pinned t' ∧ t'.paper.row = [] ∧
      t'.paper.rows = t.paper.rows ++ [t.paper.row ++ cells] ∧ cells.map Cell.glyph = text := by
  have hnul : 0 ∉ text := fun hmem => s.property (hs ▸ List.mem_append_left _ hmem)
  obtain ⟨hrows, hrow⟩ := Terminal.write_row hnul hline (Nat.le_of_lt hroom)
  have hprint := h.print hpinned s
  rw [hs, Terminal.write_append] at hprint
  generalize t.write text = u at hprint hrows hrow
  have hwrap : u.paper.wrap = u.paper := by
    refine if_neg ?_
    rw [hrow, List.length_append, List.length_map]
    omega
  refine ⟨_, text.map fun ch => ⟨ch, t.attr⟩, hprint, rfl, ?_, ?_⟩
  · rw [Terminal.write_newLine, hwrap]
    change u.paper.rows ++ [u.paper.row] = _
    rw [hrows, hrow]
  · rw [List.map_map]
    exact List.map_id _

theorem Shows.spaces (h : Shows c pinned t) (hpinned : pinned < videoRows - 1) {n : Nat}
    (hroom : t.paper.row.length + n ≤ videoCols) :
    ∃ t', Shows (spaces n c) pinned t' ∧ t'.paper.row.length = t.paper.row.length + n := by
  induction n with
  | zero => exact ⟨t, h, rfl⟩
  | succ n ih =>
    obtain ⟨t₁, h₁, hlength⟩ := ih (by omega)
    obtain ⟨t₂, cells, h₂, -, hrow, hcells⟩ :=
      h₁.printRow hpinned space (by decide) (show t₁.paper.row.length + 1 ≤ videoCols by omega)
    refine ⟨t₂, h₂, ?_⟩
    rw [hrow, List.length_append, length_of_glyphs hcells, hlength]
    rfl

theorem Shows.printPrompt (h : Shows c pinned t) (hpinned : pinned < videoRows - 1) :
    ∃ t', Shows (printPrompt c) pinned t' := by
  have hline : ∃ t', Shows (if c.x ≠ 0 then Video.print newLine c else c) pinned t' := by
    split
    · exact ⟨_, h.print hpinned newLine⟩
    · exact ⟨t, h⟩
  obtain ⟨t', h'⟩ := hline
  exact ⟨_, ((((h'.setFG colorWhite).print hpinned promptPart1).setFG colorCyanLight).print hpinned
    promptPart2 |>.setFG colorWhite).print hpinned promptPart3⟩

theorem Shows.tell (h : Shows c pinned t) (hpinned : pinned < videoRows - 1)
    (message : Option CString) : ∃ t', Shows (tell message c) pinned t' := by
  cases message with
  | none => exact ⟨t, h⟩
  | some message =>
    obtain ⟨t', h'⟩ := h.printPrompt hpinned
    exact ⟨_, (h'.print hpinned message).print hpinned space⟩

/-- The spaces end where the status has to begin. -/
theorem Shows.align (h : Shows c pinned t) (hpinned : pinned < videoRows - 1) {n : Nat}
    (hn : n + getPromptLength < 80) :
    ∃ t', Shows (align n c) pinned t' ∧ t'.paper.row.length + n = 79 := by
  have hcols : videoCols = 80 := rfl
  have hx := h.x
  rw [Video.align]
  split
  · have hnew := h.print hpinned newLine
    have hrow : (t.write newLine.val).paper.row.length = 0 := rfl
    obtain ⟨t', h', hlength⟩ :=
      hnew.spaces hpinned (show _ + (80 - 1 - n) ≤ videoCols by omega)
    exact ⟨t', h', by omega⟩
  · obtain ⟨t', h', hlength⟩ :=
      h.spaces hpinned (show _ + (80 - 1 - (c.x + n)) ≤ videoCols by omega)
    exact ⟨t', h', by omega⟩

/-- The status in its brackets, as it stands in the row. -/
def statusText (status : CString) : List UInt8 := [0x5B, 0x20] ++ status.val ++ [0x20, 0x5D]

theorem Shows.putStatus (h : Shows c pinned t) (hpinned : pinned < videoRows - 1)
    {status : CString} (statusColor : UInt8) (hline : 0x0A ∉ status.val)
    (hroom : t.paper.row.length + (status.val.length + 4) < videoCols) :
    ∃ t' cells, Shows (putStatus status statusColor c) pinned t' ∧ t'.paper.row = [] ∧
      t'.paper.rows = t.paper.rows ++ [t.paper.row ++ cells] ∧
      cells.map Cell.glyph = statusText status := by
  obtain ⟨t₁, opened, h₁, hrows₁, hrow₁, hopened⟩ :=
    h.printRow hpinned ⟨[0x5B, 0x20], by decide⟩ (by decide)
      (show t.paper.row.length + 2 ≤ videoCols by omega)
  have hlength₁ : t₁.paper.row.length = t.paper.row.length + 2 := by
    rw [hrow₁, List.length_append, length_of_glyphs hopened]
    rfl
  obtain ⟨t₂, cells, h₂, hrows₂, hrow₂, hcells⟩ :=
    (h₁.setFG statusColor).printRow hpinned status hline
      (show t₁.paper.row.length + status.val.length ≤ videoCols by omega)
  have hlength₂ : t₂.paper.row.length = t.paper.row.length + 2 + status.val.length := by
    rw [hrow₂, List.length_append, length_of_glyphs hcells, ← hlength₁]
    rfl
  obtain ⟨t₃, closed, h₃, hempty, hrows₃, hclosed⟩ :=
    (h₂.setFG colorWhite).printLine hpinned ⟨[0x20, 0x5D, 0x0A], by decide⟩
      (show _ = [0x20, 0x5D] ++ [0x0A] from rfl) (by decide)
      (show t₂.paper.row.length + 2 < videoCols by omega)
  refine ⟨t₃, opened ++ cells ++ closed, h₃, hempty, ?_, ?_⟩
  · have hrow : t₂.paper.row = t.paper.row ++ opened ++ cells := by
      rw [← hrow₁]
      exact hrow₂
    have hrows : t₂.paper.rows = t.paper.rows := hrows₂.trans hrows₁
    rw [hrows₃]
    change t₂.paper.rows ++ [t₂.paper.row ++ closed] = _
    rw [hrows, hrow, List.append_assoc, List.append_assoc, List.append_assoc]
  · rw [List.map_append, List.map_append, hopened, hcells, hclosed]
    rfl

/-- A text ends in front of the last column, in the row above the cursor. -/
structure RightAligned (text : List UInt8) (c : Console) : Prop where
  x : c.x = 0
  y : 0 < c.y
  cell : ∀ i (hi : i < text.length),
    c.mem (rowByte (c.y - 1) (2 * (79 - text.length + i))) = text[i]

/-- The last line that is finished stands above the cursor. -/
theorem Shows.rightAligned (h : Shows c pinned t) (hpinned : pinned < videoRows - 1)
    {rows : List (List Cell)} {row cells : List Cell} (hempty : t.paper.row = [])
    (hrows : t.paper.rows = rows ++ [row ++ cells]) (hcolumn : row.length + cells.length = 79) :
    RightAligned (cells.map Cell.glyph) c := by
  have hheight : videoRows = 25 := rfl
  have hnumber : t.paper.rows.length = rows.length + 1 := by
    rw [hrows, List.length_append, List.length_singleton]
  have hy := h.y
  rw [Paper.place, if_pos hempty, hnumber] at hy
  have hlast : t.paper.lineAt pinned c.y (c.y - 1) = rows.length := by
    have hfirst := h.displays.first
    rw [Paper.lineAt]
    split <;> omega
  have hline : t.paper.line rows.length = row ++ cells := by
    rw [Paper.line, hrows, List.append_assoc, List.getD_append_right _ _ _ _ (Nat.le_refl _),
      Nat.sub_self]
    rfl
  have hshown := h.displays.line (c.y - 1) (Nat.sub_le _ _)
  rw [hlast, hline] at hshown
  refine ⟨h.x.trans (congrArg List.length hempty), by omega, fun i hi => ?_⟩
  rw [List.length_map] at hi ⊢
  have hcell := (hshown.cell (row.length + i) (by rw [List.length_append]; omega)).1
  rw [List.getElem_append_right (Nat.le_add_right _ _)] at hcell
  rw [show 79 - cells.length + i = row.length + i by omega, hcell]
  simp only [List.getElem_map, Nat.add_sub_cancel_left]

end Calls

/-- The status ends in front of the last column, whatever the message is. -/
theorem status_aligned {c : Console} {t : Terminal} {pinned : Nat}
    (hpinned : pinned < videoRows - 1) (h : Shows c pinned t)
    (lastPromptMessage message : Option CString) {status : CString} (statusColor : UInt8)
    (hline : 0x0A ∉ status.val) (hlength : status.val.length + 4 + getPromptLength < 80) :
    RightAligned (statusText status)
      (promptWithStatus lastPromptMessage message status statusColor c).2 := by
  have hcols : videoCols = 80 := rfl
  have hbegin : ∃ t₀, Shows (if message.isSome ∧ lastPromptMessage.isSome
      then ((none : Option CString), print newLine c) else (lastPromptMessage, c)).2 pinned t₀ := by
    split
    · exact ⟨_, h.print hpinned newLine⟩
    · exact ⟨t, h⟩
  obtain ⟨t₀, h₀⟩ := hbegin
  obtain ⟨t₁, h₁⟩ := h₀.tell hpinned message
  obtain ⟨t₂, h₂, hplace⟩ := h₁.align hpinned hlength
  obtain ⟨t₃, cells, h₃, hempty, hrows, hglyphs⟩ :=
    h₂.putStatus hpinned statusColor hline (by omega)
  have htext : (statusText status).length = status.val.length + 4 := by
    rw [statusText, List.length_append, List.length_append]
    change 2 + status.val.length + 2 = _
    omega
  have hcount : cells.length = status.val.length + 4 := (length_of_glyphs hglyphs).trans htext
  rw [← hglyphs]
  exact h₃.rightAligned hpinned hempty hrows (by omega)

/-- The first step of the kernel. -/
theorem status_aligned_kernel : RightAligned (statusText ⟨[0x4F, 0x4B], by decide⟩)
    (promptWithStatus none (some ⟨[0x45], by decide⟩) ⟨[0x4F, 0x4B], by decide⟩ 0x0A
      (setStickyLines (clear headerConsole) 1)).2 :=
  status_aligned (by decide)
    (shows_start (by decide) fun _ _ _ =>
      ⟨fun k hk => absurd hk (Nat.not_lt_zero k), fun _ _ _ => rfl⟩)
    none (some ⟨[0x45], by decide⟩) 0x0A (by decide) (by decide)

end Xeos.Video
