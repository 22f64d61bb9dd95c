import Xeos.Lib.Memory
import Xeos.Lib.Loop

/-!
# The text console

`XEOS_Video_Scroll`, `XEOS_Video_Clear`, `XEOS_Video_MoveCursor` and
`XEOS_Video_SetStickyLines` over an explicit console state: the memory the video
buffer lies in, the cursor, the attribute byte and the number of sticky lines.

Every access through the video buffer pointer goes through `Console.read` or
`Console.write`, which record the address in `accesses`.  The record is not part
of the source; it is what a statement about the addresses a routine touches
speaks of.
-/

namespace Xeos.Video

open Lib

/-- `XEOS_VIDEO_MEM` -/
def videoMem : Nat := 0xB8000

/-- `XEOS_VIDEO_COLS` -/
def videoCols : Nat := 80

/-- `XEOS_VIDEO_ROWS` -/
def videoRows : Nat := 25

/-- `XEOS_HAL_CRTC_RegisterData` -/
def crtcRegisterData : Nat := 0x03D4

/-- `XEOS_HAL_CRTC_RegisterAddress` -/
def crtcRegisterAddress : Nat := 0x03D5

/-- `XEOS_HAL_CRTC_RegisterCursorLocationHigh` -/
def crtcRegisterCursorLocationHigh : Nat := 0x000E

/-- `XEOS_HAL_CRTC_RegisterCursorLocationLow` -/
def crtcRegisterCursorLocationLow : Nat := 0x000F

/-- The state of the console: the globals of `__XEOS_Video.c`, the memory, the
writes made to I/O ports (latest first), and the record of accessed addresses. -/
structure Console where
  mem : Memory
  videoAttribute : UInt8
  x : Nat
  y : Nat
  stickyLines : Nat
  ports : List (Nat × Nat)
  accesses : List Nat

namespace Console

/-- Read the byte at address `a`. -/
def read (c : Console) (a : Nat) : UInt8 × Console :=
  (c.mem a, { c with accesses := a :: c.accesses })

/-- Write the byte `v` at address `a`. -/
def write (c : Console) (a : Nat) (v : UInt8) : Console :=
  { c with mem := c.mem.set a v, accesses := a :: c.accesses }

/-- `XEOS_HAL_IO_PortOut` -/
def portOut (c : Console) (port value : Nat) : Console :=
  { c with ports := (port, value) :: c.ports }

/-- The console with an empty record of accesses. -/
def untraced (c : Console) : Console := { c with accesses := [] }

end Console

/-- `XEOS_Video_MoveCursor` -/
def moveCursor (c : Console) (x y : Nat) : Console :=
  let c := { c with x := x, y := y }
  let x := if x < videoCols - 1 then x else videoCols - 1
  let y := if y < videoRows - 1 then y else videoRows - 1
  let pos := (x + y * videoCols) % 2 ^ 16
  let posH := (pos / 2 ^ 8) % 2 ^ 8
  let posL := pos % 2 ^ 8
  let c := c.portOut crtcRegisterData crtcRegisterCursorLocationHigh
  let c := c.portOut crtcRegisterAddress posH
  let c := c.portOut crtcRegisterData crtcRegisterCursorLocationLow
  c.portOut crtcRegisterAddress posL

/-- `XEOS_Video_SetStickyLines` -/
def setStickyLines (c : Console) (lines : Nat) : Console :=
  if lines < videoRows then { c with stickyLines := lines } else c

/-- The body of the blanking loops: a space and the current attribute at `a`. -/
def blankCell (c : Console) (a : Nat) : Console :=
  (c.write a 0x20).write (a + 1) c.videoAttribute

/-- A blanking loop: `n` cells from `base`.  The loops of the source count bytes
in steps of two. -/
def blankCells (base n : Nat) (c : Console) : Console :=
  forLoop (fun k c => blankCell c (base + 2 * k)) n c

/-- One round of the copy loop of `XEOS_Video_Scroll`:
`mem[i] = mem[i + (XEOS_VIDEO_COLS * 2 * n)]`. -/
def copyByte (base n i : Nat) (c : Console) : Console :=
  let r := c.read (base + (i + videoCols * 2 * n))
  r.2.write (base + i) r.1

/-- `XEOS_Video_Clear`.  A 16-bit store writes the character byte, then the
attribute byte. -/
def clear (c : Console) : Console :=
  let value := (c.videoAttribute.toNat <<< 8) % 2 ^ 16 ||| 0x20
  let memSize := videoCols * videoRows
  let c := forLoop (fun i c =>
    (c.write (videoMem + 2 * i) (UInt8.ofNat value)).write (videoMem + 2 * i + 1)
      (UInt8.ofNat (value >>> 8))) memSize c
  if c.x ≠ 0 ∨ c.y ≠ 0 then moveCursor c 0 0 else c

/-- `XEOS_Video_Scroll` -/
def scroll (c : Console) (n : Nat) : Console :=
  if n ≥ videoRows then
    if c.stickyLines = 0 then
      clear c
    else
      let c := blankCells (videoMem + c.stickyLines * videoCols * 2)
        (videoCols * videoRows - c.stickyLines * videoCols) c
      moveCursor c 0 c.stickyLines
  else
    let mem := videoMem + c.stickyLines * videoCols * 2
    let count := videoCols * (videoRows - n) * 2
    let c := forLoop (copyByte mem n) count c
    blankCells (mem + count) (videoCols * n) c

end Xeos.Video
