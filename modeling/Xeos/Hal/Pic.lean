/-!
# The interrupt controllers

`Chip` is an 8259 interrupt controller as its two ports show it: a command with
bit 4 set starts the initialisation sequence, the next three data writes are its
words two to four, and every later data write is the interrupt mask.  Below it
are the functions of `hal/pic`, which reach the two controllers by port number.
-/

namespace Xeos.Hal.Pic

/-- `XEOS_HAL_PIC_Controller`. -/
inductive Controller where
  | controller1
  | controller2
deriving DecidableEq, Repr

/-- `XEOS_HAL_PIC_Register`. -/
inductive Register where
  | command
  | status
  | data
deriving DecidableEq, Repr

/-- `XEOS_HAL_PIC_IRQ`, the sixteen lines of the two controllers. -/
abbrev Irq := Fin 16

def GetRegister : Controller → Register → UInt8
  | .controller1, .command => 0x20
  | .controller1, .status => 0x20
  | .controller1, .data => 0x21
  | .controller2, .command => 0xA0
  | .controller2, .status => 0xA0
  | .controller2, .data => 0xA1

/-! ## The chip -/

/-- The word of the initialisation sequence that a data write is taken for. -/
inductive Expect where
  | icw2
  | icw3
  | icw4
  | mask
deriving DecidableEq, Repr

structure Chip where
  /-- The vector of the first line, from word two. -/
  base : UInt8
  /-- The interrupt mask register. -/
  mask : UInt8
  expect : Expect
deriving DecidableEq, Repr

namespace Chip

/-- A command without bit 4 leaves the vectors alone. -/
def writeCommand (v : UInt8) (c : Chip) : Chip :=
  if v &&& 0x10 ≠ 0 then { c with mask := 0, expect := .icw2 } else c

def writeData (v : UInt8) (c : Chip) : Chip :=
  match c.expect with
  | .icw2 => { c with base := v &&& 0xF8, expect := .icw3 }
  | .icw3 => { c with expect := .icw4 }
  | .icw4 => { c with expect := .mask }
  | .mask => { c with mask := v }

end Chip

/-! ## The ports -/

/-- The two controllers of the machine. -/
structure Chips where
  controller1 : Chip
  controller2 : Chip
deriving DecidableEq, Repr

/-- `XEOS_HAL_IO_PortOut` on the four ports of the controllers. -/
def PortOut (port v : UInt8) (s : Chips) : Chips :=
  if port = 0x20 then { s with controller1 := s.controller1.writeCommand v }
  else if port = 0x21 then { s with controller1 := s.controller1.writeData v }
  else if port = 0xA0 then { s with controller2 := s.controller2.writeCommand v }
  else if port = 0xA1 then { s with controller2 := s.controller2.writeData v }
  else s

/-- `XEOS_HAL_IO_PortIn` on the two data ports, which read the mask. -/
def PortIn (port : UInt8) (s : Chips) : UInt8 :=
  if port = 0x21 then s.controller1.mask
  else if port = 0xA1 then s.controller2.mask
  else 0

def SendCommand (c : Controller) (command : UInt8) : Chips → Chips :=
  PortOut (GetRegister c .command) command

def SendData (c : Controller) (data : UInt8) : Chips → Chips :=
  PortOut (GetRegister c .data) data

/-- `XEOS_HAL_PIC_Remap`.  The command is `ICW1Init | ICW1IC4`, and the last
word is `ICW4UPM`. -/
def Remap (masterBase slaveBase : UInt8) (s : Chips) : Chips :=
  let mask1 := PortIn (GetRegister .controller1 .data) s
  let mask2 := PortIn (GetRegister .controller2 .data) s
  let s := SendCommand .controller1 (0x10 ||| 0x01) s
  let s := SendCommand .controller2 (0x10 ||| 0x01) s
  let s := SendData .controller1 masterBase s
  let s := SendData .controller2 slaveBase s
  let s := SendData .controller1 0x04 s
  let s := SendData .controller2 0x02 s
  let s := SendData .controller1 0x01 s
  let s := SendData .controller2 0x01 s
  let s := PortOut (GetRegister .controller1 .data) mask1 s
  PortOut (GetRegister .controller2 .data) mask2 s

/-- The vector at which the controllers deliver a line. -/
def vector (s : Chips) (i : Irq) : UInt8 :=
  if i.val < 8 then s.controller1.base + UInt8.ofNat i.val
  else s.controller2.base + UInt8.ofNat (i.val - 8)

/-- From any state of the controllers, the vectors move and the masks stay. -/
theorem Remap_spec (masterBase slaveBase : UInt8) (s : Chips) :
    Remap masterBase slaveBase s =
      { controller1 := ⟨masterBase &&& 0xF8, s.controller1.mask, .mask⟩
        controller2 := ⟨slaveBase &&& 0xF8, s.controller2.mask, .mask⟩ } := by
  rfl

/-- An end of interrupt does not change the vectors or the masks. -/
theorem SendCommand_eoi (c : Controller) (s : Chips) : SendCommand c 0x20 s = s := by
  cases c with
  | controller1 => rfl
  | controller2 => rfl

/-- `XEOS_Main` asks for the vectors `0x20` to `0x2F`. -/
theorem vector_Remap (s : Chips) (i : Irq) :
    vector (Remap 0x20 0x28 s) i = 0x20 + UInt8.ofNat i.val := by
  rw [Remap_spec]
  simp only [vector]
  revert i
  decide

end Xeos.Hal.Pic
