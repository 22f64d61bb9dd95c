import Xeos.Lib.Memory

/-!
# The second stage

The main routine of the second stage boot loader as a machine over its labels.
`Machine` is what the computer answers: the processor, the A20 line and the
methods that enable it, and the outcomes of the procedures that the routine
calls for the memory map, the kernel file, the kernel header and the video mode.
One step runs the code from one label to the jump to the next.  Messages on the
screen are left out.

Three procedures are part of the model because the sequence depends on what they
test: `hasCPUID`, which toggles a flag, `cpu64`, which compares the highest
extended leaf, and `a20Enabled`, which writes two bytes that are one cell when
the line is off.
-/

namespace Xeos.Boot.Stage2

open Lib

/-! ## The computer -/

/-- What `cpuid` leaves in the registers. -/
structure Leaf where
  eax : BitVec 32
  ebx : BitVec 32
  ecx : BitVec 32
  edx : BitVec 32
deriving DecidableEq, Repr

/-- Bit 21 of `EFLAGS`. -/
def idFlag : BitVec 32 := 0x200000

structure Machine where
  cpuid : BitVec 32 → Leaf
  /-- The processor lets `EFLAGS.ID` be changed. -/
  idTogglable : Bool
  eflags : BitVec 32
  cr0 : BitVec 32
  cr4 : BitVec 32
  mem : Memory
  /-- The A20 line before the boot loader. -/
  a20 : Bool
  /-- The carry flag and the A20 line after `INT 15h` with `AX = 2401h`. -/
  biosA20 : Bool → Bool × Bool
  /-- A call without the carry flag has enabled the line. -/
  biosA20_enables : ∀ line, (biosA20 line).1 = false → (biosA20 line).2 = true
  systemControl : Bool → Bool
  keyboardOut : Bool → Bool
  keyboardControl : Bool → Bool
  /-- `EAX` of `XEOS.16.mem.getMemoryLayout`. -/
  memoryLayout : BitVec 32
  /-- `AX` of `XEOS.boot.stage2.kernel.load` for the 64 bits kernel, or the 32 bits one. -/
  kernelLoad : Bool → BitVec 16
  /-- `AX` and `EDI` of `XEOS.16.elf.32.checkHeader`. -/
  checkHeader32 : BitVec 16 × BitVec 32
  /-- `AX` and `EDI` of `XEOS.16.elf.64.checkHeader`. -/
  checkHeader64 : BitVec 16 × BitVec 32
  /-- `AX` of `XEOS.16.vesa.findVESAMode`. -/
  vesaMode : BitVec 16

/-- The switches of the assembler. -/
structure Build where
  /-- `XEOS32`, which forces the 32 bits mode. -/
  xeos32 : Bool
  /-- `XEOS_TEXT_ONLY`. -/
  textOnly : Bool

/-! ## The labels -/

/-- The messages for a kernel file that does not pass. -/
inductive Verify
  | magic | class_ | encoding | version | type | machine | eVersion | entry | other
deriving DecidableEq, Repr

inductive Error
  | fat12Dir | fat12Find | fat12Load | a20 | cpuid | memory | sse | vesa
  | verify32 (e : Verify)
  | verify64 (e : Verify)
deriving DecidableEq, Repr

inductive Label
  | memory
  | cpuid | cpuidOk | i386 | x86_64
  | a20Check | a20Bios | a20System | a20KeyboardOut | a20KeyboardControl
  | sse | sseSuccess
  | load | verify32 | entry32 | verify64 | entry64
  | vesa
  | switch | switch32 | switch64
  | error (e : Error)
deriving DecidableEq, Repr

structure State where
  label : Label
  a20 : Bool
  eflags : BitVec 32
  cr0 : BitVec 32
  cr4 : BitVec 32
  mem : Memory
  longMode : BitVec 8
  /-- The length of the memory map in the boot information. -/
  memoryLength : BitVec 32
  /-- The video mode in the boot information. -/
  videoMode : BitVec 16
  entry32 : BitVec 32
  entry64 : BitVec 32

/-! ## The processor checks -/

/-- `popfd`: the ID flag only changes on a processor that lets it. -/
def Machine.popfd (m : Machine) (old new : BitVec 32) : BitVec 32 :=
  if m.idTogglable then new else (new &&& ~~~idFlag) ||| (old &&& idFlag)

/-- `XEOS.16.cpu.hasCPUID`: the result and the flags. -/
def hasCPUID (m : Machine) (eflags : BitVec 32) : BitVec 16 × BitVec 32 :=
  let saved := eflags
  let eflags := m.popfd eflags (eflags ^^^ 0x200000)
  let _changed := ((eflags ^^^ saved) >>> 0x15) &&& 1
  -- the jump behind the comparison with one is not conditional
  (0x01, m.popfd eflags saved)

/-- `XEOS.16.cpu.64`. -/
def cpu64 (m : Machine) : BitVec 16 :=
  if (m.cpuid 0x80000000).eax < 0x80000001 then 0 else 0x01

/-- `XEOS.16.sse.available`. -/
def sseAvailable (m : Machine) : BitVec 16 :=
  if (m.cpuid 0x01).edx &&& 0x2000000 = 0 then 0 else 0x01

/-- `XEOS.16.sse.enable`, on `CR0` and `CR4`. -/
def sseEnable (cr0 cr4 : BitVec 32) : BitVec 32 × BitVec 32 :=
  ((cr0 &&& 0xFFFFFFFB) ||| 0x02, (cr4 ||| 0x400) ||| 0x200)

/-! ## The A20 line -/

/-- The address on the bus: without the line, bit 20 is zero. -/
def onBus (a20 : Bool) (a : Nat) : Nat :=
  if a20 then a else a % 2 ^ 20 + a / 2 ^ 21 * 2 ^ 21

/-- `XEOS.16.a20.enabled`: the result and the memory. -/
def a20Enabled (a20 : Bool) (mem : Memory) : BitVec 16 × Memory :=
  let esdi := onBus a20 (0x0000 * 16 + 0x0500)
  let dssi := onBus a20 (0xFFFF * 16 + 0x0510)
  let saved := mem esdi
  let saved' := mem dssi
  let mem := mem.set esdi 0x00
  let mem := mem.set dssi 0xFF
  let wrapped := mem esdi == 0xFF
  let mem := mem.set dssi saved'
  let mem := mem.set esdi saved
  (if wrapped then 0x00 else 0x01, mem)

/-- `XEOS.16.a20.enable.bios`: the result and the line. -/
def a20EnableBios (m : Machine) (line : Bool) : BitVec 16 × Bool :=
  ((if (m.biosA20 line).1 then 0x01 else 0), (m.biosA20 line).2)

/-! ## The steps -/

def loadError : BitVec 16 → Option Error
  | 1 => some .fat12Dir
  | 2 => some .fat12Find
  | 3 => some .fat12Load
  | _ => none

def verifyError : BitVec 16 → Verify
  | 1 => .magic
  | 2 => .class_
  | 3 => .encoding
  | 4 => .version
  | 5 => .type
  | 6 => .machine
  | 7 => .eVersion
  | _ => .other

/-- `@XEOS.boot.stage2.kernel.address`. -/
def kernelAddress : BitVec 32 := 0x00100000

/-- One method that enables the line, tested by `XEOS.16.a20.enabled`. -/
def a20Try (method : Bool → Bool) (next : Label) (s : State) : State :=
  let line := method s.a20
  let (ax, mem) := a20Enabled line s.mem
  { s with a20 := line, mem := mem, label := if ax = 0x01 then .sse else next }

/-- The code from one label to the next. -/
def step (b : Build) (m : Machine) (s : State) : State :=
  match s.label with
  | .memory =>
    if (m.memoryLayout).toInt > 0 then
      { s with memoryLength := m.memoryLayout, label := .cpuid }
    else { s with label := .error .memory }
  | .cpuid =>
    let (ax, eflags) := hasCPUID m s.eflags
    { s with eflags := eflags, label := if ax = 0x01 then .cpuidOk else .error .cpuid }
  | .cpuidOk =>
    let ax := cpu64 m
    let ax := if b.xeos32 then 0 else ax
    { s with label := if ax = 0x01 then .x86_64 else .i386 }
  | .i386 => { s with longMode := 0x00, label := .a20Check }
  | .x86_64 => { s with longMode := 0x01, label := .a20Check }
  | .a20Check =>
    let (ax, mem) := a20Enabled s.a20 s.mem
    { s with mem := mem, label := if ax = 0x00 then .a20Bios else .load }
  | .a20Bios =>
    let (ax, line) := a20EnableBios m s.a20
    { s with a20 := line, label := if ax = 0x00 then .sse else .a20System }
  | .a20System => a20Try m.systemControl .a20KeyboardOut s
  | .a20KeyboardOut => a20Try m.keyboardOut .a20KeyboardControl s
  | .a20KeyboardControl => a20Try m.keyboardControl (.error .a20) s
  | .sse => { s with label := if sseAvailable m = 0x01 then .sseSuccess else .error .sse }
  | .sseSuccess =>
    let (cr0, cr4) := sseEnable s.cr0 s.cr4
    { s with cr0 := cr0, cr4 := cr4, label := .load }
  | .load =>
    match loadError (m.kernelLoad (s.longMode = 1)) with
    | some e => { s with label := .error e }
    | none => { s with label := if s.longMode = 1 then .verify64 else .verify32 }
  | .verify32 =>
    let (ax, edi) := m.checkHeader32
    { s with
      entry32 := edi
      label := if ax = 0 then .entry32 else .error (.verify32 (verifyError ax)) }
  | .entry32 =>
    { s with
      label := if s.entry32.toInt ≥ kernelAddress.toInt then .vesa
        else .error (.verify32 .entry) }
  | .verify64 =>
    let (ax, edi) := m.checkHeader64
    { s with
      entry64 := edi
      label := if ax = 0 then .entry64 else .error (.verify64 (verifyError ax)) }
  | .entry64 =>
    { s with
      label := if s.entry64.toInt ≥ kernelAddress.toInt then .vesa
        else .error (.verify64 .entry) }
  | .vesa =>
    if m.vesaMode.toInt > 0 then
      { s with
        videoMode := if b.textOnly then s.videoMode else m.vesaMode
        label := .switch }
    else { s with label := .error .vesa }
  | .switch => { s with label := if s.longMode = 1 then .switch64 else .switch32 }
  | .switch32 => s
  | .switch64 => s
  | .error _ => s

/-- The state in front of the memory detection. -/
def start (m : Machine) : State where
  label := .memory
  a20 := m.a20
  eflags := m.eflags
  cr0 := m.cr0
  cr4 := m.cr4
  mem := m.mem
  longMode := 0
  memoryLength := 0
  videoMode := 0
  entry32 := 0
  entry64 := 0

/-- The state after a number of steps. -/
def run (b : Build) (m : Machine) : Nat → State
  | 0 => start m
  | n + 1 => step b m (run b m n)

end Xeos.Boot.Stage2
