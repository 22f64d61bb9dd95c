import Xeos.Boot.Proc
import Xeos.Boot.Stage2
import Xeos.Lib.PageTable

/-!
# The page tables of the boot loader

`XEOS.boot.stage2.setupPaging` and `XEOS.16.cpu.pae`.  There are three set-ups:
without PAE two levels of tables, with PAE three for the 32 bits kernel and four
for the 64 bits one.  Each clears its tables with `rep stosd`, links them, and
fills the page tables with one loop.

The branch without PAE takes one word less off the stack than it put there, so
its two last pops give `ES` and `DS` the wrong words.  The end of the procedure
restores both from the frame.
-/

namespace Xeos.Boot

open Lib Lib.Real Stage2

section Routine

variable (cpuid : BitVec 32 → Leaf) (longMode : Nat) (ret : BitVec 16)

/-- `cpuid`. -/
def execCpuid (c : Cpu) : Cpu :=
  let leaf := cpuid (c.reg .ax)
  let c := c.setReg .ax leaf.eax.toNat
  let c := c.setReg .bx leaf.ebx.toNat
  let c := c.setReg .cx leaf.ecx.toNat
  c.setReg .dx leaf.edx.toNat

/-- `XEOS.16.cpu.pae`. -/
def cpuPae (c : Cpu) : Cpu :=
  let c := procStart 0 c
  let c := c.setReg .ax 0x01
  let c := execCpuid cpuid c
  let c := c.setReg .dx (c.reg .dx &&& 0x40).toNat
  if c.reg .dx = 0 then (procEnd c).setWord .ax 0 else (procEnd c).setWord .ax 0x01

/-- The loops that fill the page tables, with entries `stride` bytes apart. -/
def setEntries (stride : Nat) (c : Cpu) : Cpu :=
  c.loopCx fun c =>
    let c := c.store 4 .ds (c.reg .di).toNat (c.reg .bx).toNat
    let c := c.setReg .bx ((c.reg .bx).toNat + 0x1000)
    c.setReg .di ((c.reg .di).toNat + stride)

/-- The start of `.setup`, up to the cleared tables. -/
def setupClear (c : Cpu) : Cpu :=
  let c := c.setReg .di 0x00012000
  let c := c.setCr 3 (c.reg .di)
  let c := c.setReg .ax 0
  let c := c.setReg .di 0x2000
  let c := c.setReg .cx 0x1000
  c.rep Cpu.stosd

/-- The directory of `.setup`, and the start of the loop. -/
def setupLink (c : Cpu) : Cpu :=
  let c := c.setReg .di 0x2000
  let c := c.store 4 .ds (c.reg .di).toNat 0x00013003
  let c := c.store 4 .ds ((c.reg .di).toNat + 4) 0x00014003
  let c := c.store 4 .ds ((c.reg .di).toNat + 8) 0x00015003
  let c := c.setReg .di ((c.reg .di).toNat + 0x00001000)
  let c := c.setReg .bx 0x00000003
  let c := c.setReg .cx 0x00000400
  let c := c.setReg .cx ((c.reg .cx).toNat + 0x00000400)
  c.setReg .cx ((c.reg .cx).toNat + 0x00000400)

/-- `.setup`. -/
def setup (c : Cpu) : Cpu := setEntries 4 (setupLink (setupClear c))

/-- The directory of both set-ups with PAE, and the start of the loop. -/
def setupPdt (c : Cpu) : Cpu :=
  let c := c.store 4 .ds (c.reg .di).toNat 0x00013003
  let c := c.store 4 .ds ((c.reg .di).toNat + 8) 0x00014003
  let c := c.store 4 .ds ((c.reg .di).toNat + 16) 0x00015003
  let c := c.store 4 .ds ((c.reg .di).toNat + 24) 0x00016003
  let c := c.store 4 .ds ((c.reg .di).toNat + 32) 0x00017003
  let c := c.store 4 .ds ((c.reg .di).toNat + 40) 0x00018003
  let c := c.setReg .di ((c.reg .di).toNat + 0x00001000)
  let c := c.setReg .bx 0x00000003
  let c := c.setReg .cx 0x00000200
  let c := c.setReg .cx ((c.reg .cx).toNat + 0x00000200)
  let c := c.setReg .cx ((c.reg .cx).toNat + 0x00000200)
  let c := c.setReg .cx ((c.reg .cx).toNat + 0x00000200)
  let c := c.setReg .cx ((c.reg .cx).toNat + 0x00000200)
  c.setReg .cx ((c.reg .cx).toNat + 0x00000200)

/-- The start of `.setup.pae.32`, up to the cleared tables. -/
def setupPae32Clear (c : Cpu) : Cpu :=
  let c := c.setReg .di 0x00011000
  let c := c.setCr 3 (c.reg .di)
  let c := c.setReg .ax 0x1000
  let c := c.setReg .di (c.reg .ax).toNat
  let c := c.setReg .ax 0
  let c := c.setReg .cx 0x2000
  c.rep Cpu.stosd

/-- The table above the directory of `.setup.pae.32`. -/
def setupPae32Link (c : Cpu) : Cpu :=
  let c := c.setReg .ax 0x1000
  let c := c.setReg .di (c.reg .ax).toNat
  let c := c.store 4 .ds (c.reg .di).toNat 0x00012001
  c.setReg .di ((c.reg .di).toNat + 0x00001000)

/-- `.setup.pae.32`. -/
def setupPae32 (c : Cpu) : Cpu := setEntries 8 (setupPdt (setupPae32Link (setupPae32Clear c)))

/-- The start of `.setup.pae.64`, up to the cleared tables. -/
def setupPae64Clear (c : Cpu) : Cpu :=
  let c := c.setReg .di 0x00010000
  let c := c.setCr 3 (c.reg .di)
  let c := c.setReg .ax 0
  let c := c.setReg .di (c.reg .ax).toNat
  let c := c.setReg .cx 0x2400
  c.rep Cpu.stosd

/-- The tables above the directory of `.setup.pae.64`. -/
def setupPae64Link (c : Cpu) : Cpu :=
  let c := c.setReg .ax 0
  let c := c.setReg .di (c.reg .ax).toNat
  let c := c.store 4 .ds (c.reg .di).toNat 0x00011003
  let c := c.setReg .di ((c.reg .di).toNat + 0x00001000)
  let c := c.store 4 .ds (c.reg .di).toNat 0x00012003
  c.setReg .di ((c.reg .di).toNat + 0x00001000)

/-- `.setup.pae.64`. -/
def setupPae64 (c : Cpu) : Cpu := setEntries 8 (setupPdt (setupPae64Link (setupPae64Clear c)))

/-- `.setup.pae`. -/
def setupPae (c : Cpu) : Cpu :=
  let c := c.pop (.word .ax)
  let c := c.pop (.word .bx)
  let c := c.push (.word .ax)
  if c.word .bx = 0x01 then setupPae64 c else setupPae32 c

/-- Up to the jump to one of the set-ups. -/
def setupChoose (c : Cpu) : Cpu :=
  let c := procStart 0 c
  let c := c.push (.seg .ds)
  let c := c.push (.seg .es)
  let c := c.setWord .ax 0
  let c := c.setLow .ax (c.load 1 .ds longMode)
  let c := c.push (.word .ax)
  let c := c.setWord .ax 0x1000
  let c := c.setSeg .ds (c.word .ax)
  let c := c.setSeg .es (c.word .ax)
  let c := c.setReg .ax (c.cr 0).toNat
  let c := c.setReg .ax (c.reg .ax &&& 0x7FFFFFFF).toNat
  let c := c.setCr 0 (c.reg .ax)
  let c := c.call ret (cpuPae cpuid)
  c.push (.word .ax)

/-- From `.setup.done` on. -/
def setupDone (c : Cpu) : Cpu :=
  let c := c.pop (.word .ax)
  let c :=
    if c.word .ax = 0x01 then
      let c := c.setReg .ax (c.cr 4).toNat
      let c := c.setReg .ax (c.reg .ax ||| 0x20).toNat
      c.setCr 4 (c.reg .ax)
    else c
  let c := c.pop (.seg .es)
  let c := c.pop (.seg .ds)
  procEnd c

/-- `XEOS.boot.stage2.setupPaging`.  The variable `$XEOS.boot.stage2.longMode`
is at `longMode`. -/
def setupPaging (c : Cpu) : Cpu :=
  let c := setupChoose cpuid longMode ret c
  setupDone (if c.word .ax = 0x01 then setupPae c else setup c)

end Routine

/-! ## The modes -/

/-- A mode of paging and the tables of its set-up. -/
structure Paging where
  levels : List PageTable.Level
  /-- The bits of an address. -/
  bits : Nat
  /-- The address of the first table, from `CR3`. -/
  root : Nat → Nat
  /-- Where the tables begin and end. -/
  first : Nat
  last : Nat

def paging32 : Paging where
  levels := [⟨4, 22, 10, true, true⟩, ⟨4, 12, 10, false, true⟩]
  bits := 32
  root cr3 := cr3 / 2 ^ 12 * 2 ^ 12
  first := 0x12000
  last := 0x16000

def pagingPae32 : Paging where
  levels := [⟨8, 30, 2, false, false⟩, ⟨8, 21, 9, true, true⟩, ⟨8, 12, 9, false, true⟩]
  bits := 32
  root cr3 := cr3 / 2 ^ 5 * 2 ^ 5
  first := 0x11000
  last := 0x19000

def pagingPae64 : Paging where
  levels := [⟨8, 39, 9, false, true⟩, ⟨8, 30, 9, true, true⟩, ⟨8, 21, 9, true, true⟩,
    ⟨8, 12, 9, false, true⟩]
  bits := 48
  root cr3 := cr3 / 2 ^ 12 * 2 ^ 12
  first := 0x10000
  last := 0x19000

/-- PAE is available. -/
def hasPae (cpuid : BitVec 32 → Leaf) : Bool := (cpuid 0x01).edx.getLsbD 6

/-- The mode that the set-up is for, by the byte `$XEOS.boot.stage2.longMode`. -/
def pagingOf (cpuid : BitVec 32 → Leaf) (long : Nat) : Paging :=
  if hasPae cpuid then (if long = 1 then pagingPae64 else pagingPae32) else paging32

end Xeos.Boot
