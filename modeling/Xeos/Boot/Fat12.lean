import Xeos.Boot.FindFile

/-!
# Reading files from a FAT-12 drive

The procedures of `xeos.16.io.fat12.inc.s` that read the drive, for both stages of the boot
loader: the first one has the boot record in memory and less room for code, so it takes a few
short cuts.

A word of a register is a number, and so is the linear address of a byte.  The stack is a list of
words, apart from the memory that the files are loaded to, and so are the variables of the
procedures.  The drive is a parameter, since the BIOS reads it: it answers every attempt to read a
sector with the carry flag and with the bytes that are then in the buffer, which for a failed
attempt may be any.  The reset behind a failed attempt is part of the answer to the next one.
`_printLoadSymbol`, which saves all registers, is left out.
-/

namespace Xeos.Boot.Fat12

open Lib

/-- The two stages of the boot loader. -/
inductive Stage where
  | first | second
deriving DecidableEq, Repr

/-! ## The geometry

The constants `@XEOS.io.fat12.mbr`. -/

def bytesPerSector : Nat := 512
def sectorsPerCluster : Nat := 1
def reservedSectors : Nat := 1
def numberOfFATs : Nat := 2
def sectorsPerFAT : Nat := 9
def sectorsPerTrack : Nat := 18
def headsPerCylinder : Nat := 2
def driveNumber : Nat := 0

/-- The answers to the attempts to read a sector, by their number, cylinder, head and sector:
whether the carry flag is clear, and the bytes in the buffer. -/
abbrev Drive := (attempt cylinder head sector : Nat) → Bool × (Nat → UInt8)

/-- The registers and variables of the procedures. -/
structure Loader where
  ax : Nat
  bx : Nat
  cx : Nat
  dx : Nat
  di : Nat
  es : Nat
  ds : Nat
  /-- The top first. -/
  stack : List Nat
  memory : Memory
  dataSector : Nat
  fatOffset : Nat
  currentCluster : Nat
  cylinder : Nat
  head : Nat
  sector : Nat
  /-- The attempts to read a sector so far. -/
  attempts : Nat

/-- What a `ret` comes to. -/
structure Exit where
  loader : Loader
  dest : Nat

/-- The linear address of a byte. -/
def linear (seg off : Nat) : Nat := 16 * seg + off % 2 ^ 16

namespace Loader

/-- The word that a `pop` takes. -/
def top (s : Loader) : Nat := s.stack.headD 0

/-- The rest of the stack. -/
def drop (s : Loader) : Loader := { s with stack := s.stack.tail }

def popES (s : Loader) : Loader := { s.drop with es := s.top }

def ret (s : Loader) : Exit := ⟨s.drop, s.top⟩

end Loader

/-! ## Sectors -/

/-- `XEOS.16.io.fat12._lbaToCHS`.  The first stage divides by the words of the boot record. -/
def lbaToCHS (stage : Stage) (s : Loader) : Loader :=
  let track := s.ax / sectorsPerTrack
  { s with
    ax := track / headsPerCylinder
    cx := match stage with
      | .first => s.cx
      | .second => headsPerCylinder
    dx := track % headsPerCylinder
    sector := (s.ax % sectorsPerTrack + 1) % 2 ^ 8
    head := track % headsPerCylinder % 2 ^ 8
    cylinder := track / headsPerCylinder % 2 ^ 8 }

/-- The cylinder and the sector for `int 0x13`, in `CX`. -/
def cylinderAndSector (stage : Stage) (s : Loader) : Nat :=
  match stage with
  | .first => s.cylinder * 2 ^ 8 + s.sector
  | .second => (s.cylinder &&& 255) * 2 ^ 8 % 2 ^ 16 ||| (s.cylinder &&& 768) / 2 ^ 2 ||| s.sector

/-- The function 2 of `int 0x13` takes the cylinder from `CH` and the high bits of `CL`, and the
sector from its low bits. -/
def cylinderOf (cx : Nat) : Nat := cx / 2 ^ 8 + cx % 2 ^ 8 / 2 ^ 6 * 2 ^ 8
def sectorOf (cx : Nat) : Nat := cx % 2 ^ 6

/-- One attempt to read the sector `AX` to `ES:BX`, between `pusha` and `popa`. -/
def attempt (stage : Stage) (D : Drive) (s : Loader) : Bool × Loader :=
  let t := lbaToCHS stage s
  let cx := cylinderAndSector stage t
  let (ok, data) := D s.attempts (cylinderOf cx) t.head (sectorOf cx)
  (ok, { s with
    cylinder := t.cylinder
    head := t.head
    sector := t.sector
    memory := s.memory.copy data (linear s.es s.bx) 0 bytesPerSector
    attempts := s.attempts + 1 })

/-- `.loop` of `XEOS.16.io.fat12.readSectors`, with the attempts that `DI` still allows. -/
def tryRead (stage : Stage) (D : Drive) : Nat → Loader → Bool × Loader
  | 0, s => (false, s)
  | di + 1, s =>
    match attempt stage D s with
    | (true, s) => (true, s)
    | (false, s) => tryRead stage D di s

/-- `.start`, with the sectors that `CX` still asks for. -/
def readRounds (stage : Stage) (D : Drive) : Nat → Loader → Bool × Loader
  | 0, s => (true, s)
  | n + 1, s =>
    match tryRead stage D 5 s with
    | (false, s) => (false, s)
    | (true, s) => readRounds stage D n { s with
        bx := (s.bx + bytesPerSector) % 2 ^ 16
        ax := (s.ax + 1) % 2 ^ 16
        cx := (s.cx + 2 ^ 16 - 1) % 2 ^ 16 }

/-- `XEOS.16.io.fat12.readSectors`.  A `loop` with zero in `CX` takes all its rounds. -/
def readSectors (stage : Stage) (D : Drive) (s : Loader) : Loader :=
  match readRounds stage D (if s.cx = 0 then 2 ^ 16 else s.cx) s with
  | (false, s) => { s with ax := 1 }
  | (true, s) => { s with ax := 0 }

/-- `XEOS.16.io.fat12._clusterToLBA`.  The first stage multiplies the low byte only. -/
def clusterToLBA (stage : Stage) (s : Loader) : Loader :=
  let index := (s.ax + 2 ^ 16 - 2) % 2 ^ 16
  match stage with
  | .first => { s with ax := (index % 2 ^ 8 * sectorsPerCluster + s.bx) % 2 ^ 16 }
  | .second =>
    { s with
      ax := (index * sectorsPerCluster % 2 ^ 16 + s.bx) % 2 ^ 16
      dx := index * sectorsPerCluster / 2 ^ 16 }

/-! ## The root directory -/

/-- The sectors of the root directory, and the one that it starts at. -/
def rootDirectorySectors : Nat := 32 * maxRootDirEntries / bytesPerSector
def rootDirectoryStart : Nat := numberOfFATs * sectorsPerFAT + reservedSectors

/-- `XEOS.16.io.fat12.loadRootDirectory` -/
def loadRootDirectory (stage : Stage) (D : Drive) (s : Loader) : Exit :=
  let t := readSectors stage D { s with
    ax := rootDirectoryStart
    bx := s.di
    cx := rootDirectorySectors
    dx := 0
    dataSector := rootDirectoryStart + rootDirectorySectors }
  let restored := { t with ax := s.ax, bx := s.bx, cx := s.cx, dx := s.dx, di := s.di }
  if t.ax = 0 then
    -- `.success`
    ({ restored with ax := 0, dx := restored.dataSector } : Loader).ret
  else
    -- `.error`
    ({ restored with ax := 1 } : Loader).ret

/-! ## Files -/

/-- `.loadFAT` of `XEOS.16.io.fat12.loadFile`, up to the call of `readSectors`. -/
def requestFAT (s : Loader) : Loader :=
  { s with
    ax := reservedSectors
    cx := numberOfFATs * sectorsPerFAT
    dx := 0
    stack := s.ax :: s.es :: s.stack
    fatOffset := s.bx
    currentCluster := s.memory.load (linear s.ds s.di) 2 }

/-- The `pop es` and the `ret` of the error paths. -/
def failed (s : Loader) : Exit := s.popES.ret

/-- `.loadFAT` -/
def loadFAT (stage : Stage) (D : Drive) (s : Loader) : Loader ⊕ Exit :=
  let s := readSectors stage D (requestFAT s)
  if s.ax = 0 then .inl s else .inr (failed s)

/-- `.fatLoaded`: the segment of the file, and the sector count and the buffer on the stack. -/
def fatLoaded (s : Loader) : Loader :=
  { s.popES with bx := 0, cx := 0, stack := 0 :: 0 :: s.popES.stack }

/-- `.loadFile` up to the call of `readSectors`. -/
def requestCluster (stage : Stage) (s : Loader) : Loader :=
  let s := clusterToLBA stage { s with ax := s.currentCluster, bx := s.dataSector }
  { s.drop with bx := s.top, cx := sectorsPerCluster }

/-- The adjustment of `ES` behind a read of the second stage. -/
def adjustSegment (stage : Stage) (s : Loader) : Loader :=
  match stage with
  | .first => s
  | .second =>
    let paragraphs := (s.dx * 2 ^ 16 + s.bx) / 0x10
    { s with es := (s.es + paragraphs) % 2 ^ 16, bx := 0 }

/-- `.loadFile` up to the test of the result. -/
def readCluster (stage : Stage) (D : Drive) (s : Loader) : Loader :=
  adjustSegment stage (readSectors stage D (requestCluster stage s))

/-- The offset of a cluster in the FAT. -/
def fatIndex (cluster : Nat) : Nat := (cluster + cluster / 2) % 2 ^ 16

/-- The cluster behind the current one. -/
def nextCluster (s : Loader) : Nat :=
  let entry := s.memory.load (linear s.ds ((s.fatOffset + fatIndex s.currentCluster) % 2 ^ 16)) 2
  if s.currentCluster % 2 = 1 then entry / 2 ^ 4 else entry &&& 0xFFF

/-- `.success` up to the test for the end of the file. -/
def advance (s : Loader) : Loader :=
  { s with
    ax := s.currentCluster
    bx := (s.fatOffset + fatIndex s.currentCluster) % 2 ^ 16
    cx := fatIndex s.currentCluster
    dx := nextCluster s
    stack := s.bx :: (s.top + sectorsPerCluster) % 2 ^ 16 :: s.stack.tail
    currentCluster := nextCluster s }

/-- The end of the procedure. -/
def finish (s : Loader) : Exit :=
  let s := { s.drop with ax := 0, bx := s.top }
  let s := { s.drop with cx := s.top }
  s.popES.ret

/-- A round of `.loadFile`. -/
def loadCluster (stage : Stage) (D : Drive) (s : Loader) : Loader ⊕ Exit :=
  let s := readCluster stage D s
  if s.ax = 0 then
    let s := advance s
    if s.dx < 0x0FF0 then .inl s else .inr (finish s)
  else .inr (failed s)

/-- `XEOS.16.io.fat12.loadFile` comes to one of its `ret`. -/
def LoadsFile (stage : Stage) (D : Drive) (s : Loader) (r : Exit) : Prop :=
  match loadFAT stage D s with
  | .inl t => Returns (loadCluster stage D) (fatLoaded t) r
  | .inr e => r = e

end Xeos.Boot.Fat12
