import Xeos.Lib.Memory

/-!
# The tool that makes an initial RAM disk

`mkinitrd` writes a header, a table with an entry for each file and the bytes of the
files.  The kernel reads the header and the entries with the accessors below.

The entries are one block of memory.  `strcpy` does not know the size of a name, so
it may write past the name, and past the block: then the program has no defined
outcome.
-/

namespace Xeos.InitRD

open Lib

/-- A C string: no byte of it is zero. -/
abbrev CString := { s : List UInt8 // (0 : UInt8) ∉ s }

/-- The files that can be opened for reading, and those for writing. -/
structure World where
  content : CString → Option (List UInt8)
  writable : CString → Bool

/-- `fopen` for writing. -/
def World.create (w : World) (path : CString) : World :=
  { w with content := fun p => if p = path then some [] else w.content p }

/-- `fwrite` to a file that was just created, and `fclose`. -/
def World.write (w : World) (path : CString) (bytes : List UInt8) : World :=
  { w with content := fun p => if p = path then some bytes else w.content p }

/-! ## Layout -/

def UINT32_MAX : Nat := 2 ^ 32 - 1

def INITRD_SIGNATURE : Nat := 0x44525358

def INITRD_FILENAME_MAXLENGTH : Nat := 255

/-- `sizeof( InitRD_Header )`. -/
def sizeofHeader : Nat := 8

/-- `sizeof( InitRD_Entry )`: the name, the size and the offset. -/
def sizeofEntry : Nat := 264

/-- The bytes of a block of memory. -/
def bytesOf (m : Memory) (n : Nat) : List UInt8 := (List.range n).map m

/-- `strcpy`, with the zero at the end. -/
def strcpy (m : Memory) (a : Nat) (s : List UInt8) : Memory :=
  fun b => if a ≤ b ∧ b < a + (s.length + 1) then s.getD (b - a) 0 else m b

/-! ## Arguments -/

def optionH : CString := ⟨[45, 104], by decide⟩

def optionO : CString := ⟨[45, 111], by decide⟩

def optionV : CString := ⟨[45, 118], by decide⟩

structure Arguments where
  output : Option CString
  verbose : Bool
  filepaths : List CString

/-- The loop over `argv`.  There is no result for `-h`, after which the program ends. -/
def parseArguments : List CString → Arguments → Option Arguments
  | [], a => some a
  | [s], a =>
    if s = optionH then none
    else if s = optionV then some { a with verbose := true }
    else some { a with filepaths := a.filepaths ++ [s] }
  | s :: o :: rest, a =>
    if s = optionH then none
    else if s = optionO then parseArguments rest { a with output := some o }
    else if s = optionV then parseArguments (o :: rest) { a with verbose := true }
    else parseArguments (o :: rest) { a with filepaths := a.filepaths ++ [s] }

/-! ## Files -/

/-- `strrchr`: the place of the last `c`. -/
def strrchr (c : UInt8) : List UInt8 → Option Nat
  | [] => none
  | b :: s =>
    match strrchr c s with
    | some k => some (k + 1)
    | none => if b = c then some 0 else none

/-- `mkinitrd_filename`: what is behind the last slash. -/
def filename (path : CString) : List UInt8 :=
  match strrchr 47 path.1 with
  | none => path.1
  | some k => path.1.drop (k + 1)

/-- `mkinitrd_filesize`. -/
def filesize (bytes : List UInt8) : Nat :=
  if bytes.length > UINT32_MAX then 0 else bytes.length

/-- The loop around `fread` and `fwrite`, with a buffer of 4096 bytes. -/
def copyFile (rest out : List UInt8) : List UInt8 :=
  if rest.take 4096 = [] then out else copyFile (rest.drop 4096) (out ++ rest.take 4096)
termination_by rest.length
decreasing_by
  have hne : rest ≠ [] := by
    rintro rfl
    exact absurd rfl ‹_›
  have hpos : 0 < rest.length := List.length_pos_iff.mpr hne
  rw [List.length_drop]
  omega

/-! ## Entries -/

/-- What a part of the program comes to. -/
inductive Status (α : Type)
  | undefined
  | error (message : String)
  | ok (a : α)

/-- The names and the files so far, the entries, and where the next file will be. -/
structure Entries where
  filenames : List (List UInt8)
  files : List (List UInt8)
  table : Memory
  offset : Nat

/-- The loop over the files, for one file of `fileCount`. -/
def fillEntry (w : World) (fileCount : Nat) (path : CString) (s : Entries) : Status Entries :=
  let name := filename path
  if name ∈ s.filenames then .error "Error: files cannot have the same name.\n" else
  match w.content path with
  | none => .error "Error: cannot open input file for writing.\n"
  | some bytes =>
    let entry := sizeofEntry * s.filenames.length
    -- `strcpy` past the block
    if sizeofEntry * fileCount < entry + (name.length + 1) then .undefined else
    let table := strcpy s.table entry name
    let table := table.store (entry + 256) 4 (filesize bytes)
    let table := table.store (entry + 260) 4 (s.offset % 2 ^ 32)
    if s.offset > UINT32_MAX then .error "Error: RAM disk is too big.\n"
    else if filesize bytes = 0 then .error "Error: file is empty or too big.\n"
    else .ok
      { filenames := s.filenames ++ [name]
        files := s.files ++ [bytes]
        table := table
        offset := s.offset + filesize bytes }

def fillEntries (w : World) (fileCount : Nat) : List CString → Entries → Status Entries
  | [], s => .ok s
  | path :: paths, s =>
    match fillEntry w fileCount path s with
    | .undefined => .undefined
    | .error message => .error message
    | .ok s => fillEntries w fileCount paths s

/-- The header. -/
def header (fileCount : Nat) : List UInt8 :=
  bytesOf ((Memory.store (fun _ => 0) 0 4 INITRD_SIGNATURE).store 4 4 (fileCount % 2 ^ 32))
    sizeofHeader

/-- What is written to the output. -/
def image (s : Entries) (fileCount : Nat) : List UInt8 :=
  s.files.foldl (fun out file => copyFile file out)
    (header fileCount ++ bytesOf s.table (sizeofEntry * fileCount))

/-! ## The program -/

inductive Outcome
  | undefined
  /-- `EXIT_FAILURE`, with a message. -/
  | failure (message : String) (w : World)
  /-- `EXIT_SUCCESS`. -/
  | success (w : World)

/-- `main`, behind the name of the program in `argv`. -/
def mkinitrd (w : World) (argv : List CString) : Outcome :=
  match parseArguments argv ⟨none, false, []⟩ with
  | none => .success w
  | some a =>
    match a.output with
    | none => .failure
      "Error: no output file specified. Please specify an output file with '-o'.\n" w
    | some output =>
      if !w.writable output then .failure "Error: cannot open output file for writing.\n" w else
      let w := w.create output
      let fileCount := a.filepaths.length
      if fileCount = 0 then .failure "Error: no input file specified.\n" w else
      match fillEntries w fileCount a.filepaths
        ⟨[], [], fun _ => 0, sizeofHeader + sizeofEntry * fileCount⟩ with
      | .undefined => .undefined
      | .error message => .failure message w
      | .ok s => .success (w.write output (image s fileCount))

/-! ## The kernel -/

def XEOS_INITRD_SIGNATURE : Nat := 0x44525358

def initRDGetSignature (m : Memory) (initrd : Nat) : Nat :=
  if initrd = 0 then 0 else m.load initrd 4

def initRDGetEntryCount (m : Memory) (initrd : Nat) : Nat :=
  if initrd = 0 then 0 else m.load (initrd + 4) 4

def initRDIsValid (m : Memory) (initrd : Nat) : Bool :=
  if initrd = 0 then false else initRDGetSignature m initrd == XEOS_INITRD_SIGNATURE

def entryGetFilename (entry : Nat) : Nat := entry

def entryGetSize (m : Memory) (entry : Nat) : Nat :=
  if entry = 0 then 0 else m.load (entry + 256) 4

def entryGetOffset (m : Memory) (entry : Nat) : Nat :=
  if entry = 0 then 0 else m.load (entry + 260) 4

end Xeos.InitRD
