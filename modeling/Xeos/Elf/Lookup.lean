import Xeos.C99.String
import Xeos.Elf.Symbol

/-!
# Looking up a section of an ELF-64 file

The section headers are where the header of the file says, as far apart as it says and as many as
it says, and the name of a section is in the section that it names as the string table.

An `Object` is a file with the names of its sections.  The accessors find its sections by index and
by name.
-/

namespace Xeos.Elf

open Lib Xeos.C99

/-! ## The code -/

/-- `ELF64_FileGetHeader`. -/
def fileGetHeader (file : Nat) : Nat := file

def headerGetSectionHeaderOffset (m : Memory) (header : Nat) : Nat :=
  if header = 0 then 0 else m.load (header + 40) 8

def headerGetSectionHeaderEntrySize (m : Memory) (header : Nat) : Nat :=
  if header = 0 then 0 else m.load (header + 58) 2

def headerGetSectionHeaderEntryCount (m : Memory) (header : Nat) : Nat :=
  if header = 0 then 0 else m.load (header + 60) 2

def headerGetSectionNameStringTableIndex (m : Memory) (header : Nat) : Nat :=
  if header = 0 then 0 else m.load (header + 62) 2

def sectionHeaderEntryGetNameOffset (m : Memory) (entry : Nat) : Nat :=
  if entry = 0 then 0 else m.load entry 4

def sectionHeaderEntryGetLinkedSectionIndex (m : Memory) (entry : Nat) : Nat :=
  if entry = 0 then 0 else m.load (entry + 40) 4

/-- The product of an `ELF64_Half` and an `unsigned int` is an `unsigned int`. -/
def fileGetSectionHeaderEntry (t : Target) (m : Memory) (file index : Nat) : Nat :=
  if file = 0 then 0 else
  let header := fileGetHeader file
  if header = 0 ∨ headerGetSectionHeaderEntryCount m header ≤ index then 0 else
  let offset := headerGetSectionHeaderOffset m header
  let entrySize := headerGetSectionHeaderEntrySize m header
  (file + offset + entrySize * index % 2 ^ 32) % 2 ^ t.bits

def fileGetStringTableHeaderEntry (t : Target) (m : Memory) (file : Nat) : Nat :=
  if file = 0 then 0 else
  let header := fileGetHeader file
  if header = 0 then 0 else
  fileGetSectionHeaderEntry t m file (headerGetSectionNameStringTableIndex m header)

def fileGetNameOfSection (t : Target) (m : Memory) (file sect : Nat) : Nat :=
  if file = 0 ∨ sect = 0 then 0 else
  if fileGetHeader file = 0 then 0 else
  let stringTable := fileGetStringTableHeaderEntry t m file
  let nameOffset := sectionHeaderEntryGetNameOffset m sect
  (fileGetDataForSection t m file stringTable + nameOffset) % 2 ^ t.bits

/-- The loop of `ELF64_FileGetSectionHeaderEntryWithName` from `i` on, with `n` rounds to go. -/
def sectionWithNameFrom (t : Target) (m : Memory) (fuel file name : Nat) : Nat → Nat → Option Nat
  | 0, _ => some 0
  | n + 1, i =>
    let sect := fileGetSectionHeaderEntry t m file i
    let sName := fileGetNameOfSection t m file sect
    (strcmp m fuel name sName).bind fun r =>
      if r = 0 then some sect else sectionWithNameFrom t m fuel file name n (i + 1)

/-- `ELF64_FileGetSectionHeaderEntryWithName`.  The fuel is for the comparisons. -/
def fileGetSectionHeaderEntryWithName (t : Target) (m : Memory) (fuel file name : Nat) :
    Option Nat :=
  if file = 0 then some 0 else
  let header := fileGetHeader file
  if header = 0 then some 0 else
  sectionWithNameFrom t m fuel file name (headerGetSectionHeaderEntryCount m header) 0

/-! ## Files with names -/

/-- A section with what its header says, its name, and its symbols with their names when it is a
symbol table. -/
structure ObjectSection where
  nameOffset : Nat
  type : BitVec 32
  offset : Nat
  size : Nat
  link : Nat
  entsize : Nat
  name : List UInt8
  symbols : List (Symbol × List UInt8)

/-- A file of `size` bytes, with what its header says of the sections. -/
structure Object where
  size : Nat
  shoff : Nat
  shentsize : Nat
  shstrndx : Nat
  sections : List ObjectSection

/-- The header at `a` is the one of the section. -/
structure ObjectSection.HeaderAt (m : Memory) (a : Nat) (sec : ObjectSection) : Prop where
  nameOffset : m.load a 4 = sec.nameOffset
  type : m.load (a + 4) 4 = sec.type.toNat
  offset : m.load (a + 24) 8 = sec.offset
  size : m.load (a + 32) 8 = sec.size
  link : m.load (a + 40) 4 = sec.link
  entsize : m.load (a + 56) 8 = sec.entsize

namespace Object

/-- The header of section `k`. -/
def header (obj : Object) (file k : Nat) : Nat := file + obj.shoff + obj.shentsize * k

/-- The string table at index `k` has `text` at `offset`. -/
def Text (obj : Object) (m : Memory) (file k offset : Nat) (text : List UInt8) : Prop :=
  ∃ table, obj.sections[k]? = some table ∧ offset + text.length < table.size ∧
    table.offset + table.size ≤ obj.size ∧ CString m (file + table.offset + offset) text

/-- The file is in memory, from `file` on, as a little-endian ELF-64 file. -/
structure At (obj : Object) (t : Target) (m : Memory) (file : Nat) : Prop where
  notNull : file ≠ 0
  fits : file + obj.size ≤ 2 ^ t.bits
  ident : m.load file 4 = 0x464C457F ∧ m.load (file + 4) 1 = 2 ∧ m.load (file + 5) 1 = 1
  shoff : m.load (file + 40) 8 = obj.shoff
  shentsize : m.load (file + 58) 2 = obj.shentsize
  shnum : m.load (file + 60) 2 = obj.sections.length
  shstrndx : m.load (file + 62) 2 = obj.shstrndx
  headers : ∀ k, k < obj.sections.length → obj.shoff + obj.shentsize * k + 64 ≤ obj.size
  sections : ∀ (k : Nat) (sec : ObjectSection), obj.sections[k]? = some sec → sec.HeaderAt m (obj.header file k)
  names : ∀ (k : Nat) (sec : ObjectSection), obj.sections[k]? = some sec →
    obj.Text m file obj.shstrndx sec.nameOffset sec.name

/-! ## What the accessors find -/

variable {obj : Object} {t : Target} {m : Memory} {file : Nat}

theorem At.count (h : obj.At t m file) :
    headerGetSectionHeaderEntryCount m (fileGetHeader file) = obj.sections.length := by
  rw [headerGetSectionHeaderEntryCount, fileGetHeader, if_neg h.notNull, h.shnum]

theorem At.header_ne_zero (h : obj.At t m file) (k : Nat) : obj.header file k ≠ 0 := by
  have hfile := h.notNull
  rw [header]
  omega

/-- The header at an index.  The product of the size and the index has 32 bits. -/
theorem At.sectionHeaderEntry (h : obj.At t m file) (index : Nat) :
    fileGetSectionHeaderEntry t m file index
      = if index < obj.sections.length then obj.header file index else 0 := by
  have hcount := h.count
  rw [fileGetSectionHeaderEntry, if_neg h.notNull]
  simp only [hcount]
  by_cases hlt : index < obj.sections.length
  · have hend := h.headers index hlt
    have hfits := h.fits
    have hsize : obj.shentsize ≤ 2 ^ 16 - 1 := by
      have hload := Memory.load_lt m (file + 58) 2
      rw [h.shentsize] at hload
      omega
    have hindex : index ≤ 2 ^ 16 - 1 := by
      have hload := Memory.load_lt m (file + 60) 2
      rw [h.shnum] at hload
      omega
    have hproduct : obj.shentsize * index < 2 ^ 32 :=
      Nat.lt_of_le_of_lt (Nat.mul_le_mul hsize hindex) (by omega)
    rw [if_pos hlt, if_neg fun h0 => h0.elim h.notNull fun hle => by omega,
      headerGetSectionHeaderOffset, headerGetSectionHeaderEntrySize, fileGetHeader, if_neg h.notNull, if_neg h.notNull, h.shoff,
      h.shentsize, Nat.mod_eq_of_lt hproduct, Nat.mod_eq_of_lt (by omega), header]
  · rw [if_neg hlt, if_pos (.inr (by omega))]

theorem At.sectionHeaderEntry_of_some (h : obj.At t m file) {k : Nat} {sec : ObjectSection}
    (hk : obj.sections[k]? = some sec) :
    fileGetSectionHeaderEntry t m file k = obj.header file k := by
  rw [h.sectionHeaderEntry, if_pos (List.getElem?_eq_some_iff.mp hk).1]

/-- A text of a string table, at the address that the accessors compute. -/
theorem At.text (h : obj.At t m file) {k offset : Nat} {text : List UInt8}
    (htext : obj.Text m file k offset text) :
    CString m ((fileGetDataForSection t m file (fileGetSectionHeaderEntry t m file k) + offset)
      % 2 ^ t.bits) text := by
  rcases htext with ⟨table, hk, hin, hend, hstring⟩
  have hfits := h.fits
  rw [h.sectionHeaderEntry_of_some hk, fileGetDataForSection, if_neg (h.header_ne_zero k),
    sectionHeaderEntryGetFileOffset, if_neg (h.header_ne_zero k), (h.sections k table hk).offset,
    Nat.mod_add_mod, Nat.mod_eq_of_lt (by omega)]
  exact hstring

theorem At.nameOfSection (h : obj.At t m file) {k : Nat} {sec : ObjectSection}
    (hk : obj.sections[k]? = some sec) :
    CString m (fileGetNameOfSection t m file (obj.header file k)) sec.name := by
  rw [fileGetNameOfSection, if_neg (not_or.mpr ⟨h.notNull, h.header_ne_zero k⟩), fileGetHeader,
    if_neg h.notNull, fileGetStringTableHeaderEntry, if_neg h.notNull, fileGetHeader,
    if_neg h.notNull, headerGetSectionNameStringTableIndex, if_neg h.notNull, h.shstrndx,
    sectionHeaderEntryGetNameOffset, if_neg (h.header_ne_zero k), (h.sections k sec hk).nameOffset]
  exact h.text (h.names k sec hk)

/-- The loop from `i` on looks at the sections from `i` on. -/
theorem At.sectionWithNameFrom (h : obj.At t m file) {fuel name : Nat} {text : List UInt8}
    (hname : CString m name text) (hfuel : text.length < fuel) (n : Nat) {i : Nat}
    (hi : i + n = obj.sections.length) :
    sectionWithNameFrom t m fuel file name n i
      = some (((obj.sections.drop i).findIdx? fun sec => sec.name = text).elim 0
          fun k => obj.header file (i + k)) := by
  induction n generalizing i with
  | zero =>
    rw [List.drop_eq_nil_of_le (by omega)]
    rfl
  | succ n ih =>
    have hlt : i < obj.sections.length := by omega
    have hk : obj.sections[i]? = some obj.sections[i] := List.getElem?_eq_getElem hlt
    rcases strcmp_cstring hname (h.nameOfSection hk) hfuel with ⟨r, hr, hzero⟩
    rw [Elf.sectionWithNameFrom]
    simp only [h.sectionHeaderEntry_of_some hk, hr, Option.bind_some]
    rw [List.drop_eq_getElem_cons hlt, List.findIdx?_cons]
    by_cases heq : text = obj.sections[i].name
    · rw [if_pos (hzero.mpr heq), heq, decide_eq_true rfl, if_pos rfl]
      rfl
    · rw [if_neg fun h0 => heq (hzero.mp h0), ih (by omega),
        decide_eq_false fun h0 => heq h0.symm, if_neg Bool.false_ne_true]
      cases (obj.sections.drop (i + 1)).findIdx? fun sec => sec.name = text with
      | none => rfl
      | some k =>
        simp only [Option.map_some, Option.elim_some]
        rw [show i + 1 + k = i + (k + 1) by omega]

end Object

/-! ## A file with a string table and a symbol table -/

/-- The unnamed symbol that every table starts with, and a function `a`. -/
def twoObject : Object where
  size := 248
  shoff := 64
  shentsize := 64
  shstrndx := 0
  sections :=
    [⟨0, 3, 192, 3, 0, 0, [], []⟩,
      ⟨1, Section.shtSymtab, 200, 48, 0, 24, [97],
        [(⟨0, 0, 0, 0, 0, 0, 0⟩, []), (⟨1, 1, 2, 0, 1, 0x1000, 16⟩, [97])]⟩]

/-- The literal `"<unnamed-symbol>"` of the library. -/
def unnamedSymbol : List UInt8 :=
  [60, 117, 110, 110, 97, 109, 101, 100, 45, 115, 121, 109, 98, 111, 108, 62]

/-- The file of `twoObject` at 0x10000, and the literal at 0x30000. -/
def twoMemory : Memory :=
  Memory.store (fun b => if 0x30000 ≤ b then unnamedSymbol.getD (b - 0x30000) 0 else 0)
    0x10000 4 0x464C457F
    |>.store 0x10004 1 2
    |>.store 0x10005 1 1
    |>.store 0x10028 8 64
    |>.store 0x1003A 2 64
    |>.store 0x1003C 2 2
    |>.store 0x10044 4 3
    |>.store 0x10058 8 192
    |>.store 0x10060 8 3
    |>.store 0x10080 4 1
    |>.store 0x10084 4 2
    |>.store 0x10098 8 200
    |>.store 0x100A0 8 48
    |>.store 0x100B8 8 24
    |>.store 0x100C1 1 97
    |>.store 0x100E0 4 1
    |>.store 0x100E4 1 0x12
    |>.store 0x100E6 2 1
    |>.store 0x100E8 8 0x1000
    |>.store 0x100F0 8 16

/-- The fields of the header, the section headers and the strings. -/
theorem twoMemory_fields :
    ([(0x10000, 4), (0x10004, 1), (0x10005, 1), (0x10028, 8), (0x1003A, 2), (0x1003C, 2),
      (0x1003E, 2)].map fun f => twoMemory.load f.1 f.2) = [0x464C457F, 2, 1, 64, 64, 2, 0] ∧
    ([(0x10040, 4), (0x10044, 4), (0x10058, 8), (0x10060, 8), (0x10068, 4), (0x10078, 8)].map
      fun f => twoMemory.load f.1 f.2) = [0, 3, 192, 3, 0, 0] ∧
    ([(0x10080, 4), (0x10084, 4), (0x10098, 8), (0x100A0, 8), (0x100A8, 4), (0x100B8, 8)].map
      fun f => twoMemory.load f.1 f.2) = [1, 2, 200, 48, 0, 24] ∧
    ([0x100C0, 0x100C1, 0x100C2].map twoMemory) = [0, 97, 0] := by
  decide

theorem twoObject_at : twoObject.At .x86_64 twoMemory 0x10000 := by
  have hfields := twoMemory_fields
  simp only [List.map_cons, List.map_nil, List.cons.injEq, and_true] at hfields
  rcases hfields with ⟨⟨hmagic, hclass, hdata, hshoff, hshentsize, hshnum, hshstrndx⟩,
    ⟨hname0, htype0, hoffset0, hsize0, hlink0, hentsize0⟩,
    ⟨hname1, htype1, hoffset1, hsize1, hlink1, hentsize1⟩, hs0, hs1, hs2⟩
  refine ⟨by omega, (by decide : 0x10000 + 248 ≤ 2 ^ 64), ⟨hmagic, hclass, hdata⟩, hshoff,
    hshentsize, hshnum, hshstrndx, fun k hk => ?_, fun k sec hget => ?_, fun k sec hget => ?_⟩
  · have hlt : k < 2 := hk
    show 64 + 64 * k + 64 ≤ 248
    omega
  · rcases k with _ | _ | k
    · cases Option.some.inj hget
      exact ⟨hname0, htype0, hoffset0, hsize0, hlink0, hentsize0⟩
    · cases Option.some.inj hget
      exact ⟨hname1, htype1, hoffset1, hsize1, hlink1, hentsize1⟩
    · exact nomatch hget
  · rcases k with _ | _ | k
    · cases Option.some.inj hget
      exact ⟨_, rfl, by decide, by decide, hs0⟩
    · cases Option.some.inj hget
      exact ⟨_, rfl, by decide, by decide, hs1, by decide, hs2⟩
    · exact nomatch hget

end Xeos.Elf
