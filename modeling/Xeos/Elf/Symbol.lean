import Mathlib.Data.BitVec
import Xeos.Lib.Bits
import Xeos.Lib.Memory

/-!
# Symbols of an ELF-64 file

The accessors of the library for symbol tables, on a file in memory, and the
encoding that they read.  The encoding is the one of the ELF-64 format: a symbol is
a record of 24 bytes whose info byte has the binding in its high half and the type
in its low half.

The section and the type are decoded as they are encoded.  The binding is not:
`symbolTableEntryGetBinding` masks the high half and compares it without a shift, so
it answers `Local` for every symbol.
-/

namespace Xeos.Elf

open Lib

/-- The library is built for both. -/
inductive Target
  | i386 | x86_64
deriving DecidableEq, Repr

/-- The bits of a pointer. -/
def Target.bits : Target → Nat
  | i386 => 32
  | x86_64 => 64

inductive SectionType
  | Unused | ProgBits | LinkerSymbolTable | StringTable | RelaRelocationEntries
  | SymbolHashTable | DynamicLinkingTables | NoteInformation | UninitializedSpace
  | RelRelocationEntries | DynamicLoaderSymbolTable
deriving DecidableEq, Repr

inductive SymbolType
  | None | DataObject | FunctionEntryPoint | Section | File
deriving DecidableEq, Repr

inductive SymbolBinding
  | Local | Global | Weak
deriving DecidableEq, Repr

/-! ## Section headers -/

def sectionHeaderEntryGetType (m : Memory) (entry : Nat) : SectionType :=
  if entry = 0 then .Unused else
  match m.load (entry + 4) 4 with
  | 0 => .Unused
  | 1 => .ProgBits
  | 2 => .LinkerSymbolTable
  | 3 => .StringTable
  | 4 => .RelaRelocationEntries
  | 5 => .SymbolHashTable
  | 6 => .DynamicLinkingTables
  | 7 => .NoteInformation
  | 8 => .UninitializedSpace
  | 9 => .RelRelocationEntries
  | 11 => .DynamicLoaderSymbolTable
  | _ => .Unused

def sectionHeaderEntryGetFileOffset (m : Memory) (entry : Nat) : Nat :=
  if entry = 0 then 0 else m.load (entry + 24) 8

def sectionHeaderEntryGetSectionSize (m : Memory) (entry : Nat) : Nat :=
  if entry = 0 then 0 else m.load (entry + 32) 8

def sectionHeaderEntryGetEntrySize (m : Memory) (entry : Nat) : Nat :=
  if entry = 0 then 0 else m.load (entry + 56) 8

/-- The count is an `unsigned int`. -/
def sectionHeaderEntryGetSymbolTableEntryCount (m : Memory) (sect : Nat) : Nat :=
  if sectionHeaderEntryGetType m sect ≠ .LinkerSymbolTable then 0 else
  if sectionHeaderEntryGetEntrySize m sect = 0 then 0 else
  sectionHeaderEntryGetSectionSize m sect / sectionHeaderEntryGetEntrySize m sect % 2 ^ 32

/-! ## Symbols -/

def fileGetDataForSection (t : Target) (m : Memory) (file sect : Nat) : Nat :=
  if sect = 0 then 0 else (file + sectionHeaderEntryGetFileOffset m sect) % 2 ^ t.bits

/-- The product is an `ELF64_XWord`. -/
def fileGetSymbolTableEntryForSection (t : Target) (m : Memory) (file sect index : Nat) : Nat :=
  if sectionHeaderEntryGetType m sect ≠ .LinkerSymbolTable then 0 else
  if sectionHeaderEntryGetSymbolTableEntryCount m sect ≤ index then 0 else
  (fileGetDataForSection t m file sect + index * sectionHeaderEntryGetEntrySize m sect % 2 ^ 64)
    % 2 ^ t.bits

def symbolTableEntryGetInfo (m : Memory) (sym : Nat) : Nat :=
  if sym = 0 then 0 else m.load (sym + 4) 1

def symbolTableEntryGetBinding (m : Memory) (sym : Nat) : SymbolBinding :=
  if sym = 0 then .Local else
  match symbolTableEntryGetInfo m sym &&& 0xF0 with
  | 0 => .Local
  | 1 => .Global
  | 2 => .Weak
  | _ => .Local

def symbolTableEntryGetType (m : Memory) (sym : Nat) : SymbolType :=
  if sym = 0 then .None else
  match symbolTableEntryGetInfo m sym &&& 0x0F with
  | 0 => .None
  | 1 => .DataObject
  | 2 => .FunctionEntryPoint
  | 3 => .Section
  | 4 => .File
  | _ => .None

/-! ## The encoding -/

/-- A symbol as the format has it. -/
structure Symbol where
  name : BitVec 32
  binding : BitVec 4
  type : BitVec 4
  other : BitVec 8
  shndx : BitVec 16
  value : BitVec 64
  size : BitVec 64
deriving DecidableEq, Repr

namespace Symbol

def info (s : Symbol) : Nat := s.binding.toNat <<< 4 + (s.type.toNat &&& 0xF)

/-- The record of a symbol is at `a`. -/
structure At (m : Memory) (a : Nat) (s : Symbol) : Prop where
  name : m.load a 4 = s.name.toNat
  info : m.load (a + 4) 1 = s.info
  other : m.load (a + 5) 1 = s.other.toNat
  shndx : m.load (a + 6) 2 = s.shndx.toNat
  value : m.load (a + 8) 8 = s.value.toNat
  size : m.load (a + 16) 8 = s.size.toNat

end Symbol

/-- The constant of the library for a binding.  It has none for the bindings of a
processor. -/
def bindingConstant (b : BitVec 4) : Option SymbolBinding :=
  match b.toNat with
  | 0 => some .Local
  | 1 => some .Global
  | 2 => some .Weak
  | _ => none

/-- The constant of the library for a type. -/
def typeConstant (t : BitVec 4) : Option SymbolType :=
  match t.toNat with
  | 0 => some .None
  | 1 => some .DataObject
  | 2 => some .FunctionEntryPoint
  | 3 => some .Section
  | 4 => some .File
  | _ => none

/-- A section, with its symbols when it is a symbol table. -/
structure Section where
  type : BitVec 32
  offset : Nat
  size : Nat
  entsize : Nat
  symbols : List Symbol

/-- The type of a symbol table. -/
def Section.shtSymtab : BitVec 32 := 2

/-- A file of `size` bytes with its section headers at `shoff`. -/
structure Image where
  size : Nat
  shoff : Nat
  sections : List Section

namespace Image

/-- The header of section `k`. -/
def header (img : Image) (file k : Nat) : Nat := file + img.shoff + 64 * k

/-- The section `sec` is in the file, and its header is at `a`. -/
structure SectionAt (img : Image) (m : Memory) (file a : Nat) (sec : Section) : Prop where
  type : m.load (a + 4) 4 = sec.type.toNat
  offset : m.load (a + 24) 8 = sec.offset
  size : m.load (a + 32) 8 = sec.size
  entsize : m.load (a + 56) 8 = sec.entsize
  records : sec.type = Section.shtSymtab → sec.entsize = 24 ∧
    sec.size = 24 * sec.symbols.length ∧ sec.offset + sec.size ≤ img.size ∧
    ∀ (i : Nat) (s : Symbol), sec.symbols[i]? = some s → s.At m (file + sec.offset + 24 * i)

/-- The file is in memory, from `file` on, as a little-endian ELF-64 file. -/
structure At (img : Image) (t : Target) (m : Memory) (file : Nat) : Prop where
  notNull : file ≠ 0
  fits : file + img.size ≤ 2 ^ t.bits
  ident : m.load file 4 = 0x464C457F ∧ m.load (file + 4) 1 = 2 ∧ m.load (file + 5) 1 = 1
  shoff : m.load (file + 40) 8 = img.shoff
  shentsize : m.load (file + 58) 2 = 64
  sections : ∀ k sec, img.sections[k]? = some sec →
    img.shoff + 64 * (k + 1) ≤ img.size ∧ img.SectionAt m file (img.header file k) sec

/-- What the accessors should do for the symbols of the section whose header is at
`a`: the symbol at an index is its record, and it is null past the last one. -/
def Decodes (t : Target) (m : Memory) (file a : Nat) (sec : Section) : Prop :=
  ∀ i < 2 ^ 32,
    match sec.symbols[i]? with
    | none => fileGetSymbolTableEntryForSection t m file a i = 0
    | some s =>
      fileGetSymbolTableEntryForSection t m file a i = file + sec.offset + 24 * i ∧
      bindingConstant s.binding = some (symbolTableEntryGetBinding m (file + sec.offset + 24 * i)) ∧
      typeConstant s.type = some (symbolTableEntryGetType m (file + sec.offset + 24 * i))

end Image

/-! ## The info byte -/

section

variable {m : Memory} {a : Nat} {s : Symbol}

theorem Symbol.info_eq (s : Symbol) : s.info = 16 * s.binding.toNat + s.type.toNat := by
  have hmask : s.type.toNat &&& 0xF = s.type.toNat % 2 ^ 4 := Nat.and_two_pow_sub_one_eq_mod _ 4
  rw [Symbol.info, Nat.shiftLeft_eq, hmask, Nat.mod_eq_of_lt s.type.isLt, Nat.mul_comm]

theorem getInfo_eq (ha : a ≠ 0) (h : s.At m a) : symbolTableEntryGetInfo m a = s.info := by
  rw [symbolTableEntryGetInfo, if_neg ha, h.info]

/-- Without a shift only the binding zero is one of the compared values, and the answer
for the others is the one for zero. -/
theorem getBinding_eq (ha : a ≠ 0) (h : s.At m a) : symbolTableEntryGetBinding m a = .Local := by
  have hb : s.binding.toNat < 16 := s.binding.isLt
  have ht : s.type.toNat < 16 := s.type.isLt
  have hmask : s.info &&& 0xF0 = 16 * s.binding.toNat := by
    have hlt : s.info < 2 ^ 8 := by
      rw [s.info_eq]
      omega
    rw [show (0xF0 : Nat) = 2 ^ 8 - 2 ^ 4 from rfl, and_high_mask hlt (by omega), s.info_eq]
    omega
  rw [symbolTableEntryGetBinding, if_neg ha, getInfo_eq ha h, hmask]
  split
  · rfl
  · omega
  · omega
  · rfl

theorem bindingConstant_iff (b : BitVec 4) : bindingConstant b = some .Local ↔ b = 0 := by
  revert b
  decide

/-- The type is the low half as it is. -/
theorem getType_eq (ha : a ≠ 0) (h : s.At m a) :
    typeConstant s.type = some (symbolTableEntryGetType m a) ↔ s.type.toNat ≤ 4 := by
  have hmask : s.info &&& 0x0F = s.type.toNat := by
    have hlow : s.info &&& 0x0F = s.info % 2 ^ 4 := Nat.and_two_pow_sub_one_eq_mod _ 4
    have ht : s.type.toNat < 16 := s.type.isLt
    rw [hlow, s.info_eq]
    omega
  rw [symbolTableEntryGetType, if_neg ha, getInfo_eq ha h, hmask]
  generalize s.type = t
  revert t
  decide

end

/-! ## The records -/

namespace Image

variable {img : Image} {t : Target} {m : Memory} {file a i : Nat} {sec : Section}

theorem SectionAt.symbolTable (ha : a ≠ 0) (h : img.SectionAt m file a sec)
    (htype : sec.type = Section.shtSymtab) :
    sectionHeaderEntryGetType m a = .LinkerSymbolTable := by
  rw [sectionHeaderEntryGetType, if_neg ha, h.type, htype]
  rfl

theorem SectionAt.entrySize (ha : a ≠ 0) (h : img.SectionAt m file a sec)
    (htype : sec.type = Section.shtSymtab) : sectionHeaderEntryGetEntrySize m a = 24 := by
  rw [sectionHeaderEntryGetEntrySize, if_neg ha, h.entsize, (h.records htype).1]

theorem SectionAt.count (ha : a ≠ 0) (h : img.SectionAt m file a sec)
    (htype : sec.type = Section.shtSymtab) :
    sectionHeaderEntryGetSymbolTableEntryCount m a = sec.symbols.length % 2 ^ 32 := by
  rw [sectionHeaderEntryGetSymbolTableEntryCount, if_neg (not_not.mpr (h.symbolTable ha htype)),
    h.entrySize ha htype, if_neg (by omega), sectionHeaderEntryGetSectionSize, if_neg ha, h.size,
    (h.records htype).2.1, Nat.mul_div_cancel_left _ (by omega)]

/-- The record at an index is found when the index is below the count, which is cut to
32 bits. -/
theorem entry_eq (hfits : file + img.size ≤ 2 ^ t.bits) (ha : a ≠ 0)
    (h : img.SectionAt m file a sec) (htype : sec.type = Section.shtSymtab) :
    fileGetSymbolTableEntryForSection t m file a i
      = if sec.symbols.length % 2 ^ 32 ≤ i then 0 else file + sec.offset + 24 * i := by
  obtain ⟨-, hsize, hend, -⟩ := h.records htype
  have hdata : fileGetDataForSection t m file a = (file + sec.offset) % 2 ^ t.bits := by
    rw [fileGetDataForSection, if_neg ha, sectionHeaderEntryGetFileOffset, if_neg ha, h.offset]
  rw [fileGetSymbolTableEntryForSection, if_neg (not_not.mpr (h.symbolTable ha htype)),
    h.count ha htype, hdata, h.entrySize ha htype]
  by_cases hi : sec.symbols.length % 2 ^ 32 ≤ i
  · rw [if_pos hi, if_pos hi]
  · have hlt : i < sec.symbols.length := by
      have hle := Nat.mod_le sec.symbols.length (2 ^ 32)
      omega
    have hbits : 2 ^ t.bits ≤ 2 ^ 64 := by cases t <;> decide
    rw [if_neg hi, if_neg hi, Nat.mod_eq_of_lt (show file + sec.offset < 2 ^ t.bits by omega),
      Nat.mod_eq_of_lt (show i * 24 < 2 ^ 64 by omega), Nat.mod_eq_of_lt (by omega),
      Nat.mul_comm i 24]

theorem decodesTable_iff (hfits : file + img.size ≤ 2 ^ t.bits) (hfile : file ≠ 0) (ha : a ≠ 0)
    (h : img.SectionAt m file a sec) (htype : sec.type = Section.shtSymtab) :
    Decodes t m file a sec ↔ sec.symbols.length < 2 ^ 32 ∧
      ∀ s ∈ sec.symbols, s.binding = 0 ∧ s.type.toNat ≤ 4 := by
  have hrecord := (h.records htype).2.2.2
  constructor
  · intro hdecodes
    have hlength : sec.symbols.length < 2 ^ 32 := by
      -- the first index that the count excludes has a record
      by_contra hge
      have hi : sec.symbols.length % 2 ^ 32 < 2 ^ 32 := Nat.mod_lt _ (by omega)
      have hat := hdecodes _ hi
      rw [List.getElem?_eq_getElem (by omega)] at hat
      have hnull := hat.1
      rw [entry_eq hfits ha h htype, if_pos (Nat.le_refl _)] at hnull
      omega
    refine ⟨hlength, fun s hs => ?_⟩
    obtain ⟨i, hi, hget⟩ := List.mem_iff_getElem.mp hs
    have hsome : sec.symbols[i]? = some s := by rw [List.getElem?_eq_getElem hi, hget]
    have hat := hdecodes i (by omega)
    rw [hsome] at hat
    have hnotNull : file + sec.offset + 24 * i ≠ 0 := by omega
    refine ⟨?_, (getType_eq hnotNull (hrecord i s hsome)).mp hat.2.2⟩
    rw [← bindingConstant_iff, hat.2.1, getBinding_eq hnotNull (hrecord i s hsome)]
  · rintro ⟨hlength, hsymbols⟩ i hi
    rw [entry_eq hfits ha h htype, Nat.mod_eq_of_lt hlength]
    cases hsome : sec.symbols[i]? with
    | none =>
      rw [List.getElem?_eq_none_iff] at hsome
      exact if_pos hsome
    | some s =>
      have hlt : i < sec.symbols.length := (List.getElem?_eq_some_iff.mp hsome).1
      obtain ⟨hbinding, hstype⟩ := hsymbols s (List.mem_of_getElem? hsome)
      have hnotNull : file + sec.offset + 24 * i ≠ 0 := by omega
      refine ⟨if_neg (by omega), ?_, (getType_eq hnotNull (hrecord i s hsome)).mpr hstype⟩
      rw [getBinding_eq hnotNull (hrecord i s hsome), bindingConstant_iff]
      exact hbinding

end Image

/-- The symbols of a file are decoded as they were encoded, exactly when each symbol
table has less than 2 ^ 32 records, and each symbol is local and of a type that the
library knows. -/
theorem symbols_decode_iff {img : Image} {t : Target} {m : Memory} {file : Nat}
    (h : img.At t m file) :
    (∀ k sec, img.sections[k]? = some sec → sec.type = Section.shtSymtab →
        Image.Decodes t m file (img.header file k) sec) ↔
      ∀ sec ∈ img.sections, sec.type = Section.shtSymtab →
        sec.symbols.length < 2 ^ 32 ∧ ∀ s ∈ sec.symbols, s.binding = 0 ∧ s.type.toNat ≤ 4 := by
  have hnotNull : ∀ k, img.header file k ≠ 0 := by
    intro k
    have hfile := h.notNull
    rw [Image.header]
    omega
  constructor
  · intro hdecodes sec hsec htype
    obtain ⟨k, hget⟩ := List.mem_iff_getElem?.mp hsec
    exact (Image.decodesTable_iff h.fits h.notNull (hnotNull k) (h.sections k sec hget).2 htype).mp
      (hdecodes k sec hget htype)
  · intro hsections k sec hget htype
    exact (Image.decodesTable_iff h.fits h.notNull (hnotNull k) (h.sections k sec hget).2 htype).mpr
      (hsections sec (List.mem_of_getElem? hget) htype)

/-! ## A file with one symbol -/

/-- A function symbol with the binding `b`. -/
def oneSymbol (b : BitVec 4) : Symbol := ⟨0, b, 2, 0, 1, 0x1000, 16⟩

def oneSection (b : BitVec 4) : Section := ⟨Section.shtSymtab, 128, 24, 24, [oneSymbol b]⟩

def oneImage (b : BitVec 4) : Image := ⟨152, 64, [oneSection b]⟩

/-- The file of `oneImage` at 0x10000. -/
def oneMemory (b : BitVec 4) : Memory :=
  Memory.store (fun _ => 0) 0x10000 4 0x464C457F
    |>.store 0x10004 1 2
    |>.store 0x10005 1 1
    |>.store 0x10028 8 64
    |>.store 0x1003A 2 64
    |>.store 0x10044 4 2
    |>.store 0x10058 8 128
    |>.store 0x10060 8 24
    |>.store 0x10078 8 24
    |>.store 0x10084 1 (oneSymbol b).info
    |>.store 0x10086 2 1
    |>.store 0x10088 8 0x1000
    |>.store 0x10090 8 16

/-- The fields of the file, the section header and the symbol. -/
theorem oneMemory_fields (b : BitVec 4) :
    ([(0x10000, 4), (0x10004, 1), (0x10005, 1), (0x10028, 8), (0x1003A, 2)].map
      fun f => (oneMemory b).load f.1 f.2) = [0x464C457F, 2, 1, 64, 64] ∧
    ([(0x10044, 4), (0x10058, 8), (0x10060, 8), (0x10078, 8)].map
      fun f => (oneMemory b).load f.1 f.2) = [2, 128, 24, 24] ∧
    ([(0x10080, 4), (0x10084, 1), (0x10085, 1), (0x10086, 2), (0x10088, 8), (0x10090, 8)].map
      fun f => (oneMemory b).load f.1 f.2) = [0, (oneSymbol b).info, 0, 1, 0x1000, 16] := by
  revert b
  decide

theorem oneImage_at (b : BitVec 4) : (oneImage b).At .x86_64 (oneMemory b) 0x10000 := by
  obtain ⟨hfile, hheader, hsymbol⟩ := oneMemory_fields b
  simp only [List.map_cons, List.map_nil, List.cons.injEq, and_true] at hfile hheader hsymbol
  obtain ⟨hmagic, hclass, hdata, hshoff, hshentsize⟩ := hfile
  obtain ⟨htype, hoffset, hsize, hentsize⟩ := hheader
  obtain ⟨hname, hinfo, hother, hshndx, hvalue, hsymsize⟩ := hsymbol
  refine ⟨by omega, (by decide : 0x10000 + 152 ≤ 2 ^ 64), ⟨hmagic, hclass, hdata⟩, hshoff,
    hshentsize, fun k sec hget => ?_⟩
  obtain ⟨rfl, rfl⟩ : k = 0 ∧ sec = oneSection b := by
    cases k with
    | zero => exact ⟨rfl, (Option.some.inj hget).symm⟩
    | succ k => exact nomatch hget
  refine ⟨(by decide : 64 + 64 * (0 + 1) ≤ 152), htype, hoffset, hsize, hentsize,
    fun _ => ⟨rfl, rfl, (by decide : 128 + 24 ≤ 152), fun i s hget => ?_⟩⟩
  cases i with
  | zero =>
    obtain rfl : oneSymbol b = s := Option.some.inj hget
    exact ⟨hname, hinfo, hother, hshndx, hvalue, hsymsize⟩
  | succ i => exact nomatch hget

/-- A file with a global symbol is well formed, and its symbol is not decoded. -/
theorem oneImage_global_not_decoded : (oneImage 1).At .x86_64 (oneMemory 1) 0x10000 ∧
    ¬ ∀ k sec, (oneImage 1).sections[k]? = some sec → sec.type = Section.shtSymtab →
      Image.Decodes .x86_64 (oneMemory 1) 0x10000 ((oneImage 1).header 0x10000 k) sec := by
  refine ⟨oneImage_at 1, fun hdecodes => ?_⟩
  have hbinding := (hdecodes 0 (oneSection 1) rfl rfl 0 (by decide)).2.1
  exact absurd hbinding (by decide)

/-- A local one is. -/
theorem symbols_decode_iff_local :
    Image.Decodes .x86_64 (oneMemory 0) 0x10000 ((oneImage 0).header 0x10000 0) (oneSection 0) := by
  refine (symbols_decode_iff (oneImage_at 0)).mpr (fun sec hsec _ => ?_) 0 (oneSection 0) rfl rfl
  obtain rfl : sec = oneSection 0 := List.mem_singleton.mp hsec
  refine ⟨by decide, fun s hs => ?_⟩
  obtain rfl : s = oneSymbol 0 := List.mem_singleton.mp hs
  decide

end Xeos.Elf
