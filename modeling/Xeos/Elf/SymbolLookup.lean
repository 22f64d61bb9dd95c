import Xeos.Elf.Lookup

/-!
# Looking up a symbol of an ELF-64 file

Both lookups go through the symbol tables in the order of the sections, and through each table in
the order of its records.  They differ in the test on a record only.

The lookup by address finds the first symbol with the value.  The lookup by name compares with the
name that is shown, and a symbol without a name is shown as `"<unnamed-symbol>"`.  So the empty name
is never found, and an unnamed symbol is found under the name that it does not have.
-/

namespace Xeos.Elf

open Lib Xeos.C99

/-! ## The code -/

def symbolTableEntryGetNameOffset (m : Memory) (sym : Nat) : Nat :=
  if sym = 0 then 0 else m.load sym 4

def symbolTableEntryGetSymbolValue (m : Memory) (sym : Nat) : Nat :=
  if sym = 0 then 0 else m.load (sym + 8) 8

/-- `ELF64_FileGetSymbolTableEntryNameForSection`.  The literal is at `unnamed`. -/
def fileGetSymbolTableEntryNameForSection (t : Target) (m : Memory)
    (fuel unnamed file sym sect : Nat) : Option Nat :=
  if file = 0 ∨ sym = 0 ∨ sect = 0 then some 0 else
  let stringTableIndex := sectionHeaderEntryGetLinkedSectionIndex m sect
  let stringTable := fileGetSectionHeaderEntry t m file stringTableIndex
  if stringTable = 0 then some 0 else
  let nameOffset := symbolTableEntryGetNameOffset m sym
  let name := (fileGetDataForSection t m file stringTable + nameOffset) % 2 ^ t.bits
  (strlen m fuel name).map fun length => if length = 0 then unnamed else name

/-- The loop over `j`, with `n` rounds to go: the symbol that it returns, if it does. -/
def symbolFrom (t : Target) (m : Memory) (file : Nat) (test : Nat → Option Bool) (sHeader : Nat) :
    Nat → Nat → Option (Option Nat)
  | 0, _ => some none
  | n + 1, j =>
    let sym := fileGetSymbolTableEntryForSection t m file sHeader j
    (test sym).bind fun found =>
      if found then some (some sym) else symbolFrom t m file test sHeader n (j + 1)

/-- The loop over `i`, with `n` rounds to go. -/
def symbolInSectionsFrom (t : Target) (m : Memory) (file : Nat)
    (test : (sHeader sym : Nat) → Option Bool) : Nat → Nat → Option (Option Nat)
  | 0, _ => some none
  | n + 1, i =>
    let sHeader := fileGetSectionHeaderEntry t m file i
    if sectionHeaderEntryGetType m sHeader ≠ .LinkerSymbolTable then
      symbolInSectionsFrom t m file test n (i + 1)
    else
      let symCount := sectionHeaderEntryGetSymbolTableEntryCount m sHeader
      (symbolFrom t m file (test sHeader) sHeader symCount 0).bind fun
        | some sym => some (some sym)
        | none => symbolInSectionsFrom t m file test n (i + 1)

/-- What both lookups do, with their test of a symbol. -/
def fileGetSymbolTableEntryWith (t : Target) (m : Memory) (file : Nat)
    (test : (sHeader sym : Nat) → Option Bool) : Option Nat :=
  if file = 0 then some 0 else
  let header := fileGetHeader file
  if header = 0 then some 0 else
  (symbolInSectionsFrom t m file test (headerGetSectionHeaderEntryCount m header) 0).map
    fun sym => sym.getD 0

/-- `ELF64_FileGetSymbolTableEntryWithName`.  The fuel is for the strings. -/
def fileGetSymbolTableEntryWithName (t : Target) (m : Memory) (fuel unnamed file name : Nat) :
    Option Nat :=
  fileGetSymbolTableEntryWith t m file fun sHeader sym =>
    (fileGetSymbolTableEntryNameForSection t m fuel unnamed file sym sHeader).bind fun symName =>
      (strcmp m fuel name symName).map fun r => r == 0

/-- `ELF64_FileGetSymbolTableEntryWithAddress`. -/
def fileGetSymbolTableEntryWithAddress (t : Target) (m : Memory) (file : Nat)
    (address : BitVec 64) : Option Nat :=
  fileGetSymbolTableEntryWith t m file fun _ sym =>
    some (address.toNat == symbolTableEntryGetSymbolValue m sym)

/-! ## The symbols of a file -/

/-- A symbol with its name, where it is, and whether its index is below the count, which has
32 bits. -/
structure SymbolEntry where
  address : Nat
  counted : Bool
  symbol : Symbol
  name : List UInt8
deriving DecidableEq

/-- The symbols of a section, in the order of their records. -/
def ObjectSection.entries (file : Nat) (sec : ObjectSection) : List SymbolEntry :=
  if sec.type = Section.shtSymtab then
    sec.symbols.mapIdx fun j s =>
      ⟨file + sec.offset + 24 * j, decide (j < sec.symbols.length % 2 ^ 32), s.1, s.2⟩
  else []

namespace Object

/-- The symbols of a file, in the order of the sections. -/
def entries (obj : Object) (file : Nat) : List SymbolEntry :=
  obj.sections.flatMap (ObjectSection.entries file)

/-- The symbol tables are in the file, apart from each other, and their names are in the string
tables that they are linked to. -/
structure SymbolsAt (obj : Object) (m : Memory) (file : Nat) : Prop where
  table : ∀ (k : Nat) (sec : ObjectSection), obj.sections[k]? = some sec →
    sec.type = Section.shtSymtab → sec.entsize = 24 ∧ sec.size = 24 * sec.symbols.length ∧
      sec.offset + sec.size ≤ obj.size
  record : ∀ (k : Nat) (sec : ObjectSection), obj.sections[k]? = some sec →
    sec.type = Section.shtSymtab → ∀ (j : Nat) (s : Symbol × List UInt8),
      sec.symbols[j]? = some s → s.1.At m (file + sec.offset + 24 * j) ∧
        obj.Text m file sec.link s.1.name.toNat s.2
  apart : obj.sections.Pairwise fun sec sec' => sec.type = Section.shtSymtab →
    sec'.type = Section.shtSymtab →
      sec.offset + sec.size ≤ sec'.offset ∨ sec'.offset + sec'.size ≤ sec.offset

/-- The first symbol with a property, or `NULL`. -/
def first (obj : Object) (file : Nat) (p : SymbolEntry → Bool) : Nat :=
  ((obj.entries file).find? p).elim 0 SymbolEntry.address

/-! ## What the loops find -/

section Loops

variable {obj : Object} {t : Target} {m : Memory} {file : Nat}

theorem getElem?_entries {sec : ObjectSection} (htype : sec.type = Section.shtSymtab) (j : Nat) :
    (sec.entries file)[j]? = sec.symbols[j]?.map fun s =>
      ⟨file + sec.offset + 24 * j, decide (j < sec.symbols.length % 2 ^ 32), s.1, s.2⟩ := by
  rw [ObjectSection.entries, if_pos htype, List.getElem?_mapIdx]

/-- The section in the words of the accessors of a table. -/
theorem SymbolsAt.sectionAt (h : obj.At t m file) (hs : obj.SymbolsAt m file) {k : Nat}
    {sec : ObjectSection} (hk : obj.sections[k]? = some sec) :
    (Image.mk obj.size obj.shoff []).SectionAt m file (obj.header file k)
      ⟨sec.type, sec.offset, sec.size, sec.entsize, sec.symbols.map Prod.fst⟩ := by
  have hheader := h.sections k sec hk
  refine ⟨hheader.type, hheader.offset, hheader.size, hheader.entsize, fun htype => ?_⟩
  have htable := hs.table k sec hk htype
  refine ⟨htable.1, by rw [List.length_map]; exact htable.2.1, htable.2.2, fun i s hi => ?_⟩
  rw [List.getElem?_map, Option.map_eq_some_iff] at hi
  rcases hi with ⟨pair, hpair, rfl⟩
  exact (hs.record k sec hk htype i pair hpair).1

theorem At.isSymbolTable_iff (h : obj.At t m file) {k : Nat} {sec : ObjectSection}
    (hk : obj.sections[k]? = some sec) :
    sectionHeaderEntryGetType m (obj.header file k) = .LinkerSymbolTable ↔
      sec.type = Section.shtSymtab := by
  rw [sectionHeaderEntryGetType, if_neg (h.header_ne_zero k), (h.sections k sec hk).type]
  constructor
  · intro heq
    apply BitVec.eq_of_toNat_eq
    split at heq <;> first | exact SectionType.noConfusion heq | assumption
  · intro htype
    rw [htype]
    rfl

/-- The loop over the symbols of a table looks at those that are counted. -/
theorem symbolFrom_eq (h : obj.At t m file) (hs : obj.SymbolsAt m file) {k : Nat}
    {sec : ObjectSection} (hk : obj.sections[k]? = some sec) (htype : sec.type = Section.shtSymtab)
    {test : Nat → Option Bool} {p : SymbolEntry → Bool}
    (htest : ∀ e ∈ sec.entries file, test e.address = some (p e)) (n : Nat) {j : Nat}
    (hj : j + n = sec.symbols.length % 2 ^ 32) :
    symbolFrom t m file test (obj.header file k) n j
      = some ((((sec.entries file).drop j).find? fun e => e.counted && p e).map
          SymbolEntry.address) := by
  have hlength : (sec.entries file).length = sec.symbols.length := by
    rw [ObjectSection.entries, if_pos htype, List.length_mapIdx]
  have hle := Nat.mod_le sec.symbols.length (2 ^ 32)
  induction n generalizing j with
  | zero =>
    -- what is left is not counted
    have hnone : ((sec.entries file).drop j).find? (fun e => e.counted && p e) = none := by
      rw [List.find?_eq_none]
      intro e he
      rcases List.mem_iff_getElem?.mp he with ⟨i, hi⟩
      rw [List.getElem?_drop, getElem?_entries htype, Option.map_eq_some_iff] at hi
      rcases hi with ⟨s, -, rfl⟩
      rw [decide_eq_false (by omega), Bool.false_and]
      exact Bool.false_ne_true
    rw [hnone]
    rfl
  | succ n ih =>
    have hlt : j < (sec.entries file).length := by omega
    have hget : (sec.entries file)[j]? = some (sec.entries file)[j] :=
      List.getElem?_eq_getElem hlt
    have hmem : (sec.entries file)[j] ∈ sec.entries file := List.getElem_mem hlt
    have hfields : (sec.entries file)[j].address = file + sec.offset + 24 * j ∧
        (sec.entries file)[j].counted = true := by
      rw [getElem?_entries htype, Option.map_eq_some_iff] at hget
      rcases hget with ⟨s, -, hs⟩
      rw [← hs]
      exact ⟨rfl, decide_eq_true (by omega)⟩
    have hsym : fileGetSymbolTableEntryForSection t m file (obj.header file k) j
        = (sec.entries file)[j].address := by
      rw [Image.entry_eq h.fits (h.header_ne_zero k) (hs.sectionAt h hk) htype, List.length_map,
        if_neg (by omega), hfields.1]
    rw [symbolFrom]
    simp only [hsym, htest _ hmem, Option.bind_some]
    rw [List.drop_eq_getElem_cons hlt, List.find?_cons, hfields.2, Bool.true_and]
    cases hp : p (sec.entries file)[j] with
    | true => rfl
    | false =>
      rw [if_neg Bool.false_ne_true, ih (by omega)]

/-- The loop over the sections looks at the counted symbols of the sections from `i` on. -/
theorem symbolInSectionsFrom_eq (h : obj.At t m file) (hs : obj.SymbolsAt m file)
    {test : Nat → Nat → Option Bool} {p : SymbolEntry → Bool}
    (htest : ∀ (k : Nat) (sec : ObjectSection), obj.sections[k]? = some sec →
      sec.type = Section.shtSymtab → ∀ e ∈ sec.entries file,
        test (obj.header file k) e.address = some (p e)) (n : Nat) {i : Nat}
    (hi : i + n = obj.sections.length) :
    symbolInSectionsFrom t m file test n i
      = some ((((obj.sections.drop i).flatMap (ObjectSection.entries file)).find? fun e =>
          e.counted && p e).map SymbolEntry.address) := by
  induction n generalizing i with
  | zero =>
    rw [List.drop_eq_nil_of_le (by omega)]
    rfl
  | succ n ih =>
    have hlt : i < obj.sections.length := by omega
    have hk : obj.sections[i]? = some obj.sections[i] := List.getElem?_eq_getElem hlt
    rw [symbolInSectionsFrom]
    simp only [h.sectionHeaderEntry_of_some hk]
    rw [List.drop_eq_getElem_cons hlt, List.flatMap_cons, List.find?_append]
    by_cases htype : obj.sections[i].type = Section.shtSymtab
    · have hcount : sectionHeaderEntryGetSymbolTableEntryCount m (obj.header file i)
          = obj.sections[i].symbols.length % 2 ^ 32 := by
        rw [(hs.sectionAt h hk).count (h.header_ne_zero i) htype, List.length_map]
      rw [if_neg (not_not.mpr ((h.isSymbolTable_iff hk).mpr htype)), hcount,
        symbolFrom_eq h hs hk htype (htest i _ hk htype) _ (Nat.zero_add _), List.drop_zero,
        Option.bind_some]
      cases (obj.sections[i].entries file).find? fun e => e.counted && p e with
      | some e => rfl
      | none => exact ih (by omega)
    · rw [if_pos fun heq => htype ((h.isSymbolTable_iff hk).mp heq), ih (by omega)]
      rw [ObjectSection.entries, if_neg htype]
      rfl

/-- Both lookups find the first counted symbol that passes the test. -/
theorem symbolTableEntryWith_eq (h : obj.At t m file) (hs : obj.SymbolsAt m file)
    {test : Nat → Nat → Option Bool} {p : SymbolEntry → Bool}
    (htest : ∀ (k : Nat) (sec : ObjectSection), obj.sections[k]? = some sec →
      sec.type = Section.shtSymtab → ∀ e ∈ sec.entries file,
        test (obj.header file k) e.address = some (p e)) :
    fileGetSymbolTableEntryWith t m file test
      = some (obj.first file fun e => e.counted && p e) := by
  rw [fileGetSymbolTableEntryWith, if_neg h.notNull]
  simp only [h.count]
  rw [fileGetHeader, if_neg h.notNull,
    symbolInSectionsFrom_eq h hs htest obj.sections.length (Nat.zero_add _), List.drop_zero, first,
    entries]
  cases (obj.sections.flatMap (ObjectSection.entries file)).find? fun e => e.counted && p e with
  | some e => rfl
  | none => rfl

/-! ## The tests -/

/-- The name that is shown for a symbol. -/
def shown (name : List UInt8) : List UInt8 := if name = [] then unnamedSymbol else name

theorem Text.length_lt {k offset : Nat} {text : List UInt8}
    (h : obj.Text m file k offset text) : text.length < obj.size := by
  rcases h with ⟨table, -, hin, hend, -⟩
  omega

/-- What an entry of a section is. -/
theorem mem_entries (h : obj.At t m file) (hs : obj.SymbolsAt m file) {k : Nat}
    {sec : ObjectSection} (hk : obj.sections[k]? = some sec) (htype : sec.type = Section.shtSymtab)
    {e : SymbolEntry} (he : e ∈ sec.entries file) :
    e.address ≠ 0 ∧ e.symbol.At m e.address ∧ obj.Text m file sec.link e.symbol.name.toNat e.name := by
  rcases List.mem_iff_getElem?.mp he with ⟨j, hj⟩
  rw [getElem?_entries htype, Option.map_eq_some_iff] at hj
  rcases hj with ⟨s, hsj, rfl⟩
  have hfile := h.notNull
  have hrecord := hs.record k sec hk htype j s hsj
  exact ⟨by simp only; omega, hrecord.1, hrecord.2⟩

/-- The name of a symbol is the one that is shown. -/
theorem nameForSection_eq (h : obj.At t m file) (hs : obj.SymbolsAt m file) {unnamed fuel : Nat}
    (hunnamed : CString m unnamed unnamedSymbol) (hfuel : obj.size ≤ fuel) {k : Nat}
    {sec : ObjectSection} (hk : obj.sections[k]? = some sec) (htype : sec.type = Section.shtSymtab)
    {e : SymbolEntry} (he : e ∈ sec.entries file) :
    ∃ a, fileGetSymbolTableEntryNameForSection t m fuel unnamed file e.address (obj.header file k)
      = some a ∧ CString m a (shown e.name) := by
  rcases mem_entries h hs hk htype he with ⟨haddress, hsymbol, htext⟩
  have hheader := h.header_ne_zero k
  have hlength := htext.length_lt
  have hstring := h.text htext
  have htable : fileGetSectionHeaderEntry t m file sec.link ≠ 0 := by
    rcases htext with ⟨table, hlink, -⟩
    rw [h.sectionHeaderEntry_of_some hlink]
    exact h.header_ne_zero _
  have hlink : sectionHeaderEntryGetLinkedSectionIndex m (obj.header file k) = sec.link := by
    rw [sectionHeaderEntryGetLinkedSectionIndex, if_neg hheader, (h.sections k sec hk).link]
  have hoffset : symbolTableEntryGetNameOffset m e.address = e.symbol.name.toNat := by
    rw [symbolTableEntryGetNameOffset, if_neg haddress, hsymbol.name]
  rw [fileGetSymbolTableEntryNameForSection,
    if_neg fun h0 => h0.elim h.notNull fun h0 => h0.elim haddress hheader]
  simp only [hlink, hoffset, if_neg htable, strlen_cstring hstring (show e.name.length < fuel by omega),
    Option.map_some]
  refine ⟨_, rfl, ?_⟩
  cases hname : e.name with
  | nil => exact hunnamed
  | cons b name =>
    rw [hname] at hstring
    exact hstring

/-- The lookup by name finds the first counted symbol that is shown under the name. -/
theorem symbolTableEntryWithName_eq (h : obj.At t m file) (hs : obj.SymbolsAt m file)
    {unnamed fuel name : Nat} {text : List UInt8} (hunnamed : CString m unnamed unnamedSymbol)
    (hname : CString m name text) (hfuel : obj.size ≤ fuel) (htext : text.length < fuel) :
    fileGetSymbolTableEntryWithName t m fuel unnamed file name
      = some (obj.first file fun e => e.counted && decide (shown e.name = text)) := by
  refine symbolTableEntryWith_eq h hs fun k sec hk htype e he => ?_
  rcases nameForSection_eq h hs hunnamed hfuel hk htype he with ⟨a, ha, hshown⟩
  rcases strcmp_cstring hname hshown htext with ⟨r, hr, hzero⟩
  simp only [ha, hr, Option.bind_some, Option.map_some, Option.some.injEq]
  by_cases heq : text = shown e.name
  · rw [hzero.mpr heq, heq, decide_eq_true rfl]
    rfl
  · rw [decide_eq_false fun h0 => heq h0.symm]
    exact beq_eq_false_iff_ne.mpr fun h0 => heq (hzero.mp h0)

/-- The lookup by address finds the first counted symbol with the value. -/
theorem symbolTableEntryWithAddress_eq (h : obj.At t m file) (hs : obj.SymbolsAt m file)
    (address : BitVec 64) :
    fileGetSymbolTableEntryWithAddress t m file address
      = some (obj.first file fun e => e.counted && decide (e.symbol.value = address)) := by
  refine symbolTableEntryWith_eq h hs fun k sec hk htype e he => ?_
  rcases mem_entries h hs hk htype he with ⟨haddress, hsymbol, -⟩
  rw [symbolTableEntryGetSymbolValue, if_neg haddress, hsymbol.value, Option.some.injEq]
  by_cases heq : e.symbol.value = address
  · rw [heq, decide_eq_true rfl]
    exact beq_self_eq_true _
  · rw [decide_eq_false heq]
    exact beq_eq_false_iff_ne.mpr fun h0 => heq (BitVec.eq_of_toNat_eq h0.symm)

end Loops

/-! ## When the first one is found -/

section First

variable {obj : Object} {t : Target} {m : Memory} {file : Nat}

/-- Two searches find the same, exactly when the first one that either would take is taken by
both. -/
theorem find?_eq_find?_iff {α : Type} (l : List α) (p q : α → Bool) :
    l.find? p = l.find? q ↔ ∀ x, (l.find? fun e => p e || q e) = some x → p x = true ∧ q x = true := by
  induction l with
  | nil => simp
  | cons a l ih =>
    rw [List.find?_cons, List.find?_cons, List.find?_cons]
    cases hp : p a with
    | false =>
      cases hq : q a with
      | false => exact ih
      | true =>
        simp only [Bool.false_or]
        refine iff_of_false ?_ fun hall => ?_
        · intro heq
          have := List.find?_some heq
          rw [hp] at this
          exact Bool.false_ne_true this
        · have := (hall a rfl).1
          rw [hp] at this
          exact Bool.false_ne_true this
    | true =>
      simp only [Bool.true_or]
      cases hq : q a with
      | true => exact iff_of_true rfl fun x hx => by cases hx; exact ⟨hp, hq⟩
      | false =>
        refine iff_of_false ?_ fun hall => ?_
        · intro heq
          have := List.find?_some heq.symm
          rw [hq] at this
          exact Bool.false_ne_true this
        · have := (hall a rfl).2
          rw [hq] at this
          exact Bool.false_ne_true this

/-- The records of a table are in its section. -/
theorem address_eq {sec : ObjectSection} {e : SymbolEntry} (he : e ∈ sec.entries file) :
    sec.type = Section.shtSymtab ∧
      ∃ j, j < sec.symbols.length ∧ e.address = file + sec.offset + 24 * j := by
  by_cases htype : sec.type = Section.shtSymtab
  · rcases List.mem_iff_getElem?.mp he with ⟨j, hj⟩
    rw [getElem?_entries htype, Option.map_eq_some_iff] at hj
    rcases hj with ⟨s, hs, rfl⟩
    exact ⟨htype, j, (List.getElem?_eq_some_iff.mp hs).1, rfl⟩
  · rw [ObjectSection.entries, if_neg htype] at he
    exact absurd he List.not_mem_nil

/-- No two symbols have one address. -/
theorem nodup_addresses (hs : obj.SymbolsAt m file) :
    ((obj.entries file).map SymbolEntry.address).Nodup := by
  rw [List.Nodup, List.pairwise_map, entries, List.pairwise_flatMap]
  constructor
  · intro sec _
    by_cases htype : sec.type = Section.shtSymtab
    · rw [ObjectSection.entries, if_pos htype, List.pairwise_iff_getElem]
      intro i j hi hj hij
      simp only [List.getElem_mapIdx]
      omega
    · rw [ObjectSection.entries, if_neg htype]
      exact List.Pairwise.nil
  · refine hs.apart.imp_of_mem fun {sec sec'} hsec hsec' hapart e he e' he' => ?_
    rcases List.mem_iff_getElem?.mp hsec with ⟨k, hk⟩
    rcases List.mem_iff_getElem?.mp hsec' with ⟨k', hk'⟩
    rcases address_eq he with ⟨htype, j, hj, haddress⟩
    rcases address_eq he' with ⟨htype', j', hj', haddress'⟩
    have hsize := (hs.table k sec hk htype).2.1
    have hsize' := (hs.table k' sec' hk' htype').2.1
    have hdisjoint := hapart htype htype'
    omega

/-- The addresses tell which symbol was found. -/
theorem first_eq_first_iff (h : obj.At t m file) (hs : obj.SymbolsAt m file)
    (p q : SymbolEntry → Bool) :
    obj.first file p = obj.first file q ↔
      ∀ e, ((obj.entries file).find? fun e => p e || q e) = some e → p e = true ∧ q e = true := by
  have hne : ∀ e ∈ obj.entries file, e.address ≠ 0 := by
    intro e he
    rw [entries, List.mem_flatMap] at he
    rcases he with ⟨sec, -, he⟩
    rcases address_eq he with ⟨-, j, -, haddress⟩
    have hfile := h.notNull
    omega
  have hinj := List.inj_on_of_nodup_map (nodup_addresses hs)
  rw [← find?_eq_find?_iff, first, first]
  constructor
  · intro heq
    cases hp : (obj.entries file).find? p with
    | none =>
      cases hq : (obj.entries file).find? q with
      | none => rfl
      | some e' =>
        rw [hp, hq] at heq
        exact absurd heq.symm (hne e' (List.mem_of_find?_eq_some hq))
    | some e =>
      cases hq : (obj.entries file).find? q with
      | none =>
        rw [hp, hq] at heq
        exact absurd heq (hne e (List.mem_of_find?_eq_some hp))
      | some e' =>
        rw [hp, hq] at heq
        rw [hinj (List.mem_of_find?_eq_some hp) (List.mem_of_find?_eq_some hq) heq]
  · intro heq
    rw [heq]

theorem shown_eq_self_iff (text : List UInt8) : shown text = text ↔ text ≠ [] := by
  cases text with
  | nil => exact iff_of_false (by decide) (not_not.mpr rfl)
  | cons b text => exact iff_of_true rfl (List.cons_ne_nil b text)

/-- A symbol is shown under a name that it has, or under the one for no name. -/
theorem shown_or_named (counted : Bool) (name text : List UInt8) :
    (counted && decide (shown name = text) || decide (name = text))
      = (decide (name = text) || counted && decide (name = [] ∧ text = unnamedSymbol)) := by
  rw [Bool.or_comm]
  by_cases heq : name = text
  · rw [decide_eq_true heq, Bool.true_or, Bool.true_or]
  · have hshown : shown name = text ↔ name = [] ∧ text = unnamedSymbol := by
      cases name with
      | nil => exact ⟨fun h => ⟨rfl, h.symm⟩, fun h => h.2.symm⟩
      | cons b name => exact ⟨fun h => absurd h heq, fun h => absurd h.1 (List.cons_ne_nil b name)⟩
    rw [decide_eq_decide.mpr hshown]

end First

/-- The first symbol that has the name has a name at all and is counted, and no symbol that is
shown under the name without having it is in front of it. -/
def FirstIsNamed (obj : Object) (file : Nat) (text : List UInt8) : Prop :=
  ∀ e, ((obj.entries file).find? fun e => decide (e.name = text) ||
      e.counted && decide (e.name = [] ∧ text = unnamedSymbol)) = some e →
    e.name = text ∧ text ≠ [] ∧ e.counted = true

/-- The first symbol with the value is counted. -/
def FirstIsCounted (obj : Object) (file : Nat) (address : BitVec 64) : Prop :=
  ∀ e, ((obj.entries file).find? fun e => decide (e.symbol.value = address)) = some e →
    e.counted = true

/-- The lookup by name finds the first symbol that has the name, and the lookup by address the first
one that has the value, each exactly under its condition. -/
theorem symbols_found_iff {obj : Object} {t : Target} {m : Memory} {file : Nat}
    (h : obj.At t m file) (hs : obj.SymbolsAt m file) {unnamed name : Nat} {text : List UInt8}
    (hunnamed : CString m unnamed unnamedSymbol) (hname : CString m name text)
    (address : BitVec 64) :
    ((∃ enough, ∀ fuel, enough ≤ fuel →
        fileGetSymbolTableEntryWithName t m fuel unnamed file name
          = some (obj.first file fun e => decide (e.name = text))) ∧
      fileGetSymbolTableEntryWithAddress t m file address
        = some (obj.first file fun e => decide (e.symbol.value = address))) ↔
      obj.FirstIsNamed file text ∧ obj.FirstIsCounted file address := by
  have hlookup : (∃ enough, ∀ fuel, enough ≤ fuel →
      fileGetSymbolTableEntryWithName t m fuel unnamed file name
        = some (obj.first file fun e => decide (e.name = text))) ↔
      obj.first file (fun e => e.counted && decide (shown e.name = text))
        = obj.first file fun e => decide (e.name = text) := by
    constructor
    · rintro ⟨enough, hall⟩
      have hfuel := hall (enough + obj.size + text.length + 1) (by omega)
      rw [symbolTableEntryWithName_eq h hs hunnamed hname (by omega) (by omega)] at hfuel
      exact Option.some.inj hfuel
    · intro heq
      refine ⟨obj.size + text.length + 1, fun fuel hfuel => ?_⟩
      rw [symbolTableEntryWithName_eq h hs hunnamed hname (by omega) (by omega), heq]
  rw [hlookup, symbolTableEntryWithAddress_eq h hs, Option.some.injEq, first_eq_first_iff h hs,
    first_eq_first_iff h hs]
  refine and_congr ?_ ?_
  · have hcandidate : (fun e : SymbolEntry =>
        e.counted && decide (shown e.name = text) || decide (e.name = text))
        = fun e => decide (e.name = text) ||
          e.counted && decide (e.name = [] ∧ text = unnamedSymbol) :=
      funext fun e => shown_or_named e.counted e.name text
    rw [hcandidate]
    refine forall_congr' fun e => imp_congr_right fun _ => ?_
    rw [Bool.and_eq_true, decide_eq_true_iff, decide_eq_true_iff]
    constructor
    · rintro ⟨⟨hcounted, hshown⟩, heq⟩
      exact ⟨heq, (shown_eq_self_iff text).mp (heq ▸ hshown), hcounted⟩
    · rintro ⟨heq, hne, hcounted⟩
      exact ⟨⟨hcounted, heq.symm ▸ (shown_eq_self_iff text).mpr hne⟩, heq⟩
  · have hcandidate : (fun e : SymbolEntry =>
        e.counted && decide (e.symbol.value = address) || decide (e.symbol.value = address))
        = fun e => decide (e.symbol.value = address) :=
      funext fun e => Bool.or_eq_right_iff_imp.mpr fun h0 => (Bool.and_eq_true_iff.mp h0).2
    rw [hcandidate]
    refine forall_congr' fun e => imp_congr_right fun he => ?_
    have hvalue := List.find?_some he
    rw [Bool.and_eq_true]
    exact ⟨fun h0 => h0.1.1, fun h0 => ⟨⟨h0, hvalue⟩, hvalue⟩⟩

end Object

/-! ## The symbols of a file with two sections -/

theorem twoMemory_symbols :
    ([(0x100C8, 4), (0x100CC, 1), (0x100CD, 1), (0x100CE, 2), (0x100D0, 8), (0x100D8, 8)].map
      fun f => twoMemory.load f.1 f.2) = [0, 0, 0, 0, 0, 0] ∧
    ([(0x100E0, 4), (0x100E4, 1), (0x100E5, 1), (0x100E6, 2), (0x100E8, 8), (0x100F0, 8)].map
      fun f => twoMemory.load f.1 f.2) = [1, 0x12, 0, 1, 0x1000, 16] := by
  decide

theorem twoMemory_strings : CString twoMemory 0x100C0 [] ∧ CString twoMemory 0x100C1 [97] ∧
    CString twoMemory 0x30000 unnamedSymbol := by
  refine ⟨?_, ?_, ?_⟩ <;> simp only [CString, unnamedSymbol] <;> decide

theorem twoObject_symbolsAt : twoObject.SymbolsAt twoMemory 0x10000 := by
  have hfields := twoMemory_symbols
  simp only [List.map_cons, List.map_nil, List.cons.injEq, and_true] at hfields
  rcases hfields with ⟨⟨hname0, hinfo0, hother0, hshndx0, hvalue0, hsize0⟩,
    ⟨hname1, hinfo1, hother1, hshndx1, hvalue1, hsize1⟩⟩
  refine ⟨fun k sec hget htype => ?_, fun k sec hget htype j s hs => ?_, ?_⟩
  · rcases k with _ | _ | k
    · cases Option.some.inj hget
      exact absurd htype (by decide)
    · cases Option.some.inj hget
      exact ⟨rfl, rfl, by decide⟩
    · exact nomatch hget
  · rcases k with _ | _ | k
    · cases Option.some.inj hget
      exact absurd htype (by decide)
    · cases Option.some.inj hget
      rcases j with _ | _ | j
      · cases Option.some.inj hs
        exact ⟨⟨hname0, hinfo0, hother0, hshndx0, hvalue0, hsize0⟩, _, rfl, by decide, by decide,
          twoMemory_strings.1⟩
      · cases Option.some.inj hs
        exact ⟨⟨hname1, hinfo1, hother1, hshndx1, hvalue1, hsize1⟩, _, rfl, by decide, by decide,
          twoMemory_strings.2.1⟩
      · exact nomatch hs
    · exact nomatch hget
  · refine List.pairwise_pair.mpr fun htype => ?_
    exact absurd htype (by decide)

/-- The empty name is that of the first symbol, which is not found. -/
theorem symbols_not_found_unnamed :
    twoObject.At .x86_64 twoMemory 0x10000 ∧ twoObject.SymbolsAt twoMemory 0x10000 ∧
    CString twoMemory 0x30000 unnamedSymbol ∧ CString twoMemory 0x100C0 [] ∧
    ¬ ∃ enough, ∀ fuel, enough ≤ fuel →
      fileGetSymbolTableEntryWithName .x86_64 twoMemory fuel 0x30000 0x10000 0x100C0
        = some (twoObject.first 0x10000 fun e => decide (e.name = [])) := by
  refine ⟨twoObject_at, twoObject_symbolsAt, twoMemory_strings.2.2, twoMemory_strings.1, ?_⟩
  rintro ⟨enough, hall⟩
  have hfuel := hall (enough + 248 + 1) (by omega)
  rw [Object.symbolTableEntryWithName_eq twoObject_at twoObject_symbolsAt twoMemory_strings.2.2
    twoMemory_strings.1 (show 248 ≤ _ by omega) (by simp)] at hfuel
  exact absurd (Option.some.inj hfuel) (by decide)

/-- The function is found by its name and by its address. -/
theorem symbols_found_function :
    (∃ enough, ∀ fuel, enough ≤ fuel →
      fileGetSymbolTableEntryWithName .x86_64 twoMemory fuel 0x30000 0x10000 0x100C1
        = some (twoObject.first 0x10000 fun e => decide (e.name = [97]))) ∧
    fileGetSymbolTableEntryWithAddress .x86_64 twoMemory 0x10000 0x1000
      = some (twoObject.first 0x10000 fun e => decide (e.symbol.value = 0x1000)) := by
  refine (Object.symbols_found_iff twoObject_at twoObject_symbolsAt twoMemory_strings.2.2
    twoMemory_strings.2.1 0x1000).mpr ⟨fun e he => ?_, fun e he => ?_⟩
  · have hfirst : e = ⟨0x100E0, true, ⟨1, 1, 2, 0, 1, 0x1000, 16⟩, [97]⟩ :=
      (Option.some.inj (Eq.trans (by decide) he)).symm
    rw [hfirst]
    decide
  · have hfirst : e = ⟨0x100E0, true, ⟨1, 1, 2, 0, 1, 0x1000, 16⟩, [97]⟩ :=
      (Option.some.inj (Eq.trans (by decide) he)).symm
    rw [hfirst]

end Xeos.Elf
