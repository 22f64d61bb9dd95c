import Xeos.Lib.Loop

/-!
# Case mapping by a locale

`System_Locale_CType_ToUpper` and `System_Locale_CType_ToLower`.  Both look for a character
in a table of the locale, with an index that no statement advances: a search that does not
succeed at the first row stays there.  The upper case function takes its result from the
lower case table.
-/

namespace Xeos.System.Locale

open Lib

/-- `int ( * )[ 2 ]`: a table of rows, each a character and what it maps to. -/
abbrev Table := List (Int32 × Int32)

/-- `struct __System_Locale_CType`, as far as the case mapping reads it. -/
structure CType where
  toupper : Table
  tolower : Table
  toupper_count : Nat
  tolower_count : Nat
  toupper_count_eq : toupper_count = toupper.length
  tolower_count_eq : tolower_count = tolower.length

/-- One round of a search for `c` in the first column of `keys`, which returns the second
column of `values`.  The result is `none` for a read outside a table. -/
def searchStep (count : Nat) (keys values : Table) (c : Int32) (i : Nat) : Nat ⊕ Option Int32 :=
  if i < count then
    match keys[i]? with
    | some row => if row.1 = c then .inr (values[i]?.map Prod.snd) else .inl i
    | none => .inr none
  else .inr (some c)

/-- `System_Locale_CType_ToUpper` returns `r`. -/
def ToUpper (ctype : Option CType) (c : Int32) (r : Option Int32) : Prop :=
  match ctype with
  | none => r = some c
  | some t => Returns (searchStep t.toupper_count t.toupper t.tolower c) 0 r

/-- `System_Locale_CType_ToLower` returns `r`. -/
def ToLower (ctype : Option CType) (c : Int32) (r : Option Int32) : Prop :=
  match ctype with
  | none => r = some c
  | some t => Returns (searchStep t.tolower_count t.tolower t.tolower c) 0 r

/-! ## What the tables say -/

/-- The first row of a character, or the character itself. -/
def Table.map (t : Table) (c : Int32) : Int32 :=
  match t.find? fun row => row.1 = c with
  | some row => row.2
  | none => c

section Search

variable {keys values : Table} {c : Int32}

theorem returns_search_nil {r : Option Int32} :
    Returns (searchStep ([] : Table).length [] values c) 0 r ↔ r = some c :=
  returns_iff_of_done (if_neg (Nat.lt_irrefl 0))

/-- The first row decides: a hit ends the search, and a miss repeats it. -/
theorem returns_search_cons {row : Int32 × Int32} {r : Option Int32} :
    Returns (searchStep (row :: keys).length (row :: keys) values c) 0 r
      ↔ row.1 = c ∧ r = values.head?.map Prod.snd := by
  have hstep : searchStep (row :: keys).length (row :: keys) values c 0
      = if row.1 = c then .inr (values[0]?.map Prod.snd) else .inl 0 := if_pos (Nat.succ_pos _)
  by_cases hrow : row.1 = c
  · rw [if_pos hrow] at hstep
    rw [returns_iff_of_done hstep, List.head?_eq_getElem?]
    exact ⟨fun h => ⟨hrow, h⟩, And.right⟩
  · rw [if_neg hrow] at hstep
    refine iff_of_false ?_ (fun h => hrow h.1)
    refine not_returns_of_invariant (fun i => i = 0) ?_ rfl
    rintro i rfl
    exact ⟨0, hstep, rfl⟩

/-- The search is right for an empty table, and for a first row of the character with the
right result in the other table. -/
theorem returns_search_iff :
    Returns (searchStep keys.length keys values c) 0 (some (keys.map c))
      ↔ ∀ row, keys.head? = some row → row.1 = c ∧ values.head?.map Prod.snd = some row.2 := by
  cases keys with
  | nil =>
    refine iff_of_true (returns_search_nil.mpr rfl) ?_
    intro row hrow
    cases hrow
  | cons row keys =>
    rw [returns_search_cons]
    simp only [List.head?_cons, Option.some.injEq, forall_eq']
    refine and_congr_right fun hrow => ?_
    have hmap : Table.map (row :: keys) c = row.2 := by
      rw [Table.map, List.find?_cons_of_pos (by exact decide_eq_true hrow)]
    rw [hmap]
    exact eq_comm

end Search

/-- Both functions map the character as their tables say. -/
def MapsCase (t : CType) (c : Int32) : Prop :=
  ToUpper (some t) c (some (t.toupper.map c)) ∧ ToLower (some t) c (some (t.tolower.map c))

/-- The functions are right when a table that is not empty has the character in its first
row, and the first rows of the two tables have the same result. -/
theorem mapsCase_iff (t : CType) (c : Int32) :
    MapsCase t c ↔
      (∀ row, t.toupper.head? = some row → row.1 = c ∧ t.tolower.head?.map Prod.snd = some row.2) ∧
        ∀ row, t.tolower.head? = some row → row.1 = c := by
  have hlower : (∀ row, t.tolower.head? = some row →
      row.1 = c ∧ t.tolower.head?.map Prod.snd = some row.2) ↔
        ∀ row, t.tolower.head? = some row → row.1 = c := by
    refine forall_congr' fun row => forall_congr' fun hrow => and_iff_left ?_
    rw [hrow, Option.map_some]
  rw [← hlower]
  unfold MapsCase ToUpper ToLower
  simp only [t.toupper_count_eq, t.tolower_count_eq]
  exact and_congr returns_search_iff returns_search_iff

/-- The letters `a` and `b`, and the two capitals. -/
def twoLetters : CType where
  toupper := [(0x61, 0x41), (0x62, 0x42)]
  tolower := [(0x41, 0x61), (0x42, 0x62)]
  toupper_count := 2
  tolower_count := 2
  toupper_count_eq := rfl
  tolower_count_eq := rfl

/-- The upper case function does not end for the second letter of its table. -/
theorem not_mapsCase_twoLetters : ¬ MapsCase twoLetters 0x62 := by
  intro h
  have hupper : Returns (searchStep twoLetters.toupper.length twoLetters.toupper
      twoLetters.tolower 0x62) 0 (some (twoLetters.toupper.map 0x62)) := h.1
  have hkey : (0x61 : Int32) = 0x62 := (returns_search_cons.mp hupper).1
  exact absurd hkey (by decide)

end Xeos.System.Locale
