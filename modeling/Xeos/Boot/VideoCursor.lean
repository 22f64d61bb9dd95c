import Xeos.Boot.Video

/-!
# The hardware cursor of the boot loader

`XEOS.32.video.cursor.move` computes the location of the cursor with `add al, bh`.  The carry of
this addition is lost, so the location that the CRT controller gets is that of the saved position
when there is none: `calls_location_iff`.
-/

namespace Xeos.Boot.Video

open Lib

/-- The location in the registers 0x0E and 0x0F of the CRT controller. -/
def Console.location (c : Console) : Nat := c.crt 0x000E * 2 ^ 8 + c.crt 0x000F

/-- The addition of the column to the low byte of the row's location has no carry. -/
def NoCarry (x y : Nat) : Prop := y * screenCols % 2 ^ 8 + x < 2 ^ 8

instance (x y : Nat) : Decidable (NoCarry x y) := inferInstanceAs (Decidable (_ < _))

/-- A call of one of the two procedures. -/
inductive CursorCall
  | print (k : Call)
  /-- `BH` and `BL`. -/
  | move (bh bl : Nat)

namespace CursorCall

/-- The strings are where they are said to be, and the positions are inside the screen. -/
def Valid (m : Mode) : CursorCall → Prop
  | print k => k.Valid m
  | move bh bl => bh < screenCols ∧ bl < screenRows

def Does (m : Mode) (c c' : Console) : CursorCall → Prop
  | print k => Prints m k.esi (k.before c) c'
  | move bh bl => c' = cursorMove m bh bl c

/-- The screen after the call. -/
def after (s : Screen) : CursorCall → Screen
  | print k => s.writeText k.attr k.text
  | move bh bl => { s with x := bh, y := bl }

end CursorCall

/-- The calls one after the other. -/
inductive Calls (m : Mode) : List CursorCall → Console → Console → Prop
  | nil (c) : Calls m [] c c
  | cons {k ks c d c'} (first : k.Does m c d) (rest : Calls m ks d c') : Calls m (k :: ks) c c'

section Location

variable {m : Mode} {c c' : Console} {s : Screen}

theorem location_cursorMove (m : Mode) {bh bl : Nat} (hbl : bl < screenRows) (c : Console) :
    (cursorMove m bh bl c).location
      = bl * screenCols / 2 ^ 8 * 2 ^ 8 + (bl * screenCols % 2 ^ 8 + bh) % 2 ^ 8 := by
  have hbits := m.pow_bits
  rw [screenRows] at hbl
  have hrow : bl * screenCols % 2 ^ m.bits = bl * screenCols := by
    rw [screenCols, Nat.mod_eq_of_lt (by omega)]
  have hhigh : (cursorMove m bh bl c).crt 0x000E = (bl * screenCols / 2 ^ 8 * 2 ^ 8
      + (bl * screenCols % 2 ^ 8 + bh) % 2 ^ 8) / 2 ^ 8 % 2 ^ 8 := by
    rw [← hrow]
    rfl
  have hlow : (cursorMove m bh bl c).crt 0x000F = (bl * screenCols / 2 ^ 8 * 2 ^ 8
      + (bl * screenCols % 2 ^ 8 + bh) % 2 ^ 8) % 2 ^ 8 := by
    rw [← hrow]
    rfl
  rw [Console.location, hhigh, hlow, screenCols]
  omega

/-- The location is right just when the addition has no carry. -/
theorem location_iff {x y : Nat} (hx : x < screenCols) :
    y * screenCols / 2 ^ 8 * 2 ^ 8 + (y * screenCols % 2 ^ 8 + x) % 2 ^ 8 = screenCols * y + x ↔
      NoCarry x y := by
  rw [NoCarry, Nat.mul_comm screenCols y]
  rw [screenCols] at *
  omega

/-- A call of the text ends with an update of the cursor. -/
theorem Prints.update {esi : Nat} (h : Prints m esi c c') : ∃ d, c' = cursorUpdate m d := by
  obtain ⟨⟨esi', d⟩, -, hend⟩ := h.visits
  refine ⟨available m d, ?_⟩
  rw [printByte] at hend
  dsimp only at hend
  split_ifs at hend
  exact (Sum.inr.inj hend).symm

/-- A call leaves the location of the saved position, up to the carry. -/
theorem does_shows {k : CursorCall} (hk : k.Valid m) (h : Shows c s) :
    ∃ c', k.Does m c c' ∧ Shows c' (k.after s) ∧
      (c'.location = screenCols * c'.cursorY + c'.cursorX ↔ NoCarry (k.after s).x (k.after s).y) := by
  cases k with
  | print k =>
    obtain ⟨c', hprints, hshows, -⟩ := call_shows hk h
    obtain ⟨d, hd⟩ := hprints.update
    refine ⟨c', hprints, hshows, ?_⟩
    have hx : (s.writeText k.attr k.text).x = d.cursorX := by
      rw [← hshows.x, hd]
      rfl
    have hy : (s.writeText k.attr k.text).y = d.cursorY := by
      rw [← hshows.y, hd]
      rfl
    have hlt := hshows.x_lt
    have hlt' := hshows.y_lt
    rw [hx] at hlt
    rw [hy] at hlt'
    rw [hshows.x, hshows.y, CursorCall.after, hx, hy, hd, cursorUpdate, location_cursorMove m hlt']
    exact location_iff hlt
  | move bh bl =>
    refine ⟨cursorMove m bh bl c, rfl, ⟨rfl, rfl, hk.1, hk.2, h.char, h.color⟩, ?_⟩
    rw [location_cursorMove m hk.2]
    exact location_iff hk.1

/-- After any calls the location is that of the position just when the addition for the last one
had no carry. -/
theorem calls_location {ks : List CursorCall} (hks : ∀ k ∈ ks, k.Valid m) (h : Shows c s) :
    ∃ c', Calls m ks c c' ∧ Shows c' (ks.foldl CursorCall.after s) ∧
      (ks ≠ [] → (c'.location = screenCols * c'.cursorY + c'.cursorX ↔
        NoCarry (ks.foldl CursorCall.after s).x (ks.foldl CursorCall.after s).y)) := by
  induction ks generalizing c s with
  | nil => exact ⟨c, Calls.nil c, h, fun hne => absurd rfl hne⟩
  | cons k ks ih =>
    obtain ⟨d, hdoes, hshows, hiff⟩ := does_shows (hks k List.mem_cons_self) h
    obtain ⟨c', hcalls, hshows', hiff'⟩ :=
      ih (fun k' hk' => hks k' (List.mem_cons_of_mem k hk')) hshows
    refine ⟨c', Calls.cons hdoes hcalls, hshows', fun _ => ?_⟩
    cases ks with
    | nil =>
      cases hcalls
      exact hiff
    | cons k' ks => exact hiff' (List.cons_ne_nil _ _)

/-- The location after any calls, from a cursor inside the screen. -/
theorem calls_location_iff (m : Mode) {ks : List CursorCall} (hks : ∀ k ∈ ks, k.Valid m)
    (hne : ks ≠ []) {c : Console} (hx : c.cursorX < screenCols) (hy : c.cursorY < screenRows) :
    ∃ c', Calls m ks c c' ∧ c'.cursorX < screenCols ∧ c'.cursorY < screenRows ∧
      (c'.location = screenCols * c'.cursorY + c'.cursorX ↔
        NoCarry (ks.foldl CursorCall.after (screenOf c)).x
          (ks.foldl CursorCall.after (screenOf c)).y) := by
  obtain ⟨c', hcalls, hshows, hiff⟩ := calls_location hks (shows_screenOf hx hy)
  exact ⟨c', hcalls, by rw [hshows.x]; exact hshows.x_lt, by rw [hshows.y]; exact hshows.y_lt,
    hiff hne⟩

end Location

theorem carry_valid : ∀ k ∈ [CursorCall.move 16 3], k.Valid .mode32 := by
  intro k hk
  rw [List.mem_singleton.mp hk]
  exact ⟨by decide, by decide⟩

/-- Row 3 and column 16: the low byte of the row's location is 240. -/
theorem calls_location_iff_carry : ∃ c', Calls .mode32 [.move 16 3] cornerConsole c' ∧
    c'.location ≠ screenCols * c'.cursorY + c'.cursorX := by
  obtain ⟨c', hcalls, -, -, hiff⟩ := @calls_location_iff .mode32 [.move 16 3]
    carry_valid (List.cons_ne_nil _ _) cornerConsole (by decide) (by decide)
  exact ⟨c', hcalls, mt hiff.mp (by decide)⟩

theorem not_location_carry : ¬ ∀ (m : Mode) (ks : List CursorCall) (c c' : Console),
    (∀ k ∈ ks, k.Valid m) → ks ≠ [] → c.cursorX < screenCols → c.cursorY < screenRows →
      Calls m ks c c' → c'.location = screenCols * c'.cursorY + c'.cursorX := by
  intro h
  have hlocation := h .mode32 [.move 16 3] cornerConsole (cursorMove .mode32 16 3 cornerConsole)
    carry_valid (List.cons_ne_nil _ _) (by decide) (by decide) (Calls.cons rfl (Calls.nil _))
  exact absurd hlocation (by decide)

end Xeos.Boot.Video
