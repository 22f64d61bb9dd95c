import Mathlib

/-!
# Stack code

A machine with registers and a memory of words, and the instructions of code
that only moves words between the registers and the stack.  Addresses count
bytes and wrap around.  The memory gives the word at an address; code of this
kind reads and writes words at whole multiples of the word size from one stack
pointer, so two words of it are the same or apart.

`Words` lists the words from an address up.  A push puts a word in front of the
list of the stack and a pop takes one off, whatever the stack pointer is.
-/

namespace Lib.Stack

/-- The state of the machine. -/
structure Machine (R : Type) (w : Nat) where
  reg : R → BitVec w
  mem : BitVec w → BitVec w

inductive Instr (R : Type) (w : Nat) where
  | push (r : R)
  | pushImm (v : BitVec w)
  | pop (r : R)
  | mov (dst src : R)
  | movImm (dst : R) (v : BitVec w)
deriving DecidableEq, Repr

/-! ## Words in memory -/

section Words

variable {w slot : Nat} {mem : BitVec w → BitVec w}

/-- The address of the word number `i` from `a` up, for words of `slot` bytes. -/
def wordAt (slot : Nat) (a : BitVec w) (i : Nat) : BitVec w := a + BitVec.ofNat w (i * slot)

/-- The address of the `i`-th word below `a`. -/
def below (slot : Nat) (a : BitVec w) (i : Nat) : BitVec w := a - BitVec.ofNat w (i * slot)

@[simp]
theorem wordAt_zero (a : BitVec w) : wordAt slot a 0 = a := by
  simp [wordAt]

@[simp]
theorem below_zero (a : BitVec w) : below slot a 0 = a := by
  simp [below]

theorem wordAt_add (a : BitVec w) (i j : Nat) :
    wordAt slot (wordAt slot a i) j = wordAt slot a (i + j) := by
  rw [wordAt, wordAt, wordAt, BitVec.add_assoc, ← BitVec.ofNat_add, Nat.add_mul]

theorem below_add (a : BitVec w) (i j : Nat) :
    below slot (below slot a i) j = below slot a (i + j) := by
  rw [below, below, below, Nat.add_mul, BitVec.ofNat_add, BitVec.sub_sub]

theorem wordAt_below (a : BitVec w) (i j : Nat) :
    wordAt slot (below slot a i) (i + j) = wordAt slot a j := by
  rw [← wordAt_add]
  simp only [wordAt, below, BitVec.sub_add_cancel]

/-- Going up from below, but not as far. -/
theorem wordAt_below_of_le (a : BitVec w) {i n : Nat} (h : i ≤ n) :
    wordAt slot (below slot a n) i = below slot a (n - i) := by
  have hn : n = (n - i) + i := by omega
  rw [hn, ← below_add]
  simp only [wordAt, below, Nat.add_sub_cancel, BitVec.sub_add_cancel]

/-- Words of a stretch that is no longer than the memory are apart. -/
theorem wordAt_ne {a : BitVec w} {i : Nat} (hslot : 0 < slot) (hi : 0 < i)
    (hlt : i * slot < 2 ^ w) : wordAt slot a i ≠ a := by
  intro h
  have hzero : BitVec.ofNat w (i * slot) = 0#w := by
    rw [wordAt] at h
    exact BitVec.add_right_eq_self.mp h
  have htoNat := congrArg BitVec.toNat hzero
  rw [BitVec.toNat_ofNat, BitVec.toNat_zero, Nat.mod_eq_of_lt hlt] at htoNat
  have hpos := Nat.mul_pos hi hslot
  omega

/-- The words from the address `a` up are those of the list. -/
def Words (slot : Nat) (mem : BitVec w → BitVec w) (a : BitVec w) (vs : List (BitVec w)) : Prop :=
  ∀ i (h : i < vs.length), mem (wordAt slot a i) = vs[i]

/-- A word that is read relative to another one. -/
theorem Words.get_add {a : BitVec w} {vs : List (BitVec w)} (h : Words slot mem a vs) (i j : Nat)
    (hij : i + j < vs.length) : mem (wordAt slot (wordAt slot a i) j) = vs[i + j] := by
  rw [wordAt_add]
  exact h (i + j) hij

theorem words_nil (a : BitVec w) : Words slot mem a [] :=
  fun _ h => absurd h (Nat.not_lt_zero _)

theorem words_append {a : BitVec w} {us vs : List (BitVec w)} :
    Words slot mem a (us ++ vs) ↔
      Words slot mem a us ∧ Words slot mem (wordAt slot a us.length) vs := by
  constructor
  · intro h
    constructor
    · intro i hi
      rw [h i (by rw [List.length_append]; omega), List.getElem_append_left hi]
    · intro i hi
      rw [wordAt_add, h (us.length + i) (by rw [List.length_append]; omega),
        List.getElem_append_right (by omega)]
      simp only [Nat.add_sub_cancel_left]
  · rintro ⟨hus, hvs⟩ i hi
    rw [List.length_append] at hi
    by_cases hlt : i < us.length
    · rw [hus i hlt, List.getElem_append_left hlt]
    · have hi' := hvs (i - us.length) (by omega)
      rw [wordAt_add, show us.length + (i - us.length) = i by omega] at hi'
      rw [hi', List.getElem_append_right (by omega)]

theorem words_cons {a v : BitVec w} {vs : List (BitVec w)} :
    Words slot mem a (v :: vs) ↔ mem a = v ∧ Words slot mem (wordAt slot a 1) vs := by
  have happ : Words slot mem a ([v] ++ vs) ↔
      Words slot mem a [v] ∧ Words slot mem (wordAt slot a 1) vs := words_append
  rw [List.singleton_append] at happ
  rw [happ]
  constructor
  · rintro ⟨hv, hvs⟩
    have h0 := hv 0 (Nat.lt_succ_self 0)
    rw [wordAt_zero] at h0
    exact ⟨h0, hvs⟩
  · rintro ⟨hv, hvs⟩
    refine ⟨?_, hvs⟩
    intro i hi
    have hi0 : i = 0 := Nat.lt_one_iff.mp hi
    subst hi0
    rw [wordAt_zero]
    exact hv

/-- Words that are listed by name are found by name. -/
theorem words_map_iff {α : Type} [DecidableEq α] {a : BitVec w} {l : List α} (hl : l.Nodup)
    (f : α → BitVec w) :
    Words slot mem a (l.map f) ↔ ∀ x ∈ l, mem (wordAt slot a (l.idxOf x)) = f x := by
  constructor
  · intro h x hx
    have hlt := List.idxOf_lt_length_of_mem hx
    rw [h (l.idxOf x) (by rw [List.length_map]; exact hlt), List.getElem_map,
      List.getElem_idxOf hlt]
  · intro h i hi
    rw [List.length_map] at hi
    have hx := h l[i] (List.getElem_mem hi)
    rw [hl.idxOf_getElem i hi] at hx
    rw [hx, List.getElem_map]

/-- A word stored below a stretch goes in front of it. -/
theorem Words.store {a v : BitVec w} {vs : List (BitVec w)} (h : Words slot mem a vs)
    (hslot : 0 < slot) (hfit : vs.length * slot < 2 ^ w) :
    Words slot (Function.update mem (below slot a 1) v) (below slot a 1) (v :: vs) := by
  rw [words_cons]
  refine ⟨Function.update_self _ _ _, ?_⟩
  intro i hi
  have hle : (1 + i) * slot ≤ vs.length * slot := Nat.mul_le_mul_right slot (by omega)
  rw [wordAt_add, Function.update_of_ne (wordAt_ne hslot (by omega) (by omega)),
    wordAt_below]
  exact h i hi

end Words

/-! ## The instructions -/

section Exec

variable {R : Type} [DecidableEq R] {w : Nat} (sp : R) (slot : Nat)

/-- Push a word. -/
def push (v : BitVec w) (m : Machine R w) : Machine R w where
  reg := Function.update m.reg sp (below slot (m.reg sp) 1)
  mem := Function.update m.mem (below slot (m.reg sp) 1) v

/-- A push stores the register as it was before, and a pop of the stack pointer
leaves the word that was read in it. -/
def Instr.exec : Instr R w → Machine R w → Machine R w
  | .push r, m => Stack.push sp slot (m.reg r) m
  | .pushImm v, m => Stack.push sp slot v m
  | .pop r, m =>
    let reg := Function.update m.reg sp (wordAt slot (m.reg sp) 1)
    { m with reg := Function.update reg r (m.mem (m.reg sp)) }
  | .mov dst src, m => { m with reg := Function.update m.reg dst (m.reg src) }
  | .movImm dst v, m => { m with reg := Function.update m.reg dst v }

/-- Straight-line code. -/
def exec (code : List (Instr R w)) (m : Machine R w) : Machine R w :=
  code.foldl (fun m i => i.exec sp slot m) m

variable {sp slot} {m : Machine R w}

theorem exec_cons (i : Instr R w) (code : List (Instr R w)) :
    exec sp slot (i :: code) m = exec sp slot code (i.exec sp slot m) := rfl

theorem exec_nil : exec sp slot [] m = m := rfl

theorem exec_append (code code' : List (Instr R w)) :
    exec sp slot (code ++ code') m = exec sp slot code' (exec sp slot code m) :=
  List.foldl_append

/-! ## What a push does -/

@[simp]
theorem push_sp (v : BitVec w) : (push sp slot v m).reg sp = below slot (m.reg sp) 1 :=
  Function.update_self _ _ _

theorem push_reg (v : BitVec w) {r : R} (hr : r ≠ sp) : (push sp slot v m).reg r = m.reg r :=
  Function.update_of_ne hr _ _

/-- Push the words of a list, the first one last. -/
def pushAll (sp : R) (slot : Nat) (ws : List (BitVec w)) (m : Machine R w) : Machine R w :=
  ws.foldr (Stack.push sp slot) m

theorem pushAll_sp (ws : List (BitVec w)) :
    (pushAll sp slot ws m).reg sp = below slot (m.reg sp) ws.length := by
  induction ws with
  | nil => exact (below_zero _).symm
  | cons v ws ih =>
    rw [pushAll, List.foldr_cons, ← pushAll, push_sp, ih, below_add, List.length_cons]

theorem pushAll_reg (ws : List (BitVec w)) {r : R} (hr : r ≠ sp) :
    (pushAll sp slot ws m).reg r = m.reg r := by
  induction ws with
  | nil => rfl
  | cons v ws ih =>
    rw [pushAll, List.foldr_cons, ← pushAll, push_reg _ hr, ih]

theorem pushAll_words (ws : List (BitVec w)) {vs : List (BitVec w)}
    (h : Words slot m.mem (m.reg sp) vs)
    (hslot : 0 < slot) (hfit : (ws.length + vs.length) * slot < 2 ^ w) :
    Words slot (pushAll sp slot ws m).mem ((pushAll sp slot ws m).reg sp) (ws ++ vs) := by
  induction ws with
  | nil => exact h
  | cons v ws ih =>
    have hle : (ws.length + vs.length) * slot ≤ ((v :: ws).length + vs.length) * slot :=
      Nat.mul_le_mul_right slot (by simp only [List.length_cons]; omega)
    rw [pushAll, List.foldr_cons, ← pushAll, push_sp, List.cons_append]
    apply (ih (by omega)).store hslot
    rw [List.length_append]
    omega

/-- The pushes of a list of registers, the last one on top. -/
theorem exec_pushes (rs : List R) (hsp : sp ∉ rs) :
    exec sp slot (rs.map .push) m = pushAll sp slot (rs.reverse.map m.reg) m := by
  induction rs generalizing m with
  | nil => rfl
  | cons r rs ih =>
    obtain ⟨hr, hrs⟩ : sp ≠ r ∧ sp ∉ rs := by
      rw [List.mem_cons, not_or] at hsp
      exact hsp
    have hsame : rs.reverse.map (push sp slot (m.reg r) m).reg = rs.reverse.map m.reg := by
      apply List.map_congr_left
      intro q hq
      apply push_reg
      rintro rfl
      exact hrs (List.mem_reverse.mp hq)
    rw [List.map_cons, exec_cons, Instr.exec, ih hrs, hsame, List.reverse_cons, List.map_append,
      pushAll, pushAll, List.foldr_append]
    rfl

/-! ## What a pop does -/

theorem pop_reg_self {v : BitVec w} {vs : List (BitVec w)} {r : R}
    (h : Words slot m.mem (m.reg sp) (v :: vs)) :
    ((Instr.pop r).exec sp slot m).reg r = v := by
  rw [Instr.exec]
  simp only [Function.update_self]
  exact (words_cons.mp h).1

theorem pop_reg {r q : R} (hr : q ≠ r) (hsp : q ≠ sp) :
    ((Instr.pop r).exec sp slot m).reg q = m.reg q := by
  simp only [Instr.exec, Function.update_of_ne hr, Function.update_of_ne hsp]

theorem pop_sp {r : R} (hr : r ≠ sp) :
    ((Instr.pop r).exec sp slot m).reg sp = wordAt slot (m.reg sp) 1 := by
  simp only [Instr.exec, Function.update_of_ne hr.symm, Function.update_self]

/-- Pops load the registers of the list `rs` from the words on the stack. -/
theorem exec_pops (rs : List R) {f : R → BitVec w} {vs : List (BitVec w)} (hsp : sp ∉ rs)
    (h : Words slot m.mem (m.reg sp) (rs.map f ++ vs)) :
    let m' := exec sp slot (rs.map .pop) m
    m'.mem = m.mem ∧ m'.reg sp = wordAt slot (m.reg sp) rs.length ∧
      (∀ r ∈ rs, m'.reg r = f r) ∧ (∀ r, r ∉ rs → r ≠ sp → m'.reg r = m.reg r) := by
  induction rs generalizing m with
  | nil => exact ⟨rfl, (wordAt_zero _).symm, fun r hr => absurd hr List.not_mem_nil,
      fun _ _ _ => rfl⟩
  | cons r rs ih =>
    obtain ⟨hr, hrs⟩ : sp ≠ r ∧ sp ∉ rs := by
      rw [List.mem_cons, not_or] at hsp
      exact hsp
    rw [List.map_cons, List.cons_append] at h
    have hself := pop_reg_self (r := r) h
    have hpop : Words slot ((Instr.pop r).exec sp slot m).mem
        (((Instr.pop r).exec sp slot m).reg sp) (rs.map f ++ vs) := by
      rw [pop_sp hr.symm]
      exact (words_cons.mp h).2
    obtain ⟨hmem, hsp', hregs, hrest⟩ := ih hrs hpop
    rw [pop_sp hr.symm, wordAt_add] at hsp'
    refine ⟨hmem, ?_, ?_, ?_⟩
    · rw [List.map_cons, exec_cons, List.length_cons, Nat.add_comm]
      exact hsp'
    · intro q hq
      rw [List.map_cons, exec_cons]
      by_cases hin : q ∈ rs
      · exact hregs q hin
      · have hqr : q = r := (List.mem_cons.mp hq).resolve_right hin
        rw [hqr] at hin ⊢
        exact (hrest r hin hr.symm).trans hself
    · intro q hq hqsp
      rw [List.mem_cons, not_or] at hq
      rw [List.map_cons, exec_cons]
      exact (hrest q hq.2 hqsp).trans (pop_reg hq.1 hqsp)

end Exec

end Lib.Stack
