import Xeos.Lib.Real

/-!
# A stack that goes round its segment

The stack pointer has 16 bits, so a stack that is pushed on without end comes back to the
top of its segment.  `Ringed` is `Stacked` without the room on the stack: the words lie one
above the other, and the end of the segment may be between any two of them.  A push destroys
none of the words as long as all of them fit into the segment.
-/

namespace Lib.Real

/-- The words of the list lie one above the other from the offset `o`, which wraps. -/
def RingFrame (m : Memory) (base : Nat) : Nat → List (Nat × Nat) → Prop
  | _, [] => True
  | o, f :: fs => m.load (base + o % 2 ^ 16) f.1 = f.2 ∧ RingFrame m base (o + f.1) fs

/-- The offset counts up to the size of a segment. -/
theorem RingFrame.congr {m : Memory} {base o o' : Nat} {fs : List (Nat × Nat)}
    (h : RingFrame m base o fs) (ho : o' % 2 ^ 16 = o % 2 ^ 16) : RingFrame m base o' fs := by
  induction fs generalizing o o' with
  | nil => trivial
  | cons f fs ih =>
    obtain ⟨hload, hrest⟩ := h
    refine ⟨by rw [ho]; exact hload, ih hrest ?_⟩
    omega

/-- A store below the words. -/
theorem RingFrame.store {m : Memory} {base o x d n v : Nat} {fs : List (Nat × Nat)}
    (h : RingFrame m base o fs) (hx : x < 2 ^ 16) (ho : o % 2 ^ 16 = (x + d) % 2 ^ 16) (hn : n ≤ d)
    (hroom : d + bytes fs ≤ 2 ^ 16) : RingFrame (m.store (base + x) n v) base (x + d) fs := by
  induction fs generalizing o d with
  | nil => trivial
  | cons f fs ih =>
    obtain ⟨hload, hrest⟩ := h
    rw [bytes_cons] at hroom
    constructor
    · rw [← hload, ho]
      apply Memory.load_congr
      intro j hj
      exact Memory.store_of_not_mem _ _ (by omega)
    · rw [Nat.add_assoc]
      exact ih hrest (by omega) (by omega) (by omega)

/-- The state `c` has the words of the list on the stack below the stack pointer of `c₀`. -/
structure Ringed (c₀ c : Cpu) (fs : List (Nat × Nat)) : Prop where
  ss : c.seg .ss = c₀.seg .ss
  room : bytes fs ≤ 2 ^ 16
  sp : (c.word .sp + bytes fs) % 2 ^ 16 = c₀.word .sp
  high : (c.reg .sp).toNat / 2 ^ 16 = (c₀.reg .sp).toNat / 2 ^ 16
  frame : RingFrame c.mem (16 * (c.seg .ss).toNat) (c.word .sp) fs

namespace Ringed

variable {c₀ c c' c₁ : Cpu} {fs : List (Nat × Nat)} {n v : Nat} {t : Slot} {ts : List Slot}

theorem refl (c : Cpu) : Ringed c c [] where
  ss := rfl
  room := Nat.zero_le _
  sp := Nat.mod_eq_of_lt (c.word_lt .sp)
  high := rfl
  frame := trivial

/-- With an empty list the stack pointer is back. -/
theorem reg_sp (h : Ringed c₀ c []) : c.reg .sp = c₀.reg .sp := by
  have hsp := h.sp
  have hhigh := h.high
  have hlt := c.word_lt .sp
  apply BitVec.eq_of_toNat_eq
  simp only [Cpu.word, bytes_nil] at hsp hlt
  omega

/-- Code that leaves the stack pointer, `SS` and the memory alone. -/
theorem keep (h : Ringed c₀ c fs) (hss : c'.seg .ss = c.seg .ss) (hsp : c'.reg .sp = c.reg .sp)
    (hmem : c'.mem = c.mem) : Ringed c₀ c' fs := by
  have hword : c'.word .sp = c.word .sp := by rw [Cpu.word, hsp, Cpu.word]
  refine ⟨hss.trans h.ss, h.room, by rw [hword]; exact h.sp, by rw [hsp]; exact h.high, ?_⟩
  rw [hmem, hss, hword]
  exact h.frame

theorem pushWith (h : Ringed c₀ c fs) (hroom : n + bytes fs ≤ 2 ^ 16) (hv : v < 256 ^ n) :
    Ringed c₀ (c.pushWith n v) ((n, v) :: fs) := by
  have hsp := h.sp
  have hhigh := h.high
  have hlt := c.word_lt .sp
  have hreg := c.reg_setWord .sp (c.word .sp + 2 ^ 16 - n)
  have hword : (c.pushWith n v).word .sp = (c.word .sp + 2 ^ 16 - n) % 2 ^ 16 :=
    Cpu.word_setWord _ _ _
  refine ⟨h.ss, hroom, ?_, ?_, ?_, ?_⟩
  · rw [hword, bytes_cons, ← hsp]
    dsimp only
    omega
  · change ((c.setWord .sp (c.word .sp + 2 ^ 16 - n)).reg .sp).toNat / 2 ^ 16 = _
    rw [hreg]
    omega
  · rw [hword, Nat.mod_mod]
    change (c.mem.store (c.setWord .sp (c.word .sp + 2 ^ 16 - n)).top n v).load _ n = v
    rw [Cpu.top, Cpu.linear, Cpu.word_setWord, Nat.mod_mod]
    exact (Memory.load_store _ _ _ _).trans (Nat.mod_eq_of_lt hv)
  · rw [hword]
    change RingFrame (c.mem.store (c.setWord .sp (c.word .sp + 2 ^ 16 - n)).top n v) _ _ fs
    rw [Cpu.top, Cpu.linear, Cpu.word_setWord, Nat.mod_mod]
    exact h.frame.store (Nat.mod_lt _ (by omega)) (by omega) (Nat.le_refl n) hroom

theorem pushAll (h : Ringed c₀ c fs)
    (hroom : bytes (ts.map (Slot.saved c₁)) + bytes fs ≤ 2 ^ 16) :
    Ringed c₀ (c₁.pushAll ts c) ((ts.map (Slot.saved c₁)).reverse ++ fs) := by
  induction ts generalizing c fs with
  | nil => exact h
  | cons t ts ih =>
    rw [List.map_cons, bytes_cons] at hroom
    have hsize : (t.saved c₁).1 = t.size := rfl
    have hpush := h.pushWith (by omega) (t.value_lt c₁)
    have hrest := ih hpush (by rw [bytes_cons]; dsimp only; omega)
    rw [List.map_cons, List.reverse_cons, List.append_assoc]
    exact hrest

theorem pop (h : Ringed c₀ c (t.saved c₁ :: fs)) :
    c.pop t = t.assign (c.drop t.size) (t.value c₁) := by
  have hlt := c.word_lt .sp
  have hpeek : c.peek t.size = t.value c₁ := by
    have hload := h.frame.1
    rw [Nat.mod_eq_of_lt hlt] at hload
    rw [Cpu.peek, Cpu.top, Cpu.linear, Nat.mod_eq_of_lt hlt]
    exact hload
  rw [Cpu.pop, hpeek]

theorem drop (h : Ringed c₀ c ((n, v) :: fs)) : Ringed c₀ (c.drop n) fs := by
  have hsp := h.sp
  have hhigh := h.high
  have hroom := h.room
  have hlt := c.word_lt .sp
  have hreg := c.reg_setWord .sp (c.word .sp + n)
  have hword : (c.drop n).word .sp = (c.word .sp + n) % 2 ^ 16 := Cpu.word_setWord _ _ _
  rw [bytes_cons] at hsp hroom
  dsimp only at hsp hroom
  refine ⟨h.ss, by omega, ?_, ?_, ?_⟩
  · rw [hword, ← hsp]
    omega
  · rw [Cpu.drop, hreg]
    omega
  · rw [hword]
    exact h.frame.2.congr (Nat.mod_mod _ _)

theorem popped (h : Ringed c₀ c (t.saved c₁ :: fs)) (ht : t.Plain) : Ringed c₀ (c.pop t) fs := by
  have hdrop : Ringed c₀ (c.drop t.size) fs := Ringed.drop h
  rw [h.pop]
  exact hdrop.keep (Slot.seg_assign_of_ne ht.2.2 _) (ht.sp_assign _) (Slot.mem_assign _)

/-- Popping what was pushed. -/
theorem popAll (h : Ringed c₀ c (ts.map (Slot.saved c₁) ++ fs)) (hts : ∀ t ∈ ts, t.Plain) :
    Ringed c₀ (c.popAll ts) fs := by
  induction ts generalizing c with
  | nil => exact h
  | cons t ts ih =>
    exact ih (h.popped (hts t List.mem_cons_self)) (fun u hu => hts u (List.mem_cons_of_mem t hu))

/-- A register that one of the slots saved has its saved value. -/
theorem reg_popAll (h : Ringed c₀ c (ts.map (Slot.saved c₁) ++ fs)) (hts : ∀ t ∈ ts, t.Plain)
    {r : Reg} (hr : r ≠ .sp) (hmem : .reg r ∈ ts ∨ c.reg r = c₁.reg r) :
    (c.popAll ts).reg r = c₁.reg r := by
  induction ts generalizing c with
  | nil => exact hmem.resolve_left List.not_mem_nil
  | cons t ts ih =>
    have ht : t.Plain := hts t List.mem_cons_self
    refine ih (h.popped ht) (fun u hu => hts u (List.mem_cons_of_mem t hu)) ?_
    rw [h.pop]
    rcases hmem with hslot | heq
    · rcases List.mem_cons.mp hslot with heq | hlater
      · exact Or.inr (Slot.reg_assign (Or.inl heq.symm))
      · exact Or.inl hlater
    · exact Or.inr (Slot.reg_assign (Or.inr ((Cpu.reg_drop_of_ne c r _ hr).trans heq)))

end Ringed

end Lib.Real
