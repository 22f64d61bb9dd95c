import Xeos.C99.MemcpyCopy

/-!
# The shifting phases of the portable `memcpy`

When the destination is not aligned like the source, `memcpy` reads longs and
merges each one with the rest of the one before.  The first bytes of each round
of the loop over eight longs come from eight longs further on in the source.
`streamed` is the memory that the loop really leaves, `CarryRepeats` says that
the source holds the same bytes at both places, and `memcpy_eq_copy_iff` is the
result for the whole function.
-/

namespace Xeos.C99.Memcpy

open Lib Lib.Memory

/-! ## Shifts and merges -/

/-- The right shift of a long leaves its last bytes. -/
theorem load_shiftRight (abi : Abi) (m : Memory) {a diff : Nat} (hdiff : diff ≤ abi.sizeofLong) :
    m.load a abi.sizeofLong >>> (8 * diff) = m.load (a + diff) (abi.sizeofLong - diff) := by
  have hsplit := load_div m a diff (abi.sizeofLong - diff)
  rw [show diff + (abi.sizeofLong - diff) = abi.sizeofLong by omega] at hsplit
  rw [Nat.shiftRight_eq_div_pow, pow_mul]
  exact hsplit

/-- A long that is merged from the last bytes of the long at `y` and the first
bytes of the long at `x`. -/
theorem merge_eq (abi : Abi) (m : Memory) {x y diff : Nat} (hdiff : diff ≤ abi.sizeofLong) :
    abi.shiftLeft (m.load x abi.sizeofLong) (8 * (abi.sizeofLong - diff))
        ||| m.load y abi.sizeofLong >>> (8 * diff)
      = m.load (y + diff) (abi.sizeofLong - diff)
        + 256 ^ (abi.sizeofLong - diff) * m.load x diff := by
  have hbyte : ∀ k, 2 ^ (8 * k) = 256 ^ k := fun k => by
    rw [show 256 = 2 ^ 8 from rfl, ← pow_mul]
  have hsum : abi.sizeofLong = diff + (abi.sizeofLong - diff) := by omega
  have hlow : abi.shiftLeft (m.load x abi.sizeofLong) (8 * (abi.sizeofLong - diff))
      = 256 ^ (abi.sizeofLong - diff) * m.load x diff := by
    unfold Abi.shiftLeft
    rw [Nat.shiftLeft_eq, hbyte, hbyte, Nat.mul_comm]
    conv_lhs =>
      rw [show 256 ^ abi.sizeofLong = 256 ^ (abi.sizeofLong - diff) * 256 ^ diff by
        rw [← pow_add]
        congr 1
        omega]
    rw [Nat.mul_mod_mul_left]
    congr 1
    conv_lhs => rw [hsum]
    exact load_mod m x diff _
  have hlt : m.load (y + diff) (abi.sizeofLong - diff) < 2 ^ (8 * (abi.sizeofLong - diff)) := by
    rw [hbyte]
    exact load_lt m _ _
  rw [load_shiftRight abi m hdiff, hlow, ← hbyte, ← Nat.two_pow_add_eq_or_of_lt hlt, Nat.add_comm]

/-- Storing a merged long is two copies. -/
theorem store_merge (abi : Abi) (mem m : Memory) {x y a diff : Nat}
    (hdiff : diff ≤ abi.sizeofLong) :
    mem.store a abi.sizeofLong
        (abi.shiftLeft (m.load x abi.sizeofLong) (8 * (abi.sizeofLong - diff))
          ||| m.load y abi.sizeofLong >>> (8 * diff))
      = copy (copy mem m a (y + diff) (abi.sizeofLong - diff)) m
          (a + (abi.sizeofLong - diff)) x diff := by
  have hstore := store_append mem a (abi.sizeofLong - diff) diff (m.load x diff)
    (load_lt m (y + diff) (abi.sizeofLong - diff))
  rw [show abi.sizeofLong - diff + diff = abi.sizeofLong by omega] at hstore
  rw [merge_eq abi m hdiff, hstore, store_load, store_load]

/-! ## The loop over eight longs -/

section Stream

variable {abi : Abi} {m : Memory} {d s total diff : Nat}

/-- The memory after `k` rounds of the loop over eight longs.  The first bytes
of a round come from the place of the first bytes of the next one. -/
def streamed (abi : Abi) (m : Memory) (d s diff : Nat) : Nat → Memory
  | 0 => copy m m d s diff
  | k + 1 =>
    copy
      (copy (streamed abi m d s diff k) m (d + diff + k * (8 * abi.sizeofLong))
        (s + (k + 1) * (8 * abi.sizeofLong) + diff) (abi.sizeofLong - diff)) m
      (d + diff + k * (8 * abi.sizeofLong) + (abi.sizeofLong - diff))
      (s + k * (8 * abi.sizeofLong) + abi.sizeofLong) (7 * abi.sizeofLong + diff)

theorem streamed_zero : streamed abi m d s diff 0 = copy m m d s diff := rfl

theorem streamed_succ (k : Nat) :
    streamed abi m d s diff (k + 1) =
      copy
        (copy (streamed abi m d s diff k) m (d + diff + k * (8 * abi.sizeofLong))
          (s + (k + 1) * (8 * abi.sizeofLong) + diff) (abi.sizeofLong - diff)) m
        (d + diff + k * (8 * abi.sizeofLong) + (abi.sizeofLong - diff))
        (s + k * (8 * abi.sizeofLong) + abi.sizeofLong) (7 * abi.sizeofLong + diff) := rfl

/-- The state after `k` rounds of the loop. -/
def streamState (abi : Abi) (m : Memory) (d s diff total k : Nat) : Stream where
  mem := streamed abi m d s diff k
  cp1 := d + diff + k * (8 * abi.sizeofLong)
  cp2 := s + k * (8 * abi.sizeofLong) + abi.sizeofLong
  n := total - abi.sizeofLong - k * (8 * abi.sizeofLong)
  carry := m.load (s + k * (8 * abi.sizeofLong) + diff) (abi.sizeofLong - diff)

/-- The loop writes nothing but the bytes it has passed. -/
theorem streamed_of_not_mem (hdiff : diff ≤ abi.sizeofLong) {k b : Nat}
    (h : b < d ∨ d + diff + k * (8 * abi.sizeofLong) ≤ b) :
    streamed abi m d s diff k b = m b := by
  induction k with
  | zero =>
    rw [streamed_zero]
    exact copy_of_not_mem m m (by omega)
  | succ k ih =>
    rw [Nat.succ_mul] at h
    rw [streamed_succ, copy_of_not_mem _ _ (by omega), copy_of_not_mem _ _ (by omega)]
    exact ih (by omega)

/-- A later round does not touch the bytes of an earlier one. -/
theorem streamed_of_lt {k l b : Nat} (hkl : k ≤ l)
    (h : b < d + diff + k * (8 * abi.sizeofLong)) :
    streamed abi m d s diff l b = streamed abi m d s diff k b := by
  induction l with
  | zero => rw [show k = 0 by omega]
  | succ l ih =>
    rcases Nat.eq_or_lt_of_le hkl with heq | hlt
    · rw [heq]
    · have hle : k * (8 * abi.sizeofLong) ≤ l * (8 * abi.sizeofLong) :=
        Nat.mul_le_mul_right _ (by omega)
      rw [streamed_succ, copy_of_not_mem _ _ (by omega), copy_of_not_mem _ _ (by omega)]
      exact ih (by omega)

theorem load_streamed (hapart : d + total ≤ s ∨ s + total ≤ d) (hdiff : diff ≤ abi.sizeofLong)
    {k a w : Nat} (hk : diff + k * (8 * abi.sizeofLong) ≤ total) (ha : s ≤ a)
    (hw : a + w ≤ s + total) : (streamed abi m d s diff k).load a w = m.load a w := by
  apply load_congr
  intro i hi
  exact streamed_of_not_mem hdiff (by omega)

theorem streamStart_eq (hdiff : diff ≤ abi.sizeofLong) :
    streamStart abi diff ⟨m, d, s, total⟩ = streamState abi m d s diff total 0 := by
  have hmem : forLoop (fun i (mem : Memory) => mem.set (d + i)
      (UInt8.ofNat ((m.load s abi.sizeofLong >>> (i * 8)) &&& 0xFF))) diff m
        = copy m m d s diff := by
    apply forLoop_inv _ _ _ (fun k mem => mem = copy m m d s k)
    · rw [copy_zero]
    · intro k mem hk hmem
      have hbyte : UInt8.ofNat ((m.load s abi.sizeofLong >>> (k * 8)) &&& 0xFF) = m (s + k) := by
        rw [← load_byte m (show k < abi.sizeofLong by omega)]
        rw [Nat.shiftRight_eq_div_pow, Nat.mul_comm k 8, pow_mul]
        rw [show 0xFF = 2 ^ 8 - 1 from rfl, Nat.and_two_pow_sub_one_eq_mod]
        apply UInt8.toNat_inj.mp
        rw [UInt8.toNat_ofNat', UInt8.toNat_ofNat', Nat.mod_mod, show 2 ^ 8 = 256 from rfl]
      rw [hmem, hbyte, set_eq_copy, copy_append]
  have hcarry : m.load s abi.sizeofLong >>> (diff * 8)
      = m.load (s + diff) (abi.sizeofLong - diff) := by
    rw [Nat.mul_comm diff 8]
    exact load_shiftRight abi m hdiff
  simp only [streamStart, streamState, streamed_zero, hmem, hcarry, Nat.zero_mul, Nat.add_zero,
    Nat.sub_zero]

/-- The stores of a round.  The first one merges with the long at `c`, and each
of the others with the long before its own, so all but the first bytes are one
copy. -/
theorem forLoop_merge (abi : Abi) (mem : Memory) {a x c : Nat} (hdiff : diff ≤ abi.sizeofLong)
    (l1 l2 : Nat → Nat) {j : Nat}
    (hl1 : ∀ i, i ≤ j → l1 i = m.load (x + i * abi.sizeofLong) abi.sizeofLong)
    (hhead : l2 0 = m.load c abi.sizeofLong >>> (8 * diff))
    (htail : ∀ i, i < j → l2 (i + 1) = l1 i >>> (8 * diff)) :
    forLoop (fun i mem => mem.store (a + i * abi.sizeofLong) abi.sizeofLong
        (abi.shiftLeft (l1 i) (8 * (abi.sizeofLong - diff)) ||| l2 i)) (j + 1) mem
      = copy (copy mem m a (c + diff) (abi.sizeofLong - diff)) m
          (a + (abi.sizeofLong - diff)) x (j * abi.sizeofLong + diff) := by
  induction j with
  | zero =>
    rw [forLoop_succ, forLoop_zero, hl1 0 (Nat.le_refl 0), hhead, store_merge abi mem m hdiff]
    simp only [Nat.zero_mul, Nat.add_zero, Nat.zero_add]
  | succ j ih =>
    have hprev := ih (fun i hi => hl1 i (by omega)) (fun i hi => htail i (by omega))
    have hsucc : (j + 1) * abi.sizeofLong = j * abi.sizeofLong + abi.sizeofLong :=
      Nat.succ_mul j _
    rw [forLoop_succ, hprev, htail j (by omega), hl1 (j + 1) (Nat.le_refl _), hl1 j (by omega),
      store_merge abi _ m hdiff]
    -- the two new copies continue the copy of the longs before
    rw [show a + (j + 1) * abi.sizeofLong
        = a + (abi.sizeofLong - diff) + (j * abi.sizeofLong + diff) by omega,
      Nat.add_assoc x, copy_append, Nat.add_assoc (a + (abi.sizeofLong - diff)),
      show x + (j + 1) * abi.sizeofLong
        = x + (j * abi.sizeofLong + diff + (abi.sizeofLong - diff)) by omega, copy_append]
    congr 1
    omega

/-- One round of the loop. -/
theorem streamRound_eq (hapart : d + total ≤ s ∨ s + total ≤ d) (hdiff : diff ≤ abi.sizeofLong)
    {k : Nat} (hk : abi.sizeofLong + (k + 1) * (8 * abi.sizeofLong) ≤ total) :
    streamRound abi (8 * (abi.sizeofLong - diff)) (8 * diff) (streamState abi m d s diff total k)
      = streamState abi m d s diff total (k + 1) := by
  have hsucc : (k + 1) * (8 * abi.sizeofLong)
      = k * (8 * abi.sizeofLong) + 8 * abi.sizeofLong := Nat.succ_mul k _
  have hl1 : ∀ i, i ≤ 7 →
      (streamed abi m d s diff k).load
        (s + k * (8 * abi.sizeofLong) + abi.sizeofLong + i * abi.sizeofLong) abi.sizeofLong
      = m.load (s + k * (8 * abi.sizeofLong) + abi.sizeofLong + i * abi.sizeofLong)
          abi.sizeofLong := by
    intro i hi
    have hle : i * abi.sizeofLong ≤ 7 * abi.sizeofLong := Nat.mul_le_mul_right _ hi
    exact load_streamed hapart hdiff (by omega) (by omega) (by omega)
  have hlast : s + k * (8 * abi.sizeofLong) + abi.sizeofLong + 7 * abi.sizeofLong
      = s + (k + 1) * (8 * abi.sizeofLong) := by omega
  have hmem := forLoop_merge (m := m) abi (streamed abi m d s diff k) hdiff
    (fun j => (streamed abi m d s diff k).load
      (s + k * (8 * abi.sizeofLong) + abi.sizeofLong + j * abi.sizeofLong) abi.sizeofLong)
    (fun j => if j = 0 then (streamed abi m d s diff k).load
        (s + k * (8 * abi.sizeofLong) + abi.sizeofLong + 7 * abi.sizeofLong) abi.sizeofLong
          >>> (8 * diff)
      else (streamed abi m d s diff k).load
        (s + k * (8 * abi.sizeofLong) + abi.sizeofLong + (j - 1) * abi.sizeofLong) abi.sizeofLong
          >>> (8 * diff))
    (a := d + diff + k * (8 * abi.sizeofLong)) (j := 7) hl1
    (c := s + (k + 1) * (8 * abi.sizeofLong))
    (by rw [if_pos rfl, hl1 7 (Nat.le_refl 7), hlast])
    (by
      intro i hi
      rw [if_neg (Nat.succ_ne_zero i), Nat.add_sub_cancel])
  have hcarry : (streamed abi m d s diff k).load
      (s + k * (8 * abi.sizeofLong) + abi.sizeofLong + 7 * abi.sizeofLong) abi.sizeofLong
        >>> (8 * diff)
      = m.load (s + (k + 1) * (8 * abi.sizeofLong) + diff) (abi.sizeofLong - diff) := by
    rw [hl1 7 (Nat.le_refl 7), hlast, load_shiftRight abi m hdiff]
  simp only [streamRound, streamState, Stream.mk.injEq, Transfer.mk.injEq, if_true]
  refine ⟨⟨?_, by omega, by omega, by omega⟩, hcarry⟩
  rw [streamed_succ]
  exact hmem

/-- The number of rounds of the loop for `total` bytes. -/
def rounds (abi : Abi) (total : Nat) : Nat :=
  (total - abi.sizeofLong - 1) / (8 * abi.sizeofLong)

theorem rounds_mul_le (htotal : 9 * abi.sizeofLong ≤ total) :
    abi.sizeofLong + rounds abi total * (8 * abi.sizeofLong) < total := by
  have hpos := abi.sizeofLong_pos
  have hle : rounds abi total * (8 * abi.sizeofLong) ≤ total - abi.sizeofLong - 1 :=
    Nat.div_mul_le_self _ _
  omega

theorem streamLoop_eq (hapart : d + total ≤ s ∨ s + total ≤ d) (hdiff : diff ≤ abi.sizeofLong)
    (htotal : 9 * abi.sizeofLong ≤ total) :
    streamLoop abi (8 * (abi.sizeofLong - diff)) (8 * diff) (streamState abi m d s diff total 0)
      = streamState abi m d s diff total (rounds abi total) := by
  have hpos := abi.sizeofLong_pos
  have hlast := rounds_mul_le htotal
  unfold streamLoop
  have hspec := whileLoop_spec (fun t : Stream => decide (t.n > abi.sizeofLong * 8))
    (streamRound abi (8 * (abi.sizeofLong - diff)) (8 * diff))
    (fun t => ∃ k, k ≤ rounds abi total ∧ t = streamState abi m d s diff total k)
    (fun t => t.n) (Nat.le_refl (streamState abi m d s diff total 0).n)
    ⟨0, Nat.zero_le _, rfl⟩ (by
      intro t ht hcond
      obtain ⟨k, hk, rfl⟩ := ht
      have hgt : total - abi.sizeofLong - k * (8 * abi.sizeofLong) > abi.sizeofLong * 8 :=
        of_decide_eq_true hcond
      have hsucc : (k + 1) * (8 * abi.sizeofLong)
          = k * (8 * abi.sizeofLong) + 8 * abi.sizeofLong := Nat.succ_mul k _
      have hnext : k + 1 ≤ rounds abi total := by
        apply (Nat.le_div_iff_mul_le (by omega)).mpr
        omega
      rw [streamRound_eq hapart hdiff (by omega)]
      refine ⟨⟨k + 1, hnext, rfl⟩, ?_⟩
      show total - abi.sizeofLong - (k + 1) * (8 * abi.sizeofLong)
        < total - abi.sizeofLong - k * (8 * abi.sizeofLong)
      omega)
  obtain ⟨⟨k, hk, hkeq⟩, hstop⟩ := hspec
  rw [hkeq] at hstop
  have hle : ¬ total - abi.sizeofLong - k * (8 * abi.sizeofLong) > abi.sizeofLong * 8 :=
    of_decide_eq_false hstop
  have hk' : rounds abi total < k + 1 := by
    apply (Nat.div_lt_iff_lt_mul (by omega)).mpr
    rw [Nat.succ_mul]
    omega
  rw [hkeq, show k = rounds abi total by omega]

/-- The carry is written out byte by byte. -/
theorem writeCarry_eq (mem m : Memory) (a b c n q : Nat) :
    writeCarry q ⟨⟨mem, a, c, n⟩, m.load b q⟩ = ⟨⟨copy mem m a b q, a + q, c, n⟩, 0⟩ := by
  have hinv : ∀ k, k ≤ q → writeCarry k ⟨⟨mem, a, c, n⟩, m.load b q⟩
      = ⟨⟨copy mem m a b k, a + k, c, n⟩, m.load (b + k) (q - k)⟩ := by
    intro k hk
    induction k with
    | zero => simp [writeCarry]
    | succ k ih =>
      have hhead : m.load (b + k) (q - k)
          = (m (b + k)).toNat + 256 * m.load (b + (k + 1)) (q - (k + 1)) := by
        rw [show q - k = (q - (k + 1)) + 1 by omega]
        rfl
      have hb : (m (b + k)).toNat < 256 := (m (b + k)).toNat_lt
      have hbyte : UInt8.ofNat (m.load (b + k) (q - k) &&& 0xFF) = m (b + k) := by
        rw [show 0xFF = 2 ^ 8 - 1 from rfl, Nat.and_two_pow_sub_one_eq_mod, hhead]
        apply UInt8.toNat_inj.mp
        rw [UInt8.toNat_ofNat']
        omega
      have hrest : m.load (b + k) (q - k) >>> 8 = m.load (b + (k + 1)) (q - (k + 1)) := by
        rw [Nat.shiftRight_eq_div_pow, hhead]
        omega
      have hstep := ih (by omega)
      unfold writeCarry at hstep ⊢
      rw [forLoop_succ, hstep]
      simp only [hbyte, hrest, set_eq_copy, copy_append, Nat.add_assoc]
  have hall := hinv q (Nat.le_refl q)
  rw [Nat.sub_self] at hall
  exact hall

end Stream

theorem copyRest_mem {m : Memory} {d s n : Nat} (hapart : d + n ≤ s ∨ s + n ≤ d) :
    (copyRest ⟨m, d, s, n⟩).mem = copy m m d s n := by
  have h := copyRest_progress (m := m) hapart (Nat.zero_le n)
  simp only [progress, copy_zero, Nat.add_zero, Nat.sub_zero] at h
  rw [h]

section Shifted

variable {abi : Abi} {m : Memory} {d s total : Nat}

theorem copyShifted_mem_of_short (hapart : d + total ≤ s ∨ s + total ≤ d)
    (hshort : total < 9 * abi.sizeofLong) :
    (copyShifted abi ⟨m, d, s, total⟩).mem = copy m m d s total := by
  unfold copyShifted
  rw [if_neg (by show ¬ total ≥ abi.sizeofLong * 9; omega)]
  exact copyRest_mem hapart

/-- The memory that the branch leaves when its loop runs. -/
theorem copyShifted_mem_of_long (hapart : d + total ≤ s ∨ s + total ≤ d)
    (hd : d + total ≤ 2 ^ abi.pointerBits) (htotal : 9 * abi.sizeofLong ≤ total) :
    (copyShifted abi ⟨m, d, s, total⟩).mem
      = copy (streamed abi m d s (abi.sizeofLong - d % abi.sizeofLong) (rounds abi total)) m
          (d + (abi.sizeofLong - d % abi.sizeofLong + rounds abi total * (8 * abi.sizeofLong)))
          (s + (abi.sizeofLong - d % abi.sizeofLong + rounds abi total * (8 * abi.sizeofLong)))
          (total - (abi.sizeofLong - d % abi.sizeofLong
            + rounds abi total * (8 * abi.sizeofLong))) := by
  have hpos := abi.sizeofLong_pos
  have hlast := rounds_mul_le htotal
  have hmod : d % abi.sizeofLong < abi.sizeofLong := Nat.mod_lt d hpos
  unfold copyShifted
  rw [if_pos (by show total ≥ abi.sizeofLong * 9; omega)]
  simp only [abi.sub_alignDown (show d < 2 ^ abi.pointerBits by omega)]
  generalize hdiff : abi.sizeofLong - d % abi.sizeofLong = diff
  have hle : diff ≤ abi.sizeofLong := by omega
  rw [streamStart_eq hle, streamLoop_eq hapart hle htotal, streamState, writeCarry_eq]
  simp only
  generalize hrounds : rounds abi total * (8 * abi.sizeofLong) = passed at hlast ⊢
  rw [copyRest_mem (by omega)]
  -- what is left of the source is still the source of the start
  have hsrc : ∀ i, i < total - abi.sizeofLong - passed →
      copy (streamed abi m d s diff (rounds abi total)) m (d + diff + passed)
        (s + passed + diff) (abi.sizeofLong - diff) (s + passed + abi.sizeofLong + i)
      = m (s + passed + abi.sizeofLong + i) := by
    intro i hi
    rw [copy_of_not_mem _ _ (by omega)]
    exact streamed_of_not_mem hle (by rw [hrounds]; omega)
  rw [copy_congr hsrc, show d + diff + passed + (abi.sizeofLong - diff)
      = d + diff + passed + (abi.sizeofLong - diff) from rfl,
    show s + passed + abi.sizeofLong = s + passed + diff + (abi.sizeofLong - diff) by omega,
    copy_append, show d + diff + passed = d + (diff + passed) by omega,
    show s + passed + diff = s + (diff + passed) by omega]
  congr 1
  omega

end Shifted

/-! ## The whole function -/

/-- In every round of the loop the bytes that go to the head of the round are
the same as the bytes eight longs further on.  `d` is not aligned and `s` is. -/
def RoundsRepeat (abi : Abi) (m : Memory) (d s total : Nat) : Prop :=
  9 * abi.sizeofLong ≤ total → ∀ k, k < rounds abi total →
    ∀ t, abi.sizeofLong - d % abi.sizeofLong ≤ t → t < abi.sizeofLong →
      m (s + k * (8 * abi.sizeofLong) + t) = m (s + (k + 1) * (8 * abi.sizeofLong) + t)

section Repeat

variable {abi : Abi} {m : Memory} {d s total : Nat}

theorem streamed_eq_copy {diff n : Nat} (hdiff : diff ≤ abi.sizeofLong)
    (h : ∀ k, k < n → ∀ t, diff ≤ t → t < abi.sizeofLong →
      m (s + k * (8 * abi.sizeofLong) + t) = m (s + (k + 1) * (8 * abi.sizeofLong) + t)) :
    streamed abi m d s diff n = copy m m d s (diff + n * (8 * abi.sizeofLong)) := by
  induction n with
  | zero => rw [streamed_zero, Nat.zero_mul, Nat.add_zero]
  | succ n ih =>
    have hprev := ih (fun k hk => h k (by omega))
    have hhead : ∀ i, i < abi.sizeofLong - diff →
        m (s + (n + 1) * (8 * abi.sizeofLong) + diff + i)
          = m (s + (diff + n * (8 * abi.sizeofLong)) + i) := by
      intro i hi
      have hrep := h n (Nat.lt_succ_self n) (diff + i) (by omega) (by omega)
      rw [show s + (diff + n * (8 * abi.sizeofLong)) + i
          = s + n * (8 * abi.sizeofLong) + (diff + i) by omega, hrep, Nat.add_assoc _ diff i]
    have hlen : diff + (n + 1) * (8 * abi.sizeofLong)
        = diff + n * (8 * abi.sizeofLong) + (abi.sizeofLong - diff)
          + (7 * abi.sizeofLong + diff) := by
      rw [Nat.succ_mul]
      omega
    rw [streamed_succ, hprev, copy_congr hhead, Nat.add_assoc d diff, copy_append, hlen,
      Nat.add_assoc d, show s + n * (8 * abi.sizeofLong) + abi.sizeofLong
        = s + (diff + n * (8 * abi.sizeofLong) + (abi.sizeofLong - diff)) by omega,
      copy_append]

theorem copyShifted_mem_iff (abi : Abi) (hapart : d + total ≤ s ∨ s + total ≤ d)
    (hd : d + total ≤ 2 ^ abi.pointerBits) :
    (copyShifted abi ⟨m, d, s, total⟩).mem = copy m m d s total
      ↔ RoundsRepeat abi m d s total := by
  have hpos := abi.sizeofLong_pos
  have hmod : d % abi.sizeofLong < abi.sizeofLong := Nat.mod_lt d hpos
  rcases Nat.lt_or_ge total (9 * abi.sizeofLong) with hshort | hlong
  · constructor
    · intro _ hlong
      omega
    · intro _
      exact copyShifted_mem_of_short hapart hshort
  rw [copyShifted_mem_of_long hapart hd hlong]
  have hlast := rounds_mul_le hlong
  generalize hdiff : abi.sizeofLong - d % abi.sizeofLong = diff
  have hle : diff ≤ abi.sizeofLong := by omega
  unfold RoundsRepeat
  rw [hdiff]
  constructor
  · intro heq _ k hk t ht htL
    -- the byte `t` of the round `k` is written there and never again
    have hsucc : (k + 1) * (8 * abi.sizeofLong)
        = k * (8 * abi.sizeofLong) + 8 * abi.sizeofLong := Nat.succ_mul k _
    have hkle : (k + 1) * (8 * abi.sizeofLong) ≤ rounds abi total * (8 * abi.sizeofLong) :=
      Nat.mul_le_mul_right _ hk
    have hbyte := congrFun heq (d + k * (8 * abi.sizeofLong) + t)
    rw [copy_of_not_mem _ _ (by omega), copy_of_mem m m (by omega),
      streamed_of_lt (show k + 1 ≤ rounds abi total from hk) (by omega), streamed,
      copy_of_not_mem _ _ (by omega), copy_of_mem _ _ (by omega)] at hbyte
    rw [show s + k * (8 * abi.sizeofLong) + t
        = s + (d + k * (8 * abi.sizeofLong) + t - d) by omega, ← hbyte]
    congr 1
    omega
  · intro h
    rw [streamed_eq_copy hle (h hlong), copy_append]
    congr 1
    omega

/-- The condition concerns the bytes of the source only. -/
theorem RoundsRepeat.congr {m' : Memory} (hsrc : ∀ i, i < total → m (s + i) = m' (s + i))
    (h : RoundsRepeat abi m d s total) : RoundsRepeat abi m' d s total := by
  intro hlong k hk t ht htL
  have hlast := rounds_mul_le hlong
  have hsucc : (k + 1) * (8 * abi.sizeofLong)
      = k * (8 * abi.sizeofLong) + 8 * abi.sizeofLong := Nat.succ_mul k _
  have hkle : (k + 1) * (8 * abi.sizeofLong) ≤ rounds abi total * (8 * abi.sizeofLong) :=
    Nat.mul_le_mul_right _ hk
  have hrep := h hlong k hk t ht htL
  have hhere := hsrc (k * (8 * abi.sizeofLong) + t) (by omega)
  have hthere := hsrc ((k + 1) * (8 * abi.sizeofLong) + t) (by omega)
  rw [← Nat.add_assoc] at hhere hthere
  rw [← hhere, ← hthere]
  exact hrep

end Repeat

/-- The condition for the arguments of `memcpy`: it concerns the part after the
bytes that are copied before the source is aligned, and only when the
destination is not aligned there. -/
def CarryRepeats (abi : Abi) (m : Memory) (s1 s2 n : Nat) : Prop :=
  let head := min n (gap abi.sizeofLong s2)
  (s1 + head) % abi.sizeofLong ≠ 0 → RoundsRepeat abi m (s1 + head) (s2 + head) (n - head)

/-- `memcpy` is the byte-by-byte copy exactly when the carry repeats.  With a
`NULL` pointer it does nothing, which is the copy only of equal bytes. -/
theorem memcpy_eq_copy_iff (abi : Abi) (m : Memory) (s1 s2 n : Nat)
    (hs1 : s1 + n ≤ 2 ^ abi.pointerBits) (hs2 : s2 + n ≤ 2 ^ abi.pointerBits)
    (hapart : s1 + n ≤ s2 ∨ s2 + n ≤ s1) :
    memcpy abi m s1 s2 n = (s1, copy m m s1 s2 n) ↔
      if s1 = 0 ∨ s2 = 0 then ∀ i, i < n → m (s1 + i) = m (s2 + i)
      else CarryRepeats abi m s1 s2 n := by
  unfold memcpy
  by_cases hnull : s1 = 0 ∨ s2 = 0
  · rw [if_pos (by omega), if_pos hnull, Prod.mk.injEq, eq_comm (a := m)]
    simp only [true_and]
    exact copy_self_iff m s1 s2 n
  rw [if_neg hnull]
  rcases Nat.eq_zero_or_pos n with hzero | hn
  · subst hzero
    rw [if_pos (by omega), copy_zero]
    constructor
    · intro _ _ hlong
      have hpos := abi.sizeofLong_pos
      omega
    · intro _
      rfl
  rw [if_neg (by omega)]
  have hstart := alignSource_progress (m := m) hapart hs2
  rw [progress, copy_zero, Nat.add_zero, Nat.add_zero, Nat.sub_zero] at hstart
  unfold CarryRepeats
  rw [hstart]
  simp only
  generalize hhead : min n (gap abi.sizeofLong s2) = head
  have hle : head ≤ n := by omega
  rcases Nat.eq_or_lt_of_le hle with hall | hlt
  · -- nothing is left after the head, whichever branch is taken
    have hpos := abi.sizeofLong_pos
    have hshifted : (copyShifted abi (progress m s1 s2 n n)).mem = copy m m s1 s2 n := by
      rw [progress, Nat.sub_self, copyShifted_mem_of_short (by omega) (by omega), copy_zero]
    rw [hall, copyAligned_progress hapart (Nat.le_refl n), hshifted, progress, ite_self]
    constructor
    · intro _ _ hlong
      omega
    · intro _
      rfl
  have hd : s1 + head < 2 ^ abi.pointerBits := by omega
  by_cases haligned : (s1 + head) % abi.sizeofLong = 0
  · rw [if_pos (by rw [progress]; exact (abi.alignDown_eq_iff hd).mpr haligned),
      copyAligned_progress hapart hle, progress]
    exact ⟨fun _ h => absurd haligned h, fun _ => rfl⟩
  · rw [if_neg (by rw [progress]; exact fun h => haligned ((abi.alignDown_eq_iff hd).mp h))]
    have hsrc : ∀ i, i < n - head → copy m m s1 s2 head (s2 + head + i) = m (s2 + head + i) :=
      fun i hi => copy_of_not_mem m m (by omega)
    have hwhole : copy (copy m m s1 s2 head) (copy m m s1 s2 head) (s1 + head) (s2 + head)
        (n - head) = copy m m s1 s2 n := by
      rw [copy_congr hsrc, copy_append, show head + (n - head) = n by omega]
    have hiff := copyShifted_mem_iff (m := copy m m s1 s2 head) abi
      (show s1 + head + (n - head) ≤ s2 + head ∨ s2 + head + (n - head) ≤ s1 + head by omega)
      (by omega)
    rw [hwhole] at hiff
    rw [Prod.mk.injEq, progress, hiff]
    constructor
    · intro h _
      exact h.2.congr hsrc
    · intro h
      exact ⟨rfl, (h haligned).congr (fun i hi => (hsrc i hi).symm)⟩

/-- An `unsigned long` of eight bytes and addresses of 64 bits. -/
def lp64 : Abi := ⟨3, 64, by omega⟩

/-- A memory with a single byte that is not zero. -/
def markAt (a : Nat) : Memory := fun b => if b = a then 1 else 0

theorem memcpy_eq_copy_iff_markAt :
    memcpy lp64 (markAt 0x1007) 0x2001 0x1000 73
        = (0x2001, copy (markAt 0x1007) (markAt 0x1007) 0x2001 0x1000 73) ↔
      if 0x2001 = 0 ∨ 0x1000 = 0 then
        ∀ i, i < 73 → markAt 0x1007 (0x2001 + i) = markAt 0x1007 (0x1000 + i)
      else CarryRepeats lp64 (markAt 0x1007) 0x2001 0x1000 73 :=
  memcpy_eq_copy_iff lp64 (markAt 0x1007) 0x2001 0x1000 73 (by decide) (by decide) (by decide)

/-- The eighth byte of a copy of 73 bytes to an odd address is lost. -/
theorem memcpy_ne_copy_markAt :
    memcpy lp64 (markAt 0x1007) 0x2001 0x1000 73
      ≠ (0x2001, copy (markAt 0x1007) (markAt 0x1007) 0x2001 0x1000 73) := by
  intro h
  have hbyte := congrFun (congrArg Prod.snd h) 0x2008
  revert hbyte
  decide

end Xeos.C99.Memcpy
