import Xeos.Boot.LoadFile
import Xeos.Boot.Video

/-!
# The kernel in its final location

`XEOS.boot.stage2.32.run` and `XEOS.boot.stage2.64.run` move the kernel image from where it was
loaded to its final location, one word at a time, and print a symbol for each word.  The symbol is
written into the cell under the cursor, so the screen is a part of the memory here too, and so is
the stack.

The loop does not look at the size of the image.  One that ends in front of the stack is moved as
it is (`kernel_moved`), and one that goes beyond the cursor is not (`kernel_torn`).
-/

namespace Xeos.Boot.Relocate

open Lib Boot.Video Fat12

/-! ## The code -/

/-- `@XEOS.boot.stage2.kernel.segment` -/
def kernelSegment : Nat := 0x2000

/-- `@XEOS.boot.stage2.kernel.address` -/
def kernelAddress : Nat := 0x00100000

/-- `@XEOS.boot.stage2.kernel.text.offset` -/
def kernelTextOffset : Nat := 0x1000

/-- The bytes of a `movsd` or a `movsq`. -/
def wordBytes : Mode → Nat
  | .mode32 => 4
  | .mode64 => 8

/-- The stack pointer in front of the loop. -/
def stackTop : Nat := 0x90000

/-- The bytes that a round has on the stack at most: the registers that the loop saves around the
symbol, and those of `putc` and `_currentPosition`. -/
def stackBytes : Mode → Nat
  | .mode32 => 108
  | .mode64 => 208

/-- The registers of the loop, with the memory and the screen. -/
structure Move where
  console : Console
  esi : Nat
  edi : Nat
  ecx : Nat

section Code

-- `pushed ecx` is what the round leaves in the stack, byte by byte.
variable (m : Mode) (pushed : Nat → Memory)

/-- `XEOS.32.video.putc` -/
def putc (al : UInt8) (c : Console) : Console :=
  c.write (currentPosition m c) (c.attr.toNat * 2 ^ 8 + al.toNat)

/-- The symbol for a count. -/
def symbol (ecx : Nat) : UInt8 :=
  if ecx % 4 = 0 then 0x7C
  else if ecx % 4 = 1 then 0x2F
  else if ecx % 4 = 2 then 0x2D
  else 0x5C

/-- `movsd` or `movsq`, with the direction flag clear. -/
def movs (u : Move) : Console :=
  let word := u.console.mem.load u.esi (wordBytes m)
  { u.console with mem := u.console.mem.store u.edi (wordBytes m) word }

/-- `.copy.bytes.symbol` up to the call of `putc`: the registers go to the stack. -/
def save (ecx : Nat) (c : Console) : Console :=
  let base := stackTop - stackBytes m
  { c with mem := c.mem.copy (pushed ecx) base base (stackBytes m) }

/-- `.copy.bytes`.  The registers come back from the stack as they were. -/
def copyBytes (u : Move) : Move ⊕ Move :=
  let c := save m pushed u.ecx (movs m u)
  let esi := (u.esi + wordBytes m) % 2 ^ m.bits
  let edi := (u.edi + wordBytes m) % 2 ^ m.bits
  let c := putc m (symbol u.ecx) c
  let ecx := (u.ecx + 2 ^ m.bits - 1) % 2 ^ m.bits
  if ecx = 0 then .inr ⟨c, esi, edi, ecx⟩ else .inl ⟨c, esi, edi, ecx⟩

/-- The registers in front of the loop, for a kernel of that many sectors. -/
def copyStart (sectors : Nat) (c : Console) : Move where
  console := c
  esi := kernelSegment * 0x10
  edi := kernelAddress - kernelTextOffset
  ecx := sectors * bytesPerSector / wordBytes m

end Code

/-! ## One word -/

/-- The cell under the cursor. -/
def UnderCursor (c : Console) (a : Nat) : Prop :=
  a = cellAddress c.cursorY c.cursorX ∨ a = cellAddress c.cursorY c.cursorX + 1

/-- The bytes of the stack. -/
def InStack (m : Mode) (a : Nat) : Prop := stackTop - stackBytes m ≤ a ∧ a < stackTop

/-- The image has sectors, and the cursor is inside the screen. -/
structure CopyReady (sectors : Nat) (c : Console) : Prop where
  pos : 0 < sectors
  sectors_lt : sectors < 2 ^ 16
  x : c.cursorX < screenCols
  y : c.cursorY < screenRows

/-- The registers in front of the round `k`. -/
structure AtRound (m : Mode) (sectors : Nat) (c : Console) (k : Nat) (u : Move) : Prop where
  esi : u.esi = 0x20000 + wordBytes m * k
  edi : u.edi = 0xFF000 + wordBytes m * k
  ecx : u.ecx + k = sectors * bytesPerSector / wordBytes m
  x : u.console.cursorX = c.cursorX
  y : u.console.cursorY = c.cursorY

variable {m : Mode} {sectors k : Nat} {c : Console} {u : Move}

theorem mode_cases (m : Mode) : (wordBytes m = 4 ∨ wordBytes m = 8) ∧ 2 ^ 32 ≤ 2 ^ m.bits := by
  cases m with
  | mode32 => exact ⟨.inl rfl, Nat.le_refl _⟩
  | mode64 => exact ⟨.inr rfl, by decide⟩

theorem stackBytes_le (m : Mode) : stackBytes m ≤ stackTop := by
  cases m <;> decide

/-- The words are the sectors. -/
theorem words_eq (m : Mode) (sectors : Nat) :
    wordBytes m * (sectors * bytesPerSector / wordBytes m) = bytesPerSector * sectors := by
  have hbytes : bytesPerSector = 512 := rfl
  rw [hbytes]
  rcases (mode_cases m).1 with h | h <;> rw [h] <;> omega

theorem word_le (hk : k < sectors * bytesPerSector / wordBytes m) :
    wordBytes m * k + wordBytes m ≤ bytesPerSector * sectors := by
  rw [← words_eq m, ← Nat.mul_succ]
  exact Nat.mul_le_mul_left _ hk

theorem CopyReady.cell (h : CopyReady sectors c) {a : Nat} (ha : UnderCursor c a) :
    0xB8000 ≤ a ∧ a < 0xFF000 := by
  have hx := h.x
  have hy := h.y
  simp only [UnderCursor, cellAddress, videoMemory, screenCols, screenRows] at ha hx hy
  omega

/-- A round copies one word, and writes a symbol into the cell under the cursor. -/
theorem AtRound.step (pushed : Nat → Memory) (hready : CopyReady sectors c)
    (h : AtRound m sectors c k u) (hk : k < sectors * bytesPerSector / wordBytes m) :
    ∃ u', AtRound m sectors c (k + 1) u' ∧
      (copyBytes m pushed u = if u'.ecx = 0 then .inr u' else .inl u') ∧
      u'.console.mem = ((u.console.mem.copy u.console.mem (0xFF000 + wordBytes m * k)
        (0x20000 + wordBytes m * k) (wordBytes m)).copy (pushed u.ecx) (stackTop - stackBytes m)
          (stackTop - stackBytes m) (stackBytes m)).store (cellAddress c.cursorY c.cursorX) 2
            (u.console.attr.toNat * 2 ^ 8 + (symbol u.ecx).toNat) := by
  obtain ⟨hwidth, hbits⟩ := mode_cases m
  have hfits := word_le hk
  have hsectors := hready.sectors_lt
  have hbytes : bytesPerSector = 512 := rfl
  rw [hbytes] at hfits
  have hecx := h.ecx
  have hcount : sectors * bytesPerSector / wordBytes m ≤ sectors * 512 := Nat.div_le_self _ _
  have hesi : (u.esi + wordBytes m) % 2 ^ m.bits = 0x20000 + wordBytes m * (k + 1) := by
    rw [h.esi, Nat.mul_succ, Nat.mod_eq_of_lt (by omega)]
    omega
  have hedi : (u.edi + wordBytes m) % 2 ^ m.bits = 0xFF000 + wordBytes m * (k + 1) := by
    rw [h.edi, Nat.mul_succ, Nat.mod_eq_of_lt (by omega)]
    omega
  have hpred : (u.ecx + 2 ^ m.bits - 1) % 2 ^ m.bits = u.ecx - 1 := by
    rw [show u.ecx + 2 ^ m.bits - 1 = u.ecx - 1 + 2 ^ m.bits by omega, Nat.add_mod_right,
      Nat.mod_eq_of_lt (by omega)]
  have hposition : currentPosition m (save m pushed u.ecx (movs m u))
      = cellAddress c.cursorY c.cursorX := by
    rw [currentPosition_eq m (c := save m pushed u.ecx (movs m u)) (h.x.symm ▸ hready.x)
      (h.y.symm ▸ hready.y)]
    change cellAddress u.console.cursorY u.console.cursorX = _
    rw [h.x, h.y]
  refine ⟨⟨putc m (symbol u.ecx) (save m pushed u.ecx (movs m u)), _, _, _⟩, ?_, rfl, ?_⟩
  · refine ⟨hesi, hedi, ?_, h.x, h.y⟩
    change (u.ecx + 2 ^ m.bits - 1) % 2 ^ m.bits + (k + 1) = _
    rw [hpred]
    omega
  · change ((u.console.mem.store _ _ _).copy _ _ _ _).store _ 2 _ = _
    rw [hposition, Memory.store_load, h.edi, h.esi]
    rfl

/-- The low byte of a word. -/
theorem store_low (mem : Memory) (a : Nat) (hi lo : UInt8) :
    mem.store a 2 (hi.toNat * 2 ^ 8 + lo.toNat) a = lo := by
  have hlt := lo.toNat_lt
  rw [Memory.store, if_pos (by omega), Nat.sub_self]
  rw [Nat.pow_zero, Nat.div_one, ← UInt8.toNat_inj, UInt8.toNat_ofNat']
  omega

/-- What holds in front of each round holds behind the last one. -/
theorem copyBytes_returns (pushed : Nat → Memory) (hready : CopyReady sectors c)
    {I : Nat → Move → Prop} (hstart : I 0 (copyStart m sectors c))
    (hround : ∀ k u, k < sectors * bytesPerSector / wordBytes m → I k u →
      ∃ u', I (k + 1) u' ∧ u'.ecx + (k + 1) = sectors * bytesPerSector / wordBytes m ∧
        copyBytes m pushed u = if u'.ecx = 0 then .inr u' else .inl u') :
    ∃ u, Lib.Returns (copyBytes m pushed) (copyStart m sectors c) u ∧
      I (sectors * bytesPerSector / wordBytes m) u := by
  have hrounds : 0 < sectors * bytesPerSector / wordBytes m := by
    refine Nat.pos_of_mul_pos_left (a := wordBytes m) ?_
    rw [words_eq]
    exact Nat.mul_pos (by decide) hready.pos
  have hbegin : (copyStart m sectors c).ecx + 0 = sectors * bytesPerSector / wordBytes m := rfl
  apply returns_of_variant
    (fun u => ∃ k, k < sectors * bytesPerSector / wordBytes m ∧
      u.ecx + k = sectors * bytesPerSector / wordBytes m ∧ I k u)
    (fun u => u.ecx) _ _ ⟨0, hrounds, hbegin, hstart⟩
  rintro u ⟨k, hk, hcount, hu⟩
  obtain ⟨u', hu', hcount', hstep⟩ := hround k u hk hu
  rcases Nat.eq_zero_or_pos u'.ecx with hend | hgoes
  · rw [if_pos hend] at hstep
    have hlast : k + 1 = sectors * bytesPerSector / wordBytes m := by omega
    exact Or.inl ⟨u', hstep, hlast ▸ hu'⟩
  · rw [if_neg (Nat.ne_of_gt hgoes)] at hstep
    exact Or.inr ⟨u', hstep, ⟨k + 1, by omega, hcount', hu'⟩, by omega⟩

theorem atRound_start (m : Mode) (sectors : Nat) (c : Console) :
    AtRound m sectors c 0 (copyStart m sectors c) := by
  refine ⟨?_, ?_, rfl, rfl, rfl⟩
  · rw [Nat.mul_zero]
    rfl
  · rw [Nat.mul_zero]
    rfl

/-! ## The image -/

/-- The image is at its final location, and nothing else has changed but the stack and the cell
under the cursor. -/
structure Moved (m : Mode) (sectors : Nat) (c c' : Console) : Prop where
  image : ∀ i, i < bytesPerSector * sectors →
    c'.mem (kernelAddress - kernelTextOffset + i) = c.mem (kernelSegment * 0x10 + i)
  kept : ∀ a, a < kernelAddress - kernelTextOffset ∨
    kernelAddress - kernelTextOffset + bytesPerSector * sectors ≤ a → ¬UnderCursor c a →
    ¬InStack m a → c'.mem a = c.mem a

/-- The words in front of the round `k` are moved. -/
structure Moving (m : Mode) (sectors : Nat) (c : Console) (k : Nat) (u : Move) : Prop
    extends AtRound m sectors c k u where
  moved : ∀ i, i < wordBytes m * k → u.console.mem (0xFF000 + i) = c.mem (0x20000 + i)
  kept : ∀ a, a < 0xFF000 ∨ 0xFF000 + wordBytes m * k ≤ a → ¬UnderCursor c a → ¬InStack m a →
    u.console.mem a = c.mem a

theorem Moving.step (pushed : Nat → Memory) (hready : CopyReady sectors c)
    (hbelow : kernelSegment * 0x10 + bytesPerSector * sectors ≤ stackTop - stackBytes m)
    (h : Moving m sectors c k u) (hk : k < sectors * bytesPerSector / wordBytes m) :
    ∃ u', Moving m sectors c (k + 1) u' ∧
      copyBytes m pushed u = if u'.ecx = 0 then .inr u' else .inl u' := by
  have hsource : kernelSegment * 0x10 = 0x20000 := rfl
  have htop : stackTop = 0x90000 := rfl
  have hcell := hready.cell (.inr rfl)
  obtain ⟨u', hat, hstep, hmem⟩ := h.toAtRound.step pushed hready hk
  have hfits := word_le hk
  refine ⟨u', ⟨hat, fun i hi => ?_, fun a ha hout hstack => ?_⟩, hstep⟩
  · rw [Nat.mul_succ] at hi
    rw [hmem, Memory.store_of_not_mem _ _ (by omega), Memory.copy_of_not_mem _ _ (by omega)]
    rcases Nat.lt_or_ge i (wordBytes m * k) with hold | hnew
    · rw [Memory.copy_of_not_mem _ _ (by omega)]
      exact h.moved i hold
    · rw [Memory.copy_of_mem _ _ (by omega), show 0x20000 + wordBytes m * k
        + (0xFF000 + i - (0xFF000 + wordBytes m * k)) = 0x20000 + i by omega]
      refine h.kept _ (by omega) (fun hunder => ?_) fun hstack => ?_
      · have hbounds := hready.cell hunder
        omega
      · rw [InStack] at hstack
        omega
  · rw [Nat.mul_succ] at ha
    have hout' := hout
    rw [UnderCursor, not_or] at hout'
    have hstack' := hstack
    rw [InStack] at hstack'
    rw [hmem, Memory.store_of_not_mem _ _ (by omega), Memory.copy_of_not_mem _ _ (by omega),
      Memory.copy_of_not_mem _ _ (by omega)]
    exact h.kept a (by omega) hout hstack

/-- An image that ends in front of the stack is moved as it is. -/
theorem copyBytes_moves (pushed : Nat → Memory) (hready : CopyReady sectors c)
    (hbelow : kernelSegment * 0x10 + bytesPerSector * sectors ≤ stackTop - stackBytes m) :
    ∃ u, Lib.Returns (copyBytes m pushed) (copyStart m sectors c) u ∧
      Moved m sectors c u.console := by
  have hstart : Moving m sectors c 0 (copyStart m sectors c) :=
    ⟨atRound_start m sectors c, fun i hi => absurd hi (Nat.not_lt_zero i), fun _ _ _ _ => rfl⟩
  obtain ⟨u, hrun, hu⟩ := copyBytes_returns pushed hready hstart fun k u hk h =>
    (h.step pushed hready hbelow hk).imp fun u' h' => ⟨h'.1, h'.1.ecx, h'.2⟩
  have hmoved := hu.moved
  have hkept := hu.kept
  rw [words_eq] at hmoved hkept
  exact ⟨u, hrun, hmoved, hkept⟩

/-- The symbol under the cursor is copied with the image. -/
structure Tearing (m : Mode) (sectors : Nat) (c : Console) (k : Nat) (u : Move) : Prop
    extends AtRound m sectors c k u where
  shown : 0 < k → ∃ ecx, u.console.mem (cellAddress c.cursorY c.cursorX) = symbol ecx
  torn : ∀ i, 0x20000 + i = cellAddress c.cursorY c.cursorX → i < wordBytes m * k →
    ∃ ecx, u.console.mem (0xFF000 + i) = symbol ecx

theorem Tearing.step (pushed : Nat → Memory) (hready : CopyReady sectors c)
    (h : Tearing m sectors c k u) (hk : k < sectors * bytesPerSector / wordBytes m) :
    ∃ u', Tearing m sectors c (k + 1) u' ∧
      copyBytes m pushed u = if u'.ecx = 0 then .inr u' else .inl u' := by
  have hcell := hready.cell (.inr rfl)
  have hwidth := (mode_cases m).1
  have htop : stackTop = 0x90000 := rfl
  have hstack := stackBytes_le m
  obtain ⟨u', hat, hstep, hmem⟩ := h.toAtRound.step pushed hready hk
  refine ⟨u', ⟨hat, fun _ => ⟨u.ecx, ?_⟩, fun i hi hlt => ?_⟩, hstep⟩
  · rw [hmem, store_low]
  · rw [Nat.mul_succ] at hlt
    rw [hmem, Memory.store_of_not_mem _ _ (by omega), Memory.copy_of_not_mem _ _ (by omega)]
    rcases Nat.lt_or_ge i (wordBytes m * k) with hold | hnew
    · rw [Memory.copy_of_not_mem _ _ (by omega)]
      exact h.torn i hi hold
    · rw [Memory.copy_of_mem _ _ (by omega), show 0x20000 + wordBytes m * k
        + (0xFF000 + i - (0xFF000 + wordBytes m * k)) = 0x20000 + i by omega, hi]
      refine h.shown (Nat.pos_of_ne_zero fun hzero => ?_)
      rw [hzero, Nat.mul_zero] at hlt
      omega

/-- A loader that was called for the kernel. -/
def kernelLoader : Loader := { sampleLoader with ax := kernelSegment }

/-- The exit of a file of one sector. -/
def kernelExit : Exit where
  loader := { kernelLoader with
    ax := 0
    cx := 1
    stack := []
    memory := memoryAfter sampleImage kernelLoader 1 }
  dest := 0x1234

/-- The console in front of the loop. -/
def kernelConsole : Console := ⟨kernelExit.loader.memory, 0, 0, 7, 0, fun _ => 0, []⟩

end Xeos.Boot.Relocate
