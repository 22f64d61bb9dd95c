import Xeos.Lib.Bits
import Xeos.Lib.Loop
import Xeos.Lib.Memory

/-!
# The portable `memcpy`

`memcpy` of `lib/c99/string/memcpy.c`, for any size of `unsigned long` that is a
power of two and any pointer size, on a little-endian machine.  `lp1` and `lp2`
always hold the same addresses as `cp1` and `cp2` where both are live, so the
model has one pair of pointers.
-/

namespace Xeos.C99.Memcpy

open Lib

/-- The sizes that the code depends on. -/
structure Abi where
  /-- `sizeof( unsigned long )` is `2 ^ longShift`. -/
  longShift : Nat
  /-- The width of `uintptr_t` and `size_t`. -/
  pointerBits : Nat
  longShift_le : longShift ≤ pointerBits

namespace Abi

def sizeofLong (abi : Abi) : Nat := 2 ^ abi.longShift

/-- `( uintptr_t )p & ( uintptr_t )-sizeof( unsigned long )`. -/
def alignDown (abi : Abi) (p : Nat) : Nat := p &&& (2 ^ abi.pointerBits - abi.sizeofLong)

/-- `v << k` at type `unsigned long`. -/
def shiftLeft (abi : Abi) (v k : Nat) : Nat := (v <<< k) % 2 ^ (8 * abi.sizeofLong)

theorem sizeofLong_pos (abi : Abi) : 0 < abi.sizeofLong := Nat.pow_pos (by omega)

theorem alignDown_eq (abi : Abi) {p : Nat} (hp : p < 2 ^ abi.pointerBits) :
    abi.alignDown p = p / abi.sizeofLong * abi.sizeofLong :=
  and_high_mask hp abi.longShift_le

theorem sub_alignDown (abi : Abi) {p : Nat} (hp : p < 2 ^ abi.pointerBits) :
    p - abi.alignDown p = p % abi.sizeofLong := by
  rw [abi.alignDown_eq hp]
  have hdiv := Nat.div_add_mod' p abi.sizeofLong
  omega

theorem alignDown_lt_iff (abi : Abi) {p : Nat} (hp : p < 2 ^ abi.pointerBits) :
    abi.alignDown p < p ↔ p % abi.sizeofLong ≠ 0 := by
  rw [abi.alignDown_eq hp]
  have hdiv := Nat.div_add_mod' p abi.sizeofLong
  omega

theorem alignDown_eq_iff (abi : Abi) {p : Nat} (hp : p < 2 ^ abi.pointerBits) :
    abi.alignDown p = p ↔ p % abi.sizeofLong = 0 := by
  rw [abi.alignDown_eq hp]
  have hdiv := Nat.div_add_mod' p abi.sizeofLong
  omega

end Abi

/-- The memory, the two pointers and the number of bytes that remain. -/
structure Transfer where
  mem : Memory
  cp1 : Nat
  cp2 : Nat
  n : Nat

/-- `*( cp1++ ) = *( cp2++ ); n--;`. -/
def copyByte (s : Transfer) : Transfer where
  mem := s.mem.set s.cp1 (s.mem s.cp2)
  cp1 := s.cp1 + 1
  cp2 := s.cp2 + 1
  n := s.n - 1

/-- Copy bytes until the source is aligned on a long. -/
def alignSource (abi : Abi) (s : Transfer) : Transfer :=
  whileLoop (fun s => decide (s.n > 0) && decide (abi.alignDown s.cp2 < s.cp2)) copyByte s.n s

/-- `while( n-- ) { *( cp1++ ) = *( cp2++ ); }`. -/
def copyRest (s : Transfer) : Transfer :=
  whileLoop (fun s => decide (s.n ≠ 0)) copyByte s.n s

/-- `lp1[ 0 ] = lp2[ 0 ]; ... lp1[ j - 1 ] = lp2[ j - 1 ];` and the three updates
that follow. -/
def copyLongs (abi : Abi) (j : Nat) (s : Transfer) : Transfer where
  mem := forLoop (fun i mem => mem.store (s.cp1 + i * abi.sizeofLong) abi.sizeofLong
    (mem.load (s.cp2 + i * abi.sizeofLong) abi.sizeofLong)) j s.mem
  cp1 := s.cp1 + j * abi.sizeofLong
  cp2 := s.cp2 + j * abi.sizeofLong
  n := s.n - abi.sizeofLong * j

/-- `while( n >= sizeof( unsigned long ) * j )` over `copyLongs`. -/
def copyBlocks (abi : Abi) (j : Nat) (s : Transfer) : Transfer :=
  whileLoop (fun s => decide (s.n ≥ abi.sizeofLong * j)) (copyLongs abi j) s.n s

/-- The branch for a destination that is aligned as well. -/
def copyAligned (abi : Abi) (s : Transfer) : Transfer :=
  copyRest (copyBlocks abi 1 (copyBlocks abi 8 (copyBlocks abi 16 s)))

/-- The other branch also carries `l2[ 0 ]` from one round to the next. -/
structure Stream extends Transfer where
  carry : Nat

/-- One round of the loop over eight longs.  `l2[ 0 ]` is assigned from
`l1[ 7 ]` before `lp1[ 0 ]` is written with it, so the carry of the round before
is not used. -/
def streamRound (abi : Abi) (ls rs : Nat) (s : Stream) : Stream :=
  let l1 := fun j => s.mem.load (s.cp2 + j * abi.sizeofLong) abi.sizeofLong
  let l2 := fun j => if j = 0 then l1 7 >>> rs else l1 (j - 1) >>> rs
  { mem := forLoop (fun j mem => mem.store (s.cp1 + j * abi.sizeofLong) abi.sizeofLong
      (abi.shiftLeft (l1 j) ls ||| l2 j)) 8 s.mem
    cp1 := s.cp1 + 8 * abi.sizeofLong
    cp2 := s.cp2 + 8 * abi.sizeofLong
    n := s.n - abi.sizeofLong * 8
    carry := l2 0 }

/-- What the branch does before its loop: read a long, write its first bytes
until the destination is aligned and keep the others in the carry. -/
def streamStart (abi : Abi) (diff : Nat) (s : Transfer) : Stream :=
  let l1 := s.mem.load s.cp2 abi.sizeofLong
  { mem := forLoop (fun i mem => mem.set (s.cp1 + i) (UInt8.ofNat ((l1 >>> (i * 8)) &&& 0xFF)))
      diff s.mem
    cp1 := s.cp1 + diff
    cp2 := s.cp2 + abi.sizeofLong
    n := s.n - abi.sizeofLong
    carry := l1 >>> (diff * 8) }

/-- The loop over eight longs. -/
def streamLoop (abi : Abi) (ls rs : Nat) (s : Stream) : Stream :=
  whileLoop (fun s => decide (s.n > abi.sizeofLong * 8)) (streamRound abi ls rs) s.n s

/-- `while( diff-- ) { *( cp1++ ) = l2[ 0 ] & 0xFF; l2[ 0 ] = l2[ 0 ] >> 8; }`. -/
def writeCarry (diff : Nat) (s : Stream) : Stream :=
  forLoop (fun _ s => { s with
    mem := s.mem.set s.cp1 (UInt8.ofNat (s.carry &&& 0xFF))
    cp1 := s.cp1 + 1
    carry := s.carry >>> 8 }) diff s

/-- The branch for a destination that is not aligned.  `diff` stays zero for a
short copy. -/
def copyShifted (abi : Abi) (s : Transfer) : Transfer :=
  if s.n ≥ abi.sizeofLong * 9 then
    let diff := abi.sizeofLong - (s.cp1 - abi.alignDown s.cp1)
    let ls := 8 * (abi.sizeofLong - diff)
    let rs := 8 * diff
    copyRest (writeCarry (abi.sizeofLong - diff)
      (streamLoop abi ls rs (streamStart abi diff s))).toTransfer
  else
    copyRest s

/-- `memcpy`, with its return value and the memory it leaves. -/
def memcpy (abi : Abi) (mem : Memory) (s1 s2 n : Nat) : Nat × Memory :=
  if s1 = 0 ∨ s2 = 0 ∨ n = 0 then
    (s1, mem)
  else
    let s := alignSource abi ⟨mem, s1, s2, n⟩
    if abi.alignDown s.cp1 = s.cp1 then
      (s1, (copyAligned abi s).mem)
    else
      (s1, (copyShifted abi s).mem)

end Xeos.C99.Memcpy
