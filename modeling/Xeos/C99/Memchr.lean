import Xeos.C99.Frame

/-!
# The assembly `memchr`

The text of `lib/c99/string/memchr.32.s` and `memchr.64.s`.  The functions with SSE2 differ in
the width of their registers and in the one that holds the mask.  Those without differ in the
registers that they use for the test of a word.
-/

namespace Xeos.C99.Memchr

open Lib Lib.Asm

/-- The local labels of the functions. -/
inductive Part where
  | entry | notfound | notfound64 | notfound16 | aligned | alignedLoop | alignedFound | alignedEnd
  | notaligned | found | null
deriving DecidableEq, Repr

/-- The labels of the function with SSE2, and of the one without. -/
abbrev sse2 (l : Part) : Label Part := .fn true l
abbrev plain (l : Part) : Label Part := .fn false l

/-! ## With SSE2 -/

/-- The register for the mask of a comparison. -/
def mask : Arch → Reg
  | .i386 => .bx
  | .x86_64 => .r8

/-- One of the looks at a mask behind `.notfound_64`. -/
def look (w : Nat) (q : Reg) (x : Xmm) : List (Instr (Label Part)) :=
  [.pmovmskb q x, .test w (.reg q) (.reg q), .jcc .ne (sse2 .found)]

/-- The step to the next sixteen bytes. -/
def advance (w : Nat) : List (Instr (Label Part)) :=
  [.arith .add w .di (.imm 16), .arith .sub w .dx (.imm 16)]

/-- `_memchr32_sse2` and `_memchr64_sse2`, for words of `w` bits and the mask in `q`. -/
def textSse2 (a : Arch) (w : Nat) (q : Reg) : Part → List (Instr (Label Part))
  | .entry =>
    a.enter ++
      [.test w .di .di, .jcc .e (sse2 .null), .test w .dx .dx, .jcc .e (sse2 .null),
        .arith .and w .si (.imm 0xFF), .movd w .xmm0 .si, .mov w .si .di,
        .arith .and w .di (.imm (-16)),
        .punpcklbw .xmm0 .xmm0, .punpcklbw .xmm0 .xmm0, .pshufd .xmm0 .xmm0 0,
        .movdqaLoad .xmm1 .di 0, .pcmpeqb .xmm1 (.xmm .xmm0), .pmovmskb q .xmm1,
        .mov w .cx .si, .arith .sub w .cx .di,
        .arith .xor w .ax .ax, .not w .ax, .shlCl w .ax,
        .arith .add w .dx .cx, .arith .and w q .ax, .jcc .ne (sse2 .found)]
  | .notfound =>
    advance w ++
      [.cmp w .dx (.imm 0), .jcc .le (sse2 .null), .cmp w .dx (.imm 64),
        .jcc .l (sse2 .notfound16)]
  | .notfound64 =>
    [.movdqaLoad .xmm1 .di 0, .movdqaLoad .xmm2 .di 16, .movdqaLoad .xmm3 .di 32,
        .movdqaLoad .xmm4 .di 48,
        .pcmpeqb .xmm1 (.xmm .xmm0), .pcmpeqb .xmm2 (.xmm .xmm0), .pcmpeqb .xmm3 (.xmm .xmm0),
        .pcmpeqb .xmm4 (.xmm .xmm0)] ++
      look w q .xmm1 ++ advance w ++ look w q .xmm2 ++ advance w ++ look w q .xmm3 ++
      advance w ++ look w q .xmm4 ++ [.jmp (sse2 .notfound)]
  | .notfound16 =>
    [.movdqaLoad .xmm1 .di 0, .pcmpeqb .xmm1 (.xmm .xmm0)] ++ look w q .xmm1 ++
      [.jmp (sse2 .notfound)]
  | .found =>
    [.bsf w .ax q, .arith .sub w .dx .ax, .cmp w .dx (.imm 0), .jcc .le (sse2 .null),
      .arith .add w .ax .di] ++ a.leave
  | .null => [.arith .xor w .ax .ax] ++ a.leave
  | .aligned | .alignedLoop | .alignedFound | .alignedEnd | .notaligned => []

/-! ## Without SSE2 -/

/-- A test for one byte of the word that was found, with the byte of the mask as the processor
extends it. -/
def testByte (w mask : Nat) : List (Instr (Label Part)) :=
  [.test w .ax (.imm (signExtend32 mask)), .jcc .e (plain .found)]

def advanceByte (w : Nat) : List (Instr (Label Part)) :=
  [.arith .add w .di (.imm 1), .arith .sub w .dx (.imm 1)]

/-- The tests for four bytes. -/
def testBytes (w : Nat) : List (Instr (Label Part)) :=
  testByte w 0x000000FF ++ advanceByte w ++ testByte w 0x0000FF00 ++ advanceByte w ++
    testByte w 0x00FF0000 ++ advanceByte w ++ testByte w 0xFF000000

/-- The blocks that `_memchr32` and `_memchr64` have in common, for words of `w` bits and
an alignment of `k` bytes. -/
def textPlain (a : Arch) (w k : Nat) : Part → List (Instr (Label Part))
  | .entry =>
    a.enter ++
      [.test w .di .di, .jcc .e (plain .null), .arith .and w .si (.imm 0xFF),
        .mov w .cx .di, .mov w .ax .di, .arith .and w .ax (.imm (-k)), .arith .sub w .cx .ax,
        .test w .cx .cx, .jcc .ne (plain .notaligned)]
  | .alignedEnd => [.arith .and w .si (.imm 0xFF), .mov w .cx .dx]
  | .notaligned =>
    [.test w .dx .dx, .jcc .e (plain .null), .arith .xor w .ax .ax, .mov 8 .ax (.mem .di 0),
        .cmp w .ax .si, .jcc .e (plain .found)] ++ advanceByte w ++
      [.arith .sub w .cx (.imm 1), .test w .cx .cx, .jcc .e (plain .aligned),
        .jmp (plain .notaligned)]
  | .found => [.mov w .ax .di] ++ a.leave
  | .null => [.arith .xor w .ax .ax] ++ a.leave
  | _ => []

/-- `_memchr32`. -/
def text32 : Part → List (Instr (Label Part))
  | .aligned =>
    [.push .dx, .arith .xor 32 .dx .dx, .arith .xor 32 .ax .ax, .not 32 .ax,
      .mov 32 .cx (.imm 255), .div 32 .cx, .mul 32 .si, .mov 32 .bx .ax, .pop .dx,
      .mov 32 .cx .si, .shl 32 .si 8, .arith .or 32 .si .cx,
      .mov 32 .cx .si, .shl 32 .si 16, .arith .or 32 .si .cx]
  | .alignedLoop =>
    [.test 32 .dx .dx, .jcc .e (plain .null), .cmp 32 .dx (.imm 4),
      .jcc .b (plain .alignedEnd), .mov 32 .ax (.mem .di 0), .push .di, .push .si,
      .mov 32 .di .ax, .arith .xor 32 .di .bx, .mov 32 .si .di, .not 32 .si,
      .mov 32 .cx (.imm 0x01010101), .arith .sub 32 .di .cx,
      .mov 32 .cx (.imm 0x80808080), .arith .and 32 .si .cx,
      .test 32 .di .si, .jcc .ne (plain .alignedFound),
      .pop .si, .pop .di, .arith .add 32 .di (.imm 4), .arith .sub 32 .dx (.imm 4),
      .jmp (plain .alignedLoop)]
  | .alignedFound =>
    [.pop .si, .pop .di, .arith .xor 32 .ax .si] ++ testBytes 32 ++ [.jmp (plain .alignedLoop)]
  | l => textPlain .i386 32 4 l

/-- `_memchr64`. -/
def text64 : Part → List (Instr (Label Part))
  | .aligned =>
    [.xchg .dx .r8, .arith .xor 64 .dx .dx, .arith .xor 64 .ax .ax, .not 64 .ax,
      .mov 64 .cx (.imm 255), .div 64 .cx, .mul 64 .si, .mov 64 .r10 .ax, .xchg .dx .r8,
      .mov 64 .cx .si, .shl 64 .si 8, .arith .or 64 .si .cx,
      .mov 64 .cx .si, .shl 64 .si 16, .arith .or 64 .si .cx,
      .mov 64 .cx .si, .shl 64 .si 32, .arith .or 64 .si .cx]
  | .alignedLoop =>
    [.test 64 .dx .dx, .jcc .e (plain .null), .cmp 64 .dx (.imm 8),
      .jcc .b (plain .alignedEnd), .mov 64 .ax (.mem .di 0),
      .mov 64 .r8 .ax, .arith .xor 64 .r8 .r10, .mov 64 .r9 .r8, .not 64 .r9,
      .mov 64 .cx (.imm 0x0101010101010101), .arith .sub 64 .r8 .cx,
      .mov 64 .cx (.imm 0x8080808080808080), .arith .and 64 .r9 .cx,
      .test 64 .r8 .r9, .jcc .ne (plain .alignedFound),
      .arith .add 64 .di (.imm 8), .arith .sub 64 .dx (.imm 8), .jmp (plain .alignedLoop)]
  | .alignedFound =>
    [.arith .xor 64 .ax .si] ++ testBytes 64 ++ [.shr 64 .ax 32] ++ advanceByte 64 ++
      testBytes 64 ++ advanceByte 64 ++ [.jmp (plain .alignedLoop)]
  | l => textPlain .x86_64 64 8 l

/-! ## `memchr` -/

def text : Arch → Bool → Part → List (Instr (Label Part))
  | a, true => textSse2 a a.bits (mask a)
  | .i386, false => text32
  | .x86_64, false => text64

def next : Bool → Part → Option Part
  | true, .entry => some .notfound
  | true, .notfound => some .notfound64
  | true, .notfound64 => some .notfound16
  | true, .notfound16 => some .found
  | false, .entry => some .aligned
  | false, .aligned => some .alignedLoop
  | false, .alignedLoop => some .alignedFound
  | false, .alignedFound => some .alignedEnd
  | false, .alignedEnd => some .notaligned
  | false, .notaligned => some .found
  | _, .found => some .null
  | _, _ => none

/-- `memchr` of `memchr.32.s` and of `memchr.64.s`. -/
def memchr (a : Arch) : Program (Label Part) := routine a.bits .entry (text a) next

end Xeos.C99.Memchr
