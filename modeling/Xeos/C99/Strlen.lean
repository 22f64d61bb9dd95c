import Xeos.C99.Dispatch

/-!
# The assembly `strlen`

The text of `lib/c99/string/strlen.32.s` and `strlen.64.s`.
-/

namespace Xeos.C99.Strlen

open Lib.Asm

/-- The local labels of the functions. -/
inductive Part where
  | entry | notfound | scan | test | found | null
deriving DecidableEq, Repr

/-- The labels of the function with SSE2, and of the one without. -/
abbrev sse2 (l : Part) : Label Part := .fn true l
abbrev plain (l : Part) : Label Part := .fn false l

/-- One of the tests for a zero byte in `_strlen32` and `_strlen64`. -/
def testByte (w : Nat) (r : Reg) : List (Instr (Label Part)) :=
  [.test w (.reg r) (.imm 0xFF), .jcc .e (plain .found), .inc w .ax]

/-- The tests of `n` bytes of the word in `r`. -/
def testBytes (w : Nat) (r : Reg) : Nat → List (Instr (Label Part))
  | 0 => []
  | 1 => testByte w r
  | n + 1 => testByte w r ++ [.shr w r 8] ++ testBytes w r n

/-- `_strlen32_sse2` and `_strlen32`. -/
def text32 : Bool → Part → List (Instr (Label Part))
  | true, .entry =>
    [.mov 32 .dx (.spSlot 4), .test 32 .dx .dx, .jcc .e (sse2 .null), .mov 32 .ax .dx,
      .arith .and 32 .dx (.imm (-16)), .pxor .xmm0 .xmm0, .pcmpeqb .xmm0 (.mem .dx),
      .mov 32 .cx .ax, .arith .sub 32 .cx .dx, .pmovmskb .dx .xmm0,
      .arith .xor 32 .ax .ax, .not 32 .ax, .shlCl 32 .ax,
      .mov 32 .cx (.spSlot 4), .arith .and 32 .cx (.imm (-16)),
      .arith .and 32 .dx .ax, .jcc .ne (sse2 .found)]
  | true, .notfound =>
    [.arith .add 32 .cx (.imm 16), .pxor .xmm0 .xmm0, .pcmpeqb .xmm0 (.mem .cx),
      .pmovmskb .dx .xmm0, .test 32 .dx .dx, .jcc .e (sse2 .notfound)]
  | true, .found =>
    [.bsf 32 .ax .dx, .mov 32 .dx (.spSlot 4), .arith .sub 32 .dx .cx, .arith .sub 32 .ax .dx,
      .ret]
  | true, .scan | true, .test => []
  | true, .null => [.arith .xor 32 .ax .ax, .ret]
  | false, .entry =>
    [.pushBp, .movBpSp, .push .di, .push .si, .push .bx,
      .mov 32 .cx (.bpSlot 8), .test 32 .cx .cx, .jcc .e (plain .null),
      .mov 32 .ax .cx, .arith .and 32 .cx (.imm (-4)), .arith .sub 32 .ax .cx,
      .mov 32 .dx (.imm 4), .mul 32 .dx, .xchg .dx .cx,
      .arith .xor 32 .cx .cx, .not 32 .cx, .xchg .ax .cx, .shlCl 32 .ax, .not 32 .ax,
      .mov 32 .cx (.mem .dx 0), .arith .or 32 .cx .ax, .arith .xor 32 .ax .ax]
  | false, .scan =>
    [.mov 32 .di (.imm 0x01010101), .mov 32 .bx .cx, .arith .sub 32 .bx .di,
      .mov 32 .di (.imm 0x80808080), .mov 32 .si .cx, .not 32 .si, .arith .and 32 .si .di,
      .arith .and 32 .bx .si, .test 32 .bx .bx, .jcc .ne (plain .test),
      .arith .add 32 .ax (.imm 4), .arith .add 32 .dx (.imm 4), .mov 32 .cx (.mem .dx 0),
      .jmp (plain .scan)]
  | false, .test =>
    testBytes 32 .cx 4 ++
      [.arith .add 32 .dx (.imm 4), .mov 32 .cx (.mem .dx 0), .jmp (plain .scan)]
  | false, .found =>
    [.mov 32 .cx (.spSlot 4), .mov 32 .dx .cx, .arith .and 32 .cx (.imm (-4)),
      .arith .sub 32 .dx .cx, .arith .sub 32 .ax .dx,
      .pop .bx, .pop .si, .pop .di, .popBp, .ret]
  | false, .notfound => []
  | false, .null => [.arith .xor 32 .ax .ax, .ret]

/-- `_strlen64_sse2` and `_strlen64`. -/
def text64 : Bool → Part → List (Instr (Label Part))
  | true, .entry =>
    [.test 64 .di .di, .jcc .e (sse2 .null), .mov 64 .si .di, .arith .and 64 .di (.imm (-16)),
      .pxor .xmm0 .xmm0, .pcmpeqb .xmm0 (.mem .di), .pmovmskb .dx .xmm0,
      .mov 64 .cx .si, .arith .sub 64 .cx .di,
      .arith .xor 64 .ax .ax, .not 64 .ax, .shlCl 64 .ax,
      .arith .and 64 .dx .ax, .jcc .ne (sse2 .found)]
  | true, .notfound =>
    [.arith .add 64 .di (.imm 16), .pxor .xmm0 .xmm0, .pcmpeqb .xmm0 (.mem .di),
      .pmovmskb .dx .xmm0, .test 64 .dx .dx, .jcc .e (sse2 .notfound)]
  | true, .found =>
    [.bsf 64 .ax .dx, .arith .sub 64 .si .di, .arith .sub 64 .ax .si, .ret]
  | true, .scan | true, .test => []
  | true, .null => [.arith .xor 64 .ax .ax, .ret]
  | false, .entry =>
    [.test 64 .di .di, .jcc .e (plain .null), .mov 64 .ax .di, .arith .and 64 .di (.imm (-8)),
      .arith .sub 64 .ax .di, .mov 64 .si .ax, .mov 64 .cx (.imm 8), .mul 64 .cx,
      .arith .xor 64 .cx .cx, .not 64 .cx, .xchg .ax .cx, .shlCl 64 .ax, .not 64 .ax,
      .mov 64 .dx (.mem .di 0), .arith .or 64 .dx .ax, .arith .xor 64 .ax .ax]
  | false, .scan =>
    [.mov 64 .r10 (.imm 0x0101010101010101), .mov 64 (.reg .r11) (.imm 0x8080808080808080),
      .mov 64 .r8 .dx, .mov 64 .r9 .dx, .arith .sub 64 .r8 .r10, .not 64 .r9,
      .arith .and 64 .r9 (.reg .r11), .arith .and 64 .r8 .r9, .test 64 .r8 .r8,
      .jcc .ne (plain .test),
      .arith .add 64 .ax (.imm 8), .arith .add 64 .di (.imm 8), .mov 64 .dx (.mem .di 0),
      .jmp (plain .scan)]
  | false, .test =>
    testBytes 64 .dx 8 ++
      [.arith .add 64 .di (.imm 8), .mov 64 .dx (.mem .di 0), .jmp (plain .scan)]
  | false, .found => [.arith .sub 64 .ax .si, .ret]
  | false, .notfound => []
  | false, .null => [.arith .xor 64 .ax .ax, .ret]

def next : Bool → Part → Option Part
  | true, .entry => some .notfound
  | true, .notfound => some .found
  | false, .entry => some .scan
  | false, .scan => some .test
  | false, .test => some .found
  | _, .found => some .null
  | true, .scan | true, .test | false, .notfound | _, .null => none

/-- `strlen` of `strlen.32.s`. -/
def strlen32 : Program (Label Part) := routine 32 .entry text32 next

/-- `strlen` of `strlen.64.s`. -/
def strlen64 : Program (Label Part) := routine 64 .entry text64 next

end Xeos.C99.Strlen
