import Xeos.Lib.X86

/-!
# The x86-64 `memcpy`

The text of `lib/c99/string/memcpy.64.s`: the dispatch on the cached SSE2 flag,
`_memcpy64_sse2` and `_memcpy64`.  The labels carry the names of the source, with
the function they belong to.  The copying loops of `_memcpy64_sse2` stand there
twice, for an aligned and for an unaligned destination, and differ only in the
instruction that stores, so they are one block with a parameter.
-/

namespace Xeos.C99.Memcpy64

open Lib Lib.X86

/-- The labels of the three functions. -/
inductive Label where
  -- memcpy
  | start | check | ok | fail
  -- _memcpy64_sse2; `aligned` is `.source_dest_aligned` against `.dest_notaligned`
  | memcpy64Sse2
  | sse2SourceAligned
  | sse2Dest (aligned : Bool)
  | sse2Dest128 (aligned : Bool)
  | sse2Dest64 (aligned : Bool)
  | sse2Dest16 (aligned : Bool)
  | sse2CopyEnd
  | sse2SourceNotaligned
  | sse2Ret
  -- _memcpy64
  | memcpy64
  | sourceAligned
  | sourceDestAligned128
  | sourceDestAligned64
  | sourceDestAligned8
  | copyEnd
  | sourceNotaligned
  | ret
deriving DecidableEq, Repr

/-! ## Groups of instructions -/

/-- The tests for a `NULL` pointer at the start of both functions. -/
def checkNull (exit : Label) : List (Instr Label) :=
  [.mov 64 .r8 .rdi,
    .test 64 .rdi .rdi, .jcc .e exit,
    .test 64 .rsi .rsi, .jcc .e exit]

/-- Leave in `rcx` the number of bytes to the next multiple of `a` after the
pointer, which is `a` itself for an aligned one, and compare it with `a`. -/
def misaligned (pointer : Operand) (a : Nat) : List (Instr Label) :=
  [.mov 64 .rax pointer,
    .mov 64 .rcx pointer,
    .and 64 .rcx (.imm (2 ^ 64 - a)),
    .sub 64 .rax .rcx,
    .mov 64 .rcx (.imm a),
    .sub 64 .rcx .rax,
    .cmp 64 .rcx (.imm a)]

/-- Advance the pointers and decrease the number of bytes to write. -/
def advance (n : Nat) : List (Instr Label) :=
  [.add 64 .rdi (.imm n), .add 64 .rsi (.imm n), .sub 64 .rdx (.imm n)]

/-- `movdqa xmm0, [ rsi ]` and so on, for `count` registers. -/
def readXmm (count : Nat) : List (Instr Label) :=
  (List.range count).map fun i => .movdqLoad true i .rsi (16 * i)

/-- `movdqa [ rdi ], xmm0` and so on, or `movdqu`. -/
def writeXmm (aligned : Bool) (count : Nat) : List (Instr Label) :=
  (List.range count).map fun i => .movdqStore aligned .rdi (16 * i) i

/-- Four quadwords from `rsi + offset` through `r8` to `r11`. -/
def moveQwords (offset : Nat) : List (Instr Label) :=
  [.mov 64 .r8 (.mem (some .rsi) offset),
    .mov 64 .r9 (.mem (some .rsi) (offset + 8)),
    .mov 64 .r10 (.mem (some .rsi) (offset + 16)),
    .mov 64 .r11 (.mem (some .rsi) (offset + 24)),
    .mov 64 (.mem (some .rdi) offset) .r8,
    .mov 64 (.mem (some .rdi) (offset + 8)) .r9,
    .mov 64 (.mem (some .rdi) (offset + 16)) .r10,
    .mov 64 (.mem (some .rdi) (offset + 24)) .r11]

/-- One quadword, through `r8`. -/
def moveQword : List (Instr Label) :=
  [.mov 64 .r8 (.mem (some .rsi) 0), .mov 64 (.mem (some .rdi) 0) .r8]

/-- One byte, with the test for the end in front and the loop counters after. -/
def moveByte (exit : Label) : List (Instr Label) :=
  [.test 64 .rdx .rdx, .jcc .e exit,
    .mov 8 .rax (.mem (some .rsi) 0),
    .mov 8 (.mem (some .rdi) 0) .rax,
    .add 64 .rdi (.imm 1), .add 64 .rsi (.imm 1), .sub 64 .rdx (.imm 1), .sub 64 .rcx (.imm 1)]

/-! ## The text -/

/-- The instructions after a label.  `status` is the address of `__SSE2Status`. -/
def block (status : Nat) : Label → List (Instr Label)
  | .start =>
    [.cmp 64 (.mem none status) (.imm 1), .jcc .e .memcpy64Sse2,
      .cmp 64 (.mem none status) (.imm 0), .jcc .e .memcpy64]
  | .check =>
    [.mov 64 .r8 .rcx, .mov 64 .r9 .rdx, .mov 64 .rax (.imm 1), .cpuid,
      .test 32 .rdx (.imm 0x4000000), .jcc .e .fail]
  | .ok =>
    [.mov 64 .rcx .r8, .mov 64 .rdx .r9, .mov 64 (.mem none status) (.imm 1), .jmp .memcpy64Sse2]
  | .fail =>
    [.mov 64 .rcx .r8, .mov 64 .rdx .r9, .mov 64 (.mem none status) (.imm 0), .jmp .memcpy64]
  | .memcpy64Sse2 =>
    checkNull .sse2Ret ++ misaligned .rsi 16 ++ [.jcc .ne .sse2SourceNotaligned]
  | .sse2SourceAligned => misaligned .rdi 16 ++ [.jcc .ne (.sse2Dest false)]
  | .sse2Dest aligned => [.cmp 64 .rdx (.imm 128), .jcc .b (.sse2Dest64 aligned)]
  | .sse2Dest128 aligned =>
    readXmm 8 ++ writeXmm aligned 8 ++ advance 128
      ++ [.cmp 64 .rdx (.imm 128), .jcc .ge (.sse2Dest128 aligned)]
  | .sse2Dest64 aligned =>
    [.cmp 64 .rdx (.imm 64), .jcc .b (.sse2Dest16 aligned)]
      ++ readXmm 4 ++ writeXmm aligned 4 ++ advance 64 ++ [.jmp (.sse2Dest64 aligned)]
  | .sse2Dest16 aligned =>
    [.cmp 64 .rdx (.imm 16), .jcc .b .sse2CopyEnd]
      ++ readXmm 1 ++ writeXmm aligned 1 ++ advance 16 ++ [.jmp (.sse2Dest16 aligned)]
  | .sse2CopyEnd => moveByte .sse2Ret ++ [.jmp .sse2CopyEnd]
  | .sse2SourceNotaligned =>
    moveByte .sse2Ret ++
      [.test 64 .rcx .rcx, .jcc .e .sse2SourceAligned, .jmp .sse2SourceNotaligned]
  | .sse2Ret => [.mov 64 .rax .r8, .ret]
  | .memcpy64 => checkNull .ret ++ misaligned .rsi 8 ++ [.jcc .ne .sourceNotaligned]
  | .sourceAligned => [.cmp 64 .rdx (.imm 128), .jcc .b .sourceDestAligned64]
  | .sourceDestAligned128 =>
    moveQwords 0 ++ moveQwords 32 ++ moveQwords 64 ++ moveQwords 96 ++ advance 128
      ++ [.cmp 64 .rdx (.imm 128), .jcc .ge .sourceDestAligned128]
  | .sourceDestAligned64 =>
    [.cmp 64 .rdx (.imm 64), .jcc .b .sourceDestAligned8]
      ++ moveQwords 0 ++ moveQwords 32 ++ advance 64 ++ [.jmp .sourceDestAligned64]
  | .sourceDestAligned8 =>
    [.cmp 64 .rdx (.imm 8), .jcc .b .copyEnd]
      ++ moveQword ++ advance 8 ++ [.jmp .sourceDestAligned8]
  | .copyEnd => moveByte .ret ++ [.jmp .copyEnd]
  | .sourceNotaligned =>
    moveByte .ret ++ [.test 64 .rcx .rcx, .jcc .e .sourceAligned, .jmp .sourceNotaligned]
  | .ret => [.mov 64 .rax .r8, .ret]

/-- The label that follows in the text, where a block can run off its end. -/
def next : Label → Option Label
  | .start => some .check
  | .check => some .ok
  | .memcpy64Sse2 => some .sse2SourceAligned
  | .sse2SourceAligned => some (.sse2Dest true)
  | .sse2Dest aligned => some (.sse2Dest128 aligned)
  | .sse2Dest128 aligned => some (.sse2Dest64 aligned)
  | .memcpy64 => some .sourceAligned
  | .sourceAligned => some .sourceDestAligned128
  | .sourceDestAligned128 => some .sourceDestAligned64
  | _ => none

/-- The three functions of the file. -/
def program (status : Nat) : Program Label := ⟨block status, next⟩

end Xeos.C99.Memcpy64
