import Xeos.Lib.Asm
import Xeos.Lib.Division

/-!
# The division of 64-bit numbers on i386

`__udivdi3.32.s` and `__umoddi3.32.s`, which the compiler calls for `/` and `%`.  The two texts
differ in their ends only: they estimate the quotient with the leading 32 bits of the divisor,
and correct it.

A register is a number below `2 ^ 32`, and the stack a list of words with the top first.  A `div`
that would fault has no result.
-/

namespace Xeos.System.Division

open Lib Lib.Asm

/-- The registers, the carry flag and the stack. -/
structure Regs where
  eax : Nat
  ebx : Nat
  ecx : Nat
  edx : Nat
  edi : Nat
  cf : Bool
  stack : List Nat

/-- What a `ret` comes to. -/
structure Exit where
  regs : Regs
  dest : Nat

namespace Regs

/-- The word `[ esp + disp ]`. -/
def arg (s : Regs) (disp : Nat) : Nat := s.stack.getD (disp / 4) 0

/-- `div`, of `EDX:EAX`. -/
def div (s : Regs) (src : Nat) : Option Regs :=
  let dividend := s.edx * 2 ^ 32 + s.eax
  if src = 0 ∨ 2 ^ 32 ≤ dividend / src then none
  else some { s with eax := dividend / src, edx := dividend % src }

def popEdi (s : Regs) : Regs := { s with edi := s.stack.headD 0, stack := s.stack.tail }

def popEbx (s : Regs) : Regs := { s with ebx := s.stack.headD 0, stack := s.stack.tail }

def ret (s : Regs) : Exit := ⟨{ s with stack := s.stack.tail }, s.stack.headD 0⟩

end Regs

/-! ## The texts -/

/-- Up to the test of the high word of the divisor, in `EBX`. -/
def start (s : Regs) : Regs :=
  let s := { s with stack := s.ebx :: s.stack }
  { s with ebx := s.arg 20 }

/-- The leading bits of the divisor in `EBX`, and the dividend in `EDX:EAX`. -/
def normalize (s : Regs) : Regs :=
  let s := { s with ecx := Nat.log2 s.ebx, eax := s.arg 16 }
  let s := { s with eax := s.eax / 2 ^ (s.ecx % 2 ^ 5) / 2, ecx := 2 ^ 32 - 1 - s.ecx }
  let s := { s with ebx := s.ebx * 2 ^ (s.ecx % 2 ^ 5) % 2 ^ 32 ||| s.eax }
  { s with edx := s.arg 12, eax := s.arg 8 }

/-- From the `div` to the estimate in `EDI`, which is shifted by the complement of `ECX`. -/
def scale (bit : Nat) (s : Regs) : Regs :=
  let count := 2 ^ 32 - 1 - s.ecx
  let q := (s.eax / 2 ||| bit) / 2 ^ (count % 2 ^ 5)
  { s with eax := q, edi := q, ecx := count, stack := s.edi :: s.stack }

/-- The estimate of the quotient.  The second branch is the label `.1` of `__udivdi3` and `.2` of
`__umoddi3`. -/
def estimate (s : Regs) : Option Regs :=
  if s.edx < s.ebx then (s.div s.ebx).map (scale 0)
  else (({ s with edx := s.edx - s.ebx } : Regs).div s.ebx).map (scale 0x80000000)

/-- The dividend less the product of the estimate and the divisor, in `ECX:EBX`. -/
def subtract (s : Regs) : Regs :=
  let product := s.eax * s.arg 20
  let s := { s with eax := product % 2 ^ 32, edx := product / 2 ^ 32 }
  let s := { s with ebx := s.arg 12, ecx := s.arg 16 }
  let s := { s with ebx := difference 32 s.ebx s.eax, cf := decide (s.ebx < s.eax) }
  let s := { s with ecx := difference 32 s.ecx (s.edx + s.cf.toNat) }
  let s := { s with eax := s.arg 24 * s.edi % 2 ^ 32 }
  { s with ecx := difference 32 s.ecx s.eax, cf := decide (s.ecx < s.eax) }

/-- `.9`, for a divisor of one word, up to the second `div`. -/
def divideByWord (s : Regs) : Option Regs := do
  let s ← ({ s with eax := s.arg 12, ecx := s.arg 16, edx := 0 } : Regs).div (s.arg 16)
  ({ s with ebx := s.eax, eax := s.arg 8 } : Regs).div s.ecx

/-- `__udivdi3` -/
def udivdi3 (s : Regs) : Option Exit :=
  let s := start s
  if s.ebx = 0 then do
    let s ← divideByWord s
    some ({ s with edx := s.ebx } : Regs).popEbx.ret
  else do
    let s ← estimate (normalize s)
    let s := subtract s
    let s := { s with edi := difference 32 s.edi s.cf.toNat }
    some ({ s with edx := 0, eax := s.edi } : Regs).popEdi.popEbx.ret

/-- `__umoddi3` -/
def umoddi3 (s : Regs) : Option Exit :=
  let s := start s
  if s.ebx = 0 then do
    let s ← divideByWord s
    some ({ s with eax := s.edx, edx := 0 } : Regs).popEbx.ret
  else do
    let s ← estimate (normalize s)
    let s := subtract s
    let s := if s.cf then
        let low := s.ebx + s.arg 20
        { s with ebx := low % 2 ^ 32, ecx := (s.ecx + s.arg 24 + low / 2 ^ 32) % 2 ^ 32 }
      else s
    some ({ s with eax := s.ebx, edx := s.ecx } : Regs).popEdi.popEbx.ret

end Xeos.System.Division
