import Xeos.C99.Memcpy64Dispatch
import Xeos.Lib.Asm

/-!
# The dispatch of the string routines

The files `memcpy.32.s`, `memset.*.s`, `memchr.*.s` and `strlen.*.s` of
`lib/c99/string` have one shape: the function compares its cached SSE2 flag with 1
and 0, asks `cpuid` when it holds neither, and jumps to one of two functions.
`routine` is that shape.  The labels of the two functions are local to them, so
both have the type `B`, and `fn true` and `fn false` are the ones of the function
with and without SSE2.

The x86-64 files keep `rcx` and `rdx` in `r8` and `r9` while they ask `cpuid`.  No
file keeps `rbx` or `ebx`.
-/

namespace Xeos.C99

open Lib Lib.Asm
open Memcpy64 (hasSse2 UsesSse2)

/-- The labels of a routine. -/
inductive Label (B : Type) where
  | start | check | ok | fail
  | fn (sse2 : Bool) (l : B)
deriving DecidableEq, Repr

section Routine

variable {B : Type}

/-- The arguments that `cpuid` would destroy. -/
def saveArguments (bits : Nat) : List (Instr (Label B)) :=
  if bits = 64 then [.mov 64 .r8 .cx, .mov 64 .r9 .dx] else []

def restoreArguments (bits : Nat) : List (Instr (Label B)) :=
  if bits = 64 then [.mov 64 .cx .r8, .mov 64 .dx .r9] else []

/-- The routine for registers of `bits` bits whose two functions have the blocks
`text` and begin at `entry`. -/
def routine (bits : Nat) (entry : B) (text : Bool → B → List (Instr (Label B)))
    (next : Bool → B → Option B) : Program (Label B) where
  bits := bits
  block
    | .start =>
      [.cmp bits .status (.imm 1), .jcc .e (.fn true entry),
        .cmp bits .status (.imm 0), .jcc .e (.fn false entry)]
    | .check =>
      saveArguments bits ++
        [.mov bits .ax (.imm 1), .cpuid, .test 32 .dx (.imm 0x4000000), .jcc .e .fail]
    | .ok => restoreArguments bits ++ [.mov bits .status (.imm 1), .jmp (.fn true entry)]
    | .fail => restoreArguments bits ++ [.mov bits .status (.imm 0), .jmp (.fn false entry)]
    | .fn sse2 l => text sse2 l
  next
    | .start => some .check
    | .check => some .ok
    | .ok => some .fail
    | .fail => none
    | .fn sse2 l => (next sse2 l).map (.fn sse2)

/-- What the dispatch leaves as it was, and what it makes of the base register. -/
structure Dispatched (bits : Nat) (cpuid : X86.Cpuid) (c c' : Cpu) : Prop where
  mem : c'.mem = c.mem
  stack : c'.stack = c.stack
  sp : c'.sp = c.sp
  bp : c'.bp = c.bp
  kept : ∀ r ∈ [Reg.si, .di, .r12, .r13, .r14, .r15], c'.regs.get r = c.regs.get r
  dx : bits = 64 → c'.regs.dx = c.regs.dx
  bx : c'.regs.bx = if c.status = 1 ∨ c.status = 0 then c.regs.bx else (cpuid 1).ebx % 2 ^ 32

end Routine

section Dispatch

variable {B : Type} {bits : Nat} {entry : B} {text : Bool → B → List (Instr (Label B))}
  {next : Bool → B → Option B} {cpuid : X86.Cpuid} {c : Cpu}

/-- The comparisons with the cached flag. -/
theorem start_yields (hbits : bits = 32 ∨ bits = 64) (hstatus : c.status < 2 ^ bits) :
    (routine bits entry text next).Yields cpuid .start 0 c
      (if c.status = 1 then .goto (.fn true entry) (c.setFlags (alu.flags .sub bits c.status 1))
        else if c.status = 0 then .goto (.fn false entry) (c.setFlags (alu.flags .sub bits c.status 0))
        else .next (c.setFlags (alu.flags .sub bits c.status 0))) := by
  have hone : (alu.flags .sub bits c.status 1).holds .e = decide (c.status = 1) :=
    Flags.holds_e_sub hstatus (by rcases hbits with rfl | rfl <;> decide)
  have hzero : (alu.flags .sub bits c.status 0).holds .e = decide (c.status = 0) :=
    Flags.holds_e_sub hstatus (by rcases hbits with rfl | rfl <;> decide)
  have hfirst : (routine bits entry text next).Straight cpuid .start 0 1 c
      (c.setFlags (alu.flags .sub bits c.status 1)) := by
    rcases hbits with rfl | rfl <;> rfl
  have hsecond : (routine bits entry text next).Straight cpuid .start 2 3
      (c.setFlags (alu.flags .sub bits c.status 1)) (c.setFlags (alu.flags .sub bits c.status 0)) := by
    rcases hbits with rfl | rfl <;> rfl
  refine .of_straight (by omega) hfirst ?_
  by_cases h1 : c.status = 1
  · rw [if_pos h1]
    exact .of_taken rfl (hone.trans (decide_eq_true h1))
  rw [if_neg h1]
  refine .of_passed rfl (hone.trans (decide_eq_false h1)) (.of_straight (by omega) hsecond ?_)
  by_cases h0 : c.status = 0
  · rw [if_pos h0]
    exact .of_taken rfl (hzero.trans (decide_eq_true h0))
  · rw [if_neg h0]
    exact .of_passed rfl (hzero.trans (decide_eq_false h0)) rfl

/-- The registers after the question to `cpuid`. -/
def asked (A : Alu) (bits : Nat) (cpuid : X86.Cpuid) (r : Regs) : Regs :=
  { r with
    ax := A.low 32 (cpuid 1).eax
    bx := A.low 32 (cpuid 1).ebx
    cx := A.low 32 (cpuid 1).ecx
    dx := A.low 32 (cpuid 1).edx
    r8 := if bits = 64 then r.cx else r.r8
    r9 := if bits = 64 then r.dx else r.r9 }

/-- The registers when the routine goes on with one of its functions. -/
def restored (bits : Nat) (r : Regs) : Regs :=
  if bits = 64 then { r with cx := r.r8, dx := r.r9 } else r

theorem check_yields (hbits : bits = 32 ∨ bits = 64) :
    ∃ f, (routine bits entry text next).Yields cpuid .check 0 c
      (if hasSse2 cpuid then .next { c with regs := asked alu bits cpuid c.regs, flags := f }
        else .goto .fail { c with regs := asked alu bits cpuid c.regs, flags := f }) := by
  have hbit : ((cpuid 1).edx % 2 ^ 32 &&& 0x4000000) = 0 ↔ hasSse2 cpuid = false := by
    have h := Memcpy64.and_bit26 (cpuid 1).edx
    rwa [Nat.mod_mod] at h
  have hstraight : (routine bits entry text next).Straight cpuid .check 0
      (if bits = 64 then 5 else 3) c { c with
        regs := asked alu bits cpuid c.regs
        flags := alu.flags .and 32 (narrow alu bits 32 (alu.low 32 (cpuid 1).edx)) 0x4000000 } := by
    rcases hbits with rfl | rfl <;> rfl
  have hjump : ((routine bits entry text next).block .check)[if bits = 64 then 5 else 3]?
      = some (Instr.jcc .e Label.fail) := by
    rcases hbits with rfl | rfl <;> rfl
  have hend : ((routine bits entry text next).block .check).drop ((if bits = 64 then 5 else 3) + 1)
      = [] := by
    rcases hbits with rfl | rfl <;> rfl
  have hnarrow : narrow alu bits 32 (alu.low 32 (cpuid 1).edx) = alu.low 32 (cpuid 1).edx := by
    rw [narrow, show alu.low 32 (alu.low 32 (cpuid 1).edx) = alu.low 32 (cpuid 1).edx from
      Nat.mod_mod _ _, ite_self]
  rw [hnarrow] at hstraight
  refine ⟨alu.flags .and 32 (alu.low 32 (cpuid 1).edx) 0x4000000,
    .of_straight (Nat.zero_le _) hstraight ?_⟩
  cases hsse2 : hasSse2 cpuid with
  | false =>
    rw [if_neg Bool.false_ne_true]
    exact .of_taken hjump (decide_eq_true (hbit.mpr hsse2))
  | true =>
    rw [if_pos rfl]
    have hne : ¬ ((cpuid 1).edx % 2 ^ 32 &&& 0x4000000) = 0 := by
      rw [hbit, hsse2]
      exact Bool.noConfusion
    refine .of_passed hjump (decide_eq_false hne) ?_
    rw [Program.Yields, hend]
    rfl

/-- The blocks that set the flag. -/
theorem setStatus_yields (hbits : bits = 32 ∨ bits = 64) (sse2 : Bool) :
    (routine bits entry text next).Yields cpuid (if sse2 then .ok else .fail) 0 c
      (.goto (.fn sse2 entry)
        { c with regs := restored bits c.regs, status := if sse2 then 1 else 0 }) := by
  rcases hbits with rfl | rfl <;> cases sse2 <;> rfl

/-- The dispatch goes to the function that the flag and `cpuid` select. -/
theorem dispatch (hbits : bits = 32 ∨ bits = 64) (hstatus : c.status < 2 ^ bits) :
    ∃ c', Dispatched bits cpuid c c' ∧ ∀ dest c'',
      (routine bits entry text next).Leaves cpuid (.fn (decide (UsesSse2 cpuid c.status)) entry)
        c' dest c'' ↔
      (routine bits entry text next).Leaves cpuid .start c dest c'' := by
  have hstart : (routine bits entry text next).Yields cpuid .start 0 c _ :=
    start_yields hbits hstatus
  by_cases h1 : c.status = 1
  · refine ⟨c.setFlags (alu.flags .sub bits c.status 1),
      ⟨rfl, rfl, rfl, rfl, fun _ _ => rfl, fun _ => rfl, ?_⟩, fun dest c'' => ?_⟩
    · rw [if_pos (Or.inl h1)]
      rfl
    · rw [if_pos h1] at hstart
      rw [decide_eq_true (show UsesSse2 cpuid c.status from Or.inl h1)]
      exact (Program.leaves_iff_of_goto hstart).symm
  rw [if_neg h1] at hstart
  by_cases h0 : c.status = 0
  · refine ⟨c.setFlags (alu.flags .sub bits c.status 0),
      ⟨rfl, rfl, rfl, rfl, fun _ _ => rfl, fun _ => rfl, ?_⟩, fun dest c'' => ?_⟩
    · rw [if_pos (Or.inr h0)]
      rfl
    · rw [if_pos h0] at hstart
      have hplain : ¬ UsesSse2 cpuid c.status := fun h => h.elim h1 (fun h => h.1 h0)
      rw [decide_eq_false hplain]
      exact (Program.leaves_iff_of_goto hstart).symm
  rw [if_neg h0] at hstart
  obtain ⟨f, hcheck⟩ : ∃ f, (routine bits entry text next).Yields cpuid .check 0
      (c.setFlags (alu.flags .sub bits c.status 0)) _ := check_yields hbits
  refine ⟨{ c with
      regs := restored bits (asked alu bits cpuid c.regs)
      status := if hasSse2 cpuid then 1 else 0
      flags := f }, ⟨rfl, rfl, rfl, rfl, ?_, ?_, ?_⟩, fun dest c'' => ?_⟩
  · intro r hr
    simp only [List.mem_cons, List.not_mem_nil, or_false] at hr
    rcases hbits with rfl | rfl <;> rcases hr with rfl | rfl | rfl | rfl | rfl | rfl <;> rfl
  · rintro rfl
    rfl
  · have hunknown : ¬ (c.status = 1 ∨ c.status = 0) := fun h => h.elim h1 h0
    rw [if_neg hunknown]
    rcases hbits with rfl | rfl <;> rfl
  · have huses : decide (UsesSse2 cpuid c.status) = hasSse2 cpuid := by
      rw [Bool.eq_iff_iff, decide_eq_true_iff]
      exact ⟨fun h => h.elim (fun h => absurd h h1) And.right, fun h => Or.inr ⟨h0, h⟩⟩
    rw [huses, Program.leaves_iff_of_next hstart rfl]
    have hset : (routine bits entry text next).Yields cpuid _ 0
        { c with regs := asked alu bits cpuid c.regs, flags := f } _ :=
      setStatus_yields hbits (hasSse2 cpuid)
    have hsame : (c.setFlags (alu.flags .sub bits c.status 0)).regs = c.regs := rfl
    rw [hsame] at hcheck
    cases hsse2 : hasSse2 cpuid with
    | false =>
      rw [hsse2] at hcheck hset
      exact ((Program.leaves_iff_of_goto hcheck).trans (Program.leaves_iff_of_goto hset)).symm
    | true =>
      rw [hsse2] at hcheck hset
      exact ((Program.leaves_iff_of_next hcheck rfl).trans
        (Program.leaves_iff_of_goto hset)).symm

end Dispatch

end Xeos.C99
