import Xeos.System.AtomicAddOrder

/-!
# Atomic bitwise operations

`System_Atomic_And32`, `System_Atomic_Or32` and `System_Atomic_Xor32`, by any number
of processors on one word.

The loops around `cmpxchg` compute the new value in `EDX`.  The one for x86-64
stores `EDI`, which is the mask; the one for i386 exchanges a register under the
`lock` prefix, which is an invalid opcode.
-/

namespace Xeos.System.Atomic

open Lib Lib.Smp Lib.Interleave

inductive Bitwise
  | and | or | xor
deriving DecidableEq, Repr

namespace Bitwise

def routine : Bitwise → Routine
  | and => .And32
  | or => .Or32
  | xor => .Xor32

def onNat : Bitwise → Nat → Nat → Nat
  | and => fun a b => a &&& b
  | or => fun a b => a ||| b
  | xor => fun a b => a ^^^ b

def apply : Bitwise → BitVec 32 → BitVec 32 → BitVec 32
  | and => fun w mask => w &&& mask
  | or => fun w mask => w ||| mask
  | xor => fun w mask => w ^^^ mask

theorem toNat_apply (b : Bitwise) (w mask : BitVec 32) :
    (b.apply w mask).toNat = b.onNat w.toNat mask.toNat := by
  cases b with
  | and => exact BitVec.toNat_and w mask
  | or => exact BitVec.toNat_or w mask
  | xor => exact BitVec.toNat_xor w mask

end Bitwise

/-- The word at `p`. -/
def wordOf (p : Nat) (m : Memory) : BitVec 32 := wordAt .w32 p m

theorem toNat_wordOf (p : Nat) (m : Memory) : (wordOf p m).toNat = m.load p 4 :=
  (BitVec.toNat_ofNat _ _).trans (Nat.mod_eq_of_lt (load_lt_word .w32 p m))

theorem wordOf_store (p v : Nat) (m : Memory) : wordOf p (m.store p 4 v) = BitVec.ofNat 32 v :=
  wordAt_store .w32 p v m

/-- A call of one of the routines. -/
structure Masking where
  op : Bitwise
  mask : BitVec 32
deriving DecidableEq, Repr

namespace Masking

def on (call : Masking) (w : BitVec 32) : BitVec 32 := call.op.apply w call.mask

/-- What a call should do: it replaces the word and returns the new one. -/
def Spec (call : Masking) (w w' r : BitVec 32) : Prop := w' = call.on w ∧ r = w'

/-- The states in which the routines start on the word at `p`. -/
def Enter (arch : Arch) (p : Nat) (call : Masking) (l : Cpu Routine) : Prop :=
  match arch with
  | .x86_64 => ∃ c z d, d % 2 ^ 32 = call.mask.toNat ∧
    l = arch.call call.op.routine (.word d) (.word p) z c
  | .i386 => ∃ c z, l = arch.call call.op.routine (.word call.mask.toNat) (.word p) z c

/-- The value that a routine returned, in `EAX`. -/
def result (c : Cpu Routine) : Option (BitVec 32) :=
  (Program.low 32 c.regs.ax).map (BitVec.ofNat 32)

/-- The routines on the word at `p`. -/
def machine (arch : Arch) (p : Nat) : Machine (Cpu Routine) Memory Masking (BitVec 32) :=
  arch.program.machine (Enter arch p) result

/-- What has to hold in front of an instruction of x86-64: where the exchange finds
the word that it compares with, the new value is the mask. -/
def Meets (p : Nat) (call : Masking) (l : Cpu Routine) (m : Memory) : Prop :=
  l.pc = some (call.op.routine, 6) → Program.low 32 l.regs.ax = some (m.load p 4) →
    call.on (wordOf p m) = call.mask

end Masking

/-! ## x86-64 -/

namespace X86_64

/-- A state of a routine. -/
def inArithmetic (b : Bitwise) (k : Nat) (r : Regs Routine) (s : Int → Val Routine)
    (zf cf : Bool) : Cpu Routine :=
  ⟨some (b.routine, k), { r with sp := .slot 0 }, withCells s [(0, .loc none)], zf, cf⟩

/-- The states in front of the exchange that compares with `e`: `EDX` has the new
value, and `EDI` the mask. -/
def AtExchange (p : Nat) (call : Masking) (e : Nat) (l : Cpu Routine) : Prop :=
  ∃ (r : Regs Routine) (s : Int → Val Routine) (zf cf : Bool) (d : Nat),
    d % 2 ^ 32 = call.mask.toNat ∧ l = inArithmetic call.op 6 { r with
      ax := .word e
      dx := .word (call.op.onNat (e % 2 ^ 32) call.mask.toNat)
      si := .word p
      di := .word d } s zf cf

section

variable {p d e : Nat} {b : Bitwise} {r : Regs Routine} {s : Int → Val Routine} {zf cf : Bool}
variable {call : Masking} {m m' : Memory} {l l' : Cpu Routine}

/-- Up to the test of the pointer. -/
theorem silent_test_arithmetic : X86_64.program.silent 2
      (inArithmetic b 0 { r with si := .word p, di := .word d } s zf cf)
    = some (inArithmetic b 2 { r with ax := .word 0, si := .word p, di := .word d } s
      (p % 2 ^ 64 == 0) (decide (p % 2 ^ 64 < 0))) := by
  cases b <;> rfl

/-- From the label `.1` to the exchange. -/
theorem reaches_exchange (hd : d % 2 ^ 32 = call.mask.toNat) :
    Machine.Reaches (Masking.machine .x86_64 p) (AtExchange p call e)
      (inArithmetic call.op 4 { r with ax := .word e, si := .word p, di := .word d } s zf cf) := by
  have hvalue : ∃ zf' cf', X86_64.program.silent 2
      (inArithmetic call.op 4 { r with ax := .word e, si := .word p, di := .word d } s zf cf)
    = some (inArithmetic call.op 6 { r with
        ax := .word e
        dx := .word (call.op.onNat (e % 2 ^ 32 % 2 ^ 32) (d % 2 ^ 32 % 2 ^ 32))
        si := .word p
        di := .word d } s zf' cf') := by
    cases call.op <;> exact ⟨_, _, rfl⟩
  obtain ⟨zf', cf', hvalue⟩ := hvalue
  rw [Nat.mod_mod, Nat.mod_mod, hd] at hvalue
  exact Program.reaches_of_silent rfl hvalue (.here ⟨r, s, zf', cf', d, hd, rfl⟩)

/-- Every call gets to an exchange. -/
theorem reaches_exchange_of_enter (hp : p % 2 ^ 64 ≠ 0) (henter : call.Enter .x86_64 p l) :
    Machine.Reaches (Masking.machine .x86_64 p) (fun l => ∃ e, AtExchange p call e l) l := by
  obtain ⟨c, z, d, hd, rfl⟩ := henter
  have hzf : (p % 2 ^ 64 == 0) = false := beq_eq_false_iff_ne.mpr hp
  have htest := @silent_test_arithmetic p d call.op { c.regs with dx := z } c.stack c.zf c.cf
  rw [hzf] at htest
  have hjump : X86_64.program.silent 1 (inArithmetic call.op 2
        { c.regs with ax := .word 0, dx := z, si := .word p, di := .word d } c.stack false
        (decide (p % 2 ^ 64 < 0)))
      = some (inArithmetic call.op 3
        { c.regs with ax := .word 0, dx := z, si := .word p, di := .word d } c.stack false
        (decide (p % 2 ^ 64 < 0))) := by
    cases call.op <;> rfl
  refine Program.reaches_of_silent rfl htest (Program.reaches_of_silent rfl hjump ?_)
  refine .next (fun m => inArithmetic call.op 4
    { c.regs with
      ax := .word (m.load ((p + 0) % 2 ^ 64) 4)
      dx := z
      si := .word p
      di := .word d } c.stack false (decide (p % 2 ^ 64 < 0))) (fun m => ?_) (fun m => ?_)
  · cases call.op <;> rfl
  · exact (reaches_exchange (r := { c.regs with dx := z }) hd).mono (fun _ h => ⟨_, h⟩)

/-- The exchange: it stores `EDI`. -/
theorem step_exchange {v : Nat} : X86_64.program.step (inArithmetic b 6
        { r with ax := .word e, dx := .word v, si := .word p, di := .word d } s zf cf) m
    = if m.load ((p + 0) % 2 ^ 64) 4 = e % 2 ^ 32 then
        some (inArithmetic b 7
          { r with ax := .word e, dx := .word v, si := .word p, di := .word d } s true cf,
          m.store ((p + 0) % 2 ^ 64) 4 (d % 2 ^ 32))
      else
        some (inArithmetic b 7
          { r with
            ax := .word (m.load ((p + 0) % 2 ^ 64) 4)
            dx := .word v
            si := .word p
            di := .word d } s false cf, m) := by
  cases b <;> rfl

/-- The instructions after the exchange: the value of `EDX` is the result. -/
theorem returning_of_exchange {v : Nat} :
    Machine.Returning (Masking.machine .x86_64 p) (BitVec.ofNat 32 v) (inArithmetic b 7
      { r with ax := .word e, dx := .word v, si := .word p, di := .word d } s true cf) := by
  have hback : ∃ l', X86_64.program.silent 3 (inArithmetic b 7
        { r with ax := .word e, dx := .word v, si := .word p, di := .word d } s true cf)
      = some l' ∧ l'.pc = none ∧ l'.regs.ax = .word (v % 2 ^ 32) := by
    cases b <;> exact ⟨_, rfl, rfl, rfl⟩
  obtain ⟨l', hback, hpc, hax⟩ := hback
  refine Program.reaches_of_silent rfl hback (.here ((Program.result_machine hpc).trans ?_))
  rw [Masking.result, hax]
  change some (BitVec.ofNat 32 (v % 2 ^ 32 % 2 ^ 32)) = _
  congr 1
  apply BitVec.eq_of_toNat_eq
  rw [BitVec.toNat_ofNat, BitVec.toNat_ofNat, Nat.mod_mod, Nat.mod_mod]

/-- An exchange that finds the word it compares with stores the mask, and its call
returns the new value.  The others lead to an exchange that compares with the word
that they found. -/
theorem exchange_cases (hfits : p + 4 ≤ 2 ^ 64) (hat : AtExchange p call e l)
    (hstep : X86_64.program.step l m = some (l', m')) :
    (m.load p 4 ≠ e % 2 ^ 32 ∧ m' = m ∧
        Machine.Reaches (Masking.machine .x86_64 p) (AtExchange p call (m.load p 4)) l') ∨
      m.load p 4 = e % 2 ^ 32 ∧ wordOf p m' = call.mask ∧
        Machine.Returning (Masking.machine .x86_64 p) (call.on (wordOf p m)) l' := by
  obtain ⟨r, s, zf, cf, d, hd, rfl⟩ := hat
  have haddr : (p + 0) % 2 ^ 64 = p := by rw [Nat.add_zero, Nat.mod_eq_of_lt (by omega)]
  rw [step_exchange, haddr] at hstep
  by_cases hequal : m.load p 4 = e % 2 ^ 32
  · rw [if_pos hequal] at hstep
    obtain ⟨rfl, rfl⟩ := Prod.mk.inj (Option.some.inj hstep)
    refine Or.inr ⟨hequal, ?_, ?_⟩
    · rw [wordOf_store, hd, BitVec.ofNat_toNat, BitVec.setWidth_eq]
    · have hvalue : call.on (wordOf p m)
          = BitVec.ofNat 32 (call.op.onNat (e % 2 ^ 32) call.mask.toNat) := by
        rw [← hequal, ← toNat_wordOf, ← Bitwise.toNat_apply, BitVec.ofNat_toNat,
          BitVec.setWidth_eq]
        rfl
      rw [hvalue]
      exact returning_of_exchange
  · rw [if_neg hequal] at hstep
    obtain ⟨rfl, rfl⟩ := Prod.mk.inj (Option.some.inj hstep)
    refine Or.inl ⟨hequal, rfl, ?_⟩
    have hjump : X86_64.program.silent 1 (inArithmetic call.op 7
          { r with
            ax := .word (m.load p 4)
            dx := .word (call.op.onNat (e % 2 ^ 32) call.mask.toNat)
            si := .word p
            di := .word d } s false cf)
        = some (inArithmetic call.op 4
          { r with
            ax := .word (m.load p 4)
            dx := .word (call.op.onNat (e % 2 ^ 32) call.mask.toNat)
            si := .word p
            di := .word d } s false cf) := by
      cases call.op <;> rfl
    refine Program.reaches_of_silent rfl hjump ?_
    exact reaches_exchange
      (r := { r with dx := .word (call.op.onNat (e % 2 ^ 32) call.mask.toNat) }) hd

theorem exists_step_of_exchange (hat : AtExchange p call e l) :
    ∃ l' m', X86_64.program.step l m = some (l', m') := by
  obtain ⟨r, s, zf, cf, d, -, rfl⟩ := hat
  rw [step_exchange]
  split
  · exact ⟨_, _, rfl⟩
  · exact ⟨_, _, rfl⟩

theorem result_exchange (hat : AtExchange p call e l) :
    (Masking.machine .x86_64 p).result l = none := by
  obtain ⟨r, s, zf, cf, d, -, rfl⟩ := hat
  exact Program.result_machine_of_some rfl

/-- Alone, an exchange that fails is followed by one that does not. -/
theorem returnsAlone_of_exchange (hfits : p + 4 ≤ 2 ^ 64) (hat : AtExchange p call e l) :
    (Masking.machine .x86_64 p).ReturnsAlone l m := by
  -- one step, when the exchange succeeds
  have hdone : ∀ {e : Nat} {l : Cpu Routine}, AtExchange p call e l → m.load p 4 = e % 2 ^ 32 →
      (Masking.machine .x86_64 p).ReturnsAlone l m := by
    intro e l hat hequal
    obtain ⟨l', m', hstep⟩ := exists_step_of_exchange (m := m) hat
    rcases exchange_cases hfits hat hstep with ⟨hne, -, -⟩ | ⟨-, -, hreturning⟩
    · exact absurd hequal hne
    · exact .of_steps (Machine.steps_one hstep) (hreturning.returnsAlone m')
  by_cases hequal : m.load p 4 = e % 2 ^ 32
  · exact hdone hat hequal
  · obtain ⟨l', m', hstep⟩ := exists_step_of_exchange (m := m) hat
    rcases exchange_cases hfits hat hstep with ⟨-, rfl, hretry⟩ | ⟨heq, -, -⟩
    · obtain ⟨k, l'', hsteps, hat'⟩ := hretry.steps m'
      refine .of_steps (Machine.steps_one hstep) (.of_steps hsteps (hdone hat' ?_))
      exact (Nat.mod_eq_of_lt (load_lt_word .w32 p m')).symm
    · exact absurd heq hequal

end

end X86_64

namespace Masking

variable {p : Nat}

/-- What the exchanges do, for any object that their changes of the word are steps of. -/
theorem implements {Meets : Masking → Cpu Routine → Memory → Prop}
    {Spec : Masking → BitVec 32 → BitVec 32 → BitVec 32 → Prop} (hp : p ≠ 0)
    (hfits : p + 4 ≤ 2 ^ 64)
    (hspec : ∀ call e l m, X86_64.AtExchange p call e l → Meets call l m →
      m.load p 4 = e % 2 ^ 32 →
      Spec call (wordOf p m) call.mask (call.on (wordOf p m))) :
    (machine .x86_64 p).Implements Meets (wordOf p) Spec
      (fun call => (machine .x86_64 p).Reaches (fun l => ∃ e, X86_64.AtExchange p call e l)) := by
  have hmod : p % 2 ^ 64 ≠ 0 := by rwa [Nat.mod_eq_of_lt (by omega)]
  refine Machine.implements_of_attempt (fun _ _ => X86_64.reaches_exchange_of_enter hmod)
    (fun _ _ ⟨e, hat⟩ => X86_64.result_exchange hat) ?_
  rintro call l m l' m' ⟨e, hat⟩ hmeets hstep
  rcases X86_64.exchange_cases hfits hat hstep with ⟨-, rfl, hretry⟩ | ⟨hequal, hmask, hback⟩
  · exact Or.inl ⟨rfl, hretry.mono (fun _ h => ⟨_, h⟩)⟩
  · rw [hmask]
    exact Or.inr ⟨_, hspec call e l m hat hmeets hequal, hback⟩

theorem implements_of_meets (hp : p ≠ 0) (hfits : p + 4 ≤ 2 ^ 64) :
    (machine .x86_64 p).Implements (Meets p) (wordOf p) Spec
      (fun call => (machine .x86_64 p).Reaches (fun l => ∃ e, X86_64.AtExchange p call e l)) := by
  refine implements hp hfits (fun call e l m hat hmeets hequal => ?_)
  obtain ⟨r, s, zf, cf, d, -, rfl⟩ := hat
  have hmask : call.on (wordOf p m) = call.mask := hmeets rfl (congrArg some hequal.symm)
  exact ⟨hmask.symm, hmask⟩

/-- While a call is on the way to an exchange, or back to its caller, its processor
needs no other one. -/
theorem terminates {ι : Type} [DecidableEq ι] (hp : p ≠ 0) (hfits : p + 4 ≤ 2 ^ 64) {m : Memory}
    {Permit : List (Masking × BitVec 32) → Masking → Prop}
    {s : System ι (Cpu Routine) Memory Masking (BitVec 32)}
    (hrun : (machine .x86_64 p).Run Permit (fun _ _ _ => True) (.start ι _ _ _ m) s) {i : ι}
    {call : Masking} {l : Cpu Routine} (hbusy : s.phase i = .busy call l) :
    (machine .x86_64 p).Terminates Permit i s := by
  refine Machine.terminates_of_returnsAlone hbusy ?_
  have himp : (machine .x86_64 p).Implements (fun _ _ _ => True) (wordOf p) (fun _ _ _ _ => True) _ :=
    implements hp hfits (fun _ _ _ _ _ _ _ => trivial)
  obtain ⟨log, -, htracks⟩ := Machine.linearizable himp hrun
  have hi := htracks i
  rw [Machine.Tracks, hbusy] at hi
  rcases hi with ⟨hpending, -⟩ | ⟨r, hreturning, -⟩
  · obtain ⟨k, l', hsteps, e, hat⟩ := hpending.steps s.shared
    exact .of_steps hsteps (X86_64.returnsAlone_of_exchange hfits hat)
  · exact hreturning.returnsAlone s.shared

end Masking

/-! ## i386 -/

namespace I386

/-- A state of a routine. -/
def inArithmetic (b : Bitwise) (mask p k : Nat) (r : Regs Routine) (s : Int → Val Routine)
    (zf cf : Bool) : Cpu Routine :=
  ⟨some (b.routine, k), { r with sp := .slot 0 },
    withCells s [(0, .loc none), (4, .word mask), (8, .word p)], zf, cf⟩

section

variable {p mask : Nat} {b : Bitwise} {r : Regs Routine} {s : Int → Val Routine} {zf cf : Bool}
variable {l : Cpu Routine}

/-- The exchange of a register has no step. -/
theorem stuck_exchange :
    Machine.Stuck (Masking.machine .i386 p) (inArithmetic b mask p 6 r s zf cf) := by
  refine ⟨Program.result_machine_of_some rfl, fun m => ?_⟩
  cases b <;> rfl

theorem reaches_stuck {call : Masking} (hp : p % 2 ^ 32 ≠ 0) (henter : call.Enter .i386 p l) :
    Machine.Reaches (Masking.machine .i386 p) (Machine.Stuck (Masking.machine .i386 p)) l := by
  obtain ⟨c, z, rfl⟩ := henter
  have hzf : (p % 2 ^ 32 == 0) = false := beq_eq_false_iff_ne.mpr hp
  have htest : ∃ cf, I386.program.silent 2
        (Arch.i386.call call.op.routine (.word call.mask.toNat) (.word p) z c)
      = some (inArithmetic call.op call.mask.toNat p 2 { c.regs with cx := .word p }
        (withCells c.stack [(12, z)]) (p % 2 ^ 32 == 0) cf) := by
    cases call.op <;> exact ⟨_, rfl⟩
  obtain ⟨cf, htest⟩ := htest
  rw [hzf] at htest
  have hjump : I386.program.silent 1 (inArithmetic call.op call.mask.toNat p 2
        { c.regs with cx := .word p } (withCells c.stack [(12, z)]) false cf)
      = some (inArithmetic call.op call.mask.toNat p 3
        { c.regs with cx := .word p } (withCells c.stack [(12, z)]) false cf) := by
    cases call.op <;> rfl
  refine Program.reaches_of_silent rfl htest (Program.reaches_of_silent rfl hjump ?_)
  refine .next (fun m => inArithmetic call.op call.mask.toNat p 4
    { c.regs with ax := .word (m.load ((p + 0) % 2 ^ 32) 4), cx := .word p }
    (withCells c.stack [(12, z)]) false cf) (fun m => ?_) (fun m => ?_)
  · cases call.op <;> rfl
  · have hvalue : ∃ zf cf', I386.program.silent 2 (inArithmetic call.op call.mask.toNat p 4
          { c.regs with ax := .word (m.load ((p + 0) % 2 ^ 32) 4), cx := .word p }
          (withCells c.stack [(12, z)]) false cf)
        = some (inArithmetic call.op call.mask.toNat p 6
          { c.regs with
            ax := .word (m.load ((p + 0) % 2 ^ 32) 4)
            cx := .word p
            dx := .word (call.op.onNat (call.mask.toNat % 2 ^ 32)
              (m.load ((p + 0) % 2 ^ 32) 4 % 2 ^ 32)) }
          (withCells c.stack [(12, z)]) zf cf') := by
      cases call.op <;> exact ⟨_, _, rfl⟩
    obtain ⟨zf, cf', hvalue⟩ := hvalue
    exact Program.reaches_of_silent rfl hvalue (.here stuck_exchange)

end

end I386

/-! ## Runs -/

/-- On x86-64 the calls are linearizable in every run in which the exchanges that
succeed find a word whose new value is the mask, and in every run a call returns when
it is left alone.  On i386 no call returns, in any run. -/
theorem maskings_linearizable {p : Nat} (hp : p ≠ 0) {ι : Type} [DecidableEq ι] {m : Memory}
    {s : System ι (Cpu Routine) Memory Masking (BitVec 32)} :
    (p + 4 ≤ 2 ^ 64 →
      ((Masking.machine .x86_64 p).Run (fun _ _ => True) (Masking.Meets p) (.start ι _ _ _ m) s →
        ∃ log : List (ι × Masking × BitVec 32),
          Machine.Legal Masking.Spec (wordOf p m) log (wordOf p s.shared) ∧
          ∀ i, s.past i <+: Machine.own i log ∧
            (s.phase i = .idle → Machine.own i log = s.past i)) ∧
      ((Masking.machine .x86_64 p).Run (fun _ _ => True) (fun _ _ _ => True)
          (.start ι _ _ _ m) s →
        ∀ i call l, s.phase i = .busy call l →
          (Masking.machine .x86_64 p).Terminates (fun _ _ => True) i s)) ∧
    (p + 4 ≤ 2 ^ 32 →
      (Masking.machine .i386 p).Run (fun _ _ => True) (fun _ _ _ => True) (.start ι _ _ _ m) s →
        ∀ i, s.past i = [] ∧ ∀ call l, s.phase i = .busy call l →
          ¬ (Masking.machine .i386 p).Terminates (fun _ _ => True) i s) := by
  refine ⟨fun hfits => ⟨fun hrun => ?_, fun hrun i call l hbusy => ?_⟩, fun hfits hrun i => ?_⟩
  · obtain ⟨log, hlegal, htracks⟩ :=
      Machine.linearizable (Masking.implements_of_meets hp hfits) hrun
    exact ⟨log, hlegal, fun i => (htracks i).own_eq⟩
  · exact Masking.terminates hp hfits hrun hbusy
  · have hmod : p % 2 ^ 32 ≠ 0 := by rwa [Nat.mod_eq_of_lt (by omega)]
    obtain ⟨hpast, hstuck⟩ := Machine.never_returns (fun _ _ => I386.reaches_stuck hmod) hrun i
    exact ⟨hpast, fun call l hbusy => Machine.not_terminates hbusy (hstuck call l hbusy)⟩

/-! ## One call -/

/-- Setting the bits of a three in the word at 0x1000, alone on x86-64, leaves `w`
there and returns `r`. -/
def SetsThree (m : Memory) (w r : BitVec 32) : Prop :=
  ∃ m' : Memory, wordOf 0x1000 m' = w ∧
    (Masking.machine .x86_64 0x1000).Run (fun _ _ => True) (fun _ _ _ => True)
      (.start Unit _ _ _ m)
      ⟨fun _ => .idle, Function.update (fun _ => []) () [(⟨.or, 3⟩, r)], m'⟩

theorem setsThree_five : SetsThree five 3 7 := by
  refine ⟨five.store 0x1000 4 3, by decide, ?_⟩
  have hcall : (Masking.machine .x86_64 0x1000).Enter ⟨.or, 3⟩
      (Arch.x86_64.call .Or32 (.word 3) (.word 0x1000) (.word 0) zeros) :=
    ⟨zeros, .word 0, 3, rfl, rfl⟩
  have hsteps : ∃ l, (Masking.machine .x86_64 0x1000).steps 10
        (Arch.x86_64.call .Or32 (.word 3) (.word 0x1000) (.word 0) zeros) five
      = some (l, five.store 0x1000 4 3) ∧
      (Masking.machine .x86_64 0x1000).result l = some 7 := ⟨_, rfl, rfl⟩
  obtain ⟨l, hsteps, hresult⟩ := hsteps
  exact Machine.run_call (i := ()) rfl trivial hcall (fun _ _ _ _ _ => trivial) hsteps hresult

/-- On x86-64 the only call of a run on a five leaves a three, and no order of it
does that. -/
theorem setsThree_five_no_order : SetsThree five 3 7 ∧
    ∀ log : List (Unit × Masking × BitVec 32), Machine.own () log = [(⟨.or, 3⟩, 7)] →
      ¬ Machine.Legal Masking.Spec (wordOf 0x1000 five) log 3 := by
  refine ⟨setsThree_five, fun log hown hlegal => ?_⟩
  rw [Machine.own_unit, List.map_eq_singleton_iff] at hown
  obtain ⟨c, rfl, hc⟩ := hown
  rw [← List.nil_append [c], show c = ((), ⟨.or, 3⟩, 7) from Prod.ext rfl hc] at hlegal
  obtain ⟨w', -, -, hreturn⟩ := hlegal.last
  exact absurd hreturn (by decide)

/-- The same call on a zero leaves a three that is the new value. -/
theorem maskings_linearizable_three : ∃ log : List (Unit × Masking × BitVec 32),
    Machine.Legal Masking.Spec (wordOf 0x1000 fun _ => 0) log 3 ∧
      Machine.own () log = [(⟨.or, 3⟩, 3)] := by
  have hcall : (Masking.machine .x86_64 0x1000).Enter ⟨.or, 3⟩
      (Arch.x86_64.call .Or32 (.word 3) (.word 0x1000) (.word 0) zeros) :=
    ⟨zeros, .word 0, 3, rfl, rfl⟩
  have hsteps : ∃ l, (Masking.machine .x86_64 0x1000).steps 10
        (Arch.x86_64.call .Or32 (.word 3) (.word 0x1000) (.word 0) zeros) (fun _ => 0)
      = some (l, Memory.store (fun _ => 0) 0x1000 4 3) ∧
      (Masking.machine .x86_64 0x1000).result l = some 3 := ⟨_, rfl, rfl⟩
  obtain ⟨l, hsteps, hresult⟩ := hsteps
  have hmeets : ∀ j < 10, ∀ l m, (Masking.machine .x86_64 0x1000).steps j
        (Arch.x86_64.call .Or32 (.word 3) (.word 0x1000) (.word 0) zeros) (fun _ => 0)
      = some (l, m) → Masking.Meets 0x1000 ⟨.or, 3⟩ l m := by
    -- the word is a zero or a three throughout
    have hword : ∀ j < 10, ((Masking.machine .x86_64 0x1000).steps j
        (Arch.x86_64.call .Or32 (.word 3) (.word 0x1000) (.word 0) zeros) fun _ => 0).all
        (fun r => Masking.on ⟨.or, 3⟩ (wordOf 0x1000 r.2) == 3) := by
      decide
    intro j hj l m h _ _
    have hj' := hword j hj
    rw [h] at hj'
    exact eq_of_beq hj'
  have hrun : (Masking.machine .x86_64 0x1000).Run (fun _ _ => True) (Masking.Meets 0x1000)
      (.start Unit _ _ _ fun _ => 0) _ :=
    Machine.run_call (i := ()) rfl trivial hcall hmeets hsteps hresult
  obtain ⟨log, hlegal, hown⟩ := (maskings_linearizable (by decide)).1 (by decide) |>.1 hrun
  exact ⟨log, hlegal, (hown ()).2 rfl⟩

end Xeos.System.Atomic
