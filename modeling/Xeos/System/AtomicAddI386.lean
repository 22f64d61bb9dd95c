import Xeos.System.AtomicAdd

/-!
# Atomic additions on i386

The variants for 32 bits are one locked addition, those for 64 bits a loop around
`cmpxchg8b`.
-/

namespace Xeos.System.Atomic

open Lib Lib.Smp Lib.Interleave

/-! ## i386, 32 bits -/

namespace I386

/-- The call of a routine, or the call from another routine that has its own frame
and that saved `bp`. -/
inductive Frame32
  | direct
  | from (routine : Routine) (bp : Val Routine)

def Frame32.sp : Frame32 → Int
  | .direct => 0
  | .from .. => -24

/-- The stack with the arguments of `Add32`, the last one written first. -/
def Frame32.cells (f : Frame32) (d p : Nat) : List (Int × Val Routine) :=
  match f with
  | .direct => [(0, .loc none), (4, .word d), (8, .word p)]
  | .from routine bp => [(-24, .loc (some (routine, 7))), (-16, .word p), (-20, .word d), (-4, bp),
    (0, .loc none)]

/-- The routines that call `Add32`. -/
def Frame32.Valid : Frame32 → Prop
  | .direct => True
  | .from routine _ => routine = .Decrement32 ∨ routine = .Increment32

/-- A state of `Add32`. -/
def inAdd32 (k : Nat) (f : Frame32) (d p : Nat) (r : Regs Routine) (s : Int → Val Routine)
    (zf cf : Bool) : Cpu Routine :=
  ⟨some (.Add32, k), { r with sp := .slot f.sp }, withCells s (f.cells d p), zf, cf⟩

/-- The states in front of the locked addition. -/
def AtXadd (p : Nat) (a : BitVec 32) (l : Cpu Routine) : Prop :=
  ∃ (f : Frame32) (r : Regs Routine) (s : Int → Val Routine) (zf cf : Bool) (d : Nat), f.Valid ∧
    d % 2 ^ 32 = a.toNat ∧
    l = inAdd32 6 f d p { r with ax := .word d, cx := .word d, dx := .word p } s zf cf

section

variable {p d : Nat} {r : Regs Routine} {s : Int → Val Routine} {zf cf : Bool} {f : Frame32}
variable {a : BitVec 32}

/-- Up to the test of the pointer. -/
theorem silent_test : I386.program.silent 3 (inAdd32 0 f d p r s zf cf)
    = some (inAdd32 3 f d p { r with ax := .word 0, dx := .word p } s (p % 2 ^ 32 == 0)
      (decide (p % 2 ^ 32 < 0))) := by
  cases f <;> rfl

/-- From there, when the pointer is not null. -/
theorem silent_load : I386.program.silent 3 (inAdd32 3 f d p { r with dx := .word p } s false cf)
    = some (inAdd32 6 f d p { r with ax := .word d, cx := .word d, dx := .word p } s false
      cf) := by
  cases f <;> rfl

theorem reaches_xadd (hp : p % 2 ^ 32 ≠ 0) (hd : d % 2 ^ 32 = a.toNat) (hf : f.Valid) :
    Machine.Reaches (Addition.machine .i386 .w32 p) (AtXadd p a)
      (inAdd32 0 f d p r s zf cf) := by
  have hzf : (p % 2 ^ 32 == 0) = false := beq_eq_false_iff_ne.mpr hp
  refine Program.reaches_of_silent rfl silent_test ?_
  rw [hzf]
  refine Program.reaches_of_silent rfl (silent_load (r := { r with ax := .word 0 })) (.here ?_)
  exact ⟨f, { r with ax := .word 0 }, s, _, _, d, hf, hd, rfl⟩

theorem reaches_of_enter (hp : p % 2 ^ 32 ≠ 0) {op : Addition 32} {l : Cpu Routine}
    (henter : op.Enter .i386 .w32 p l) :
    Machine.Reaches (Addition.machine .i386 .w32 p) (AtXadd p op.amount) l := by
  cases op with
  | add a =>
    obtain ⟨c, z, rfl⟩ := henter
    exact reaches_xadd (s := withCells c.stack [(12, z)]) (f := .direct) hp
      (Nat.mod_eq_of_lt a.isLt) trivial
  | decrement =>
    obtain ⟨c, y, z, rfl⟩ := henter
    have hcall : ∃ r zf cf, I386.program.silent 7
          (Arch.i386.call .Decrement32 (.word p) y z c)
        = some (inAdd32 0 (.from .Decrement32 c.regs.bp) 0xFFFFFFFF p r
          (withCells c.stack [(4, .word p), (8, y), (12, z)]) zf cf) := ⟨_, _, _, rfl⟩
    obtain ⟨r, zf, cf, hcall⟩ := hcall
    exact Program.reaches_of_silent rfl hcall (reaches_xadd hp rfl (Or.inl rfl))
  | increment =>
    obtain ⟨c, y, z, rfl⟩ := henter
    have hcall : ∃ r zf cf, I386.program.silent 7
          (Arch.i386.call .Increment32 (.word p) y z c)
        = some (inAdd32 0 (.from .Increment32 c.regs.bp) 1 p r
          (withCells c.stack [(4, .word p), (8, y), (12, z)]) zf cf) := ⟨_, _, _, rfl⟩
    obtain ⟨r, zf, cf, hcall⟩ := hcall
    exact Program.reaches_of_silent rfl hcall (reaches_xadd hp rfl (Or.inr rfl))

/-- The instructions after the addition: the sum is the result. -/
theorem returning_of_xadd {old : Nat} (hf : f.Valid) :
    Machine.Returning (Addition.machine .i386 .w32 p) (BitVec.ofNat 32 (old + d))
      (inAdd32 7 f d p { r with ax := .word old, cx := .word d, dx := .word p } s zf cf) := by
  have hback : ∃ k l', I386.program.silent k
        (inAdd32 7 f d p { r with ax := .word old, cx := .word d, dx := .word p } s zf cf)
      = some l' ∧ l'.pc = none ∧
      l'.regs.ax = .word ((old % 2 ^ 32 + d % 2 ^ 32) % 2 ^ 32) := by
    cases f with
    | direct => exact ⟨2, _, rfl, rfl, rfl⟩
    | «from» routine bp =>
      rcases hf with rfl | rfl
      · exact ⟨5, _, rfl, rfl, rfl⟩
      · exact ⟨5, _, rfl, rfl, rfl⟩
  obtain ⟨k, l', hback, hpc, hax⟩ := hback
  refine Program.reaches_of_silent rfl hback (.here ((Program.result_machine hpc).trans ?_))
  have hresult : Addition.result .i386 .w32 l'
      = (Program.low 32 l'.regs.ax).map (BitVec.ofNat 32) := rfl
  rw [hresult, hax]
  change some (BitVec.ofNat 32 ((old % 2 ^ 32 + d % 2 ^ 32) % 2 ^ 32 % 2 ^ 32)) = _
  congr 1
  apply BitVec.eq_of_toNat_eq
  rw [BitVec.toNat_ofNat, BitVec.toNat_ofNat]
  omega

/-- The locked addition. -/
theorem step_xadd {m : Memory} : ∃ zf' cf', I386.program.step
      (inAdd32 6 f d p { r with ax := .word d, cx := .word d, dx := .word p } s zf cf) m
    = some (inAdd32 7 f d p { r with
        ax := .word (m.load ((p + 0) % 2 ^ 32) 4)
        cx := .word d
        dx := .word p } s zf' cf',
      m.store ((p + 0) % 2 ^ 32) 4
        ((m.load ((p + 0) % 2 ^ 32) 4 + d % 2 ^ 32) % 2 ^ 32)) := by
  cases f <;> exact ⟨_, _, rfl⟩

/-- A call takes effect in its locked addition. -/
theorem attempt_xadd {m m' : Memory} {l l' : Cpu Routine} {op : Addition Width.w32.bits}
    (hfits : p + 4 ≤ 2 ^ 32) (hat : AtXadd p op.amount l)
    (hstep : I386.program.step l m = some (l', m')) :
    op.Spec (wordAt .w32 p m) (wordAt .w32 p m') (wordAt .w32 p m') ∧
      Machine.Returning (Addition.machine .i386 .w32 p) (wordAt .w32 p m') l' := by
  obtain ⟨f, r, s, zf, cf, d, hf, hd, rfl⟩ := hat
  obtain ⟨zf', cf', hxadd⟩ := @step_xadd p d r s zf cf f m
  rw [hxadd] at hstep
  obtain ⟨rfl, rfl⟩ := Prod.mk.inj (Option.some.inj hstep)
  have haddr : (p + 0) % 2 ^ 32 = p := by rw [Nat.add_zero, Nat.mod_eq_of_lt (by omega)]
  have hword := wordAt_store_add .w32 p d m
  change wordAt .w32 p (m.store p 4 ((m.load p 4 + d % 2 ^ 32) % 2 ^ 32)) = _ at hword
  have hamount : BitVec.ofNat Width.w32.bits d = op.amount := ofNat_of_mod hd
  have hnew : BitVec.ofNat Width.w32.bits (m.load p 4 + d)
      = wordAt .w32 p m + BitVec.ofNat Width.w32.bits d := BitVec.ofNat_add _ _
  rw [haddr, hword]
  refine ⟨⟨by rw [hamount], rfl⟩, ?_⟩
  rw [← hnew]
  exact returning_of_xadd hf

end

/-! ## i386, 64 bits -/

/-- The call of `Add64`, or the call from another routine that has its own frame. -/
inductive Frame64
  | direct
  | from (routine : Routine) (bp : Val Routine)

/-- The routines that call `Add64`. -/
def Frame64.Valid : Frame64 → Prop
  | .direct => True
  | .from routine _ => routine = .Decrement64 ∨ routine = .Increment64

/-- The stack pointer at the entry. -/
def Frame64.sp : Frame64 → Int
  | .direct => 0
  | .from .. => -32

/-- The stack at the entry, with the two halves of the amount. -/
def Frame64.cells (f : Frame64) (lo hi p : Nat) : List (Int × Val Routine) :=
  match f with
  | .direct => [(0, .loc none), (4, .word lo), (8, .word hi), (12, .word p)]
  | .from routine bp => [(-32, .loc (some (routine, 8))), (-20, .word p), (-24, .word hi),
    (-28, .word lo), (-4, bp), (0, .loc none)]

/-- The stack behind the two pushes. -/
def Frame64.body (f : Frame64) (lo hi p : Nat) (bx si : Val Routine) :
    List (Int × Val Routine) :=
  match f with
  | .direct => [(-8, si), (-4, bx), (0, .loc none), (4, .word lo), (8, .word hi), (12, .word p)]
  | .from routine bp => [(-40, si), (-36, bx), (-32, .loc (some (routine, 8))), (-20, .word p),
    (-24, .word hi), (-28, .word lo), (-4, bp), (0, .loc none)]

def Frame64.bodySp : Frame64 → Int
  | .direct => -8
  | .from .. => -40

/-- A state of `Add64` behind the two pushes. -/
def inAdd64 (k : Nat) (f : Frame64) (a p : Nat) (bx si : Val Routine) (r : Regs Routine)
    (s : Int → Val Routine) (zf cf : Bool) : Cpu Routine :=
  ⟨some (.Add64, k), { r with si := .word p, sp := .slot f.bodySp },
    withCells s (f.body (a % 2 ^ 32) (a / 2 ^ 32) p bx si), zf, cf⟩

/-- The states in front of the exchange: `ECX:EBX` is the sum of `EDX:EAX` and the
amount. -/
def AtCas (p a : Nat) (l : Cpu Routine) : Prop :=
  ∃ (f : Frame64) (r : Regs Routine) (s : Int → Val Routine) (bx si : Val Routine) (zf cf : Bool)
    (eax edx ebx ecx : Nat), f.Valid ∧ ebx < 2 ^ 32 ∧ ecx < 2 ^ 32 ∧
    ebx + 2 ^ 32 * ecx = (a + (eax % 2 ^ 32 + 2 ^ 32 * (edx % 2 ^ 32))) % 2 ^ 64 ∧
    l = inAdd64 11 f a p bx si
      { r with ax := .word eax, bx := .word ebx, cx := .word ecx, dx := .word edx } s zf cf

section

variable {p a : Nat} {r : Regs Routine} {s : Int → Val Routine} {zf cf : Bool} {f : Frame64}
variable {bx si : Val Routine}

/-- Up to the test of the pointer. -/
theorem silent_test64 : ∃ cf', I386.program.silent 4 ⟨some (.Add64, 0), { r with sp := .slot f.sp },
      withCells s (f.cells (a % 2 ^ 32) (a / 2 ^ 32) p), zf, cf⟩
    = some (inAdd64 4 f a p r.bx r.si r s (p % 2 ^ 32 == 0) cf') := by
  cases f <;> exact ⟨_, rfl⟩

/-- From the label `.1` to the exchange. -/
theorem silent_sum {eax edx : Nat} (hf : f.Valid) : ∃ l, AtCas p a l ∧
    I386.program.silent 4 (inAdd64 7 f a p bx si { r with ax := .word eax, dx := .word edx }
      s zf cf) = some l := by
  obtain ⟨zf', cf', hsum⟩ : ∃ zf' cf', I386.program.silent 4
      (inAdd64 7 f a p bx si { r with ax := .word eax, dx := .word edx } s zf cf)
    = some (inAdd64 11 f a p bx si { r with
        ax := .word eax
        bx := .word ((a % 2 ^ 32 % 2 ^ 32 + eax % 2 ^ 32) % 2 ^ 32)
        cx := .word ((a / 2 ^ 32 % 2 ^ 32 + edx % 2 ^ 32
          + (decide (2 ^ 32 ≤ a % 2 ^ 32 % 2 ^ 32 + eax % 2 ^ 32)).toNat) % 2 ^ 32)
        dx := .word edx } s zf' cf') := by
    cases f <;> exact ⟨_, _, rfl⟩
  refine ⟨_, ⟨f, r, s, bx, si, zf', cf', eax, edx, _, _, hf, ?_, ?_, ?_, rfl⟩, hsum⟩
  · exact Nat.mod_lt _ (by omega)
  · exact Nat.mod_lt _ (by omega)
  · by_cases hcarry : 2 ^ 32 ≤ a % 2 ^ 32 % 2 ^ 32 + eax % 2 ^ 32
    · rw [decide_eq_true hcarry]
      simp only [Bool.toNat_true]
      omega
    · rw [decide_eq_false hcarry]
      simp only [Bool.toNat_false]
      omega

theorem reaches_cas_of_sum {eax edx : Nat} (hf : f.Valid) :
    Machine.Reaches (Addition.machine .i386 .w64 p) (AtCas p a)
      (inAdd64 7 f a p bx si { r with ax := .word eax, dx := .word edx } s zf cf) := by
  obtain ⟨l, hat, hsum⟩ := @silent_sum p a r s zf cf f bx si eax edx hf
  exact Program.reaches_of_silent rfl hsum (.here hat)

/-- The two halves of the word are read one after the other, and whatever they are
the exchange is next. -/
theorem reaches_cas (hp : p % 2 ^ 32 ≠ 0) (hf : f.Valid) :
    Machine.Reaches (Addition.machine .i386 .w64 p) (AtCas p a)
      ⟨some (.Add64, 0), { r with sp := .slot f.sp },
        withCells s (f.cells (a % 2 ^ 32) (a / 2 ^ 32) p), zf, cf⟩ := by
  have hzf : (p % 2 ^ 32 == 0) = false := beq_eq_false_iff_ne.mpr hp
  obtain ⟨cf', htest⟩ := @silent_test64 p a r s zf cf f
  rw [hzf] at htest
  have hjump : I386.program.silent 1 (inAdd64 4 f a p r.bx r.si r s false cf')
      = some (inAdd64 5 f a p r.bx r.si r s false cf') := by
    cases f <;> rfl
  refine Program.reaches_of_silent rfl htest (Program.reaches_of_silent rfl hjump ?_)
  refine .next (fun m => inAdd64 6 f a p r.bx r.si
    { r with ax := .word (m.load ((p + 0) % 2 ^ 32) 4) } s false cf') (fun m => rfl) (fun m => ?_)
  refine .next (fun m' => inAdd64 7 f a p r.bx r.si
    { r with
      ax := .word (m.load ((p + 0) % 2 ^ 32) 4)
      dx := .word (m'.load ((p + 4) % 2 ^ 32) 4) } s false cf') (fun m' => rfl) (fun m' => ?_)
  exact reaches_cas_of_sum hf

theorem reaches_cas_of_enter (hp : p % 2 ^ 32 ≠ 0) {op : Addition Width.w64.bits}
    {l : Cpu Routine} (henter : op.Enter .i386 .w64 p l) :
    Machine.Reaches (Addition.machine .i386 .w64 p) (AtCas p op.amount.toNat) l := by
  cases op with
  | add a =>
    obtain ⟨c, rfl⟩ := henter
    exact reaches_cas (f := .direct) (s := c.stack) hp trivial
  | decrement =>
    obtain ⟨c, y, z, rfl⟩ := henter
    have hcall : ∃ (r : Regs Routine) (zf cf : Bool),
          I386.program.silent 8 (Arch.i386.call .Decrement64 (.word p) y z c)
        = some ⟨some (.Add64, 0), { r with sp := .slot (-32) },
          withCells (withCells c.stack [(4, .word p), (8, y), (12, z)])
            ((Frame64.from .Decrement64 c.regs.bp).cells (0xFFFFFFFFFFFFFFFF % 2 ^ 32)
              (0xFFFFFFFFFFFFFFFF / 2 ^ 32) p), zf, cf⟩ := ⟨_, _, _, rfl⟩
    obtain ⟨r, zf, cf, hcall⟩ := hcall
    exact Program.reaches_of_silent rfl hcall
      (reaches_cas (f := .from .Decrement64 c.regs.bp) hp (Or.inl rfl))
  | increment =>
    obtain ⟨c, y, z, rfl⟩ := henter
    have hcall : ∃ (r : Regs Routine) (zf cf : Bool),
          I386.program.silent 8 (Arch.i386.call .Increment64 (.word p) y z c)
        = some ⟨some (.Add64, 0), { r with sp := .slot (-32) },
          withCells (withCells c.stack [(4, .word p), (8, y), (12, z)])
            ((Frame64.from .Increment64 c.regs.bp).cells (1 % 2 ^ 32) (1 / 2 ^ 32) p), zf, cf⟩ :=
      ⟨_, _, _, rfl⟩
    obtain ⟨r, zf, cf, hcall⟩ := hcall
    exact Program.reaches_of_silent rfl hcall
      (reaches_cas (f := .from .Increment64 c.regs.bp) hp (Or.inr rfl))

/-- The instructions after the exchange: `EDX:EAX` is the sum. -/
theorem returning_of_cas {eax edx ebx ecx : Nat} (hf : f.Valid) (hebx : ebx < 2 ^ 32)
    (hecx : ecx < 2 ^ 32) :
    Machine.Returning (Addition.machine .i386 .w64 p) (BitVec.ofNat 64 (ebx + 2 ^ 32 * ecx))
      (inAdd64 12 f a p bx si
        { r with ax := .word eax, bx := .word ebx, cx := .word ecx, dx := .word edx } s true
        cf) := by
  have hback : ∃ k l', I386.program.silent k (inAdd64 12 f a p bx si
        { r with ax := .word eax, bx := .word ebx, cx := .word ecx, dx := .word edx } s true cf)
      = some l' ∧ l'.pc = none ∧ l'.regs.ax = .word ebx ∧ l'.regs.dx = .word ecx := by
    cases f with
    | direct => exact ⟨6, _, rfl, rfl, rfl, rfl⟩
    | «from» routine bp =>
      rcases hf with rfl | rfl
      · exact ⟨9, _, rfl, rfl, rfl, rfl⟩
      · exact ⟨9, _, rfl, rfl, rfl, rfl⟩
  obtain ⟨k, l', hback, hpc, hax, hdx⟩ := hback
  refine Program.reaches_of_silent rfl hback (.here ((Program.result_machine hpc).trans ?_))
  rw [Addition.result, hax, hdx]
  change some (BitVec.ofNat 64 (ebx % 2 ^ 32 + 2 ^ 32 * (ecx % 2 ^ 32))) = _
  rw [Nat.mod_eq_of_lt hebx, Nat.mod_eq_of_lt hecx]
  rfl

/-- The exchange. -/
theorem step_cas {eax edx ebx ecx : Nat} {m : Memory} : I386.program.step
      (inAdd64 11 f a p bx si
        { r with ax := .word eax, bx := .word ebx, cx := .word ecx, dx := .word edx } s zf cf) m
    = if m.load ((p + 0) % 2 ^ 32) 8 = eax % 2 ^ 32 + 2 ^ 32 * (edx % 2 ^ 32) then
        some (inAdd64 12 f a p bx si
          { r with ax := .word eax, bx := .word ebx, cx := .word ecx, dx := .word edx } s true cf,
          m.store ((p + 0) % 2 ^ 32) 8 (ebx % 2 ^ 32 + 2 ^ 32 * (ecx % 2 ^ 32)))
      else
        some (inAdd64 12 f a p bx si
          { r with
            ax := .word (m.load ((p + 0) % 2 ^ 32) 8 % 2 ^ 32)
            bx := .word ebx
            cx := .word ecx
            dx := .word (m.load ((p + 0) % 2 ^ 32) 8 / 2 ^ 32) } s false cf, m) := by
  cases f <;> rfl

/-- A call takes effect in the exchange that succeeds.  The others lead to the next
attempt, with the word that they found. -/
theorem attempt_cas {m m' : Memory} {l l' : Cpu Routine} {op : Addition Width.w64.bits}
    (hfits : p + 8 ≤ 2 ^ 32) (hat : AtCas p op.amount.toNat l)
    (hstep : I386.program.step l m = some (l', m')) :
    (wordAt .w64 p m' = wordAt .w64 p m ∧
        Machine.Reaches (Addition.machine .i386 .w64 p) (AtCas p op.amount.toNat) l') ∨
      op.Spec (wordAt .w64 p m) (wordAt .w64 p m') (wordAt .w64 p m') ∧
        Machine.Returning (Addition.machine .i386 .w64 p) (wordAt .w64 p m') l' := by
  obtain ⟨f, r, s, bx, si, zf, cf, eax, edx, ebx, ecx, hf, hebx, hecx, hsum, rfl⟩ := hat
  have haddr : (p + 0) % 2 ^ 32 = p := by rw [Nat.add_zero, Nat.mod_eq_of_lt (by omega)]
  rw [step_cas, haddr] at hstep
  by_cases hequal : m.load p 8 = eax % 2 ^ 32 + 2 ^ 32 * (edx % 2 ^ 32)
  · rw [if_pos hequal] at hstep
    obtain ⟨rfl, rfl⟩ := Prod.mk.inj (Option.some.inj hstep)
    have hword : wordAt .w64 p (m.store p 8 (ebx % 2 ^ 32 + 2 ^ 32 * (ecx % 2 ^ 32)))
        = BitVec.ofNat 64 (ebx + 2 ^ 32 * ecx) := by
      rw [Nat.mod_eq_of_lt hebx, Nat.mod_eq_of_lt hecx]
      exact wordAt_store .w64 p _ m
    rw [hword]
    refine Or.inr ⟨⟨?_, rfl⟩, returning_of_cas hf hebx hecx⟩
    rw [hsum, ← hequal]
    exact ofNat_add_load .w64 p m op.amount
  · rw [if_neg hequal] at hstep
    obtain ⟨rfl, rfl⟩ := Prod.mk.inj (Option.some.inj hstep)
    refine Or.inl ⟨rfl, ?_⟩
    have hjump : I386.program.silent 1 (inAdd64 12 f op.amount.toNat p bx si
          { r with
            ax := .word (m.load p 8 % 2 ^ 32)
            bx := .word ebx
            cx := .word ecx
            dx := .word (m.load p 8 / 2 ^ 32) } s false cf)
        = some (inAdd64 7 f op.amount.toNat p bx si
          { r with
            ax := .word (m.load p 8 % 2 ^ 32)
            bx := .word ebx
            cx := .word ecx
            dx := .word (m.load p 8 / 2 ^ 32) } s false cf) := by
      cases f <;> rfl
    refine Program.reaches_of_silent rfl hjump ?_
    exact reaches_cas_of_sum (r := { r with bx := .word ebx, cx := .word ecx }) hf

end

end I386

end Xeos.System.Atomic
