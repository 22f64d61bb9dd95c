import Xeos.System.AtomicAddI386

/-!
# The order of the additions

Every run of the additions has an order of the calls in which each of them returns
the word right after its own addition: on i386 without a condition, and on x86-64
when every locked addition finds a zero.
-/

namespace Xeos.System.Atomic

open Lib Lib.Smp Lib.Interleave

namespace Addition

/-- What has to hold in front of an instruction for the result of its call to be
the new value.  Nothing does on i386. -/
def Meets (arch : Arch) (w : Width) (p : Nat) (_ : Addition w.bits) (l : Cpu Routine)
    (m : Memory) : Prop :=
  arch = .x86_64 → l.pc = some (w.add, 4) → wordAt w p m = 0

/-- The states of a call in which its next instruction may change the word. -/
def Attempt (arch : Arch) (w : Width) (p : Nat) (op : Addition w.bits) (l : Cpu Routine) : Prop :=
  match arch, w with
  | .x86_64, w => X86_64.AtXadd w p op.amount l
  | .i386, .w32 => I386.AtXadd p op.amount l
  | .i386, .w64 => I386.AtCas p op.amount.toNat l

theorem reaches_attempt {arch : Arch} {w : Width} {p : Nat}
    (hp : p % 2 ^ arch.program.bits ≠ 0) {op : Addition w.bits} {l : Cpu Routine}
    (henter : op.Enter arch w p l) :
    (machine arch w p).Reaches (Attempt arch w p op) l := by
  cases arch with
  | x86_64 => exact X86_64.reaches_of_enter hp henter
  | i386 =>
    cases w with
    | w32 => exact I386.reaches_of_enter hp henter
    | w64 => exact I386.reaches_cas_of_enter hp henter

theorem result_attempt {arch : Arch} {w : Width} {p : Nat} {op : Addition w.bits}
    {l : Cpu Routine} (h : Attempt arch w p op l) : (machine arch w p).result l = none := by
  cases arch with
  | x86_64 =>
    obtain ⟨f, r, s, zf, cf, d, e, -, -, -, rfl⟩ := h
    exact Program.result_machine_of_some rfl
  | i386 =>
    cases w with
    | w32 =>
      obtain ⟨f, r, s, zf, cf, d, -, -, rfl⟩ := h
      exact Program.result_machine_of_some rfl
    | w64 =>
      obtain ⟨f, r, s, bx, si, zf, cf, eax, edx, ebx, ecx, -, -, -, -, rfl⟩ := h
      exact Program.result_machine_of_some rfl

theorem step_attempt {arch : Arch} {w : Width} {p : Nat} (hp : p + w.bits / 8 ≤ 2 ^ arch.program.bits)
    {op : Addition w.bits} {l l' : Cpu Routine} {m m' : Memory} (h : Attempt arch w p op l)
    (hmeets : Meets arch w p op l m) (hstep : arch.program.step l m = some (l', m')) :
    (wordAt w p m' = wordAt w p m ∧ (machine arch w p).Reaches (Attempt arch w p op) l') ∨
      ∃ r, op.Spec (wordAt w p m) (wordAt w p m') r ∧ (machine arch w p).Returning r l' := by
  cases arch with
  | x86_64 =>
    have hzero : wordAt w p m = 0 := by
      apply hmeets rfl
      obtain ⟨f, r, s, zf, cf, d, e, -, -, -, rfl⟩ := h
      rfl
    exact Or.inr ⟨_, X86_64.attempt_xadd hp h hzero hstep⟩
  | i386 =>
    cases w with
    | w32 => exact Or.inr ⟨_, I386.attempt_xadd hp h hstep⟩
    | w64 => exact (I386.attempt_cas hp h hstep).imp id (fun hdone => ⟨_, hdone⟩)

theorem implements (arch : Arch) (w : Width) {p : Nat} (hp : p ≠ 0)
    (hfits : p + w.bits / 8 ≤ 2 ^ arch.program.bits) :
    (machine arch w p).Implements (Meets arch w p) (wordAt w p) Spec
      (fun op => (machine arch w p).Reaches (Attempt arch w p op)) := by
  have hpos : 0 < w.bits / 8 := by cases w <;> decide
  have hmod : p % 2 ^ arch.program.bits ≠ 0 := by rwa [Nat.mod_eq_of_lt (by omega)]
  exact Machine.implements_of_attempt (fun _ _ => reaches_attempt hmod)
    (fun _ _ => result_attempt) (fun _ _ _ _ _ => step_attempt hfits)

/-- The amounts of a list of calls, added to a word. -/
def total {ι : Type} {n : Nat} (w : BitVec n) (log : List (ι × Addition n × BitVec n)) : BitVec n :=
  log.foldl (fun w c => w + c.2.1.amount) w

theorem total_of_legal {ι : Type} {n : Nat} {w w' : BitVec n}
    {log : List (ι × Addition n × BitVec n)} (h : Machine.Legal Spec w log w') :
    w' = total w log := by
  induction h with
  | nil => rfl
  | snoc _ hspec ih =>
    rw [hspec.1, ih, total, total, List.foldl_append]
    rfl

end Addition

/-- The additions are linearizable: on i386 in every run, and on x86-64 in every run in
which each locked addition finds a zero. -/
theorem additions_linearizable (arch : Arch) (w : Width) {p : Nat} (hp : p ≠ 0)
    (hfits : p + w.bits / 8 ≤ 2 ^ arch.program.bits) {ι : Type} [DecidableEq ι] {m : Memory}
    {s : System ι (Cpu Routine) Memory (Addition w.bits) (BitVec w.bits)}
    (hrun : (Addition.machine arch w p).Run (fun _ _ => True) (Addition.Meets arch w p)
      (.start ι _ _ _ m) s) :
    ∃ log : List (ι × Addition w.bits × BitVec w.bits),
      Machine.Legal Addition.Spec (wordAt w p m) log (wordAt w p s.shared) ∧
      wordAt w p s.shared = Addition.total (wordAt w p m) log ∧
      ∀ i, s.past i <+: Machine.own i log ∧
        (s.phase i = .idle → Machine.own i log = s.past i) := by
  obtain ⟨log, hlegal, htracks⟩ :=
    Machine.linearizable (Addition.implements arch w hp hfits) hrun
  exact ⟨log, hlegal, Addition.total_of_legal hlegal, fun i => (htracks i).own_eq⟩

/-! ## One call -/

/-- A processor with zeros in its registers, and a memory with a five at 0x1000. -/
def zeros : Cpu Routine where
  pc := none
  regs := ⟨.word 0, .word 0, .word 0, .word 0, .word 0, .word 0, .word 0, .word 0⟩
  stack _ := .word 0
  zf := false
  cf := false

def five : Memory := fun a => if a = 0x1000 then 5 else 0

/-- Adding three to the five, alone on an architecture, returns `r`. -/
def AddsThree (arch : Arch) (r : BitVec 32) : Prop :=
  ∃ m : Memory, wordAt .w32 0x1000 m = 8 ∧
    (Addition.machine arch .w32 0x1000).Run (fun _ _ => True) (fun _ _ _ => True)
      (.start Unit _ _ _ five)
      ⟨fun _ => .idle, Function.update (fun _ => []) () [(.add 3, r)], m⟩

theorem addsThree_i386 : AddsThree .i386 8 := by
  refine ⟨five.store 0x1000 4 8, by decide, ?_⟩
  have hcall : (Addition.machine .i386 .w32 0x1000).Enter (.add 3)
      (Arch.i386.call .Add32 (.word 3) (.word 0x1000) (.word 0) zeros) := ⟨zeros, .word 0, rfl⟩
  have hsteps : ∃ l, (Addition.machine .i386 .w32 0x1000).steps 9
        (Arch.i386.call .Add32 (.word 3) (.word 0x1000) (.word 0) zeros) five
      = some (l, five.store 0x1000 4 8) ∧
      (Addition.machine .i386 .w32 0x1000).result l = some 8 := ⟨_, rfl, rfl⟩
  obtain ⟨l, hsteps, hresult⟩ := hsteps
  exact Machine.run_call (i := ()) rfl trivial hcall (fun _ _ _ _ _ => trivial) hsteps hresult

theorem addsThree_x86_64 : AddsThree .x86_64 3 := by
  refine ⟨five.store 0x1000 4 8, by decide, ?_⟩
  have hcall : (Addition.machine .x86_64 .w32 0x1000).Enter (.add 3)
      (Arch.x86_64.call .Add32 (.word 3) (.word 0x1000) (.word 0) zeros) :=
    ⟨zeros, .word 0, 3, rfl, rfl⟩
  have hsteps : ∃ l, (Addition.machine .x86_64 .w32 0x1000).steps 7
        (Arch.x86_64.call .Add32 (.word 3) (.word 0x1000) (.word 0) zeros) five
      = some (l, five.store 0x1000 4 8) ∧
      (Addition.machine .x86_64 .w32 0x1000).result l = some 3 := ⟨_, rfl, rfl⟩
  obtain ⟨l, hsteps, hresult⟩ := hsteps
  exact Machine.run_call (i := ()) rfl trivial hcall (fun _ _ _ _ _ => trivial) hsteps hresult

/-- On x86-64 the only call of a run returns three, and no order has that result. -/
theorem addsThree_x86_64_no_order : AddsThree .x86_64 3 ∧
    ∀ log : List (Unit × Addition 32 × BitVec 32), Machine.own () log = [(.add 3, 3)] →
      ∀ w, ¬ Machine.Legal Addition.Spec (wordAt .w32 0x1000 five) log w := by
  refine ⟨addsThree_x86_64, fun log hown w hlegal => ?_⟩
  rw [Machine.own_unit, List.map_eq_singleton_iff] at hown
  obtain ⟨c, rfl, hc⟩ := hown
  rw [← List.nil_append [c], show c = ((), .add 3, 3) from Prod.ext rfl hc] at hlegal
  obtain ⟨w', hnil, hsum, hreturn⟩ := hlegal.last
  have hne : (3 : BitVec 32) ≠ BitVec.ofNat 32 (five.load 0x1000 4) + 3 := by decide
  rw [hsum, hnil.eq_of_nil] at hreturn
  exact hne hreturn

/-- The same call on i386 has an order. -/
theorem additions_linearizable_three : ∃ m : Memory, ∃ log : List (Unit × Addition 32 × BitVec 32),
    Machine.Legal Addition.Spec (wordAt .w32 0x1000 five) log (wordAt .w32 0x1000 m) ∧
      Machine.own () log = [(.add 3, 8)] := by
  obtain ⟨m, -, hrun⟩ := addsThree_i386
  obtain ⟨log, hlegal, -, hown⟩ := additions_linearizable .i386 .w32 (by decide) (by decide)
    (hrun.mono (fun op l m _ (harch : Arch.i386 = .x86_64) _ => nomatch harch))
  exact ⟨m, log, hlegal, (hown ()).2 rfl⟩

end Xeos.System.Atomic
