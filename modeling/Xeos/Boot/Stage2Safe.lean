import Mathlib.Tactic.Basic
import Xeos.Boot.Stage2

/-!
# What the second stage has checked when it leaves real mode

`Known` says for every label what holds there, and `step_known` that one step
keeps it, so it holds along the run.  `Boots` is the condition on the computer
under which the run gets to one of the two switches.

The run only passes `.sse` when the A20 line was off at the start: with the line
on, `.a20.check` jumps over it.  And the 64 bits mode is chosen by the highest
extended leaf alone, on a processor that need not have `cpuid`.  `safe_iff` puts
the two together.
-/

namespace Xeos.Boot.Stage2

open Lib

/-! ## The processor and the line -/

/-- `hasCPUID` always finds the instruction. -/
theorem hasCPUID_fst (m : Machine) (eflags : BitVec 32) : (hasCPUID m eflags).1 = 0x01 := rfl

theorem onBus_true (a : Nat) : onBus true a = a := rfl

/-- The result of the check is the line, and the memory is as before. -/
theorem a20Enabled_eq (line : Bool) (mem : Memory) :
    a20Enabled line mem = (if line then 0x01 else 0x00, mem) := by
  cases line with
  | false =>
    have hsame : onBus false (0xFFFF * 16 + 0x0510) = onBus false (0x0000 * 16 + 0x0500) := rfl
    have hmem : ((((mem.set (onBus false (0x0000 * 16 + 0x0500)) 0x00).set
        (onBus false (0x0000 * 16 + 0x0500)) 0xFF).set (onBus false (0x0000 * 16 + 0x0500))
        (mem (onBus false (0x0000 * 16 + 0x0500)))).set (onBus false (0x0000 * 16 + 0x0500))
        (mem (onBus false (0x0000 * 16 + 0x0500)))) = mem := by
      funext a
      by_cases ha : a = onBus false (0x0000 * 16 + 0x0500)
      · rw [ha, Memory.set_same]
      · simp only [Memory.set_of_ne _ _ ha]
    simp only [a20Enabled, hsame, hmem, Memory.set_same]
    rfl
  | true =>
    have hne : (0x0000 * 16 + 0x0500 : Nat) ≠ 0xFFFF * 16 + 0x0510 := by decide
    have hmem : ((((mem.set (0x0000 * 16 + 0x0500) 0x00).set (0xFFFF * 16 + 0x0510) 0xFF).set
        (0xFFFF * 16 + 0x0510) (mem (0xFFFF * 16 + 0x0510))).set (0x0000 * 16 + 0x0500)
        (mem (0x0000 * 16 + 0x0500))) = mem := by
      funext a
      by_cases ha : a = 0x0000 * 16 + 0x0500
      · rw [ha, Memory.set_same]
      · by_cases ha' : a = 0xFFFF * 16 + 0x0510
        · rw [Memory.set_of_ne _ _ ha, ha', Memory.set_same]
        · simp only [Memory.set_of_ne _ _ ha, Memory.set_of_ne _ _ ha']
    simp only [a20Enabled, onBus_true, hmem, Memory.set_of_ne _ _ hne, Memory.set_same]
    rfl

/-- A method that enables the line ends the attempts. -/
theorem a20Try_eq (method : Bool → Bool) (next : Label) (s : State) :
    a20Try method next s
      = { s with a20 := method s.a20, label := if method s.a20 = true then .sse else next } := by
  rw [a20Try, a20Enabled_eq]
  cases method s.a20 with
  | false => rfl
  | true => rfl

/-! ## The answers that let the run pass -/

/-- The 64 bits mode is chosen. -/
def Machine.long (b : Build) (m : Machine) : Bool := !b.xeos32 && cpu64 m == 0x01

/-- The line after the BIOS has been asked, and after each of the methods. -/
def Machine.lineBios (m : Machine) : Bool := (m.biosA20 false).2
def Machine.lineSystem (m : Machine) : Bool := m.systemControl m.lineBios
def Machine.lineOut (m : Machine) : Bool := m.keyboardOut m.lineSystem
def Machine.lineControl (m : Machine) : Bool := m.keyboardControl m.lineOut

/-- One of the methods enables the line. -/
def Machine.Enables (m : Machine) : Prop :=
  (m.biosA20 false).1 = false ∨ m.lineSystem = true ∨ m.lineOut = true ∨ m.lineControl = true

/-- The header of the kernel that is loaded. -/
def Machine.header (b : Build) (m : Machine) : BitVec 16 × BitVec 32 :=
  if m.long b then m.checkHeader64 else m.checkHeader32

/-- The answers with which the run gets to a switch. -/
structure Boots (b : Build) (m : Machine) : Prop where
  memory : m.memoryLayout.toInt > 0
  line : m.a20 = true ∨ m.Enables ∧ sseAvailable m = 0x01
  load : loadError (m.kernelLoad (m.long b)) = none
  header : (m.header b).1 = 0
  entry : (m.header b).2.toInt ≥ kernelAddress.toInt
  vesa : m.vesaMode.toInt > 0

/-! ## What is known at a label -/

/-- Before the A20 line is touched. -/
def Fresh (m : Machine) (s : State) : Prop := m.memoryLayout.toInt > 0 ∧ s.a20 = m.a20

/-- The mode is stored and the line was off. -/
def Closed (b : Build) (m : Machine) (s : State) : Prop :=
  m.memoryLayout.toInt > 0 ∧ (s.longMode = 1 ↔ m.long b = true) ∧ m.a20 = false

/-- The line is on.  The proposition `seen` says that SSE has been enabled. -/
def Opened (b : Build) (m : Machine) (seen : Prop) (s : State) : Prop :=
  m.memoryLayout.toInt > 0 ∧ (s.longMode = 1 ↔ m.long b = true) ∧ s.a20 = true ∧
    (m.a20 = true ∨ (m.a20 = false ∧ m.Enables ∧ sseAvailable m = 0x01) ∧ seen)

def Known (b : Build) (m : Machine) (seen : Prop) (s : State) : Prop :=
  match s.label with
  | .memory => s.a20 = m.a20
  | .cpuid => Fresh m s
  | .cpuidOk => Fresh m s
  | .i386 => Fresh m s ∧ m.long b = false
  | .x86_64 => Fresh m s ∧ m.long b = true
  | .a20Check => Fresh m s ∧ (s.longMode = 1 ↔ m.long b = true)
  | .a20Bios => Closed b m s ∧ s.a20 = false
  | .a20System => Closed b m s ∧ s.a20 = m.lineBios ∧ (m.biosA20 false).1 = true
  | .a20KeyboardOut => Closed b m s ∧ s.a20 = m.lineSystem ∧ (m.biosA20 false).1 = true ∧
      m.lineSystem = false
  | .a20KeyboardControl => Closed b m s ∧ s.a20 = m.lineOut ∧ (m.biosA20 false).1 = true ∧
      m.lineSystem = false ∧ m.lineOut = false
  | .sse => Closed b m s ∧ s.a20 = true ∧ m.Enables
  | .sseSuccess => Closed b m s ∧ s.a20 = true ∧ m.Enables ∧ sseAvailable m = 0x01
  | .load => Opened b m seen s
  | .verify32 => Opened b m seen s ∧ loadError (m.kernelLoad (m.long b)) = none ∧ m.long b = false
  | .verify64 => Opened b m seen s ∧ loadError (m.kernelLoad (m.long b)) = none ∧ m.long b = true
  | .entry32 => Opened b m seen s ∧ loadError (m.kernelLoad (m.long b)) = none ∧
      m.long b = false ∧ (m.header b).1 = 0 ∧ s.entry32 = (m.header b).2
  | .entry64 => Opened b m seen s ∧ loadError (m.kernelLoad (m.long b)) = none ∧
      m.long b = true ∧ (m.header b).1 = 0 ∧ s.entry64 = (m.header b).2
  | .vesa => Opened b m seen s ∧ loadError (m.kernelLoad (m.long b)) = none ∧
      (m.header b).1 = 0 ∧ (m.header b).2.toInt ≥ kernelAddress.toInt
  | .switch => Opened b m seen s ∧ Boots b m
  | .switch32 => Opened b m seen s ∧ Boots b m ∧ m.long b = false
  | .switch64 => Opened b m seen s ∧ Boots b m ∧ m.long b = true
  | .error _ => True

theorem start_known (b : Build) (m : Machine) : Known b m False (start m) := rfl

theorem Opened.seen {b : Build} {m : Machine} {p q : Prop} {s : State} (h : Opened b m p s)
    (hpq : p → q) : Opened b m q s :=
  ⟨h.1, h.2.1, h.2.2.1, h.2.2.2.imp id (And.imp id hpq)⟩

section Step

variable {b : Build} {m : Machine} {seen : Prop} {s : State}

theorem Closed.longMode_eq (h : s.longMode = 1 ↔ m.long b = true) :
    decide (s.longMode = 1) = m.long b := by
  cases hlong : m.long b with
  | false =>
    rw [hlong] at h
    exact decide_eq_false (fun hmode => Bool.false_ne_true (h.mp hmode))
  | true => exact decide_eq_true (h.mpr hlong)

/-- A step of one of the methods that end with the check of the line. -/
theorem try_known {method : Bool → Bool} {next : Label} {line : Bool}
    (hclosed : Closed b m s) (hline : method s.a20 = line)
    (henables : line = true → m.Enables)
    (hnext : line = false → ∀ t : State, t.label = next → t.a20 = line → Closed b m t →
      Known b m seen t) :
    Known b m seen (a20Try method next s) := by
  rw [a20Try_eq, hline]
  cases hl : line with
  | false =>
    subst hl
    rw [if_neg Bool.false_ne_true]
    exact hnext rfl _ rfl rfl hclosed
  | true => exact ⟨hclosed, rfl, henables hl⟩

/-- One step, by the label. -/
theorem step_known (h : Known b m seen s) :
    Known b m (seen ∨ s.label = .sseSuccess) (step b m s) := by
  cases hl : s.label with
  | memory =>
    simp only [Known, hl] at h
    simp only [step, hl]
    split
    · exact ⟨‹_›, h⟩
    · trivial
  | cpuid =>
    simp only [Known, hl] at h
    simp only [step, hl, hasCPUID_fst, if_true]
    exact h
  | cpuidOk =>
    simp only [Known, hl] at h
    have hlong : (if b.xeos32 = true then (0 : BitVec 16) else cpu64 m) = 0x01 ↔
        m.long b = true := by
      rw [Machine.long]
      cases b.xeos32 <;> simp
    simp only [step, hl, hlong]
    by_cases hm : m.long b = true
    · rw [if_pos hm]
      exact ⟨h, hm⟩
    · rw [if_neg hm]
      exact ⟨h, Bool.eq_false_iff.mpr hm⟩
  | i386 =>
    simp only [Known, hl] at h
    simp only [step, hl]
    obtain ⟨hfresh, hlong⟩ := h
    refine ⟨hfresh, ?_⟩
    rw [hlong]
    show (0x00 : BitVec 8) = 1 ↔ false = true
    decide
  | x86_64 =>
    simp only [Known, hl] at h
    simp only [step, hl]
    obtain ⟨hfresh, hlong⟩ := h
    refine ⟨hfresh, ?_⟩
    rw [hlong]
    show (0x01 : BitVec 8) = 1 ↔ true = true
    decide
  | a20Check =>
    simp only [Known, hl] at h
    obtain ⟨⟨hmemory, ha20⟩, hmode⟩ := h
    simp only [step, hl, a20Enabled_eq]
    cases hline : m.a20 with
    | false =>
      rw [hline] at ha20
      rw [ha20]
      exact ⟨⟨hmemory, hmode, hline⟩, rfl⟩
    | true =>
      rw [hline] at ha20
      rw [ha20]
      exact ⟨hmemory, hmode, rfl, Or.inl hline⟩
  | a20Bios =>
    simp only [Known, hl] at h
    obtain ⟨hclosed, ha20⟩ := h
    simp only [step, hl, a20EnableBios, ha20]
    cases hcarry : (m.biosA20 false).1 with
    | false => exact ⟨hclosed, m.biosA20_enables false hcarry, Or.inl hcarry⟩
    | true => exact ⟨hclosed, rfl, hcarry⟩
  | a20System =>
    simp only [Known, hl] at h
    obtain ⟨hclosed, ha20, hbios⟩ := h
    have hline : m.systemControl s.a20 = m.lineSystem := by
      rw [ha20]
      rfl
    simp only [step, hl]
    apply try_known hclosed hline
    · exact fun hon => Or.inr (Or.inl hon)
    · intro hoff t hlabel ha20' hclosed'
      simp only [Known, hlabel]
      exact ⟨hclosed', ha20', hbios, hoff⟩
  | a20KeyboardOut =>
    simp only [Known, hl] at h
    obtain ⟨hclosed, ha20, hbios, hsystem⟩ := h
    have hline : m.keyboardOut s.a20 = m.lineOut := by
      rw [ha20]
      rfl
    simp only [step, hl]
    apply try_known hclosed hline
    · exact fun hon => Or.inr (Or.inr (Or.inl hon))
    · intro hoff t hlabel ha20' hclosed'
      simp only [Known, hlabel]
      exact ⟨hclosed', ha20', hbios, hsystem, hoff⟩
  | a20KeyboardControl =>
    simp only [Known, hl] at h
    obtain ⟨hclosed, ha20, -⟩ := h
    have hline : m.keyboardControl s.a20 = m.lineControl := by
      rw [ha20]
      rfl
    simp only [step, hl]
    apply try_known hclosed hline
    · exact fun hon => Or.inr (Or.inr (Or.inr hon))
    · intro _ t hlabel _ _
      simp only [Known, hlabel]
  | sse =>
    simp only [Known, hl] at h
    obtain ⟨hclosed, ha20, henables⟩ := h
    simp only [step, hl]
    by_cases hsse : sseAvailable m = 0x01
    · rw [if_pos hsse]
      exact ⟨hclosed, ha20, henables, hsse⟩
    · rw [if_neg hsse]
      trivial
  | sseSuccess =>
    simp only [Known, hl] at h
    obtain ⟨⟨hmemory, hmode, hoff⟩, ha20, henables, hsse⟩ := h
    simp only [step, hl]
    exact ⟨hmemory, hmode, ha20, Or.inr ⟨⟨hoff, henables, hsse⟩, Or.inr trivial⟩⟩
  | load =>
    simp only [Known, hl] at h
    have hopened := h.seen (Or.inl (b := s.label = .sseSuccess))
    rw [hl] at hopened
    have hmode : decide (s.longMode = 1) = m.long b := Closed.longMode_eq h.2.1
    simp only [step, hl, hmode]
    cases hload : loadError (m.kernelLoad (m.long b)) with
    | some e => trivial
    | none =>
      cases hlong : m.long b with
      | false =>
        have hne : ¬ s.longMode = 1 := by
          rw [h.2.1, hlong]
          exact Bool.false_ne_true
        dsimp only
        rw [if_neg hne]
        exact ⟨hopened, hload, hlong⟩
      | true =>
        dsimp only
        rw [if_pos (h.2.1.mpr hlong)]
        exact ⟨hopened, hload, hlong⟩
  | verify32 =>
    simp only [Known, hl] at h
    obtain ⟨hopen, hload, hlong⟩ := h
    have hopened := hopen.seen (Or.inl (b := s.label = .sseSuccess))
    rw [hl] at hopened
    have hheader : m.header b = m.checkHeader32 := by
      rw [Machine.header, hlong, if_neg Bool.false_ne_true]
    simp only [step, hl, ← hheader]
    by_cases hzero : (m.header b).1 = 0
    · rw [if_pos hzero]
      exact ⟨hopened, hload, hlong, hzero, rfl⟩
    · rw [if_neg hzero]
      trivial
  | verify64 =>
    simp only [Known, hl] at h
    obtain ⟨hopen, hload, hlong⟩ := h
    have hopened := hopen.seen (Or.inl (b := s.label = .sseSuccess))
    rw [hl] at hopened
    have hheader : m.header b = m.checkHeader64 := by
      rw [Machine.header, hlong, if_pos rfl]
    simp only [step, hl, ← hheader]
    by_cases hzero : (m.header b).1 = 0
    · rw [if_pos hzero]
      exact ⟨hopened, hload, hlong, hzero, rfl⟩
    · rw [if_neg hzero]
      trivial
  | entry32 =>
    simp only [Known, hl] at h
    obtain ⟨hopen, hload, hlong, hzero, hentry⟩ := h
    have hopened := hopen.seen (Or.inl (b := s.label = .sseSuccess))
    rw [hl] at hopened
    simp only [step, hl, hentry]
    split
    · exact ⟨hopened, hload, hzero, ‹_›⟩
    · trivial
  | entry64 =>
    simp only [Known, hl] at h
    obtain ⟨hopen, hload, hlong, hzero, hentry⟩ := h
    have hopened := hopen.seen (Or.inl (b := s.label = .sseSuccess))
    rw [hl] at hopened
    simp only [step, hl, hentry]
    split
    · exact ⟨hopened, hload, hzero, ‹_›⟩
    · trivial
  | vesa =>
    simp only [Known, hl] at h
    obtain ⟨hopen, hload, hzero, hentry⟩ := h
    have hopened := hopen.seen (Or.inl (b := s.label = .sseSuccess))
    rw [hl] at hopened
    simp only [step, hl]
    split
    · refine ⟨hopened, hopen.1, ?_, hload, hzero, hentry, ‹_›⟩
      exact hopen.2.2.2.imp id (fun h => ⟨h.1.2.1, h.1.2.2⟩)
    · trivial
  | switch =>
    simp only [Known, hl] at h
    obtain ⟨hopen, hboots⟩ := h
    have hopened := hopen.seen (Or.inl (b := s.label = .sseSuccess))
    rw [hl] at hopened
    simp only [step, hl]
    by_cases hmode : s.longMode = 1
    · rw [if_pos hmode]
      exact ⟨hopened, hboots, hopen.2.1.mp hmode⟩
    · rw [if_neg hmode]
      refine ⟨hopened, hboots, Bool.eq_false_iff.mpr ?_⟩
      exact fun hlong => hmode (hopen.2.1.mpr hlong)
  | switch32 =>
    simp only [Known, hl] at h
    simp only [step, hl, Known]
    exact ⟨h.1.seen Or.inl, h.2⟩
  | switch64 =>
    simp only [Known, hl] at h
    simp only [step, hl, Known]
    exact ⟨h.1.seen Or.inl, h.2⟩
  | error e =>
    simp only [step, hl, Known]

end Step

/-! ## The run -/

section Run

variable {b : Build} {m : Machine}

/-- SSE has been enabled within the first `n` steps. -/
def Seen (b : Build) (m : Machine) (n : Nat) : Prop := ∃ k, k < n ∧ (run b m k).label = .sseSuccess

theorem run_known (b : Build) (m : Machine) (n : Nat) : Known b m (Seen b m n) (run b m n) := by
  induction n with
  | zero =>
    exact start_known b m
  | succ n ih =>
    have hstep := step_known ih
    have hseen : (Seen b m n ∨ (run b m n).label = .sseSuccess) = Seen b m (n + 1) := by
      apply propext
      constructor
      · rintro (⟨k, hk, hlabel⟩ | hlabel)
        · exact ⟨k, by omega, hlabel⟩
        · exact ⟨n, by omega, hlabel⟩
      · rintro ⟨k, hk, hlabel⟩
        rcases Nat.lt_or_ge k n with hlt | hge
        · exact Or.inl ⟨k, hlt, hlabel⟩
        · have hkn : k = n := by omega
          subst hkn
          exact Or.inr hlabel
    rw [hseen] at hstep
    exact hstep

/-- With the line on at the start, SSE is never enabled. -/
theorem not_seen_of_a20 (hon : m.a20 = true) (n : Nat) : ¬ Seen b m n := by
  rintro ⟨k, -, hlabel⟩
  have hknown := run_known b m k
  simp only [Known, hlabel] at hknown
  have hoff : m.a20 = false := hknown.1.2.2
  rw [hon] at hoff
  exact Bool.false_ne_true hoff.symm

/-- How far the label is from the start. -/
def rank : Label → Nat
  | .memory => 0
  | .cpuid => 1
  | .cpuidOk => 2
  | .i386 | .x86_64 => 3
  | .a20Check => 4
  | .a20Bios => 5
  | .a20System => 6
  | .a20KeyboardOut => 7
  | .a20KeyboardControl => 8
  | .sse => 9
  | .sseSuccess => 10
  | .load => 11
  | .verify32 | .verify64 => 12
  | .entry32 | .entry64 => 13
  | .vesa => 14
  | .switch => 15
  | .switch32 | .switch64 => 16
  | .error _ => 17

/-- On a computer that boots, a step goes on and not to an error. -/
theorem step_rank {seen : Prop} {s : State} (hboots : Boots b m) (h : Known b m seen s)
    (hlt : rank s.label < 16) :
    rank s.label < rank (step b m s).label ∧ rank (step b m s).label ≤ 16 := by
  cases hl : s.label with
  | memory =>
    simp only [step, hl, if_pos hboots.memory]
    decide
  | cpuid =>
    simp only [step, hl, hasCPUID_fst, if_true]
    decide
  | cpuidOk =>
    simp only [step, hl]
    generalize (if b.xeos32 = true then (0 : BitVec 16) else cpu64 m) = ax
    split <;> simp [rank]
  | i386 =>
    simp only [step, hl]
    decide
  | x86_64 =>
    simp only [step, hl]
    decide
  | a20Check =>
    simp only [step, hl]
    split <;> simp [rank]
  | a20Bios =>
    simp only [step, hl]
    split <;> simp [rank]
  | a20System =>
    simp only [step, hl, a20Try_eq]
    split <;> simp [rank]
  | a20KeyboardOut =>
    simp only [step, hl, a20Try_eq]
    split <;> simp [rank]
  | a20KeyboardControl =>
    simp only [Known, hl] at h
    obtain ⟨⟨-, -, hoff⟩, ha20, hbios, hsystem, hout⟩ := h
    -- the methods before it have failed, so this one works
    have hcontrol : m.keyboardControl s.a20 = true := by
      rw [ha20]
      rcases hboots.line with hon | ⟨henables, -⟩
      · rw [hoff] at hon
        exact absurd hon Bool.false_ne_true
      · rcases henables with h1 | h1 | h1 | h1
        · rw [hbios] at h1
          exact absurd h1.symm Bool.false_ne_true
        · rw [hsystem] at h1
          exact absurd h1 Bool.false_ne_true
        · rw [hout] at h1
          exact absurd h1 Bool.false_ne_true
        · exact h1
    simp only [step, hl, a20Try_eq, hcontrol, if_true]
    decide
  | sse =>
    simp only [Known, hl] at h
    obtain ⟨⟨-, -, hoff⟩, -, -⟩ := h
    have hsse : sseAvailable m = 0x01 := by
      rcases hboots.line with hon | ⟨-, hsse⟩
      · rw [hoff] at hon
        exact absurd hon Bool.false_ne_true
      · exact hsse
    simp only [step, hl, if_pos hsse]
    decide
  | sseSuccess =>
    simp only [step, hl]
    decide
  | load =>
    simp only [Known, hl] at h
    have hmode : decide (s.longMode = 1) = m.long b := Closed.longMode_eq h.2.1
    simp only [step, hl, hmode, hboots.load]
    split <;> simp [rank]
  | verify32 =>
    simp only [Known, hl] at h
    obtain ⟨-, -, hlong⟩ := h
    have hheader := hboots.header
    rw [Machine.header, hlong, if_neg Bool.false_ne_true] at hheader
    simp only [step, hl, if_pos hheader]
    decide
  | verify64 =>
    simp only [Known, hl] at h
    obtain ⟨-, -, hlong⟩ := h
    have hheader := hboots.header
    rw [Machine.header, hlong, if_pos rfl] at hheader
    simp only [step, hl, if_pos hheader]
    decide
  | entry32 =>
    simp only [Known, hl] at h
    obtain ⟨-, -, -, -, hentry⟩ := h
    simp only [step, hl, hentry, if_pos hboots.entry]
    decide
  | entry64 =>
    simp only [Known, hl] at h
    obtain ⟨-, -, -, -, hentry⟩ := h
    simp only [step, hl, hentry, if_pos hboots.entry]
    decide
  | vesa =>
    simp only [step, hl, if_pos hboots.vesa]
    decide
  | switch =>
    simp only [step, hl]
    split <;> simp [rank]
  | switch32 =>
    rw [hl] at hlt
    exact absurd hlt (by decide)
  | switch64 =>
    rw [hl] at hlt
    exact absurd hlt (by decide)
  | error e =>
    rw [hl] at hlt
    exact absurd hlt (by simp [rank])

/-- On a computer that boots, the run gets to a switch. -/
theorem run_switches (hboots : Boots b m) :
    ∃ n, (run b m n).label = .switch32 ∨ (run b m n).label = .switch64 := by
  have hfar : ∀ k, k ≤ 16 → ∃ n, k ≤ rank (run b m n).label ∧ rank (run b m n).label ≤ 16 := by
    intro k
    induction k with
    | zero => exact fun _ => ⟨0, Nat.zero_le _, Nat.zero_le 16⟩
    | succ k ih =>
      intro hk
      obtain ⟨n, hle, hmax⟩ := ih (by omega)
      rcases Nat.lt_or_ge k (rank (run b m n).label) with hlt | hge
      · exact ⟨n, hlt, hmax⟩
      · have hstep := step_rank hboots (run_known b m n) (by omega)
        exact ⟨n + 1, by change k + 1 ≤ rank (step b m (run b m n)).label; omega, hstep.2⟩
  obtain ⟨n, hle, hmax⟩ := hfar 16 (Nat.le_refl 16)
  refine ⟨n, ?_⟩
  cases hl : (run b m n).label <;> simp [hl, rank] at hle hmax ⊢

end Run

/-! ## The sequence -/

/-- What the second stage should have seen to at a switch. -/
def Safe (b : Build) (m : Machine) : Prop :=
  ∀ n, (run b m n).label = .switch32 ∨ (run b m n).label = .switch64 →
    m.memoryLayout.toInt > 0 ∧
    ((run b m n).label = .switch32 → m.checkHeader32.1 = 0) ∧
    ((run b m n).label = .switch64 → m.checkHeader64.1 = 0) ∧
    (run b m n).a20 = true ∧
    (m.cpuid 1).edx.getLsbD 25 = true ∧
    (∃ k, k < n ∧ (run b m k).label = .sseSuccess) ∧
    ((run b m n).label = .switch64 →
      m.idTogglable = true ∧ (m.cpuid 0x80000001).edx.getLsbD 29 = true)

theorem sseAvailable_iff (m : Machine) :
    sseAvailable m = 0x01 ↔ (m.cpuid 1).edx.getLsbD 25 = true := by
  have hbit : (0x2000000 : BitVec 32) = BitVec.twoPow 32 25 := by decide
  have hne : ¬ BitVec.twoPow 32 25 = 0 := by decide
  rw [sseAvailable, hbit, BitVec.and_twoPow]
  cases (m.cpuid 1).edx.getLsbD 25 with
  | false =>
    rw [if_neg Bool.false_ne_true]
    decide
  | true =>
    rw [if_pos rfl, if_neg hne]
    decide

/-- What is known at a switch. -/
theorem switch_known {b : Build} {m : Machine} {n : Nat}
    (h : (run b m n).label = .switch32 ∨ (run b m n).label = .switch64) :
    Opened b m (Seen b m n) (run b m n) ∧ Boots b m ∧
      ((run b m n).label = .switch32 → m.long b = false) ∧
      ((run b m n).label = .switch64 → m.long b = true) := by
  have hknown := run_known b m n
  rcases h with hl | hl
  · simp only [Known, hl] at hknown
    refine ⟨hknown.1, hknown.2.1, fun _ => hknown.2.2, fun hl' => ?_⟩
    rw [hl] at hl'
    exact absurd hl' (by decide)
  · simp only [Known, hl] at hknown
    refine ⟨hknown.1, hknown.2.1, fun hl' => ?_, fun _ => hknown.2.2⟩
    rw [hl] at hl'
    exact absurd hl' (by decide)

/-- The sequence is safe exactly on the computers that, when they boot at all,
have the A20 line off at the start, and have `cpuid` and long mode when the 64
bits mode is chosen. -/
theorem safe_iff (b : Build) (m : Machine) :
    Safe b m ↔ (Boots b m → m.a20 = false ∧ (m.long b = true →
      m.idTogglable = true ∧ (m.cpuid 0x80000001).edx.getLsbD 29 = true)) := by
  constructor
  · intro hsafe hboots
    obtain ⟨n, hn⟩ := run_switches hboots
    obtain ⟨-, -, -, -, -, hseen, hlong⟩ := hsafe n hn
    obtain ⟨-, -, h32, -⟩ := switch_known hn
    constructor
    · cases hon : m.a20 with
      | false => rfl
      | true => exact absurd hseen (not_seen_of_a20 hon n)
    · intro hm
      apply hlong
      apply hn.resolve_left
      intro hl
      rw [h32 hl] at hm
      exact Bool.false_ne_true hm
  · intro hcond n hn
    obtain ⟨⟨hmemory, -, ha20, hway⟩, hboots, h32, h64⟩ := switch_known hn
    obtain ⟨hoff, hlong⟩ := hcond hboots
    have hheader := hboots.header
    have hsse : sseAvailable m = 0x01 ∧ Seen b m n := by
      rcases hway with hon | ⟨⟨-, -, hsse⟩, hseen⟩
      · rw [hoff] at hon
        exact absurd hon Bool.false_ne_true
      · exact ⟨hsse, hseen⟩
    refine ⟨hmemory, ?_, ?_, ha20, (sseAvailable_iff m).mp hsse.1, hsse.2, ?_⟩
    · intro hl
      rwa [Machine.header, h32 hl, if_neg Bool.false_ne_true] at hheader
    · intro hl
      rwa [Machine.header, h64 hl, if_pos rfl] at hheader
    · exact fun hl => hlong (h64 hl)

/-- A computer that has the A20 line on from the start and boots: nothing looks
for SSE. -/
def lineOn : Machine where
  cpuid _ := ⟨0, 0, 0, 0⟩
  idTogglable := true
  eflags := 0
  cr0 := 0
  cr4 := 0
  mem _ := 0
  a20 := true
  biosA20 _ := (false, true)
  biosA20_enables _ _ := rfl
  systemControl line := line
  keyboardOut line := line
  keyboardControl line := line
  memoryLayout := 20
  kernelLoad _ := 0
  checkHeader32 := (0, 0x00100000)
  checkHeader64 := (0, 0x00100000)
  vesaMode := 1

theorem lineOn_unsafe :
    (run ⟨false, false⟩ lineOn 10).label = .switch32 ∧
      (lineOn.cpuid 1).edx.getLsbD 25 = false ∧
      ¬ Safe ⟨false, false⟩ lineOn := by
  have hlabel : (run ⟨false, false⟩ lineOn 10).label = .switch32 := by rfl
  refine ⟨hlabel, rfl, ?_⟩
  intro hsafe
  obtain ⟨-, -, -, -, hsse, -⟩ := hsafe 10 (Or.inl hlabel)
  exact Bool.false_ne_true hsse

end Xeos.Boot.Stage2
